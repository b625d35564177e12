import TokenBill.Copilot.Handoff
import TokenBill.Core.AsciiJson
import TokenBill.General.ExactDecimals
import TokenBill.Outputs.Focus
import Mathlib.Data.Finset.Sort

/-!
# FOCUS rows of the Copilot channels

`focus_rows` of `copilot/focus.py`: GitHub's own cost lines are summed for each charge identity and
allocation (team and cost center), the allocations of an identity go through `publish`, the ones it
does not show become one row, and every sum is written as a row. The entity of an identity is that of
`core/pool.py`: a capped cost center is an entity of its own. What the pool rule says of a month is a
parameter, and so is what the running Python reads of a decimal text.
-/

namespace TokenBill.Copilot.FocusRows

open General Kanon
open Handoff (LicenseSnapshot)
open Focus (FocusError FocusRow FocusSpec Date iso monthBounds orEmpty tagsText)

/-! ### Pool entities -/

/-- `Decimal(text)` where it is finite: a coefficient and an exponent. -/
abbrev ReadDecimal : Type := String → Option (Int × Int)

/-- `text.strip()`. -/
def strip (text : String) : String :=
  String.ofList ((text.toList.dropWhile isPySpace).reverse.dropWhile isPySpace).reverse

/-- `_as_decimal(value)` is a number, and not negative. -/
def isCap (decimal : ReadDecimal) : AttrValue → Bool
  | .int n => decide (0 ≤ n ∧ n < 10 ^ 16)
  | .str s =>
    let text := strip s
    if text = "" ∨ 64 < text.toList.length then false
    else match decimal text with
      | none => false
      | some (coefficient, exponent) => coefficient = 0 || decide (0 ≤ coefficient ∧ -20 ≤ exponent ∧
          ((Decimal.digits coefficient.natAbs).length : Int) - 1 + exponent ≤ 15)
  | _ => false

/-- `repr` of an attribute. -/
def reprAttr : AttrValue → String
  | .str s => pyRepr s | .int n => toString n | .bool true => "True" | .bool false => "False" | .null => "None"

/-- `repr(attrs)`. -/
def reprAttrs (attrs : List (String × AttrValue)) : String :=
  let items := attrs.map fun a => "(" ++ pyRepr a.1 ++ ", " ++ reprAttr a.2 ++ ")"
  match items with
  | [item] => "(" ++ item ++ ",)"
  | items => "(" ++ ", ".intercalate items ++ ")"

/-- `_config_order`. -/
def configOrder (c : ConfigSnapshot) : Bool ×ₗ ℕ ×ₗ ℕ ×ₗ String ×ₗ String :=
  toLex (decide (c.sourceKind ∉ ["tokenbill.cli", "tokenbill.admin_answers"]), toLex (c.snapshotMs,
    toLex (c.fetchedMs, toLex (c.sourceKind, reprAttrs c.attrs))))

/-- `capped_cost_centers`: the names of the capped cost centers. -/
def cappedCostCenters (decimal : ReadDecimal) (config : List ConfigSnapshot) : List String :=
  let snaps := config.filter fun c => decide (c.kind = "cost_center") && startsWith c.entityId "cc:"
  let latest := collect (fun c : ConfigSnapshot => String.ofList (c.entityId.toList.drop 3))
    (fun (cur : Option ConfigSnapshot) c => match cur with
      | none => c
      | some cur => if configOrder cur < configOrder c then c else cur) snaps
  (latest.filter fun e =>
    decide (e.2.attrs.reverse.lookup "pool_enabled" = some (.bool true) ∨
      e.2.attrs.reverse.lookup "pool_enabled" = some (.str "true")) &&
    isCap decimal ((e.2.attrs.reverse.lookup "pool_target_credits").getD .null)).map (·.1)

/-- `_clean`. -/
def clean (name : Option String) : Option String :=
  (name.map fun name => strip (String.ofList (name.toList.map fun c =>
    if c.toNat < 32 ∨ c.toNat = 127 then '_' else c))).filter (· ≠ "")

/-- `entity_of` in the mode of an enterprise. -/
def entityOf (capped : List String) (costCenter : Option String) : String :=
  match clean costCenter with
  | some cc => if cc ∈ capped ∨ "cc:" ++ cc ∈ capped then "cc:" ++ cc else "enterprise"
  | none => "enterprise"

/-! ### Records -/

/-- `PoolMonth`, as far as a discount reads it. -/
structure PoolMonth where
  (entityId month : String)
  poolDrawNano : Option Int

/-- `PlanEvidence`, as far as a note reads it. -/
structure PlanEvidence where
  entityId : String
  seats : List (String × Int)

/-- What `core/pool.py` says of lines, licences and configuration. -/
structure Pool where
  /-- `pool_months` of the cells of the lines. -/
  poolMonths : List CostLine → List LicenseSnapshot → List ConfigSnapshot → Except FocusError (List PoolMonth)
  /-- `detect_plans` of a month. -/
  detectPlans : List CostLine → List LicenseSnapshot → List ConfigSnapshot → String →
    Except FocusError (List PlanEvidence)

/-- What the stores hold in the window, and the arguments of `focus_rows`. -/
structure FocusInputs where
  costLines : List CostLine
  licenses : List LicenseSnapshot := []
  config : List ConfigSnapshot := []
  reconciledChannels : List String
  k : Nat
  allowUnreconciled : Bool := false
  role : String := "primary"
  /-- `gross_is_list` is given. -/
  decided : Bool := false

/-- `Decimal`'s default context: 28 digits, half to even. -/
def defaultContext : Decimal.Context where
  precision := 28
  pos := by decide
  round := divHalfEven
  exact k d hd := by
    unfold divHalfEven
    rw [Int.mul_ediv_cancel _ hd.ne', Int.mul_emod_left]
    dsimp only
    rw [if_neg (by omega)]

/-- The number of a decimal string, nothing for another text. -/
def readQuantity (text : String) : Option Decimal :=
  let negative := text.toList.head? = some '-'
  let body := if negative then text.toList.tail else text.toList
  let whole := body.takeWhile Char.isDigit
  if whole = [] then none
  else match body.dropWhile Char.isDigit with
    | [] => some (Decimal.ofInt (Decimal.signed negative (Decimal.ofDigits whole)))
    | point :: fraction =>
      if point = '.' ∧ fraction ≠ [] ∧ fraction.all Char.isDigit then
        some (Decimal.ofScaled (Decimal.signed negative (Decimal.ofDigits (whole ++ fraction))) fraction.length)
      else none

/-- `_dec`. -/
def dec (value : Option String) : Decimal := (readQuantity (Focus.orElse (orEmpty value) "0")).getD (Decimal.ofInt 0)

/-- A day since 1970-01-01 as a date. -/
def dateOf (day : Nat) : Date :=
  let z := day + 719468
  let doe := z % 146097
  let yoe := (doe - doe / 1460 + doe / 36524 - doe / 146096) / 365
  let doy := doe - (365 * yoe + yoe / 4 - yoe / 100)
  let mp := (5 * doy + 2) / 153
  let month := if mp < 10 then mp + 3 else mp - 9
  ⟨z / 146097 * 400 + yoe + (if month ≤ 2 then 1 else 0), month, doy - (153 * mp + 2) / 5 + 1⟩

example : [0, 20454, 19782].map (fun d => (dateOf d).isoformat) = ["1970-01-01", "2026-01-01", "2024-02-29"] := by
  decide

/-- `date_utc[:7]`. -/
def monthText (day : Nat) : String := String.ofList ((dateOf day).isoformat.toList.take 7)

/-! ### Constants -/

/-- `AI_SOURCE`. -/
def aiSource : String := "github.ai_usage_report"

/-- `_ADJACENT`. -/
def adjacent : List String := ["seat", "code_quality.license", "actions", "sandbox"]

/-- `COPILOT_CHANNELS`. -/
def copilotChannels : List String := ["github_copilot", "github_actions", "github_sandbox"]

/-- `_SERVICE`. -/
def services : List (String × String) :=
  [("github_copilot", "GitHub Copilot"), ("github_actions", "GitHub Actions"),
   ("github_sandbox", "GitHub Copilot cloud sandboxes")]

/-- `_UNITS`. -/
def units : List (String × String) :=
  [("seat", "Seats"), ("code_quality.license", "Licenses"), ("actions", "Minutes"), ("sandbox", "Units")]

/-- `_PATHS`. -/
def paths : List (String × String) := [("ai_credit.user", "copilot_pool"), ("ai_credit.direct", "copilot_direct")]

/-- `UNKNOWN_SEATS_NOTE`. -/
def unknownSeatsNote : String := "seat charges unknown: plan not detected"

/-- `_SEAT_NOTE`. -/
def seatNote : String :=
  "seat fee: FOCUS ChargeCategory Purchase / ChargeFrequency Recurring unverified (VERIFY); fallback Usage"

/-- `SEAT_CHARGE_VERIFIED`. -/
def seatChargeVerified : Bool := false

/-! ### Sums -/

/-- `_kind`. -/
def kindOf (line : CostLine) : Option String :=
  if line.sourceKind = aiSource ∧ line.channel = "github_copilot" then some "ai"
  else if line.channel ∈ copilotChannels then line.costType.filter (· ∈ adjacent)
  else none

/-- A charge identity. -/
structure Ident where
  dateUtc : Nat
  (entity org channel costType sku model workload kind : String)
  deriving DecidableEq

/-- An allocation group. -/
structure Alloc where
  (team costCenter : Option String)
  deriving DecidableEq

/-- The charge identity of a line. -/
def identOf (capped : List String) (line : CostLine) : Ident where
  dateUtc := line.dateUtc
  entity := entityOf capped line.costCenter
  org := orEmpty line.workspaceId
  channel := line.channel
  costType := orEmpty line.costType
  sku := orEmpty line.sku
  model := Focus.orElse (orEmpty line.model) (orEmpty line.pseudo)
  workload := orEmpty line.workload
  kind := orEmpty (kindOf line)

def allocOf (line : CostLine) : Alloc := ⟨line.team, line.costCenter⟩

/-- `_Acc`. -/
structure Acc where
  gross : Int := 0
  net : Int := 0
  pool : Int := 0
  other : Int := 0
  unclassified : Int := 0
  quantity : Decimal := Decimal.ofInt 0
  users : Finset Principal := ∅
  final : Bool := true
  notes : Finset String := ∅
  deriving DecidableEq

/-- `_Acc.merge`. -/
def Acc.merge (a o : Acc) : Acc where
  gross := a.gross + o.gross
  net := a.net + o.net
  pool := a.pool + o.pool
  other := a.other + o.other
  unclassified := a.unclassified + o.unclassified
  quantity := defaultContext.add a.quantity o.quantity
  users := a.users ∪ o.users
  final := a.final && o.final
  notes := a.notes ∪ o.notes

/-- `_is_auto_tenth`. -/
def isAutoTenth (discount gross : Int) : Bool := decide (0 < gross ∧ |10 * discount - gross| ≤ max 10 (gross / 1000000))

/-- What a discount is. -/
inductive Discount where
  | pool | other | unclassified
  deriving DecidableEq

def grossOf (line : CostLine) : Int := line.listAmountNano.getD line.amountNano

def discountOf (line : CostLine) : Int := grossOf line - line.amountNano

/-- The entity-months whose discounts are known to be the pool's, and those with seats of an unknown plan. -/
structure Facts where
  capped : List String
  (classified unknown : List (String × String))
  deriving DecidableEq

def Facts.entityMonth (f : Facts) (line : CostLine) : String × String :=
  (entityOf f.capped line.costCenter, monthText line.dateUtc)

local instance monthsLawful : LawfulBEq (String × String) := inferInstance

local instance textsTrans : IsTrans String (· ≤ ·) := inferInstance

local instance textsAntisymm : Std.Antisymm fun a b : String => a ≤ b := inferInstance

/-- What the discount of a line is. -/
def discountKind (f : Facts) (line : CostLine) : Discount :=
  if kindOf line ≠ some "ai" then .other
  else if line.routing = some "auto" ∧ 0 < line.amountNano ∧ isAutoTenth (discountOf line) (grossOf line) then .other
  else if f.entityMonth line ∈ f.classified then .pool
  else .unclassified

/-- A line added to the sums. -/
def Acc.addLine (f : Facts) (acc : Acc) (line : CostLine) : Acc :=
  let share := fun kind => if discountKind f line = kind then discountOf line else 0
  { gross := acc.gross + grossOf line
    net := acc.net + line.amountNano
    quantity := defaultContext.add acc.quantity (dec line.quantity)
    final := acc.final && decide (line.finality = "final")
    users := match line.principal with
      | some principal => insert principal acc.users
      | none => acc.users
    other := acc.other + share .other
    pool := acc.pool + share .pool
    unclassified := acc.unclassified + share .unclassified
    notes := if kindOf line = some "ai" ∧ f.entityMonth line ∈ f.unknown then insert unknownSeatsNote acc.notes
      else acc.notes }

/-- The sums of an identity, by allocation group. -/
abbrev Group : Type := List (Alloc × Acc)

/-- `groups`: the sums by charge identity and allocation group. -/
def groups (f : Facts) (lines : List CostLine) : List (Ident × Group) :=
  collectTwice (identOf f.capped) allocOf (fun acc line => (acc.getD {}).addLine f line) lines

/-! ### Publication -/

/-- What a row is made of. -/
structure Charge where
  ident : Ident
  alloc : Alloc
  acc : Acc
  suppressed : Nat

/-- `json.dumps(list(key))`. -/
def allocText (a : Alloc) : String :=
  let value : Option String → List Char := fun v => (v.map JsonText.asciiQuote).getD "null".toList
  String.ofList ('[' :: value a.team ++ [',', ' '] ++ value a.costCenter ++ [']'])

/-- The row of an allocation group that goes through `publish`. -/
def allocRow (g : Alloc × Acc) : AggRow where
  dims := [("allocation", some (allocText g.1))]
  nUsers := g.2.users.card
  nRequests := 0
  usage := .empty
  priced :=
    { exact := exactFigure g.2.net .list, estimated := none, allowance := none, pricedInferences := 0
      unpricedInferences := 0, unpricedTokens := 0, coverage := "1" }

/-- `sorted(group, key=…)`. -/
def sortedGroup (group : Group) : Group :=
  group.insertionSort fun a b => toLex (orEmpty a.1.team, orEmpty a.1.costCenter) ≤
    toLex (orEmpty b.1.team, orEmpty b.1.costCenter)

/-- The allocation groups that `publish` shows, and the label. -/
def shownTexts (k : Nat) (keys : Group) : Except FocusError (List String) := do
  let pub ← (publish ⟨["allocation"], keys.map allocRow, (0, 0)⟩ k).mapError .core
  pure (pub.rows.map fun row => (row.dims.head?.bind (·.2)).getD "")

/-- `_publish`. -/
def publishGroup (k : Nat) (ident : Ident) (group : Group) : Except FocusError (List Charge) := do
  let keys := sortedGroup group
  let shown ← shownTexts k keys
  let out := (keys.filter fun g => decide (allocText g.1 ∈ shown)).map fun g => (⟨ident, g.1, g.2, 0⟩ : Charge)
  let hidden := keys.filter fun g => decide (allocText g.1 ∉ shown)
  if hidden = [] then pure out
  else
    let rest := (hidden.map (·.2)).foldl Acc.merge {}
    let team := if otherLabel k ∈ shown then some (otherLabel k) else none
    pure (out ++ [⟨ident, ⟨team, none⟩, rest, (hidden.map fun g => g.2.users.card).sum⟩])

def Ident.key (i : Ident) : ℕ ×ₗ List String :=
  toLex (i.dateUtc, [i.entity, i.org, i.channel, i.costType, i.sku, i.model, i.workload, i.kind])

/-- What the rows are made of, in their order. -/
def charges (k : Nat) (f : Facts) (lines : List CostLine) : Except FocusError (List Charge) := do
  let sorted := (groups f lines).insertionSort fun a b => a.1.key ≤ b.1.key
  let out ← sorted.mapM fun g => publishGroup k g.1 g.2
  pure out.flatten

/-! ### Rows -/

/-- `_dec_str`. -/
def decStr (d : Decimal) : String := String.ofList d.text

/-- The tags of a row: those with a text. -/
def tagsOf (c : Charge) : List (String × String) :=
  [("team", c.alloc.team), ("cost_center", c.alloc.costCenter), ("workload", some c.ident.workload),
   ("entity", some c.ident.entity)].filterMap fun tag => (tag.2.filter (· ≠ "")).map fun v => (tag.1, v)

/-- The columns of a row. -/
def columnsOf (spec : FocusSpec) (role : String) (reconciled : Bool) (c : Charge) (start stop day tomorrow : Date) :
    List (String × String) :=
  let i := c.ident
  let ai := decide (i.kind = "ai")
  let seatlike := decide (i.kind = "seat" ∨ i.kind = "code_quality.license")
  let purchase := !ai && seatlike && seatChargeVerified
  let notes := c.acc.notes.sort (· ≤ ·) ++ if !ai && seatlike && !seatChargeVerified then [seatNote] else []
  let unit := if ai then "AI Credits" else (units.lookup i.costType).getD "Units"
  let quantity := decStr c.acc.quantity
  let effective := if role = "enrichment" then "0" else nanoToUsdStr c.acc.net
  [("BillingAccountId", "github/" ++ i.entity), ("BillingAccountName", ""), ("BillingCurrency", "USD"),
   ("BillingPeriodStart", iso start), ("BillingPeriodEnd", iso stop), ("ChargePeriodStart", iso day),
   ("ChargePeriodEnd", iso tomorrow), ("ChargeCategory", if purchase then "Purchase" else "Usage"),
   ("ChargeClass", ""),
   ("ChargeDescription", if ai then
      Focus.orElse i.sku "unknown sku" ++ " " ++ Focus.orElse i.model "unknown model" ++ " AI credits"
    else strip (Focus.orElse i.sku i.costType ++ " " ++ i.workload)),
   ("ChargeFrequency", if purchase then "Recurring" else "Usage-Based"),
   ("ServiceCategory", spec.serviceCategoryAi), ("ServiceName", (services.lookup i.channel).getD i.channel),
   ("ServiceProviderName", "GitHub"), ("HostProviderName", "GitHub"), ("InvoiceIssuerName", "GitHub"),
   ("RegionId", ""), ("ResourceId", i.org), ("SkuId", i.sku), ("PricingCategory", "Standard"),
   ("PricingQuantity", quantity), ("PricingUnit", unit), ("ConsumedQuantity", quantity), ("ConsumedUnit", unit),
   ("ListUnitPrice", if ai then "0.01" else ""), ("ListCost", nanoToUsdStr c.acc.gross), ("ContractedUnitPrice", ""),
   ("ContractedCost", nanoToUsdStr c.acc.net), ("EffectiveCost", effective), ("BilledCost", effective),
   ("Tags", tagsText (tagsOf c)), ("AllocatedMethodId", ""), ("AllocatedMethodDetails", ""),
   ("x_Channel", i.channel), ("x_BillingPath", (paths.lookup i.costType).getD ""), ("x_ModelId", i.model),
   ("x_Reconciled", if reconciled then "true" else "false"), ("x_Evidence", "exact"),
   ("x_PriceBasis", if reconciled && c.acc.final then "invoice" else "list"),
   ("x_DiscountPool", nanoToUsdStr c.acc.pool), ("x_DiscountOther", nanoToUsdStr c.acc.other),
   ("x_DiscountUnclassified", nanoToUsdStr c.acc.unclassified), ("x_CreditsQuantity", if ai then quantity else ""),
   ("x_SuppressedUsers", toString c.suppressed), ("x_Notes", "; ".intercalate notes)]

/-- The names of the columns of a row. -/
def columnNames : List String :=
  Focus.focusColumnNames ++ ["x_Channel", "x_BillingPath", "x_ModelId", "x_Reconciled", "x_Evidence", "x_PriceBasis",
    "x_DiscountPool", "x_DiscountOther", "x_DiscountUnclassified", "x_CreditsQuantity", "x_SuppressedUsers", "x_Notes"]

theorem columnsOf_names (spec : FocusSpec) (role : String) (reconciled : Bool) (c : Charge)
    (start stop day tomorrow : Date) :
    (columnsOf spec role reconciled c start stop day tomorrow).map (·.1) = columnNames := rfl

/-- The columns of a row are well-formed. -/
theorem columnsOf_ok (spec : FocusSpec) (role : String) (reconciled : Bool) (c : Charge)
    (start stop day tomorrow : Date) :
    ∀ col ∈ columnsOf spec role reconciled c start stop day tomorrow, Focus.columnOk col.1 := by
  intro col hcol
  have hname : col.1 ∈ columnNames := by
    rw [← columnsOf_names spec role reconciled c start stop day tomorrow]
    exact List.mem_map_of_mem hcol
  exact (by decide : ∀ name ∈ columnNames, Focus.columnOk name = true) _ hname

/-- `_row`. -/
def rowOf (spec : FocusSpec) (role : String) (reconciledChannels : List String) (c : Charge) :
    Except FocusError FocusRow := do
  let reconciled := decide (c.ident.channel ∈ reconciledChannels)
  let day := dateOf c.ident.dateUtc
  let bounds ← monthBounds day
  let tomorrow ← day.next
  pure ⟨columnsOf spec role reconciled c bounds.1 bounds.2 day tomorrow, c.ident.channel, reconciled,
    columnsOf_ok spec role reconciled c bounds.1 bounds.2 day tomorrow⟩

/-! ### The rows of a window -/

/-- `FocusRowList`. -/
structure FocusRowList where
  rows : List FocusRow
  (notes skippedChannels : List String)

/-- `_classified`. -/
def classified (pool : Pool) (a : FocusInputs) (lines : List CostLine) : Except FocusError (List (String × String)) :=
  if a.decided then do
    let months ← pool.poolMonths lines a.licenses a.config
    let byKey := collect (fun m : PoolMonth => (m.entityId, m.month))
      (fun held m => held.getD true && m.poolDrawNano.isSome) months
    pure ((byKey.filter (·.2)).map (·.1))
  else pure []

/-- `_unknown_seat_months`. -/
def unknownSeatMonths (pool : Pool) (a : FocusInputs) (lines : List CostLine) :
    Except FocusError (List (String × String)) := do
  let months := (lines.map fun l => monthText l.dateUtc).dedup.insertionSort (· ≤ ·)
  let found ← months.mapM fun month => do
    let plans ← pool.detectPlans lines a.licenses a.config month
    pure ((plans.filter fun p => decide (0 < (p.seats.reverse.lookup "unknown").getD 0)).map fun p =>
      (p.entityId, month))
  pure found.flatten.dedup

def copilotLines (a : FocusInputs) : List CostLine := a.costLines.filter fun l => (kindOf l).isSome

/-- `skipped`. -/
def skippedChannels (a : FocusInputs) : List String :=
  if a.allowUnreconciled then []
  else (((copilotLines a).map (·.channel)).filter (· ∉ a.reconciledChannels)).dedup.insertionSort (· ≤ ·)

def emitted (a : FocusInputs) : List CostLine :=
  (copilotLines a).filter fun l => decide (l.channel ∉ skippedChannels a)

def skippedNote (channel : String) : String :=
  "FOCUS: channel " ++ channel ++ " is not reconciled; its Copilot rows are left out (reconcile it or pass " ++
    "--allow-unreconciled)"

/-- The note of the entity-months whose seats are of an unknown plan and not charged. -/
def missingNote (f : Facts) (lines : List CostLine) : List String :=
  let seatMonths := (lines.filter fun l => decide (kindOf l = some "seat")).map f.entityMonth
  match (f.unknown.filter (· ∉ seatMonths)).insertionSort fun a b => toLex a ≤ toLex b with
  | [] => []
  | missing => [unknownSeatsNote ++ " (" ++ ", ".intercalate (missing.map fun m => m.1 ++ " " ++ m.2) ++
      "); estimated seat fees are not FOCUS rows"]

/-- The checks of the arguments. -/
def checkArgs (a : FocusInputs) : Except FocusError Unit :=
  if a.role ∉ ["primary", "enrichment"] then .error (.core (.usage "FOCUS role must be primary or enrichment"))
  else if a.k < 1 then .error (.core (.usage "k must be an int >= 1"))
  else .ok ()

/-- What is known of the entities and months of the lines. -/
def factsOf (decimal : ReadDecimal) (pool : Pool) (a : FocusInputs) : Except FocusError Facts := do
  let classified ← classified pool a (copilotLines a)
  let unknown ← unknownSeatMonths pool a (copilotLines a)
  pure ⟨cappedCostCenters decimal a.config, classified, unknown⟩

/-- `focus_rows`. -/
def focusRows (decimal : ReadDecimal) (spec : FocusSpec) (pool : Pool) (a : FocusInputs) :
    Except FocusError FocusRowList := do
  checkArgs a
  let f ← factsOf decimal pool a
  let cs ← charges a.k f (emitted a)
  let rows ← cs.mapM (rowOf spec a.role a.reconciledChannels)
  pure ⟨rows, (skippedChannels a).map skippedNote ++ missingNote f (emitted a), skippedChannels a⟩

end TokenBill.Copilot.FocusRows
