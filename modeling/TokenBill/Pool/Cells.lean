import TokenBill.Copilot.FocusRows
import TokenBill.Core.IsoDates
import TokenBill.General.Apportion
import TokenBill.Pool.Forecast

/-!
# The Copilot cell table

`core/pool.py`, `build_cells`: the cost lines and the token aggregates of the AI usage report, joined
on their dimensions and split by cost type. Credits are exact decimals: what is read from a record is
bounded, so the context that the source adds them in never rounds.
-/

namespace TokenBill.Pool

open General Copilot.FocusRows

/-! ### Cells -/

/-- `GITHUB_COST_TYPES`. -/
inductive CostType where
  | aiCreditUser | aiCreditDirect | aiCreditLegacyPru | seat | actions | sandbox | codeQualityLicense
  | meteredAiCredit | restAiCredit | restSummary | restUsage | other
  deriving DecidableEq

/-- The text of a cost type. -/
def CostType.text : CostType → String
  | aiCreditUser => "ai_credit.user" | aiCreditDirect => "ai_credit.direct"
  | aiCreditLegacyPru => "ai_credit.legacy_pru" | seat => "seat" | actions => "actions" | sandbox => "sandbox"
  | codeQualityLicense => "code_quality.license" | meteredAiCredit => "metered.ai_credit"
  | restAiCredit => "rest.ai_credit" | restSummary => "rest.summary" | restUsage => "rest.usage" | other => "other"

/-- `CELL_COST_TYPES`, in the order of their texts. -/
def cellCostTypes : List CostType := [.aiCreditDirect, .aiCreditLegacyPru, .aiCreditUser]

/-- `POOLED_COST_TYPES`. -/
def CostType.isPooled (t : CostType) : Bool := t = .aiCreditUser

/-- `DIRECT_COST_TYPES`. -/
def CostType.isDirect (t : CostType) : Bool := t = .aiCreditDirect

/-- The fields of `Cell`. -/
structure CellFields where
  month : String
  dateUtc : Option String
  entityId : String
  team : Option String := none
  costCenter : Option String := none
  org : Option String := none
  sku : String := ""
  costType : CostType
  model : String := ""
  routing : String := "unknown"
  speed : String := "standard"
  pseudo : Option String := none
  workload : Option String := none
  usage : UsageBuckets := .empty
  credits : Decimal
  (grossNano discountNano netNano : Int)
  nUsers : Nat := 0
  final : Bool

def takeText (n : Nat) (text : String) : String := String.ofList (text.toList.take n)

/-- `_ENTITY_RE`. -/
def isEntityId (text : String) : Bool :=
  let named := fun kind : String => decide (kind.toList <+: text.toList) &&
    (!(text.toList.drop kind.toList.length).isEmpty) && (text.toList.drop kind.toList.length).all (32 ≤ ·.toNat)
  text == "enterprise" || named "org:" || named "cc:"

/-- `_DECIMAL_STR_RE` of the text without trailing zeros: at most 30 digits before the point and 20 after. -/
def isBounded (d : Decimal) : Bool := decide (d.scale ≤ 20 ∧ d.mant.natAbs < 10 ^ (30 + d.scale))

/-- The check `Cell.__post_init__` fails first, if any. -/
def CellFields.check (c : CellFields) : Option Error :=
  if !isMonthText c.month then some (.contract "Cell.month: must be a YYYY-MM string")
  else if c.dateUtc.any fun d => !(isDateText d && takeText 7 d == c.month) then
    some (.contract "Cell.date_utc: must be a YYYY-MM-DD date of the cell month")
  else if !isEntityId c.entityId then some (.contract "Cell.entity_id: not a pool entity id")
  else if !isBounded c.credits then some (.contract "Cell.credits: must be a finite decimal string")
  else if c.discountNano ≠ c.grossNano - c.netNano then
    some (.contract "Cell.discount_nano: must equal gross_nano - net_nano")
  else none

/-- A cell of the table. -/
structure Cell extends CellFields where
  valid : toCellFields.check = none

/-- The constructor `Cell(...)`. -/
def CellFields.build (c : CellFields) : Except Stop Cell :=
  match h : c.check with
  | some e => .error (.core e)
  | none => .ok ⟨c, h⟩

theorem CellFields.build_eq_ok {c : CellFields} {cell : Cell} (h : c.build = .ok cell) : cell.toCellFields = c := by
  unfold build at h
  split at h
  · cases h
  · cases h
    rfl

/-! ### Decimals of records -/

/-- `_MAX_ADJ` and `_MIN_EXP` on a decimal that is read. -/
def boundedTuple (d : DecimalTuple) : Option Decimal :=
  if d.coeff ≠ 0 ∧ (15 < d.adjusted ∨ d.exp < -20) then none else some (Decimal.ofExp d.signedCoeff d.exp)

/-- `_as_decimal` of a text. -/
def asDecimal (value : String) : Option Decimal :=
  let text := stripSpace value.toList
  if text.isEmpty ∨ 64 < text.length then none
  else match decimalOf (String.ofList text) with
    | some (.finite d) => boundedTuple d
    | _ => none

/-- `_credits_of_nano`, bounded. -/
def creditsOfNano (nano : Int) : Option Decimal := boundedTuple (.ofSigned nano (-7))

/-- `_credits_to_nano`: a credit is $0.01, and the nano-USD are rounded once, half to even. -/
def creditsToNano (credits : Decimal) : Int := divHalfEven (credits.mant * 10 ^ 7) (10 ^ credits.scale)

example : (asDecimal " 1_900.50 ").map creditsToNano = some 19005000000 ∧ asDecimal "1e16" = none := by
  decide

/-! ### Entities -/

/-- `ENTITY_MODES`. -/
inductive EntityMode where
  | enterprise | org
  deriving DecidableEq

/-- `entity_of`. -/
def poolEntity (capped : List (String × Decimal)) (mode : EntityMode) (costCenter org : Option String) : String :=
  let rest :=
    match mode, clean org with
    | .org, some login => "org:" ++ login
    | _, _ => "enterprise"
  match clean costCenter with
  | some cc => if cc ∈ capped.map (·.1) ∨ "cc:" ++ cc ∈ capped.map (·.1) then "cc:" ++ cc else rest
  | none => rest

/-! ### Keys -/

/-- `GRAINS`. -/
inductive Grain where
  | day | month
  deriving DecidableEq

/-- `CONVENTIONS`. -/
inductive Convention where
  | excl | incl

/-- What lines and aggregates are joined on, but for the time. -/
structure CellDims where
  (team costCenter org : Option String)
  (sku model routing speed : String)
  pseudo : Option String
  deriving DecidableEq

/-- `_Key`. -/
structure CellKey where
  month : String
  date : Option String
  dims : CellDims
  deriving DecidableEq

/-- `value or None`. -/
def textOr (value : Option String) : Option String := value.filter (· ≠ "")

/-- `_cell_key`, the dimensions of it. -/
def cellDims (team costCenter org sku model routing speed pseudo : Option String) : CellDims where
  team := textOr team
  costCenter := textOr costCenter
  org := textOr org
  sku := (textOr sku).getD ""
  model := (textOr model).getD ""
  routing := (textOr routing).getD "unknown"
  speed := (textOr speed).getD "standard"
  pseudo := textOr pseudo

/-- `_cell_key`. -/
def cellKey (grain : Grain) (dateUtc : String) (dims : CellDims) : CellKey where
  month := takeText 7 dateUtc
  date := if grain = .day then some dateUtc else none
  dims

/-- `_key_order`. -/
def CellKey.order (k : CellKey) : List (Bool ×ₗ String) :=
  [some k.month, k.date, k.dims.team, k.dims.costCenter, k.dims.org, some k.dims.sku, some k.dims.model,
    some k.dims.routing, some k.dims.speed, k.dims.pseudo].map fun v => toLex (v.isSome, v.getD "")

/-! ### Lines -/

/-- A cost line that counts, with its cost type, its gross amount and its credits. -/
structure Counted where
  line : CostLine
  costType : CostType
  gross : Int
  credits : Decimal

def countedType (line : CostLine) : Option CostType :=
  if line.channel = "github_copilot" then cellCostTypes.find? fun t => decide (line.costType = some t.text) else none

/-- `_line_credits`. -/
def lineCredits (line : CostLine) (gross : Int) : Except Stop Decimal :=
  match (line.quantity.bind asDecimal).or (creditsOfNano gross) with
  | some q => .ok q
  | none => Pool.usage "build_cells: cost line credits out of range"

def countLine (entry : CostLine × CostType) : Except Stop Counted := do
  let gross := entry.1.listAmountNano.getD entry.1.amountNano
  return ⟨entry.1, entry.2, gross, ← lineCredits entry.1 gross⟩

def countedLines (lines : List CostLine) : Except Stop (List Counted) :=
  (lines.filterMap fun l => (countedType l).map fun t => (l, t)).mapM countLine

def lineKey (grain : Grain) (c : Counted) : CellKey :=
  cellKey grain (isoDate c.line.dateUtc) (cellDims c.line.team c.line.costCenter c.line.workspaceId c.line.sku
    c.line.model c.line.routing c.line.speed c.line.pseudo)

/-- `_LineAcc`. -/
structure LineAcc where
  credits : Decimal := 0
  gross : Int := 0
  net : Int := 0
  principals : Finset Principal := ∅
  final : Bool := true
  workloads : Finset String := ∅

/-- The sums with a line. -/
def LineAcc.add (acc : LineAcc) (c : Counted) : LineAcc where
  credits := acc.credits + c.credits
  gross := acc.gross + c.gross
  net := acc.net + c.line.amountNano
  principals := match c.line.principal with
    | some principal => insert principal acc.principals
    | none => acc.principals
  final := acc.final && decide (c.line.finality = "final")
  workloads := match c.line.workload with
    | some workload => insert workload acc.workloads
    | none => acc.workloads

def addTo (held : Option LineAcc) (c : Counted) : LineAcc := (held.getD {}).add c

/-- `lines`: the sums by key and cost type. -/
def lineTable (grain : Grain) (counted : List Counted) : List (CellKey × List (CostType × LineAcc)) :=
  collectTwice (lineKey grain) (·.costType) addTo counted

/-! ### Aggregates -/

/-- What `usage` holds for a key: the tokens, whether all rows are final, and whether one was clamped. -/
structure UsageEntry where
  tokens : UsageBuckets
  (final clamped : Bool)

def lift {α : Type} : Except Error α → Except Stop α
  | .ok a => .ok a
  | .error e => .error (.core e)

theorem lift_eq_ok {α : Type} {x : Except Error α} {a : α} : lift x = .ok a ↔ x = .ok a := by
  cases x <;> simp [lift]

/-- `_to_incl`. -/
def toIncl (u : UsageBuckets) : Except Stop (UsageBuckets × Bool) := do
  let short := decide (u.uncachedInput < u.cacheRead + u.cacheWrite)
  let tokens ← lift (UsageCounts.build { u.toUsageCounts with uncachedInput := u.uncachedInput - (u.cacheRead + u.cacheWrite) })
  return (tokens, short)

/-- The tokens of an aggregate under a convention. -/
def convert (convention : Convention) (u : UsageBuckets) : Except Stop (UsageBuckets × Bool) :=
  match convention with
  | .excl => .ok (u, false)
  | .incl => toIncl u

/-- `_utc_date_of_ms`. -/
def utcDateOfMs (ms : Nat) : Except Stop String :=
  if 253402300799999 < ms then Pool.usage "timestamp after 9999-12-31" else .ok (isoDate (ms / 86400000))

def isReport (agg : UsageAggregate) : Bool :=
  agg.sourceKind == "github.ai_usage_report" && (agg.dims.lookup "channel").getD "github_copilot" == "github_copilot"

/-- The key of an aggregate. -/
def aggKey (grain : Grain) (agg : UsageAggregate) : Except Stop CellKey := do
  return cellKey grain (← utcDateOfMs agg.bucketStartMs) (cellDims (agg.dims.lookup "team")
    (agg.dims.lookup "cost_center") (agg.dims.lookup "organization") (agg.dims.lookup "sku") (agg.dims.lookup "model")
    (agg.dims.lookup "routing") (agg.dims.lookup "speed") (agg.dims.lookup "pseudo"))

/-- The tokens of an aggregate added to those of its key. -/
def addUsage (prev : Option UsageEntry) (tokens : UsageBuckets) (final clamped : Bool) : Except Stop UsageEntry :=
  match prev with
  | none => .ok ⟨tokens, final, clamped⟩
  | some prev => do
    return ⟨← lift (prev.tokens.add tokens), prev.final && final, prev.clamped || clamped⟩

/-- `usage` with an aggregate. -/
def usageStep (grain : Grain) (convention : Convention) (table : List (CellKey × UsageEntry)) (agg : UsageAggregate) :
    Except Stop (List (CellKey × UsageEntry)) := do
  let key ← aggKey grain agg
  let (tokens, clamped) ← convert convention agg.usage
  let entry ← addUsage (table.lookup key) tokens (agg.finality == "final") clamped
  return upsert (·.1) (key, entry) table

/-- `usage`: the tokens by key. -/
def usageTable (grain : Grain) (convention : Convention) (aggregates : List UsageAggregate) :
    Except Stop (List (CellKey × UsageEntry)) :=
  (aggregates.filter isReport).foldlM (usageStep grain convention) []

/-! ### Splitting tokens -/

/-- `_split_int`. -/
def splitInt (total : Int) (weights : List Int) (fallback : Nat) : List Int :=
  let w := weights.map (max 0)
  if w.sum = 0 then (List.range w.length).map fun i => if i = fallback then total else 0
  else apportion total w

def partAt (total : Nat) (weights : List Int) (fallback i : Nat) : Nat :=
  ((splitInt total weights fallback)[i]?.getD 0).toNat

/-- The tokens of a place. -/
def splitCounts (u : UsageBuckets) (weights : List Int) (fallback i : Nat) : UsageCounts :=
  let part := fun total => partAt total weights fallback i
  { uncachedInput := part u.uncachedInput
    cacheRead := part u.cacheRead
    cacheWrite5m := part u.cacheWrite5m
    cacheWrite1h := part u.cacheWrite1h
    cacheWriteOther := part u.cacheWriteOther
    cacheWriteOtherTtlS := if 0 < part u.cacheWriteOther then u.cacheWriteOtherTtlS else none
    cacheWriteUnknown := part u.cacheWriteUnknown
    output := part u.output
    -- the reasoning tokens of a part are never more than its output tokens
    outputReasoning := u.outputReasoning.map fun r => min (part r) (part u.output)
    webSearchRequests := part u.webSearchRequests
    webFetchRequests := part u.webFetchRequests }

/-- `_split_usage`. -/
def splitUsage (u : UsageBuckets) (weights : List Int) (fallback : Nat) : Except Stop (List UsageBuckets) :=
  if weights.length = 1 then .ok [u]
  else (List.range weights.length).mapM fun i => lift (splitCounts u weights fallback i).build

/-! ### The table -/

/-- The cost types of a key with their sums, in order; without a line, `other`. -/
def groupsAt (table : List (CellKey × List (CostType × LineAcc))) (key : CellKey) : List (CostType × LineAcc) :=
  let groups := ((table.lookup key).getD []).insertionSort fun a b => a.1.text ≤ b.1.text
  if groups.isEmpty then [(.other, {})] else groups

/-- `fallback`: the place of the pooled cost type, else the first. -/
def fallbackOf (groups : List (CostType × LineAcc)) : Nat :=
  (groups.map (·.1)).findIdx? (· = .aiCreditUser) |>.getD 0

/-- The tokens of each cost type of a key. -/
def partsAt (entry : Option UsageEntry) (groups : List (CostType × LineAcc)) : Except Stop (List UsageBuckets) :=
  match entry with
  | some e => splitUsage e.tokens (groups.map (·.2.gross)) (fallbackOf groups)
  | none => .ok (groups.map fun _ => .empty)

/-- The cell of a cost type of a key. -/
def cellOf (entity : String) (key : CellKey) (entry : Option UsageEntry) (group : CostType × LineAcc)
    (part : UsageBuckets) : CellFields where
  month := key.month
  dateUtc := key.date
  entityId := entity
  team := key.dims.team
  costCenter := key.dims.costCenter
  org := key.dims.org
  sku := key.dims.sku
  costType := group.1
  model := key.dims.model
  routing := key.dims.routing
  speed := key.dims.speed
  pseudo := key.dims.pseudo
  workload := group.2.workloads.min
  usage := part
  credits := group.2.credits
  grossNano := group.2.gross
  discountNano := group.2.gross - group.2.net
  netNano := group.2.net
  nUsers := group.2.principals.card
  final := group.2.final && (entry.map (·.final)).getD true

/-- The cells of a key. -/
def cellsAt (capped : List (String × Decimal)) (mode : EntityMode)
    (table : List (CellKey × List (CostType × LineAcc))) (usages : List (CellKey × UsageEntry)) (key : CellKey) :
    Except Stop (List Cell) := do
  let groups := groupsAt table key
  let entry := usages.lookup key
  let parts ← partsAt entry groups
  let entity := poolEntity capped mode key.dims.costCenter key.dims.org
  (groups.zip parts).mapM fun gp => (cellOf entity key entry gp.1 gp.2).build

def sortedKeys (table : List (CellKey × List (CostType × LineAcc))) (usages : List (CellKey × UsageEntry)) :
    List CellKey :=
  ((table.map (·.1) ++ usages.map (·.1)).dedup).insertionSort fun a b => a.order ≤ b.order

/-- The number of cells of the keys where an aggregate was clamped. -/
def clampedCells (table : List (CellKey × List (CostType × LineAcc))) (usages : List (CellKey × UsageEntry))
    (keys : List CellKey) : Nat :=
  (keys.map fun key => if (usages.lookup key).any (·.clamped) then (groupsAt table key).length else 0).sum

/-- What `build_cells` is called with. -/
structure CellInputs where
  aggregates : List UsageAggregate
  costLines : List CostLine
  convention : Convention := .excl
  capped : List (String × Decimal) := []
  mode : EntityMode := .enterprise

/-- `build_cells`. -/
def buildCells (inp : CellInputs) (grain : Grain) : Except Stop (List Cell × Nat) := do
  let table := lineTable grain (← countedLines inp.costLines)
  let usages ← usageTable grain inp.convention inp.aggregates
  let keys := sortedKeys table usages
  let cells ← keys.mapM (cellsAt inp.capped inp.mode table usages)
  return (cells.flatten, clampedCells table usages keys)

end TokenBill.Pool
