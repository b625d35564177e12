import TokenBill.Copilot.Budgets

/-!
# Copilot totals against the usage summary

`copilot/recon.py`, its layer of totals: the net of the report rows of a month, scope and
product against the usage summary, with the gap beyond tolerance explained by the causes
the report knows, in order: rows that may still be revised, rows a later report dropped,
rows without an organization, and the rounding of credits. The revision check gives the
stale net of each month.

The catalog's tables are parameters, and what a row displays in percent is left out. A
month is counted as `monthOf` counts it.
-/

namespace TokenBill.Copilot

open General

/-! ### Catalog -/

/-- What the catalog knows of a SKU. -/
structure SkuFact where
  costType : String
  plan : Option String

/-- The tables of `core/catalog.py` that the totals read. -/
structure Catalog where
  skus : String → Option SkuFact
  runnerRates : String → Bool

/-- `GITHUB_COST_TYPES`. -/
def githubCostTypes : List String :=
  ["ai_credit.user", "ai_credit.direct", "ai_credit.legacy_pru", "seat", "actions", "sandbox",
    "code_quality.license", "metered.ai_credit", "rest.ai_credit", "rest.summary", "rest.usage", "other"]

/-- `sku` without the prefix `actions_`. -/
def withoutActions (sku : String) : Option String :=
  if startsWith sku "actions_" then some (String.ofList (sku.toList.drop 8)) else none

/-- Whether `runner_rate` knows a SKU, in one of its spellings. -/
def Catalog.hasRunnerRate (cat : Catalog) (sku : String) : Bool :=
  decide (sku ≠ "") && (cat.runnerRates sku ||
    (withoutActions sku).any (fun s => decide (s ≠ "") && cat.runnerRates s) || cat.runnerRates ("actions_" ++ sku))

/-- `copilot_cost_type`, of a row with a username. -/
def Catalog.costType (cat : Catalog) (sku : String) : String :=
  if sku = "" then "other"
  else
    let value := match cat.skus sku with
      | some fact => fact.costType
      | none => if cat.hasRunnerRate sku then "actions" else "other"
    if value ∈ githubCostTypes then value else "other"

/-- `copilot_seat_plan`. -/
def Catalog.seatPlan (cat : Catalog) (sku : String) : Option String := (cat.skus sku).bind (·.plan)

/-! ### Inputs -/

/-- `_COPILOT`. -/
def copilotChannel : String := "github_copilot"

/-- `_ACTIONS`. -/
def actionsChannel : String := "github_actions"

/-- `_SANDBOX`. -/
def sandboxChannel : String := "github_sandbox"

/-- `REPORT_KIND`. -/
def reportKind : String := "github.ai_usage_report"

/-- `_AI_TYPES`. -/
def aiTypes : List String := ["ai_credit.user", "ai_credit.direct"]

/-- `_SUMMARY`. -/
def summaryType : String := "rest.summary"

/-- `_CENT_NANO`. -/
def centNano : Int := 10 ^ 7

/-- What the totals are reconciled from: the Copilot cost lines, the coverage aggregates, the settings of
the run and the rounding remainder. -/
structure ReconInput where
  cat : Catalog
  lines : List CostLine
  coverage : List UsageAggregate
  tol : ℚ
  today : Nat
  closedOnly : Bool
  lag : Nat
  rounding : Option Int

/-- The products of the summary. -/
inductive Product where
  | aiCredits | seats | sandbox | actions
  deriving DecidableEq

def Product.value : Product → String
  | .aiCredits => "ai_credits" | .seats => "seats" | .sandbox => "sandbox" | .actions => "actions"

/-- `_PRODUCT_CHANNEL`. -/
def Product.channel : Product → String
  | .aiCredits | .seats => copilotChannel
  | .actions => actionsChannel
  | .sandbox => sandboxChannel

/-- The scope of a summary. -/
inductive SummaryScope where
  | enterprise
  | org (login : String)
  deriving DecidableEq

def SummaryScope.value : SummaryScope → String
  | .enterprise => "enterprise"
  | .org login => "org:" ++ login

/-- `_within`: a gap of at most a percentage of a base, or of at most a slack. -/
def within (gap base : Int) (tol : ℚ) (slack : Int) : Bool :=
  decide (|gap| ≤ slack) || decide ((|gap| : ℚ) * 100 ≤ tol * |base|)

/-- `_line_product`. -/
def lineProduct (line : CostLine) : Option Product :=
  if line.costType.any (fun t => decide (t ∈ aiTypes)) ∧ line.sourceKind = reportKind then some .aiCredits
  else if line.costType = some "seat" ∧ line.channel = copilotChannel then some .seats
  else if line.costType = some "actions" ∧ line.channel = actionsChannel then some .actions
  else if line.costType = some "sandbox" ∧ line.channel = sandboxChannel then some .sandbox
  else none

namespace ReconInput

variable (inp : ReconInput)

/-- `month_closed`: the last day of the month is over by the lag, so the day after that is in a later
month. -/
def monthClosed (month : Nat) : Bool := decide (inp.lag ≤ inp.today ∧ month < monthOf (inp.today - inp.lag + 1))

/-- `_summary_product`. -/
def summaryProduct (line : CostLine) : Option Product :=
  let sku := line.sku.getD ""
  if inp.cat.costType sku = "ai_credit.user" then some .aiCredits
  else if (inp.cat.seatPlan sku).isSome then some .seats
  else if line.channel = sandboxChannel ∨ inp.cat.costType sku = "sandbox" then some .sandbox
  else if line.channel = actionsChannel ∨ inp.cat.hasRunnerRate sku then some .actions
  else none

/-! ### Revisions -/

def reportRows (day : Nat) : List CostLine :=
  inp.lines.filter fun c => decide (c.sourceKind = reportKind ∧ c.channel = copilotChannel ∧ c.dateUtc = day)

/-- Whether an aggregate was fetched after another, by its source where they were fetched together. -/
def later (a b : UsageAggregate) : Bool :=
  let source := fun x : UsageAggregate => (x.dims.reverse.lookup "source").getD ""
  decide (b.fetchedMs < a.fetchedMs) || decide (a.fetchedMs = b.fetchedMs) && decide (source b < source a)

/-- The coverage aggregates that say what a day cost. -/
def costed : List UsageAggregate :=
  inp.coverage.filter fun a =>
    decide ((a.dims.reverse.lookup "channel").getD copilotChannel = copilotChannel) &&
      a.reportedCostNano.isSome

def dayOf (a : UsageAggregate) : Nat := a.bucketStartMs / 86400000

def latest (day : Nat) : Option UsageAggregate :=
  (inp.costed.filter fun a => decide (dayOf a = day)).foldl
    (fun cur a => if cur.all (later a) then some a else cur) none

/-- What is compared of a day: the rows' net, gross and number, and the latest net and gross. -/
structure Revision where
  day : Nat
  (net gross : Int)
  rows : Nat
  (refNet refGross : Int)

/-- The revisions of a report, in the order of the days. -/
def revisions : List Revision :=
  let days := ((inp.costed.map dayOf).dedup).insertionSort (· ≤ ·)
  days.filterMap fun day =>
    if inp.closedOnly ∧ !inp.monthClosed (monthOf day) then none
    else (inp.latest day).map fun a =>
      let gross := ((inp.reportRows day).map fun c => c.listAmountNano.getD c.amountNano).sum
      { day
        net := ((inp.reportRows day).map (·.amountNano)).sum
        gross
        rows := (inp.reportRows day).length
        refNet := a.reportedCostNano.getD 0
        refGross := a.listCostNano.getD gross }

/-- Whether the rows of a day exceed the latest report of it. -/
def Revision.stale (r : Revision) : Bool := decide (r.refNet + r.rows < r.net ∨ r.refGross + r.rows < r.gross)

def stale (month : Nat) : Int :=
  ((inp.revisions.filter fun r => decide (monthOf r.day = month) && r.stale).map fun r =>
    max 0 (r.net - r.refNet)).sum

end ReconInput

/-! ### Explanations -/

/-- A cause with its magnitude, and the sign of the gaps it explains (0 for either). -/
structure Budget where
  code : String
  (magnitude sign : Int)

/-- `_explain_budget`, of what is left of a gap with a sign. -/
def explainFrom (sgn : Int) : Int → List Budget → List (String × Int) × Int
  | left, [] => ([], left)
  | left, b :: bs =>
    if left = 0 then ([], left)
    else if b.magnitude ≤ 0 ∨ b.sign ≠ 0 ∧ b.sign ≠ sgn then explainFrom sgn left bs
    else
      let take := min left b.magnitude
      let (parts, rest) := explainFrom sgn (left - take) bs
      ((b.code, sgn * take) :: parts, rest)

def gapSign (gap : Int) : Int := if 0 < gap then 1 else -1

/-- `_explain_budget`: the explained parts of a gap, and the magnitude that is left. -/
def explainBudget (gap : Int) (budgets : List Budget) : List (String × Int) × Int :=
  explainFrom (gapSign gap) |gap| budgets

/-- A month, scope and product of the summary. -/
structure SummaryKey where
  month : Nat
  scope : SummaryScope
  product : Product
  deriving DecidableEq

/-- The total of a key: the report's net, the summary's, and how their gap is explained. -/
structure Total where
  key : SummaryKey
  (net ref : Int)
  parts : List (String × Int)
  left : Int

def Total.gap (t : Total) : Int := t.ref - t.net

/-- `_Gap`, of the totals. -/
structure Gap where
  channel : String
  code : Option String
  (nano unexplained : Int)
  month : Nat
  gate : Bool

/-- A row of the totals, and of their SKUs. -/
structure TotalRow where
  key : SummaryKey
  sku : Option String
  diagnostic : Bool
  status : String
  residual : Option String
  priced : Int
  invoice : Option Int

namespace ReconInput

variable (inp : ReconInput)

/-- The summary lines of a product, with their keys. -/
def summaryLines : List (SummaryKey × CostLine) :=
  inp.lines.filterMap fun s =>
    if s.costType = some summaryType then
      (inp.summaryProduct s).map fun product =>
        let scope := match s.workspaceId with
          | some org => if org = "" then SummaryScope.enterprise else .org org
          | none => .enterprise
        (⟨monthOf s.dateUtc, scope, product⟩, s)
    else none

def keyLe (a b : SummaryKey) : Bool :=
  decide (a.month < b.month) || decide (a.month = b.month) && (decide (a.scope.value < b.scope.value) ||
    decide (a.scope.value = b.scope.value) && decide (a.product.value ≤ b.product.value))

def summaryKeys : List SummaryKey :=
  (((inp.summaryLines.map (·.1)).dedup).insertionSort fun a b => keyLe a b).filter fun key =>
    !(inp.closedOnly && !inp.monthClosed key.month)

def referenceLines (key : SummaryKey) : List CostLine :=
  (inp.summaryLines.filter fun s => decide (s.1 = key)).map (·.2)

def productLines (month : Nat) (product : Product) : List CostLine :=
  inp.lines.filter fun c => decide (lineProduct c = some product ∧ monthOf c.dateUtc = month) &&
    !(inp.closedOnly && decide (c.finality ≠ "final"))

/-- The report rows of a key. -/
def ownLines (key : SummaryKey) : List CostLine :=
  match key.scope with
  | .enterprise => inp.productLines key.month key.product
  | .org login => (inp.productLines key.month key.product).filter fun c => decide (c.workspaceId = some login)

def netOf (lines : List CostLine) : Int := (lines.map (·.amountNano)).sum

def unattributed (month : Nat) (product : Product) : Int :=
  netOf ((inp.productLines month product).filter fun c => decide (c.workspaceId.getD "" = ""))

def roundingNano : Int := |inp.rounding.getD 0|

/-- The causes that may explain a gap, in order. -/
def budgets (key : SummaryKey) (gap : Int) : List Budget :=
  let provisional := netOf ((inp.ownLines key).filter fun c => decide (c.finality ≠ "final"))
  let window := if !inp.monthClosed key.month then |gap| else |provisional|
  [⟨"revision_window", window, 0⟩, ⟨"copilot_revision_stale_rows", inp.stale key.month, -1⟩] ++
    (if key.scope = .enterprise then []
      else [⟨"copilot_unattributed_org", inp.unattributed key.month key.product, 1⟩]) ++
    [⟨"copilot_rounding", inp.roundingNano, 0⟩]

def inTolerance (gap ref : Int) : Bool := within gap ref inp.tol centNano

/-- The total of a key. -/
def total (key : SummaryKey) : Total :=
  let net := netOf (inp.ownLines key)
  let ref := netOf (inp.referenceLines key)
  let (parts, left) :=
    if inp.inTolerance (ref - net) ref then ([], 0)
    else explainBudget (ref - net) (inp.budgets key (ref - net))
  ⟨key, net, ref, parts, left⟩

/-- The keys whose gaps are explained: the summary's Actions lines bill other workflows too, and are
compared SKU by SKU. -/
def explainedKeys : List SummaryKey := inp.summaryKeys.filter fun key => decide (key.product ≠ .actions)

def totals : List Total := inp.explainedKeys.map inp.total

def totalGaps (t : Total) : List Gap :=
  t.parts.map (fun p => ⟨t.key.product.channel, some p.1, p.2, 0, t.key.month, true⟩) ++
    if t.left = 0 then [] else [⟨t.key.product.channel, none, 0, t.left, t.key.month, true⟩]

/-- The row of a total. -/
def totalRow (t : Total) : TotalRow :=
  let (status, residual) :=
    if inp.inTolerance t.gap t.ref then (if t.gap = 0 then "match" else "within_tolerance", none)
    else if t.left = 0 then ("explained", t.parts.head?.map (·.1))
    else ("unexplained", none)
  ⟨t.key, none, false, status, residual, t.net, some t.ref⟩

/-- `_norm_sku`. -/
def normSku (sku : Option String) : String := (withoutActions (sku.getD "")).getD (sku.getD "")

def skuAmounts (sku : CostLine → String) (lines : List CostLine) (name : String) : Option Int :=
  let own := lines.filter fun c => decide (sku c = name)
  if own = [] then none else some (netOf own)

def skusOf (sku : CostLine → String) (key : SummaryKey) : List String :=
  (((inp.referenceLines key ++ inp.ownLines key).map sku).dedup).insertionSort (· ≤ ·)

/-- The rows of the Actions SKUs of a key, with their gaps: the share of Copilot may not exceed the SKU. -/
def actionsRows (key : SummaryKey) : List (TotalRow × List Gap) :=
  (inp.skusOf (fun c => normSku c.sku) key).map fun name =>
    let r := skuAmounts (fun c => normSku c.sku) (inp.referenceLines key) name
    let o := (skuAmounts (fun c => normSku c.sku) (inp.ownLines key) name).getD 0
    let status := match r with
      | none => "unexplained"
      | some r =>
        if o ≤ r then "match"
        else if inp.inTolerance (r - o) r then "within_tolerance"
        else "over"
    let gaps : List Gap := if status = "unexplained" ∨ status = "over" then
        [⟨actionsChannel, none, 0, |r.getD 0 - o|, key.month, false⟩]
      else []
    (⟨key, some name, false, status, none, o, r⟩, gaps)

/-- The diagnostic rows of the SKUs of the AI credits of a key. -/
def diagnosticRows (key : SummaryKey) : List TotalRow :=
  if key.product ≠ .aiCredits then []
  else (inp.skusOf (fun c => c.sku.getD "") key).map fun name =>
    let r := (skuAmounts (fun c => c.sku.getD "") (inp.referenceLines key) name).getD 0
    let o := (skuAmounts (fun c => c.sku.getD "") (inp.ownLines key) name).getD 0
    ⟨key, some name, true, if inp.inTolerance (r - o) r then "match" else "explained", none, o, some r⟩

/-- `_summaries`: the rows and the gaps of the totals. -/
def summaries : List TotalRow × List Gap :=
  let perKey := inp.summaryKeys.map fun key =>
    if key.product = .actions then
      ((inp.actionsRows key).map (·.1), (inp.actionsRows key).flatMap (·.2))
    else (inp.totalRow (inp.total key) :: inp.diagnosticRows key, totalGaps (inp.total key))
  (perKey.flatMap (·.1), perKey.flatMap (·.2))

end ReconInput

end TokenBill.Copilot
