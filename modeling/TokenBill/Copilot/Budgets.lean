import TokenBill.Core.Money
import TokenBill.Core.Labels
import TokenBill.General.Tables
import Mathlib.Data.List.Induction

/-!
# Copilot budget design

`copilot/budgets.py`: the pool months of a billing entity become request specs, with a
pool and a budget for each cost center, user-level budgets, and a budget of the
enterprise or organization above them. Nothing is executed, so a spec is data: its text
and its request. A text is kept in pieces, and a figure in it says which cost centers it
is a figure of.

Months are counted from year 0, so that they are ordered as their `YYYY-MM` texts are.
-/

namespace TokenBill.Copilot

open General List

/-! ### Pool months, cells and configuration -/

/-- A pool entity: the enterprise, an organization, or a capped cost center. -/
inductive Entity where
  | enterprise
  | org (login : String)
  | cc (name : String)
  deriving DecidableEq

/-- `entity_id`. -/
def Entity.id : Entity → String
  | .enterprise => "enterprise"
  | .org login => "org:" ++ login
  | .cc name => "cc:" ++ name

/-- `billing_mode`. -/
inductive BillingMode where
  | metered | volume | azure | unknown
  deriving DecidableEq

def BillingMode.value : BillingMode → String
  | .metered => "metered" | .volume => "volume" | .azure => "azure" | .unknown => "unknown"

/-- `regime`. -/
inductive Regime where
  | slack | overage | straddling | unknown
  deriving DecidableEq

def Regime.value : Regime → String
  | .slack => "slack" | .overage => "overage" | .straddling => "straddling" | .unknown => "unknown"

/-- `plan_scenario`, of a month with seats whose plan is unknown. -/
inductive Scenario where
  | business | enterprise
  deriving DecidableEq

/-- `PoolMonth`, as far as a budget reads it. -/
structure PoolMonth where
  entity : Entity
  month : Nat
  billingMode : BillingMode := .metered
  /-- Seat-months of each plan, as decimal strings. -/
  seats : List (String × String) := []
  poolCredits : String := "0"
  poolNano : Int := 0
  promo : Option String := none
  overageObservedNano : Int := 0
  directNetNano : Int := 0
  cappedPolicy : Option String := none
  daysFinal : Nat := 0
  daysProvisional : Nat := 0
  daysInMonth : Nat := 30
  /-- `finality == "closed"`. -/
  closed : Bool := true
  overageForecast : Option Figure := none
  regime : Regime := .slack
  planScenario : Option Scenario := none
  deriving DecidableEq

/-- `Cell`, as far as a budget reads it. -/
structure Cell where
  month : Nat
  entity : Entity
  costCenter : Option String
  (costType credits : String)
  nUsers : Int

/-- `ConfigSnapshot`. -/
structure ConfigSnapshot where
  snapshotMs : Nat
  (sourceKind kind entityId : String)
  attrs : List (String × AttrValue)
  fetchedMs : Nat := 0
  deriving DecidableEq

/-- `d[:7]` of a date, for a day since 1970-01-01. -/
def monthOf (day : Nat) : Nat :=
  let z := day + 719468
  let doe := z % 146097
  let yoe := (doe - doe / 1460 + doe / 36524 - doe / 146096) / 365
  let doy := doe - (365 * yoe + yoe / 4 - yoe / 100)
  let mp := (5 * doy + 2) / 153
  let month := if mp < 10 then mp + 3 else mp - 9
  let year := z / 146097 * 400 + yoe + if month ≤ 2 then 1 else 0
  year * 12 + (month - 1)

example : [0, 30, 31, 11016, 20605].map monthOf =
    [1970 * 12, 1970 * 12, 1970 * 12 + 1, 2000 * 12 + 1, 2026 * 12 + 5] := by decide

/-! ### Numbers -/

def digits (cs : List Char) : Nat := cs.foldl (fun n d => n * 10 + (d.toNat - '0'.toNat)) 0

/-- `_dec`: the number of a decimal string as a record holds it, cut at 40 characters; none for a
negative number and from 10^15 on. -/
def dec (value : String) : Option ℚ :=
  let text := value.toList.take 40
  let negative := text.head? = some '-'
  let body := if negative then text.tail else text
  let fraction := (body.dropWhile (· ≠ '.')).drop 1
  let d : ℚ := digits (body.takeWhile (· ≠ '.')) + digits fraction / 10 ^ fraction.length
  if negative ∧ d ≠ 0 ∨ 10 ^ 15 ≤ d then none else some d

/-- `_ceil_usd`: whole dollars, rounded up; 0 for nothing or less. -/
def ceilUsd (nano : Int) : Int := max 0 (ceilDiv nano nanoPerUsd)

/-- `_MIN_NOTE`. -/
def minNote : String := " (minimum $1: an alert on the first paid usage)"

/-- `_whole`: whole dollars, at least one, and the note of the minimum. -/
def whole (nano : Int) : Int × String :=
  if 1 ≤ ceilUsd nano then (ceilUsd nano, "") else (1, minNote)

/-- `_times_factor`: `OVERAGE_FACTOR` times an amount, rounded up. -/
def timesFactor (nano : Int) : Int := ceilDiv (nano * 11) 10

/-- `_p99`: the nearest-rank 99th percentile. -/
def p99 (values : List Int) : Int :=
  let ordered := values.insertionSort (· ≤ ·)
  ordered.getD ((99 * ordered.length + 99) / 100 - 1) 0

/-! ### Pool months -/

/-- `_overage_p90`. -/
def overageP90 (pm : PoolMonth) : Option Int :=
  match pm.overageForecast with
  | some fig =>
    match fig.highNano with
    | some high => some (max 0 high)
    | none => fig.nano.map (max 0)
  | none => some (max 0 pm.overageObservedNano)

/-- `_direct_forecast`. -/
def directForecast (pm : PoolMonth) : Int :=
  let days := pm.daysFinal + pm.daysProvisional
  if pm.closed ∨ days = 0 ∨ pm.daysInMonth ≤ days then max 0 pm.directNetNano
  else max 0 (ceilDiv (pm.directNetNano * pm.daysInMonth) days)

/-- `_per_seat_credits`. -/
def perSeatCredits (pm : PoolMonth) : Option ℚ := do
  let seats ← pm.seats.mapM fun s => dec s.2
  let pool ← dec pm.poolCredits
  if seats.sum ≤ 0 then none else some (pool / seats.sum)

/-- `copilot_allowance`: the credits of a seat of the plan `business` or `enterprise`. -/
def copilotAllowance (enterprise : Bool) (month : Nat) (promoEligible : Bool) : Nat :=
  if promoEligible ∧ 2026 * 12 + 5 ≤ month ∧ month < 2026 * 12 + 8 then
    if enterprise then 7000 else 3000
  else if enterprise then 3900 else 1900

/-- `copilot_seat_plan`. -/
def copilotSeatPlan (sku : Option String) : Option String :=
  match sku with
  | some "copilot_for_business" | some "copilot_standalone" => some "business"
  | some "copilot_enterprise" => some "enterprise"
  | _ => none

/-! ### Views of a cost center -/

/-- `_POOLED`. -/
def pooled : String := "ai_credit.user"

/-- `_CHANNEL`. -/
def channel : String := "github_copilot"

/-- `_MAX_COUNT`. -/
def maxCount : Int := 10 ^ 9

/-- A cost center of a pool entity in a month. -/
structure CostCenter where
  entity : Entity
  month : Nat
  name : String

/-- Whether a snapshot is at most as late as another. -/
def ConfigSnapshot.upTo (a b : ConfigSnapshot) : Bool :=
  if a.snapshotMs ≠ b.snapshotMs then decide (a.snapshotMs < b.snapshotMs)
  else if a.fetchedMs ≠ b.fetchedMs then decide (a.fetchedMs < b.fetchedMs)
  else decide (a.sourceKind ≤ b.sourceKind)

/-- The cost center a snapshot configures. -/
def ConfigSnapshot.costCenter (snap : ConfigSnapshot) : Option String :=
  match snap.entityId.toList with
  | 'c' :: 'c' :: ':' :: name => if snap.kind = "cost_center" then some (String.ofList name) else none
  | _ => none

/-- The `n_users` of a snapshot, if it is a count. -/
def ConfigSnapshot.nUsers (snap : ConfigSnapshot) : Option Int :=
  match snap.attrs.reverse.lookup "n_users" with
  | some (.int n) => if 0 ≤ n ∧ n ≤ maxCount then some n else none
  | _ => none

/-- `_Inputs`: what the views of a cost center are computed from. -/
structure Inputs where
  cells : List Cell
  config : List ConfigSnapshot
  costLines : List CostLine

namespace Inputs

variable (inp : Inputs)

def pooledCells (entity : Entity) (month : Nat) : List Cell :=
  inp.cells.filter fun x => decide (x.costType = pooled ∧ x.entity = entity ∧ x.month = month)

/-- The pooled cells of a cost center; a cell without a cost center is of none. -/
def cellsOf (cc : CostCenter) : List Cell :=
  (inp.pooledCells cc.entity cc.month).filter fun x =>
    decide (x.costCenter.filter (· ≠ "") = some cc.name)

/-- `draw`. -/
def draw (cc : CostCenter) : ℚ := ((inp.cellsOf cc).map fun x => (dec x.credits).getD 0).sum

/-- `entity_draw`. -/
def entityDraw (entity : Entity) (month : Nat) : ℚ :=
  ((inp.pooledCells entity month).map fun x => (dec x.credits).getD 0).sum

/-- `cell_users`. -/
def cellUsers (cc : CostCenter) : Int := ((inp.cellsOf cc).map (·.nUsers)).foldl max 0

/-- `cc_users`: the count of the latest snapshot of a cost center. -/
def ccUsers (name : String) : Option Int :=
  let latest := (inp.config.filter fun snap => decide (snap.costCenter = some name)).foldl
    (fun (best : Option ConfigSnapshot) snap =>
      match best with
      | none => some snap
      | some b => if snap.upTo b then some b else some snap) none
  latest.bind (·.nUsers)

def linesOf (month : Nat) (name : String) : List CostLine :=
  inp.costLines.filter fun l =>
    decide (l.channel = channel ∧ l.costCenter.filter (· ≠ "") = some name ∧ monthOf l.dateUtc = month)

/-- `user_credits`: the credits of each person with pooled usage. -/
def userCredits (month : Nat) (name : String) : List (Principal × Int) :=
  let lines := (inp.linesOf month name).filter fun l => decide (l.costType = some pooled)
  (lines.filterMap (·.principal)).dedup.map fun p =>
    (p, ((lines.filter fun l => decide (l.principal = some p)).map fun l =>
      l.listAmountNano.getD l.amountNano).sum)

/-- `seat_lines`: the seats of each plan, one entry a line. -/
def seatLines (month : Nat) (name : String) : List (String × ℚ) :=
  ((inp.linesOf month name).filter fun l => decide (l.costType = some "seat")).filterMap fun l =>
    (l.quantity.bind dec).map fun seats => ((copilotSeatPlan l.sku).getD "unknown", seats)

/-- `users`. -/
def users (cc : CostCenter) : Int :=
  match inp.ccUsers cc.name with
  | some n => n
  | none =>
    let people := inp.userCredits cc.month cc.name
    if people ≠ [] then people.length else inp.cellUsers cc

/-- `cost_centers`: those with pooled cells, by name. -/
def costCenters (entity : Entity) (month : Nat) : List CostCenter :=
  (((inp.pooledCells entity month).filterMap fun x => x.costCenter.filter (· ≠ "")).dedup.insertionSort
    (· ≤ ·)).map fun name => ⟨entity, month, name⟩

end Inputs

/-- `_allowance`: the credits of a cost center's licences. -/
def allowance (inp : Inputs) (pm : PoolMonth) (name : String) (users : Int) : Option ℚ :=
  let perSeat := perSeatCredits pm
  match inp.seatLines pm.month name with
  | [] => if users ≤ 0 then none else perSeat.map fun per => users * per
  | lines => do
    let shares ← lines.mapM fun line =>
      let per : Option ℚ :=
        if line.1 = "business" ∨ line.1 = "enterprise" then
          some (copilotAllowance (line.1 = "enterprise") pm.month pm.promo.isSome)
        else perSeat
      per.map fun per => line.2 * per
    pure shares.sum

/-! ### Specs -/

/-- A figure as a text shows it. -/
inductive Shown where
  /-- `${amount}`, of whole dollars. -/
  | dollars (amount : Int)
  /-- `fmt_usd(nano)`. -/
  | usd (nano : Int)
  /-- `_fmt_credits(credits)`. -/
  | credits (n : Int)
  /-- `_pct(…)`. -/
  | percent (n : Int)

/-- A piece of a text. A figure says which cost centers it is of: one, or those it sums up; a figure
of an entity's own money is of none. -/
inductive Piece where
  | text (s : String)
  | shown (f : Shown) (parts : List CostCenter)

/-- A piece as it stands in the text. -/
def Piece.render : Piece → String
  | .text s => s
  | .shown (.dollars n) _ => "$" ++ toString n
  | .shown (.usd nano) _ => fmtUsd nano
  | .shown (.credits n) _ => withCommas n.toNat
  | .shown (.percent n) _ => toString n

def render (pieces : List Piece) : String := String.join (pieces.map Piece.render)

/-- `budget_scope`. -/
inductive Scope where
  | enterprise | organization | costCenter | multiUserCostCenter
  deriving DecidableEq

def Scope.value : Scope → String
  | .enterprise => "enterprise" | .organization => "organization" | .costCenter => "cost_center"
  | .multiUserCostCenter => "multi_user_cost_center"

/-- The body of a request. -/
inductive Body where
  /-- `_budget_body`; `prevent_further_usage` holds for user-level scopes. -/
  | budget (amount : Int) (parts : List CostCenter) (scope : Scope) (entityName : String)
      (preventFurtherUsage : Bool)
  /-- `ai_credit_pool_enabled`. -/
  | enablePool

/-- A request, with the API version, lever and authorization every request has. -/
structure Request where
  (method path : String)
  body : Body
  note : List Piece

/-- `SPEC_KINDS`, in output order. -/
inductive SpecKind where
  | costCenterPool | budget | sizingCheck | note

/-- A spec. -/
structure Spec where
  kind : SpecKind
  scenario : Option Scenario
  entity : Entity
  month : Nat
  billingMode : BillingMode
  text : List Piece
  request : Option Request

/-- `_BUDGETS_PATH`. -/
def budgetsPath : String := "/enterprises/\x7benterprise\x7d/settings/billing/budgets"

/-- `_CC_PATCH_PATH`. -/
def ccPatchPath : String :=
  "/enterprises/\x7benterprise\x7d/settings/billing/cost-centers/\x7bcost_center_id\x7d"

/-- `_TRADEOFF`. -/
def tradeoff : String :=
  "prevent_further_usage false: alerts only (trade-off: true would stop further paid " ++
    "usage at the budget; set it only where blocking is acceptable)"

/-- `_HARD_STOP`. -/
def hardStop : String :=
  "prevent_further_usage true: user-level budgets always hard-stop and the API " ++
    "requires it for user-level scopes"

/-- `_VOLUME_NOTE`. -/
def volumeNote : String :=
  "cost centers apply only to metered usage; no cost-center pool, cost-center or " ++
    "user-level budget advice (VERIFY whether volume-licensed seats' included credits " ++
    "can be assigned to cost centers)"

/-- `_scen_prefix`. -/
def scenPrefix : Option Scenario → String
  | none => ""
  | some .business => "if Business: "
  | some .enterprise => "if Enterprise: "

/-- `_spec`. -/
def spec (kind : SpecKind) (pm : PoolMonth) (scenario : Option Scenario) (text : List Piece)
    (request : Option Request := none) : Spec :=
  ⟨kind, scenario, pm.entity, pm.month, pm.billingMode, text, request⟩

/-- A request that creates a budget. -/
def budgetRequest (amount : Int) (parts : List CostCenter) (scope : Scope) (entityName : String)
    (note : List Piece) : Request where
  method := "POST"
  path := budgetsPath
  body := .budget amount parts scope entityName (scope = .multiUserCostCenter)
  note := note

/-- `_entity_scope`. -/
def entityScope : Entity → Scope × String
  | .org login => (.organization, login)
  | .cc name => (.costCenter, name)
  | .enterprise => (.enterprise, "<enterprise slug>")

/-! ### User-level budgets -/

/-- The user-level budget of a cost center, in whole dollars, if enough people have usage. -/
def userLevelAmount (inp : Inputs) (k : Nat) (cc : CostCenter) : Option Int :=
  let people := inp.userCredits cc.month cc.name
  if people = [] ∨ people.length < k then none
  else some (max 1 (ceilUsd (p99 (people.map (·.2)))))

/-- The spec of a cost center in `_user_level`. -/
def userLevelSpec (inp : Inputs) (pm : PoolMonth) (k : Nat) (cc : CostCenter) : Option Spec :=
  match userLevelAmount inp k cc with
  | none =>
    if inp.userCredits cc.month cc.name = [] then none
    else some <| spec .note pm none
      [.text ("Cost center " ++ cc.name ++ ": fewer than k=" ++ toString k ++ " users with usage, " ++
        "so no user-level budget amount is computed (k-anonymity).")]
  | some amount =>
    let monthNote := if pm.closed then "" else " (open month: month to date, may understate)"
    some <| spec .budget pm none
      [.text ("Cost center " ++ cc.name ++ ": user-level budget "), .shown (.dollars amount) [cc],
       .text (" per user (cohort p99 of monthly credits from at least k=" ++ toString k ++ " users" ++
         monthNote ++ "); " ++ hardStop ++ ".")]
      (some <| budgetRequest amount [cc] .multiUserCostCenter cc.name
        [.text ("User-level budget for cost center " ++ cc.name ++ ": "),
         .shown (.dollars amount) [cc],
         .text (" per user = cohort p99, never below $1; " ++ hardStop ++ ".")])

/-- `_user_level`: the user-level specs of a pool month. -/
def userLevel (inp : Inputs) (pm : PoolMonth) (k : Nat) : List Spec :=
  (inp.costCenters pm.entity pm.month).filterMap (userLevelSpec inp pm k)

/-- The totals of the user-level caps of a pool month, by cost center. -/
def userCaps (inp : Inputs) (pm : PoolMonth) (k : Nat) : List (CostCenter × Int) :=
  (inp.costCenters pm.entity pm.month).filterMap fun cc =>
    (userLevelAmount inp k cc).map fun amount => (cc, amount * nanoPerUsd * inp.users cc)

/-! ### Metered entities -/

/-- The budget of a capped cost center. -/
def cappedSpec (pm : PoolMonth) (name : String) (p90 : Int) : Spec × Int :=
  let (amount, floor) := whole (timesFactor p90)
  let parts : List CostCenter := [⟨pm.entity, pm.month, name⟩]
  let pre := scenPrefix pm.planScenario
  (spec .budget pm pm.planScenario
    [.text (pre ++ "Capped cost center " ++ name ++ ": budget "), .shown (.dollars amount) parts,
     .text " = forecast overage p90 ", .shown (.usd p90) parts,
     .text (" x 1.1, rounded up" ++ floor ++ "; at the cap its members are '" ++
       pm.cappedPolicy.getD "unknown" ++ "' (block or continue); " ++ tradeoff ++ ".")]
    (some <| budgetRequest amount parts .costCenter name
      [.text (pre ++ "cost-center budget: forecast overage p90 x 1.1 rounded up; " ++ tradeoff ++ ".")]),
   amount)

/-- The pool advice for a cost center with enough users. -/
def poolAdvice (inp : Inputs) (pm : PoolMonth) (cc : CostCenter) : List Spec :=
  let pre := scenPrefix pm.planScenario
  let draw := inp.draw cc
  match allowance inp pm cc.name (inp.users cc) with
  | none => [spec .note pm pm.planScenario
      [.text (pre ++ "Cost center " ++ cc.name ++ ": licences' allowance unknown (no seat counts), " ++
        "pool advice skipped.")]]
  | some allowed =>
    if (pm.regime = .overage ∨ pm.regime = .straddling) ∧ allowed < draw then
      let pct : Piece := if 0 < allowed then .shown (.percent (Rat.floor (draw * 100 / allowed))) [cc]
        else .text "unbounded"
      [spec .costCenterPool pm pm.planScenario
        [.text (pre ++ "Cost center " ++ cc.name ++ " drew "), pct,
         .text "% of its licences' allowance (", .shown (.credits (Rat.floor draw)) [cc],
         .text " of ", .shown (.credits (Rat.floor allowed)) [cc],
         .text (" credits) while " ++ pm.entity.id ++ " is in " ++ pm.regime.value ++ ": enable its " ++
           "AI credit pool and choose what happens at the cap - block its members, or let them " ++
           "continue as paid overage (chosen in the billing UI; REST sets only " ++
           "ai_credit_pool_enabled).")]
        (some ⟨"PATCH", ccPatchPath, .enablePool,
          [.text (pre ++ "cost center " ++ cc.name ++ ": "), pct,
           .text ("% of its licences' allowance in an overage month; enable its AI credit pool, " ++
             "then choose block or continue at the cap in the billing UI (cost_center_id from GET " ++
             "/enterprises/\x7benterprise\x7d/settings/billing/cost-centers).")]⟩)]
    else []

/-- The pro-rata share of a cost center in the forecast overage. -/
def allocated (inp : Inputs) (cc : CostCenter) (p90 : Int) : Int :=
  let entityDraw := inp.entityDraw cc.entity cc.month
  let share := if 0 < entityDraw then inp.draw cc / entityDraw else 0
  Rat.ceil (p90 * share)

/-- The metered budget of a cost center with enough users. -/
def shareSpec (inp : Inputs) (pm : PoolMonth) (cc : CostCenter) (p90 : Int) : Spec × Int :=
  let alloc := allocated inp cc p90
  let (amount, floor) := whole (timesFactor alloc)
  let pre := scenPrefix pm.planScenario
  (spec .budget pm pm.planScenario
    [.text (pre ++ "Cost center " ++ cc.name ++ ": metered budget "), .shown (.dollars amount) [cc],
     .text " = its pro-rata share of the forecast overage p90 (", .shown (.usd alloc) [cc],
     .text (", estimated allocation by pooled credits) x 1.1, rounded up" ++ floor ++ "; " ++
       tradeoff ++ ".")]
    (some <| budgetRequest amount [cc] .costCenter cc.name
      [.text (pre ++ "cost-center metered budget for " ++ cc.name ++ ": forecast overage p90 share " ++
        "x 1.1 rounded up (estimated); " ++ tradeoff ++ ".")]),
   amount)

/-- What `_metered` gives for a cost center of an entity that is not capped: specs, and its budget. -/
def costCenterSpecs (inp : Inputs) (pm : PoolMonth) (k : Nat) (cc : CostCenter) :
    List Spec × List (CostCenter × Int) :=
  if inp.users cc < k then
    ([spec .note pm pm.planScenario
      [.text (scenPrefix pm.planScenario ++ "Cost center " ++ cc.name ++ ": fewer than k=" ++
        toString k ++ " users, no cost-center figures (k-anonymity).")]], [])
  else
    match overageP90 pm with
    | none => (poolAdvice inp pm cc, [])
    | some p90 =>
      let (s, amount) := shareSpec inp pm cc p90
      (poolAdvice inp pm cc ++ [s], [(cc, amount)])

/-- What the loop of `_metered` gives for a pool month: specs, and the cost-center budgets. -/
def memberSpecs (inp : Inputs) (k : Nat) (pm : PoolMonth) : List Spec × List (CostCenter × Int) :=
  match pm.entity with
  | .cc name =>
    match overageP90 pm with
    | none => ([spec .note pm pm.planScenario
        [.text (scenPrefix pm.planScenario ++ "capped cost center " ++ name ++
          ": overage forecast unpriced, no budget.")]], [])
    | some p90 =>
      let (s, amount) := cappedSpec pm name p90
      ([s], [(⟨pm.entity, pm.month, name⟩, amount)])
  | _ =>
    let each := (inp.costCenters pm.entity pm.month).map (costCenterSpecs inp pm k)
    (each.flatMap (·.1), each.flatMap (·.2))

def budgetTotal (budgets : List (CostCenter × Int)) : Int :=
  (budgets.map fun b => b.2 * nanoPerUsd).sum

/-- The budget of `_top_budget`, for a priced overage. -/
def topSpec (group : List PoolMonth) (lead : PoolMonth) (budgets : List (CostCenter × Int))
    (p90 : Int) : Spec :=
  let pre := scenPrefix lead.planScenario
  let total := budgetTotal budgets
  let direct := (group.map directForecast).sum
  let (amount, floor) := whole (max total (timesFactor p90) + direct)
  let (scope, name) := entityScope lead.entity
  let parts := budgets.map (·.1)
  spec .budget lead lead.planScenario
    [.text (pre ++ lead.entity.id ++ ": " ++ scope.value ++ " budget "), .shown (.dollars amount) parts,
     .text " >= the cost-center budgets (", .shown (.usd total) parts,
     .text ") and the forecast overage p90 x 1.1 (", .shown (.usd (timesFactor p90)) [],
     .text "), plus the direct-org forecast (", .shown (.usd direct) [],
     .text (")" ++ floor ++ "; " ++ tradeoff ++ ".")]
    (some <| budgetRequest amount parts scope name
      [.text (pre ++ scope.value ++ " budget: at least the cost-center budgets plus the direct-org " ++
        "forecast; " ++ tradeoff ++ ".")])

/-- The sizing check of `_top_budget`. -/
def sizingSpec (group : List PoolMonth) (lead : PoolMonth) (caps : List (CostCenter × Int)) : Spec :=
  let pre := scenPrefix lead.planScenario
  let capTotal := (caps.map (·.2)).sum
  let pool := (group.map (·.poolNano)).sum
  let parts := caps.map (·.1)
  spec .sizingCheck lead lead.planScenario <|
    if capTotal ≠ 0 then
      [.text (pre ++ "Sizing check (GitHub) for " ++ lead.entity.id ++ ": user-level caps "),
       .shown (.usd capTotal) parts, .text " - pool ", .shown (.usd pool) [],
       .text " = max metered ", .shown (.usd (max 0 (capTotal - pool))) parts, .text "."]
    else
      [.text (pre ++ "Sizing check (GitHub) for " ++ lead.entity.id ++ ": no user-level budgets " ++
        "sized, so max metered = user-level caps - pool "), .shown (.usd pool) [],
       .text " cannot be computed."]

/-- `_top_budget`. -/
def topBudget (group : List PoolMonth) (lead : PoolMonth) (budgets caps : List (CostCenter × Int)) :
    List Spec :=
  (match overageP90 lead with
    | none => [spec .note lead lead.planScenario
        [.text (scenPrefix lead.planScenario ++ lead.entity.id ++ ": overage forecast unpriced, no " ++
          "enterprise / organization budget sized.")]]
    | some p90 => [topSpec group lead budgets p90]) ++ [sizingSpec group lead caps]

/-- `_metered`: the scenario-dependent specs of a billing group; `caps` are the totals of the
user-level caps of an entity in a month. -/
def metered (inp : Inputs) (k : Nat) (caps : Entity → Nat → List (CostCenter × Int))
    (group : List PoolMonth) : List Spec :=
  let members := group.map (memberSpecs inp k)
  let specs := members.flatMap (·.1)
  match group.head? with
  | none => specs
  | some lead =>
    match lead.entity with
    | .cc _ => specs
    | _ => specs ++ topBudget group lead (members.flatMap (·.2))
        (group.flatMap fun pm => caps pm.entity pm.month)

/-! ### Other billing modes -/

/-- `_unmetered`. -/
def unmetered (pm : PoolMonth) : List Spec :=
  let pre := scenPrefix pm.planScenario
  let note := spec .note pm pm.planScenario
    [.text (pre ++ pm.entity.id ++ ": billing mode " ++ pm.billingMode.value ++ "; " ++ volumeNote ++
      ".")]
  match pm.entity, overageP90 pm with
  | .cc _, _ => [note]
  | _, none => [note]
  | _, some p90 =>
    let direct := directForecast pm
    let (amount, floor) := whole (timesFactor p90 + direct)
    let (scope, name) := entityScope pm.entity
    [note, spec .budget pm pm.planScenario
      [.text (pre ++ pm.entity.id ++ ": " ++ scope.value ++ " budget "), .shown (.dollars amount) [],
       .text " = forecast overage p90 x 1.1 plus the direct-org forecast (", .shown (.usd direct) [],
       .text ("), rounded up" ++ floor ++ "; VERIFY how " ++ pm.billingMode.value ++
         " billing invoices overage; " ++ tradeoff ++ ".")]
      (some <| budgetRequest amount [] scope name
        [.text (pre ++ scope.value ++ " budget (" ++ pm.billingMode.value ++ " billing, VERIFY): " ++
          "forecast overage p90 x 1.1 plus the direct-org forecast; " ++ tradeoff ++ ".")])]

/-! ### Billing groups -/

/-- The key of `_latest`. -/
def PoolMonth.key (pm : PoolMonth) : Entity × Option Scenario := (pm.entity, pm.planScenario)

/-- A pool month kept if it is the first of its key, or later than the one kept. -/
def keepLatest (best : List PoolMonth) (pm : PoolMonth) : List PoolMonth :=
  match best.find? fun b => decide (b.key = pm.key) with
  | none => upsert PoolMonth.key pm best
  | some b => if b.month < pm.month then upsert PoolMonth.key pm best else best

/-- `_latest`: the latest month of every entity and scenario. -/
def latest (pools : List PoolMonth) : List PoolMonth := pools.foldl keepLatest []

theorem latest_append (pools : List PoolMonth) (pm : PoolMonth) :
    latest (pools ++ [pm]) = keepLatest (latest pools) pm := foldl_append

theorem mem_of_mem_keepLatest {best : List PoolMonth} {pm x : PoolMonth} (h : x ∈ keepLatest best pm) :
    x = pm ∨ x ∈ best := by
  unfold keepLatest at h
  split at h
  · exact mem_of_mem_upsert h
  · split at h
    · exact mem_of_mem_upsert h
    · exact .inr h

theorem mem_of_mem_latest {pools : List PoolMonth} {pm : PoolMonth} (h : pm ∈ latest pools) :
    pm ∈ pools := by
  induction pools using List.reverseRecOn with
  | nil => exact h
  | append_singleton pools x ih =>
    rw [latest_append] at h
    rcases mem_of_mem_keepLatest h with rfl | h
    · exact mem_append_right _ mem_cons_self
    · exact mem_append_left _ (ih h)

theorem nodup_latest (pools : List PoolMonth) : ((latest pools).map PoolMonth.key).Nodup := by
  induction pools using List.reverseRecOn with
  | nil => exact nodup_nil
  | append_singleton pools x ih =>
    rw [latest_append, keepLatest]
    split
    · exact nodup_map_upsert ih
    · split
      · exact nodup_map_upsert ih
      · exact ih

/-- A month kept is at least as late as any other of its entity and scenario. -/
theorem exists_latest {pools : List PoolMonth} {pm : PoolMonth} (h : pm ∈ pools) :
    ∃ b ∈ latest pools, b.key = pm.key ∧ pm.month ≤ b.month := by
  induction pools using List.reverseRecOn with
  | nil => cases h
  | append_singleton pools x ih =>
    rw [latest_append]
    -- what is kept for a key is read by it: the new month, or what was kept before
    have hnew : ∃ b ∈ keepLatest (latest pools) x, b.key = x.key ∧ x.month ≤ b.month := by
      unfold keepLatest
      split
      · exact ⟨x, mem_upsert_self, rfl, le_rfl⟩
      · rename_i b hb
        split
        · exact ⟨x, mem_upsert_self, rfl, le_rfl⟩
        · exact ⟨b, mem_of_find?_eq_some hb, by simpa using find?_some hb, by omega⟩
    have hold : ∀ y ∈ latest pools, ∃ b ∈ keepLatest (latest pools) x, b.key = y.key ∧
        y.month ≤ b.month := fun y hy => by
      by_cases hk : y.key = x.key
      · unfold keepLatest
        split
        · rename_i hnone
          exact absurd (find?_eq_none.mp hnone y hy) (by simpa using hk)
        · rename_i b hb
          have hbk : b.key = x.key := by simpa using find?_some hb
          obtain rfl : b = y := inj_on_of_nodup_map (nodup_latest pools)
            (mem_of_find?_eq_some hb) hy (hbk.trans hk.symm)
          split
          · exact ⟨x, mem_upsert_self, hk.symm, by omega⟩
          · exact ⟨b, hy, rfl, le_rfl⟩
      · unfold keepLatest
        split
        · exact ⟨y, mem_upsert_of_ne hk hy, rfl, le_rfl⟩
        · split
          · exact ⟨y, mem_upsert_of_ne hk hy, rfl, le_rfl⟩
          · exact ⟨y, hy, rfl, le_rfl⟩
    rcases mem_append.mp h with h | h
    · obtain ⟨y, hy, hk, hm⟩ := ih h
      obtain ⟨b, hb, hbk, hbm⟩ := hold y hy
      exact ⟨b, hb, hbk.trans hk, hm.trans hbm⟩
    · obtain rfl := mem_singleton.mp h
      exact hnew

/-- The order of the members of a group: the enterprise first. -/
def memberLe (a b : PoolMonth) : Bool :=
  if a.entity = .enterprise then true
  else if b.entity = .enterprise then false
  else decide (a.entity.id ≤ b.entity.id)

/-- Whether a pool month is of an organization. -/
def PoolMonth.isOrg (pm : PoolMonth) : Bool :=
  match pm.entity with
  | .org _ => true
  | _ => false

/-- The key of `_groups`. -/
def PoolMonth.period (pm : PoolMonth) : Nat × Option Scenario := (pm.month, pm.planScenario)

/-- `_groups`: an enterprise with its capped cost centers for each month and scenario, then each
organization alone. -/
def groups (pools : List PoolMonth) : List (List PoolMonth) :=
  let others := pools.filter fun pm => !pm.isOrg
  (firstOfKey id (others.map PoolMonth.period)).map (fun period =>
    (others.filter fun pm => decide (pm.period = period)).insertionSort fun a b => memberLe a b) ++
    (pools.filter (·.isOrg)).map fun pm => [pm]

/-! ### Budget design -/

/-- `_SCENARIO_ORDER`. -/
def scenarioOrder : Option Scenario → Nat
  | none => 0
  | some .business => 1
  | some .enterprise => 2

/-- The place of a kind in `SPEC_KINDS`. -/
def SpecKind.order : SpecKind → Nat
  | .costCenterPool => 0 | .budget => 1 | .sizingCheck => 2 | .note => 3

/-- The output order of specs. -/
def Spec.le (a b : Spec) : Bool :=
  if scenarioOrder a.scenario ≠ scenarioOrder b.scenario then
    decide (scenarioOrder a.scenario < scenarioOrder b.scenario)
  else if a.entity.id ≠ b.entity.id then decide (a.entity.id < b.entity.id)
  else if a.month ≠ b.month then decide (a.month < b.month)
  else if a.kind.order ≠ b.kind.order then decide (a.kind.order < b.kind.order)
  else decide (render a.text ≤ render b.text)

/-- The order in which user-level budgets are designed. -/
def PoolMonth.le (a b : PoolMonth) : Bool :=
  if a.entity.id ≠ b.entity.id then decide (a.entity.id < b.entity.id)
  else if a.month ≠ b.month then decide (a.month < b.month)
  else decide (scenarioOrder a.planScenario ≤ scenarioOrder b.planScenario)

/-- Whether a pool month is of a capped cost center. -/
def PoolMonth.isCapped (pm : PoolMonth) : Bool :=
  match pm.entity with
  | .cc _ => true
  | _ => false

/-- The pool months whose user-level budgets are designed: the first of each entity and month. -/
def userLevelMonths (pools : List PoolMonth) : List PoolMonth :=
  firstOfKey (fun pm => (pm.entity, pm.month)) <|
    (pools.filter fun pm => decide (pm.billingMode = .metered) && !pm.isCapped).insertionSort
      fun a b => a.le b

/-- `caps`: the totals of the user-level caps of an entity in a month. -/
def capsOf (inp : Inputs) (k : Nat) (pools : List PoolMonth) (entity : Entity) (month : Nat) :
    List (CostCenter × Int) :=
  ((userLevelMonths pools).filter fun pm => decide (pm.entity = entity ∧ pm.month = month)).flatMap
    fun pm => userCaps inp pm k

/-- The specs of `budget_design` before they are sorted. -/
def designSpecs (pools : List PoolMonth) (inp : Inputs) (k : Nat) : List Spec :=
  let pools := latest pools
  (userLevelMonths pools).flatMap (fun pm => userLevel inp pm k) ++
    (pools.filter fun pm => decide (pm.billingMode ≠ .metered)).flatMap unmetered ++
    (groups (pools.filter fun pm => decide (pm.billingMode = .metered))).flatMap
      (metered inp k (capsOf inp k pools))

/-- `budget_design`. -/
def budgetDesign (pools : List PoolMonth) (cells : List Cell) (config : List ConfigSnapshot) (k : Int)
    (costLines : List CostLine) : Except Error (List Spec) :=
  if k < 1 then .error (.usage "k-anonymity threshold k must be an int >= 1")
  else .ok ((designSpecs pools ⟨cells, config, costLines⟩ k.toNat).insertionSort fun a b => a.le b)

end TokenBill.Copilot
