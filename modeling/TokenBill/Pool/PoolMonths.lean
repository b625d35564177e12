import TokenBill.Core.MoneyText
import TokenBill.Pool.Cells

/-!
# The pool months

`core/pool.py`, the pool rule: the included credits of the seats of an entity and month, the cells
that draw on them, the forecast of an open month, and the overage and the regime at each end of it. A
capped cost center is an entity of its own; in enterprise mode the enterprise shares the unused part of
the caps. The seats of a month come in as they are counted by each source, with the plan evidence.
-/

namespace TokenBill.Pool

open General
open Copilot.FocusRows (decStr isAutoTenth)

/-! ### Facts -/

/-- `_KNOWN_PLANS`, and `SCENARIOS`. -/
inductive KnownPlan where
  | business | enterprise
  deriving DecidableEq

def KnownPlan.text : KnownPlan → String
  | business => "business" | enterprise => "enterprise"

/-- `LICENSE_PLANS`; nothing is the plan `unknown`. -/
abbrev Plan : Type := Option KnownPlan

def planText (plan : Plan) : String := (plan.map KnownPlan.text).getD "unknown"

/-- `CopilotPlanFact`. -/
structure PlanFact where
  seatUsdPerMonth : Decimal
  includedCredits : Nat
  promoCredits : Option Nat
  (promoFrom promoTo : Option String)

/-- The facts the pool rule reads. -/
structure Facts where
  copilotPlan : KnownPlan → PlanFact
  reportLagDays : Int

/-- `facts.json`. -/
def packagedFacts : Facts where
  copilotPlan
    | .business => ⟨.ofInt 19, 1900, some 3000, some "2026-06-01", some "2026-09-01"⟩
    | .enterprise => ⟨.ofInt 39, 3900, some 7000, some "2026-06-01", some "2026-09-01"⟩
  reportLagDays := 3

/-! ### The pool rule -/

/-- Seats by plan. -/
abbrev Seats : Type := List (Plan × Decimal)

def Seats.total (seats : Seats) : Decimal := (seats.map (·.2)).sum

/-- `_as_decimal` of a decimal. -/
def inRange (d : Decimal) : Bool := decide (d.scale ≤ 20 ∧ d.mant.natAbs < 10 ^ (16 + d.scale))

/-- `_allowance`: the included credits of a seat, and the promotion that applies. -/
def allowance (facts : Facts) (plan : KnownPlan) (month : String) (promoEligible : Bool) : Decimal × Option String :=
  let fact := facts.copilotPlan plan
  let first := month ++ "-01"
  match promoEligible, fact.promoCredits, fact.promoFrom, fact.promoTo with
  | true, some credits, some start, some stop =>
    if start ≤ first ∧ first < stop then (.ofInt credits, some ("promo:" ++ start ++ "/" ++ stop))
    else (.ofInt fact.includedCredits, none)
  | _, _, _, _ => (.ofInt fact.includedCredits, none)

/-- `pool_credits` with the seats of one more plan. -/
def addSeats (facts : Facts) (month : String) (promoEligible : Bool) (acc : Decimal × Option String)
    (seats : Plan × Decimal) : Except Stop (Decimal × Option String) :=
  match seats.1 with
  | none => Pool.usage "pool_credits: plan unknown; split the seats into scenarios first"
  | some plan =>
    if !inRange seats.2 || decide (seats.2 < 0) then
      Pool.usage "pool_credits: seats must be non-negative decimals"
    else
      let (perSeat, applied) := allowance facts plan month promoEligible
      .ok (acc.1 + seats.2 * perSeat, if 0 < seats.2 then applied.or acc.2 else acc.2)

/-- `pool_credits`. -/
def poolCredits (facts : Facts) (seats : Seats) (month : String) (promoEligible : Bool) :
    Except Stop (Decimal × Option String) := do
  let _ ← monthBounds month "month"
  (seats.insertionSort fun a b => planText a.1 ≤ planText b.1).foldlM (addSeats facts month promoEligible) (0, none)

/-- What `regime` tells. -/
inductive Regime where
  | slack | overage | straddling | unknown
  deriving DecidableEq

def Regime.text : Regime → String
  | slack => "slack" | overage => "overage" | straddling => "straddling" | unknown => "unknown"

/-- `regime`. -/
def regime (consumedLow consumedHigh : Int) (poolNano : Option Int) : Except Stop Regime :=
  match poolNano with
  | none => .ok .unknown
  | some poolNano =>
    if consumedHigh < consumedLow then Pool.usage "regime: consumed_low > consumed_high"
    else if consumedHigh ≤ poolNano then .ok .slack
    else if poolNano < consumedLow then .ok .overage
    else .ok .straddling

/-- What happens beyond the cap of a cost center. -/
inductive CapPolicy where
  | block | continues | unknown
  deriving DecidableEq

def CapPolicy.text : CapPolicy → String
  | block => "block" | continues => "continue" | unknown => "unknown"

/-- `_cc_name`. -/
def ccName (key : String) : String :=
  if "cc:".toList <+: key.toList then String.ofList (key.toList.drop 3) else key

def byEntity {α : Type} (table : List (String × α)) : List (String × α) :=
  table.foldl (fun acc e => upsert (·.1) ("cc:" ++ ccName e.1, e.2) acc) []

/-- The overage of a cost center, low and high, under its policy. -/
def capOverage (policy : CapPolicy) (excess : Int) : Int × Int :=
  match policy with
  | .continues => (excess, excess)
  | .block => (0, 0)
  | .unknown => (0, excess)

/-- `overage_total`. -/
def overageTotal (entityConsumption pools capped : List (String × Int)) (policies : List (String × CapPolicy)) :
    Except Stop (Int × Int) :=
  let use := fun entity => (entityConsumption.lookup entity).getD 0
  let caps := byEntity capped
  let excess := fun c : String × Int =>
    capOverage (((byEntity policies).lookup c.1).getD .unknown) (max 0 (use c.1 - c.2))
  let low := (caps.map fun c => (excess c).1).sum
  let high := (caps.map fun c => (excess c).2).sum
  let draws := (caps.map fun c => min (use c.1) c.2).sum
  let uncapped := ((entityConsumption ++ pools).map (·.1)).dedup.filter fun k => decide (k ∉ caps.map (·.1))
  if 1 < uncapped.length ∧ caps = [] then
    let rest := (uncapped.map fun e => max 0 (use e - (pools.lookup e).getD 0)).sum
    .ok (low + rest, high + rest)
  else if 1 < uncapped.length then
    Pool.usage "overage_total: capped cost centers need a single parent pool entity"
  else
    let remainder := max 0 ((uncapped.map use).sum + draws - (pools.map (·.2)).sum)
    .ok (low + remainder, high + remainder)

/-- What the discounts tell of direct rows. -/
inductive DirectDraws where
  | yes | no | unknown
  deriving DecidableEq

/-- `direct_draws_pool`. -/
def directDrawsPool (cells : List Cell) : DirectDraws :=
  let direct := cells.filter (·.costType.isDirect)
  let poolDays := (cells.filter fun c => c.costType.isPooled && decide (0 < c.discountNano)).map fun c =>
    (c.month, c.dateUtc)
  if direct.isEmpty then .unknown
  else if direct.any (decide <| 0 < ·.discountNano) then .yes
  else if direct.any fun c => decide ((c.month, c.dateUtc) ∈ poolDays) then .no
  else .unknown

/-- `classify_discounts`: the pool draw, the other discounts and those that are not classified. -/
def classifyDiscounts (cells : List Cell) (grossIsList : Option Bool) (poolNano : Int) : Option Int × Int × Int :=
  let discounted := cells.filter fun c =>
    (c.costType.isPooled || c.costType.isDirect) && decide (c.discountNano ≠ 0)
  let isOther := fun c : Cell =>
    decide (c.routing = "auto" ∧ 0 < c.netNano) && isAutoTenth c.discountNano c.grossNano
  let other := ((discounted.filter isOther).map (·.discountNano)).sum
  let rest := ((discounted.filter fun c => !isOther c).map (·.discountNano)).sum
  if grossIsList = some true ∧ rest ≤ poolNano then (some rest, other, 0) else (none, other, rest)

/-! ### Seats -/

/-- `SEAT_SOURCES`. -/
inductive SeatSource where
  | seatLines | runFlags | licenses | seatCounts | reportUsers | none
  deriving DecidableEq

/-- `PLAN_SOURCES`. -/
inductive PlanSource where
  | seatLines | seatsApi | orgSettings | reportQuota | adminStatement | none
  deriving DecidableEq

/-- `PlanEvidence`. -/
structure PlanEvidence where
  (entityId month : String)
  source : PlanSource
  seats : List (Plan × Nat)
  conflict : Bool := false
  deriving DecidableEq

/-- `_Inputs.layers`: the seats of a month by source, by entity. -/
abbrev Layers : Type := SeatSource → List (String × Seats)

/-- `_Census`. -/
structure Census where
  source : SeatSource
  plans : Seats

/-- `_Inputs.census`: the first source that counts seats of an entity. -/
def census (layers : Layers) (entity : String) : Option Census :=
  [SeatSource.seatLines, .runFlags, .licenses, .seatCounts, .reportUsers].findSome? fun source =>
    (((layers source).lookup entity).filter fun seats => decide (0 < seats.total)).map (Census.mk source)

/-- `_MAX_COUNT`. -/
def maxCount : Nat := 10 ^ 15

/-- `_resolve_seats`. -/
def resolveSeats (pe : Option PlanEvidence) (cen : Option Census) : Except Stop (Seats × SeatSource) :=
  let stated := (pe.map (·.seats)).getD []
  let counted : Seats := (stated.filter fun s => decide (0 < s.2)).map fun s => (s.1, .ofInt s.2)
  if stated.any fun s => decide (maxCount < s.2) then
    Pool.usage "pool_months: plan evidence seat count out of range"
  else match cen with
    | some cen =>
      if cen.source = .seatLines ∧ (pe.all fun pe => decide (pe.source = .seatLines)) then .ok (cen.plans, .seatLines)
      else
        let known := counted.filter (·.1.isSome)
        let unknown := max cen.plans.total (Seats.total known) - Seats.total known
        .ok (if 0 < unknown then known ++ [(none, unknown)] else known, cen.source)
    | none => .ok (counted, .none)

/-- `_scenario_seats`. -/
def scenarioSeats (seats : Seats) (scenario : Option KnownPlan) : Seats :=
  tally (seats.filterMap fun s => (s.1.or scenario).map fun plan => (some plan, s.2))

/-! ### The plan-independent part -/

/-- Whether a month is over, past the report lag and final. -/
inductive PoolFinality where
  | closed | opened
  deriving DecidableEq

/-- `_Common`. -/
structure Common where
  (consumed estimate observedNet directNet : Int)
  directDraws : DirectDraws
  (daysFinal daysProvisional daysInMonth : Nat)
  finality : PoolFinality
  fc : Option Forecast
  aiCells : List Cell

def pooledCells (cells : List Cell) : List Cell := cells.filter (·.costType.isPooled)

/-- The credits of the pooled cells by day, as a series of nano-USD. -/
def dailySeries (pooled : List Cell) : List (String × Int) :=
  ((tally (pooled.map fun c => (c.dateUtc.getD "", c.credits))).insertionSort fun a b => a.1 ≤ b.1).map fun e =>
    (e.1, creditsToNano e.2)

/-- The days of the cells, and whether all cells of a day are final. -/
def dayFinality (cells : List Cell) : List (String × Bool) :=
  collect (fun c : Cell => c.dateUtc.getD "") (fun held c => held.getD true && c.final) cells

def openForecast (finality : PoolFinality) (monthGrain : Bool) (pooled : List Cell) (month today : String) (lag : Int) :
    Except Stop (Option Forecast) :=
  if finality = .opened ∧ !monthGrain then forecast (dailySeries pooled) month today lag else .ok none

/-- `_common`, given the first and the last day of the month. -/
def commonOf (entity month today : String) (cells : List Cell) (first last cutoff lag : Int)
    (estimates : List ((String × String) × Int)) : Except Stop Common := do
  let pooled := pooledCells cells
  let direct := cells.filter (·.costType.isDirect)
  let monthGrain := cells.any (·.dateUtc.isNone)
  let days := (last - first + 1).toNat
  let perDay := dayFinality cells
  let provisional := if monthGrain then if cells.all (·.final) then 0 else days
    else (perDay.filter fun d => !d.2).length
  -- a month-grain cell reports every day of its month
  let reported := fun date : String => monthGrain || decide (date ∈ (pooled ++ direct).map fun c => c.dateUtc.getD "")
  let finality := if last ≤ cutoff ∧ provisional = 0 then PoolFinality.closed else .opened
  let final := if monthGrain then if cells.all (·.final) then days else 0 else (perDay.filter (·.2)).length
  let fc ← openForecast finality monthGrain pooled month today lag
  return {
    consumed := creditsToNano ((pooled.map (·.credits)).sum)
    estimate := ((estimates.filter fun e => decide (e.1.1 = entity ∧ takeText 7 e.1.2 = month) &&
      !reported e.1.2).map (·.2)).sum
    observedNet := (pooled.map (·.netNano)).sum
    directNet := (direct.map (·.netNano)).sum
    directDraws := directDrawsPool (pooled ++ direct)
    daysFinal := if finality = .closed then days else final
    daysProvisional := provisional
    daysInMonth := days
    finality, fc
    aiCells := pooled ++ direct }

/-- `_common`. -/
def common (entity month today : String) (cells : List Cell) (todayDay lag : Int)
    (estimates : List ((String × String) × Int)) : Except Stop Common := do
  let (first, last) ← monthBounds month "month"
  let cutoff ← daysBefore todayDay lag
  commonOf entity month today cells first last cutoff lag estimates

/-- `_levels`: the month-end consumption at the low end, the point and the high end. -/
def Common.levels (cm : Common) : Levels :=
  match cm.finality, cm.fc with
  | .opened, some fc => fc.toLevels
  | _, _ => ⟨cm.consumed, cm.consumed, cm.consumed⟩

/-! ### Shared caps -/

/-- `_Shared`. -/
structure Shared where
  deduct : Decimal
  deducted : List String
  unused : Levels

def unusedOf (cap : Int) (use : Levels) : Levels :=
  ⟨max 0 (cap - use.low), max 0 (cap - use.point), max 0 (cap - use.high)⟩

/-- `entity[3:]`. -/
def centerName (entity : String) : String := String.ofList (entity.toList.drop 3)

def capOf (capped : List (String × Decimal)) (entity : String) : Option Decimal :=
  if "cc:".toList <+: entity.toList then capped.lookup (centerName entity) else none

/-- The capped cost centers of a month, with their caps and their consumption. -/
def cappedOf (commons : List ((String × String) × Common)) (capped : List (String × Decimal)) (month : String) :
    List (String × Decimal × Levels) :=
  ((commons.filter fun c => decide (c.1.2 = month)).filterMap fun c =>
    (capOf capped c.1.1).map fun cap => (c.1.1, cap, c.2.levels)).insertionSort fun a b => a.1 ≤ b.1

/-- `_shared`. -/
def sharedOf (ccs : List (String × Decimal × Levels)) (layers : Layers) (parent : Option Census) : Option Shared :=
  match ccs, parent with
  | _ :: _, some parent =>
    let alone := ccs.filter fun cc => !(((layers parent.source).lookup cc.1).any fun own => decide (0 < own.total))
    some {
      deduct := (alone.map (·.2.1)).sum
      deducted := alone.map (·.1)
      unused := (ccs.map fun cc => unusedOf (creditsToNano cc.2.1) cc.2.2).foldl (· + ·) 0 }
  | _, _ => none

/-! ### Figures -/

/-- `_figure_range`. -/
def figureRange (l : Levels) (basis : Basis) (note : String) (upper : Bool) : Except Stop Figure :=
  lift (FigureFields.build {
    nano := some l.point, evidence := .estimated, basis := basis, finality := .provisional
    lowNano := some l.low, highNano := some l.high, calibration := .uncalibrated, upperBound := upper
    note := note })

/-- What a consumption at each level takes beyond the pool that is available there. -/
def overAt (use pools : Levels) : Levels :=
  ⟨max 0 (use.low - pools.low), max 0 (use.point - pools.point), max 0 (use.high - pools.high)⟩

/-- `_overage_forecast`. -/
def overageForecast (fc : Forecast) (pools : Levels) (policy : Option CapPolicy) (lowerBoundSeats : Bool) :
    Except Stop Figure :=
  let cont := overAt fc.toLevels pools
  match policy with
  | some .block =>
    figureRange 0 .list ("cap policy block: overage 0; blocked demand " ++ nanoToCreditsStr cont.point ++
      " credits at p50 (ESTIMATED)") lowerBoundSeats
  | some .unknown =>
    figureRange { cont with low := 0 } .list
      "overage forecast; cap policy unknown: low assumes block, point and high continue" lowerBoundSeats
  | _ =>
    figureRange cont .list
      "overage forecast: month-end consumption over the pool at p50 (p10-p90), at $0.01 per credit" lowerBoundSeats

/-- `_FORECAST_NOTE`. -/
def forecastNote : String :=
  "forecast: month-end pooled consumption; observed days plus nearest-rank " ++
    "p10/p50/p90 of the last 10 business and 4 weekend days"

/-- `SEATS_LOWER_BOUND_NOTE`. -/
def seatsLowerBoundNote : String :=
  "seats lower bound (report_users): the pool is a lower bound and overage figures are upper bounds"

/-! ### One entity and month -/

/-- `billing_mode`. -/
inductive BillingMode where
  | metered | volume | azure | unknown
  deriving DecidableEq

def BillingMode.text : BillingMode → String
  | metered => "metered" | volume => "volume" | azure => "azure" | unknown => "unknown"

/-- `PoolMonth`. -/
structure PoolMonth where
  (entityId month : String)
  billingMode : BillingMode
  seats : List (String × String)
  seatsSource : SeatSource
  poolCredits : String
  poolNano : Int
  promo : Option String
  (consumedReportNano consumedEstimateNano : Int)
  poolDrawNano : Option Int
  (discountOtherNano discountUnclassifiedNano overageObservedNano directNetNano : Int)
  directDrawsPool : DirectDraws
  cappedPolicy : Option CapPolicy
  (daysFinal daysProvisional daysInMonth : Nat)
  finality : PoolFinality
  (forecast overageForecast : Option Figure)
  regime : Regime
  notes : List String
  planSource : PlanSource
  planScenario : Option KnownPlan
  planConflict : Bool

/-- What one entity and month is made of. -/
structure EntityInputs where
  (entity month : String)
  cm : Common
  pe : Option PlanEvidence
  cen : Option Census
  capped : List (String × Decimal)
  policies : List (String × CapPolicy)
  billingMode : BillingMode
  eligible : Bool
  grossIsList : Option Bool
  shared : Option Shared

/-- The cap of the entity, if it is a capped cost center. -/
def EntityInputs.cap (i : EntityInputs) : Option Decimal := capOf i.capped i.entity

def EntityInputs.policy (i : EntityInputs) : Option CapPolicy :=
  i.cap.map fun _ => (i.policies.lookup (centerName i.entity)).getD .unknown

/-- The share of the entity in the caps: of one with seats that is not capped. -/
def EntityInputs.share (i : EntityInputs) (seats : Seats) : Option Shared :=
  i.shared.filter fun _ => i.cap.isNone && !seats.isEmpty

/-- The pool of the entity in credits. -/
def EntityInputs.pool (i : EntityInputs) (seats : Seats) (allowance : Decimal) : Decimal :=
  match i.cap, i.share seats with
  | some cap, _ => cap
  | none, some share => max 0 (allowance - share.deduct)
  | none, none => allowance

def availOf (poolNano : Int) (unused : Levels) : Levels :=
  ⟨poolNano + unused.low, poolNano + unused.point, poolNano + unused.high⟩

/-- The regime of an entity and month. -/
def EntityInputs.regimeOf (i : EntityInputs) (poolKnown : Bool) (poolNano : Int) (unused : Levels) :
    Except Stop Regime :=
  if !poolKnown then .ok .unknown
  else match i.cm.finality, i.cm.fc with
    | .closed, _ => regime i.cm.consumed i.cm.consumed (some (poolNano + unused.point))
    | .opened, none => .ok .unknown
    | .opened, some fc => regime (fc.low - unused.low) (fc.high - unused.high) (some poolNano)

/-- The notes of an entity and month. -/
def EntityInputs.notes (i : EntityInputs) (seats : Seats) (seatsSource : SeatSource) (scenario : Option KnownPlan)
    (allowance poolC : Decimal) : List String :=
  let share := i.share seats
  let unused := (share.map (·.unused.point)).getD 0
  let note := fun (b : Bool) (text : String) => if b then [text] else []
  (match scenario with
    | some s => ["plan unknown: scenario " ++ s.text] ++
        note i.cap.isNone ("scenario overage = consumption - scenario pool; observed net of pooled rows " ++
          nanoToCreditsStr i.cm.observedNet ++ " credits")
    | none => []) ++
  note (i.pe.any (·.conflict)) "plan evidence conflict (dq.copilot_plan_conflict)" ++
  note (seatsSource = .reportUsers) seatsLowerBoundNote ++
  note (i.cap.isNone && seats.isEmpty) "seats unknown: pool and regime unknown" ++
  (match share with
    | some share => note (!share.deducted.isEmpty) ("caps of " ++ ", ".intercalate share.deducted ++
        " deducted from this pool (the seat source does not attribute their seats to them): " ++
        decStr share.deduct ++ " credits")
    | none => []) ++
  note (decide (0 < unused)) ("shared pool: unused caps of capped cost centers (" ++ nanoToCreditsStr unused ++
    " credits at the point) count toward this entity's regime and overage, not toward pool_credits; seat-change " ++
    "savings ignore them (conservative)") ++
  (match i.cap, i.policy with
    | some _, some policy =>
      ["capped cost center: cap " ++ decStr poolC ++ " credits, policy " ++ policy.text] ++
        note (!seats.isEmpty && decStr allowance != decStr poolC)
          ("cap differs from the seat allowance " ++ decStr allowance ++ " credits")
    | _, _ => []) ++
  note (i.cm.directDraws = .yes) ("direct-org rows draw on the pool (their discounts); consumption counts " ++
    "pooled rows only, so the regime may understate pool use") ++
  note (decide (i.cm.estimate ≠ 0)) ("consumed_estimate_nano: provider estimate (ai_credits_used) for days not " ++
    "yet in the report; never added to report sums") ++
  note (i.billingMode = .volume || i.billingMode = .azure) ("billing mode " ++ i.billingMode.text ++
    ": calendar-month pool assumed (VERIFY); seat savings only at renewal")

/-- The forecast of an open month. -/
def EntityInputs.forecastFigure (i : EntityInputs) : Except Stop (Option Figure) :=
  match i.cm.finality, i.cm.fc with
  | .opened, some fc => (figureRange fc.toLevels .listEquivalent forecastNote false).map some
  | _, _ => .ok none

/-- The overage forecast of an open month with a known pool. -/
def EntityInputs.overageFigure (i : EntityInputs) (poolKnown : Bool) (avail : Levels) (seatsSource : SeatSource) :
    Except Stop (Option Figure) :=
  match i.cm.finality, i.cm.fc, poolKnown with
  | .opened, some fc, true =>
    (Pool.overageForecast fc avail i.policy (seatsSource = .reportUsers)).map some
  | _, _, _ => .ok none

/-- The pool month of one scenario. -/
def EntityInputs.poolMonth (i : EntityInputs) (facts : Facts) (seats : Seats) (seatsSource : SeatSource)
    (scenario : Option KnownPlan) : Except Stop PoolMonth := do
  let (allowance, promo) ← poolCredits facts (scenarioSeats seats scenario) i.month i.eligible
  let poolKnown := i.cap.isSome || !seats.isEmpty
  let poolC := i.pool seats allowance
  let poolNano := creditsToNano poolC
  let unused := ((i.share seats).map (·.unused)).getD 0
  let avail := availOf poolNano unused
  let discounts := classifyDiscounts i.cm.aiCells i.grossIsList avail.point
  let reg ← i.regimeOf poolKnown poolNano unused
  let fcFig ← i.forecastFigure
  let overFig ← i.overageFigure poolKnown avail seatsSource
  return {
    entityId := i.entity, month := i.month, billingMode := i.billingMode
    seats := ((seats.filter fun s => decide (0 < s.2)).insertionSort fun a b => planText a.1 ≤ planText b.1).map
      fun s => (planText s.1, decStr s.2)
    seatsSource, poolCredits := decStr poolC, poolNano, promo
    consumedReportNano := i.cm.consumed, consumedEstimateNano := i.cm.estimate
    poolDrawNano := discounts.1, discountOtherNano := discounts.2.1, discountUnclassifiedNano := discounts.2.2
    overageObservedNano := if scenario.isNone || i.cap.isSome then i.cm.observedNet
      else max 0 (i.cm.consumed - avail.point)
    directNetNano := i.cm.directNet, directDrawsPool := i.cm.directDraws, cappedPolicy := i.policy
    daysFinal := i.cm.daysFinal, daysProvisional := i.cm.daysProvisional, daysInMonth := i.cm.daysInMonth
    finality := i.cm.finality, forecast := fcFig, overageForecast := overFig, regime := reg
    notes := i.notes seats seatsSource scenario allowance poolC
    planSource := (i.pe.map (·.source)).getD .none, planScenario := scenario
    planConflict := i.pe.any (·.conflict) }

/-- `_entity_month`. -/
def EntityInputs.poolMonths (i : EntityInputs) (facts : Facts) : Except Stop (List PoolMonth) := do
  let (seats, seatsSource) ← resolveSeats i.pe i.cen
  let scenarios : List (Option KnownPlan) :=
    if 0 < (seats.lookup none).getD 0 then [some .business, some .enterprise] else [none]
  scenarios.mapM (i.poolMonth facts seats seatsSource)

/-! ### All pool months -/

/-- What `pool_months` works on. -/
structure PoolInputs where
  cells : List Cell
  today : String
  mode : EntityMode := .enterprise
  capped : List (String × Decimal) := []
  policies : List (String × CapPolicy) := []
  eligible : Bool := true
  recentEstimates : List (String × Option String × Int) := []
  grossIsList : String → String → Option Bool := fun _ _ => none
  billingMode : String → BillingMode := fun _ => .unknown
  plans : List PlanEvidence := []
  layers : String → Layers := fun _ _ => []

/-- `_estimates`: one provider estimate read. -/
def estimateOf (mode : EntityMode) (item : String × Option String × Int) :
    Except Stop (Option ((String × String) × Int)) := do
  let _ ← parseDate item.1 "recent_estimates date"
  match item.2.1, mode with
  | none, .org => return none
  | entity, _ =>
    let entity := entity.getD "enterprise"
    if isEntityId entity then return some ((entity, item.1), item.2.2)
    else Pool.usage "recent_estimates: not a pool entity id"

/-- The plan evidence by entity and month. -/
def evidenceTable (plans : List PlanEvidence) : Except Stop (List ((String × String) × PlanEvidence)) :=
  plans.foldlM (fun table pe =>
    let key := (pe.entityId, pe.month)
    if (table.lookup key).any (· ≠ pe) then
      Pool.usage "pool_months: two different plan evidences for one entity-month"
    else .ok (upsert (·.1) (key, pe) table)) []

def cellsOfKey (cells : List Cell) (key : String × String) : List Cell :=
  cells.filter fun c => decide ((c.entityId, c.month) = key)

def poolKeys (cells : List Cell) (evidence : List ((String × String) × PlanEvidence)) : List (String × String) :=
  ((cells.map fun c => (c.entityId, c.month)) ++ evidence.map (·.1)).dedup.insertionSort fun a b => toLex a ≤ toLex b

/-- What the pool months of an entity and month are made of. -/
def entityInputs (inp : PoolInputs) (evidence : List ((String × String) × PlanEvidence))
    (commons : List ((String × String) × Common)) (c : (String × String) × Common) : EntityInputs where
  entity := c.1.1
  month := c.1.2
  cm := c.2
  pe := evidence.lookup c.1
  cen := census (inp.layers c.1.2) c.1.1
  capped := inp.capped
  policies := inp.policies
  billingMode := inp.billingMode c.1.1
  eligible := inp.eligible
  grossIsList := inp.grossIsList c.1.1 c.1.2
  shared := if inp.mode = .enterprise ∧ c.1.1 = "enterprise" then
      sharedOf (cappedOf commons inp.capped c.1.2) (inp.layers c.1.2) (census (inp.layers c.1.2) "enterprise")
    else none

/-- The plan-independent parts of all entities and months. -/
def commonsOf (facts : Facts) (inp : PoolInputs) (todayDay : Int) (estimates : List ((String × String) × Int))
    (keys : List (String × String)) : Except Stop (List ((String × String) × Common)) :=
  keys.mapM fun key => do
    return (key, ← common key.1 key.2 inp.today (cellsOfKey inp.cells key) todayDay facts.reportLagDays estimates)

/-- `pool_months`. -/
def poolMonths (facts : Facts) (inp : PoolInputs) : Except Stop (List PoolMonth) := do
  let todayDay ← parseDate inp.today "today"
  let evidence ← evidenceTable inp.plans
  let estimates ← inp.recentEstimates.mapM (estimateOf inp.mode)
  let commons ← commonsOf facts inp todayDay (estimates.filterMap id) (poolKeys inp.cells evidence)
  let months ← commons.mapM fun c => (entityInputs inp evidence commons c).poolMonths facts
  return months.flatten

end TokenBill.Pool
