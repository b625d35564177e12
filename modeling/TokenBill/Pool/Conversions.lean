import TokenBill.Core.FigureAlgebra
import TokenBill.Pool.PoolMonths

/-!
# Conversions to invoice dollars

`core/pool.py`, what a saving is worth on the invoice of a pool month: a credit saving reduces the
overage first and the rest of it is headroom, and a seat change moves the fees and the pool at once.
-/

namespace TokenBill.Pool

open General

/-- `unpriced`. -/
def unpriced (reason : String) (basis : Basis) : Figure :=
  ⟨{ nano := none, evidence := .exact, basis := basis, note := unpricedReason reason }, by
    have hnote : startsWith (unpricedReason reason) "unpriced:" = true := unpricedReason_starts reason
    simp [FigureFields.check, FigureFields.checkRange, FigureFields.checkEvidence, hnote]⟩

/-- The point and the range of a priced figure: a point is its own range. -/
def figureLevels (f : Figure) (nano : Int) : Levels := ⟨f.lowNano.getD nano, nano, f.highNano.getD nano⟩

def shownLevels (f : Figure) : Option Levels := f.nano.map (figureLevels f)

/-- `_consumption_states`. -/
def consumptionStates (pm : PoolMonth) : Levels :=
  match pm.finality, pm.forecast.bind shownLevels with
  | .opened, some levels => levels
  | _, _ => ⟨pm.consumedReportNano, pm.consumedReportNano, pm.consumedReportNano⟩

/-- `_scenario_note`. -/
def scenarioNote (pm : PoolMonth) : String :=
  match pm.planScenario with
  | some s => "; plan unknown: scenario " ++ s.text
  | none => ""

/-! ### Credit savings -/

/-- `_realize`. -/
def realize (saving overage slack : Int) : Int :=
  if 0 ≤ saving then min saving overage
  else if 0 < overage then saving
  else -max 0 (-saving - slack)

/-- The overage that a credit saving is realized against. -/
structure UsedOverage where
  nano : Int
  upper : Bool
  note : String

/-- Its forecast in an open month, else what is observed. -/
def usedOverage (pm : PoolMonth) : UsedOverage :=
  match pm.finality, pm.overageForecast.bind fun f => f.nano.map ((f.upperBound, ·)) with
  | .opened, some (upper, nano) =>
    ⟨nano, upper || pm.cappedPolicy = some .unknown, "overage forecast " ++ nanoToCreditsStr nano ++ " credits"⟩
  | _, _ => ⟨pm.overageObservedNano, false, "overage " ++ nanoToCreditsStr pm.overageObservedNano ++ " credits"⟩

def poolSlack (pm : PoolMonth) : Int := max 0 (pm.poolNano - (consumptionStates pm).point)

def invoiceLevels (pm : PoolMonth) (s : Levels) : Levels :=
  let part := fun n => realize n (usedOverage pm).nano (poolSlack pm)
  ⟨part s.low, part s.point, part s.high⟩

def headroomLevels (pm : PoolMonth) (s : Levels) : Levels :=
  let inv := invoiceLevels pm s
  ⟨s.low - inv.low, s.point - inv.point, s.high - inv.high⟩

/-- The fields of a part of a saving. -/
def partFields (saving : Figure) (l : Levels) (basis : Basis) (upper : Bool) (note : String) : FigureFields where
  nano := some l.point
  evidence := .estimated
  basis := basis
  lowNano := if saving.lowNano.isSome then some l.low else none
  highNano := if saving.lowNano.isSome then some l.high else none
  calibration := if saving.calibration ≠ .na then saving.calibration else .uncalibrated
  upperBound := upper
  provenance := saving.provenance
  note := note

def realizeNote (pm : PoolMonth) : String :=
  "pool rule (R11): invoice = min(saving, overage); regime " ++ pm.regime.text ++ "; " ++ (usedOverage pm).note ++
    scenarioNote pm

def invoiceFields (saving : Figure) (nano : Int) (pm : PoolMonth) : FigureFields :=
  partFields saving (invoiceLevels pm (figureLevels saving nano)) .list
    (pm.seatsSource = .reportUsers || (usedOverage pm).upper || saving.upperBound) (realizeNote pm)

def headroomFields (saving : Figure) (nano : Int) (pm : PoolMonth) : FigureFields :=
  partFields saving (headroomLevels pm (figureLevels saving nano)) .listEquivalent saving.upperBound
    (realizeNote pm ++ "; headroom: list-equivalent pool credits, not invoice dollars")

/-- The parts of a priced saving in a month whose regime is known. -/
def realizePriced (saving : Figure) (nano : Int) (pm : PoolMonth) : Except Error (Figure × Figure) := do
  let invoice ← (invoiceFields saving nano pm).build
  let headroom ← (headroomFields saving nano pm).build
  return (invoice, headroom)

/-- `realize_credit_saving`. -/
def realizeCreditSaving (saving : Figure) (pm : PoolMonth) : Except Error (Figure × Figure) :=
  if saving.basis ≠ .listEquivalent ∧ saving.basis ≠ .list then
    .error (.contract "realize_credit_saving: a credit saving is LIST_EQUIVALENT")
  else match saving.nano with
    | none =>
      let reason := "unpriced: saving unpriced" ++ scenarioNote pm
      .ok (unpriced reason .list, unpriced reason .listEquivalent)
    | some nano =>
      if pm.regime = .unknown then
        let reason := "unpriced: pool regime unknown" ++ scenarioNote pm
        .ok (unpriced reason .list, unpriced reason .listEquivalent)
      else realizePriced saving nano pm

/-! ### Seat changes -/

/-- `LICENSE_PLANS`, by text. -/
def licensePlan : String → Option Plan
  | "business" => some (some .business)
  | "enterprise" => some (some .enterprise)
  | "unknown" => some none
  | _ => none

/-- List prices by plan; nothing is a value that is no finite decimal. -/
abbrev MonthFee : Type := List (String × Option DecimalTuple)

/-- `_seat_fee`. -/
def seatFee (facts : Facts) (monthFee : MonthFee) (plan : String) (effective : KnownPlan) : Except Stop Decimal :=
  match (monthFee.lookup plan).or (monthFee.lookup effective.text) with
  | some fee =>
    match fee.bind boundedTuple with
    | some fee => .ok fee
    | none => Pool.usage "realize_seat_change: month_fee values must be decimals"
  | none => .ok (facts.copilotPlan effective).seatUsdPerMonth

/-- The fees and the included credits with the change of the seats of one more plan. -/
def addSeatChange (facts : Facts) (pm : PoolMonth) (monthFee : MonthFee) (acc : Decimal × Decimal)
    (change : String × Int) : Except Stop (Decimal × Decimal) :=
  if maxCount < change.2.natAbs then Pool.usage "realize_seat_change: seat change out of range"
  else match licensePlan change.1 with
    | none => Pool.usage "realize_seat_change: unknown plan"
    | some plan =>
      if change.2 = 0 then .ok acc
      else match plan.or pm.planScenario with
        | none => Pool.usage "realize_seat_change: unknown seats need a scenario pool month"
        | some effective => do
          let fee ← seatFee facts monthFee change.1 effective
          let perSeat := (allowance facts effective pm.month pm.promo.isSome).1
          return (acc.1 + .ofInt change.2 * fee, acc.2 + .ofInt change.2 * perSeat)

def seatDelta (facts : Facts) (pm : PoolMonth) (delta : List (String × Int)) (monthFee : MonthFee) :
    Except Stop (Decimal × Decimal) :=
  (delta.insertionSort fun a b => a.1 ≤ b.1).foldlM (addSeatChange facts pm monthFee) (0, 0)

/-- `decimal_to_nano` of a bounded sum. -/
def usdToNano (usd : Decimal) : Int := divHalfEven (usd.mant * 10 ^ 9) (10 ^ usd.scale)

def changedPool (pm : PoolMonth) (credits : Decimal) : Int := max 0 (pm.poolNano + creditsToNano credits)

/-- The policies that a seat change is worth something under: an unknown one is any. -/
def openPolicies (pm : PoolMonth) : List (Option CapPolicy) :=
  if pm.cappedPolicy = some .unknown then [some .block, some .continues] else [pm.cappedPolicy]

def overageChange (pool0 pool1 consumed : Int) : Option CapPolicy → Int
  | some .block => 0
  | _ => max 0 (consumed - pool1) - max 0 (consumed - pool0)

def seatRow (pm : PoolMonth) (fees pool1 consumed : Int) : List Int :=
  (openPolicies pm).map fun policy => -fees - overageChange pm.poolNano pool1 consumed policy

/-- The saving of the rows at the low end, the point and the high end: the last of the point, between the least
and the largest of all. -/
def rowsRange (low point high : List Int) : Levels :=
  let flat := low ++ point ++ high
  let value := point.getLastD 0
  ⟨flat.foldl min value, value, flat.foldl max value⟩

def seatSavings (pm : PoolMonth) (fees pool1 : Int) (states : Levels) : Levels :=
  let row := seatRow pm fees pool1
  rowsRange (row states.low) (row states.point) (row states.high)

/-- The note of a seat change. -/
def seatNote (pm : PoolMonth) (fees : Int) : String :=
  "seat change at list price (fees saved " ++ fmtUsd (-fees) ++ "); regime " ++ pm.regime.text ++ scenarioNote pm ++
    "; proration, upfront charges and volume/EA pricing not modeled" ++
    (if pm.billingMode = .unknown then "; billing mode unknown (volume/azure entities save only at renewal)" else "") ++
    (if pm.cappedPolicy = some .unknown then "; cap policy unknown: range spans block and continue" else "") ++
    (if pm.seatsSource = .reportUsers then "; " ++ seatsLowerBoundNote else "")

/-- The figure of a seat change. -/
def seatFigure (l : Levels) (note : String) : Except Stop Figure :=
  lift (FigureFields.build {
    nano := some l.point, evidence := .estimated, basis := .list
    lowNano := if l.low ≠ l.high then some l.low else none
    highNano := if l.low ≠ l.high then some l.high else none
    calibration := .uncalibrated, note := note })

/-- `realize_seat_change`. -/
def realizeSeatChange (facts : Facts) (pm : PoolMonth) (delta : List (String × Int)) (monthFee : MonthFee) :
    Except Stop (Option Figure) :=
  if pm.billingMode = .volume ∨ pm.billingMode = .azure then .ok none
  else do
    let (usd, credits) ← seatDelta facts pm delta monthFee
    if pm.regime = .unknown then
      return some (unpriced ("unpriced: pool regime unknown" ++ scenarioNote pm) .list)
    else
      let fees := usdToNano usd
      (seatFigure (seatSavings pm fees (changedPool pm credits) (consumptionStates pm)) (seatNote pm fees)).map some

end TokenBill.Pool
