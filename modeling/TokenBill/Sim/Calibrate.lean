import Mathlib.Algebra.Group.Prod
import Mathlib.Data.Int.Log
import Mathlib.Data.Prod.Lex
import TokenBill.Core.Encode
import TokenBill.General.Partials
import TokenBill.Sim.Labels
import TokenBill.Sim.UsageTuples

/-!
# Calibration

`sim/calibrate.py`: the model gate makes two passes over batches of lanes. The first sums billed and predicted
costs per period, counts hits per fold and gap band, and counts diagnostic labels per cause; the hit rates are then
fitted for each fold on the other folds, and the second pass sums the costs they predict. The partial sums of the
batches are merged, and the report is made of the merged ones.

A pricer tells the rates of the UTC date of a time, as those of `rates/engine.py` and `core/testing.py` do, so a price
book, which remembers unit rates by pricing context and day, is its functions of a day. What raises in the source
is `none`.
-/

namespace TokenBill.Calibrate

open General Transitions Sim

/-! ### Prices -/

/-- `_Unit`. -/
structure PriceUnit where
  (nu nr n5 n1 no nout web : Int)
  scale : Nat
  limit : Option Nat

/-- `_Unit.nano`. -/
def PriceUnit.nano (unit : PriceUnit) (t : UsageTuple) : Int :=
  let mul : Int := if unit.scale ≤ 9 then 10 ^ (9 - unit.scale) else 1
  let div : Int := if 9 < unit.scale then 10 ^ (unit.scale - 9) else 1
  let terms := [(t.uncached, unit.nu), (t.reads, unit.nr), (t.w5, unit.n5), (t.w1, unit.n1), (t.other, unit.no),
    (t.output, unit.nout)]
  if div = 1 then (terms.map fun q => q.1 * q.2).sum * mul + t.webSearch * unit.web
  else t.webSearch * unit.web + (terms.map fun q => if q.1 = 0 then 0 else divHalfEven (q.1 * q.2) div).sum

/-- What a price book asks of its pricer: the probed unit rates of a pricing context and a day, and the point of
the figure of a usage, which may have none. -/
structure Book where
  unit : PricingContext → Nat → Option PriceUnit
  priceUsage : UsageBuckets → PricingContext → Nat → Option Bool → UsageSource → Option Nat → Option (Option Int)

/-- The point of `_PriceBook.price`. -/
def Book.price (book : Book) (t : UsageTuple) (ctx : PricingContext) (day : Nat) (billable : Option Bool)
    (source : UsageSource) (outputUpper : Option Nat) : Option (Option Int) :=
  if billable = some false then some (some 0)
  else
    let unit := if billable = some true ∧ source = .final ∧ t.unknown = 0 ∧ t.webFetch = 0 then
        (book.unit ctx day).filter fun unit => unit.limit.all fun limit => decide (t.totalInput < limit)
      else none
    match unit with
    | some unit => some (some (unit.nano t))
    | none => t.buckets.bind fun usage => book.priceUsage usage ctx day billable source outputUpper

/-! ### The walk -/

/-- The granularities. -/
inductive Granularity where
  | day | month
  deriving DecidableEq

def Granularity.name : Granularity → String
  | .day => "day"
  | .month => "month"

/-- The day `9999-12-31`, the last that a date can be. -/
def lastDay : Nat := 2932896

/-- `_period`. -/
def period (day : Nat) : Granularity → Option String
  | .day => if day ≤ lastDay then some (isoDate day) else none
  | .month => if day ≤ lastDay then some (String.ofList ((isoDate day).toList.take 7)) else none

/-- What a calibration is run with. -/
structure Setting where
  providers : Providers
  book : Book
  floor : String × String → Int
  granularity : Granularity
  folds : Nat

/-- The costs of a transition that participates in the comparison. -/
structure Costs where
  period : String
  fold : Nat
  band : String
  (billed costE costS : Int)

/-- A transition, its request, the cause that is scored for its label, and its costs. -/
structure Walked where
  t : Transition
  req : Request
  cause : Option Cause
  costs : Option Costs

namespace Setting

variable (s : Setting)

/-- The cost of a usage with some of its prefix read and the rest written. -/
def costOf (inf : Inference) (day : Nat) (pref : Pref) (billed reads : Int) : Option (Option Int) :=
  let obs := Sim.tupleOf inf.usage
  let prefixTotal := obs.totalInput - obs.uncached
  let reads := max 0 (min reads prefixTotal)
  if reads = obs.reads then some (some billed)
  else s.book.price (withSplit obs obs.uncached reads (prefixTotal - reads) pref) inf.pricing day inf.billable
    inf.usageSource inf.outputUpper

/-- The costs of three prices, if the usage has each. -/
def costsOf (req : Request) (t : Transition) (billed costE costS : Int) : Option Costs :=
  let day := req.tsStartMs / 86400000
  (period day s.granularity).map fun period =>
    { period, fold := day % s.folds, band := gapBand t.gapMs, billed, costE, costS }

/-- `_Walker._costs`. -/
def costs (lane : Lane) (req : Request) (t : Transition) : Option (Option Costs) := do
  let inf ← req.servingInference
  let day := req.finalAttempt.tsStartMs / 86400000
  let obs := Sim.tupleOf inf.usage
  let billed ← s.book.price obs inf.pricing day inf.billable inf.usageSource inf.outputUpper
  match billed with
  | none => some none
  | some billed =>
    let pref := ((dominant obs).or ((t.ttlS.filter (· ≠ 0)).map prefOfTtl)).getD pref5m
    let costE ← s.costOf inf day pref billed t.expectedReuse
    let costS ← s.costOf inf day pref billed (s.floor (lane.cacheScopeKey, req.model))
    match costE, costS with
    | some costE, some costS => (s.costsOf req t billed costE costS).map some
    | _, _ => some none

/-- A transition of a lane with what is told of it. -/
def walked (withLabels : Bool) (lane : Lane) (steps : List Request) (t : Transition) : Option Walked := do
  let req ← steps[t.index]?
  let costs ← if t.predictedHit.isSome then s.costs lane req t else some none
  some { t, req, cause := if withLabels then scoredCause lane steps t else none, costs }

/-- `_Walker.walk` of one lane. -/
def walkLane (withLabels : Bool) (lane : Lane) : Option (List Walked) :=
  (classifyTransitions s.providers lane).mapM (s.walked withLabels lane (servedSteps lane))

/-- `_Walker.walk`. -/
def walk (withLabels : Bool) (lanes : List Lane) : Option (List Walked) :=
  (lanes.mapM (s.walkLane withLabels)).map List.flatten

end Setting

/-! ### Partial sums -/

/-- `CalibrationPartial`. -/
structure CalibrationPartial where
  granularity : Granularity
  periodBilled : List (String × Int) := []
  periodDocumented : List (String × Int) := []
  periodCalibrated : List (String × Int) := []
  rhoCounts : List ((Nat ×ₗ String) × Nat × Nat) := []
  confusion : List ((String ×ₗ String) × Nat) := []
  ttlCorroboration : Nat × Nat := (0, 0)
  unlabeled : Nat := 0
  noComparisonLabels : Nat := 0

/-- `_provider_of`. -/
def providerOf (source fallback : String) : String :=
  let head := String.ofList (source.toList.takeWhile (· ≠ '.'))
  if head ≠ "" then head else if fallback ≠ "" then fallback else "unknown"

def Costs.documented (c : Costs) (t : Transition) : Int := if t.predictedHit = some true then c.costE else c.costS

namespace Walked

variable (w : Walked)

def atPeriod (amount : Costs → Int) : List (String × Int) := (w.costs.map fun c => (c.period, amount c)).toList

/-- The hits and trials under the fold and gap band of a transition. -/
def rhoCount : List ((Nat ×ₗ String) × Nat × Nat) :=
  match w.costs with
  | some c =>
    if w.t.predictedHit = some true ∧ w.t.ambiguous = false then
      [(toLex (c.fold, c.band), if w.t.isMissEvent then 0 else 1, 1)]
    else []
  | none => []

/-- The label of a transition with the provider that gave it, and the cause it is compared with. -/
def label : Option (String × String × Cause) :=
  w.t.diagReason.bind fun reason => w.req.finalAttempt.diagnostics.bind fun diag => w.cause.map fun cause =>
    (reason, providerOf diag.source ((w.req.servingInference.map (·.pricing.provider)).getD ""), cause)

def confusionEntry : List ((String ×ₗ String) × Nat) :=
  (w.label.map fun l => (toLex (l.2.2.slug, l.2.1 ++ ":" ++ l.1), 1)).toList

/-- Whether a label is of an expiry, which the provider may corroborate. -/
def expiryLabel : Nat × Nat :=
  match w.label with
  | some (reason, _, .ttlExpiry) => (if reason = "previous_message_not_found" then 1 else 0, 1)
  | _ => (0, 0)

end Walked

/-- `_NO_COMPARISON`. -/
def noComparison : List String := ["previous_message_not_found", "unavailable"]

namespace Setting

variable (s : Setting)

/-- The partial sums of transitions of the first pass. -/
def sums1 (ws : List Walked) : CalibrationPartial where
  granularity := s.granularity
  periodBilled := partialSum (ws.flatMap fun w => w.atPeriod (·.billed))
  periodDocumented := partialSum (ws.flatMap fun w => w.atPeriod (·.documented w.t))
  rhoCounts := partialSum (ws.flatMap Walked.rhoCount)
  confusion := partialSum (ws.flatMap Walked.confusionEntry)
  ttlCorroboration := (ws.map Walked.expiryLabel).sum
  unlabeled := ws.countP fun w => w.t.diagReason.isNone
  noComparisonLabels := ws.countP fun w => w.label.any fun l => decide (l.1 ∈ noComparison)

/-- `calibrate_pass1`. -/
def pass1 (lanes : List Lane) : Option CalibrationPartial := (s.walk true lanes).map s.sums1

/-- The hit rates of each fold and gap band. -/
abbrev RhoByFold : Type := List (Nat × List (String × ℚ))

/-- The cost that a hit rate predicts. -/
def calibrated (rhoByFold : RhoByFold) (t : Transition) (c : Costs) : Int :=
  if t.predictedHit = some true then
    let rho := (((rhoByFold.lookup c.fold).getD []).lookup c.band).getD 1
    divHalfEven (rho.num * c.costE + (rho.den - rho.num) * c.costS) rho.den
  else c.costS

def sums2 (rhoByFold : RhoByFold) (ws : List Walked) : CalibrationPartial where
  granularity := s.granularity
  periodCalibrated := partialSum (ws.flatMap fun w => w.atPeriod (calibrated rhoByFold w.t))

/-- `calibrate_pass2`. -/
def pass2 (rhoByFold : RhoByFold) (lanes : List Lane) : Option CalibrationPartial :=
  (s.walk false lanes).map (s.sums2 rhoByFold)

end Setting

/-- `merge_partials`. -/
def mergePartials : List CalibrationPartial → Option CalibrationPartial
  | [] => none
  | first :: rest =>
    let parts := first :: rest
    if parts.all fun part => decide (part.granularity = first.granularity) then
      some
        { granularity := first.granularity
          periodBilled := partialSum (parts.flatMap (·.periodBilled))
          periodDocumented := partialSum (parts.flatMap (·.periodDocumented))
          periodCalibrated := partialSum (parts.flatMap (·.periodCalibrated))
          rhoCounts := partialSum (parts.flatMap (·.rhoCounts))
          confusion := partialSum (parts.flatMap (·.confusion))
          ttlCorroboration := (parts.map (·.ttlCorroboration)).sum
          unlabeled := (parts.map (·.unlabeled)).sum
          noComparisonLabels := (parts.map (·.noComparisonLabels)).sum }
    else none

/-! ### Rounded numbers -/

/-- A number rounded half to even to some digits. -/
def toDigits (digits : Nat) (q : ℚ) : ℚ :=
  if q = 0 then 0
  else
    let unit : ℚ := 10 ^ (Int.log 10 |q| + 1 - digits)
    divHalfEven (q / unit).num (q / unit).den * unit

/-- A square root rounded half to even to some digits. -/
def sqrtToDigits (digits : Nat) (q : ℚ) : ℚ :=
  if q ≤ 0 then 0
  else
    let unit : ℚ := 10 ^ (Int.log 10 q / 2 + 1 - digits)
    let square := q / unit ^ 2
    let root : Nat := Nat.sqrt ⌊square⌋₊
    let half : ℚ := (root + 1 / 2) ^ 2
    (if half < square ∨ half = square ∧ root % 2 = 1 then root + 1 else root) * unit

/-- `_CTX`: the digits of its results. -/
def ctxDigits : Nat := 40

/-- The digits of operators on decimals, which use the context of the host. -/
def hostDigits : Nat := 28

/-- `_CTX.divide`. -/
def divide (a b : ℚ) : ℚ := toDigits ctxDigits (a / b)

def op (q : ℚ) : ℚ := toDigits hostDigits q

/-- `_dec`: nothing where the quantized number has too many digits. -/
def dec (value : ℚ) : Option String :=
  let n := divHalfEven (value * 10000).num (value * 10000).den
  if n.natAbs < 10 ^ ctxDigits then some (String.ofList (Decimal.ofScaled n 4).text) else none

/-- `_ratio`. -/
def ratio (num den : Nat) : Option String := if den = 0 then some "n/a" else dec (divide num den)

/-! ### Hit rates -/

/-- `_MIN_BAND_TRIALS`. -/
def minBandTrials : Nat := 30

/-- Hits and trials under bands. -/
abbrev BandCounts : Type := List (String × Nat × Nat)

def bandCount (counts : BandCounts) (band : String) : Nat × Nat := (counts.lookup band).getD (0, 0)

/-- `_band_rho`. -/
def bandRho (counts : BandCounts) : List (String × ℚ) :=
  let all : Nat × Nat := (counts.map Prod.snd).sum
  let pooled := if all.2 = 0 then 1 else divide all.1 all.2
  gapBands.map fun band =>
    let c := bandCount counts band.1
    (band.1, if minBandTrials ≤ c.2 then divide c.1 c.2 else pooled)

/-- `fit_rho_by_fold`. -/
def fitRhoByFold (parts1 : List CalibrationPartial) (folds : Nat) : Option Setting.RhoByFold :=
  if folds < 2 then none
  else do
    let counts ← if parts1 = [] then some [] else (mergePartials parts1).map (·.rhoCounts)
    some ((List.range folds).map fun k =>
      (k, bandRho (tally ((counts.filter fun c => decide ((ofLex c.1).1 ≠ k)).map fun c => ((ofLex c.1).2, c.2)))))

/-! ### The report -/

/-- `CalibrationReport`. -/
structure CalibrationReport where
  granularity : Granularity
  nPeriods : Nat
  status : String
  (modeUsed nmbePct cvrmsePct nmbePctCalibrated cvrmsePctCalibrated : Option String)
  thresholds : String × String
  rho : List (String × Nat × Nat × String × String)
  diagConfusion : List ((String ×ₗ String) × Nat)
  diagPrecisionRecall : List (String × String × String)
  (unlabeled noComparisonLabels : Nat)
  ttlCorroboration : Nat × Nat
  notes : List String

/-- `_metrics`. -/
def metrics (billed predicted : List (String × Int)) : Option (ℚ × ℚ) :=
  let n := billed.length
  let total := (billed.map Prod.snd).sum
  if n = 0 ∨ total = 0 then none
  else
    let diffs := billed.map fun b => b.2 - (predicted.lookup b.1).getD 0
    let squares : Int := (diffs.map fun d => d * d).sum
    let rmse := sqrtToDigits ctxDigits (divide squares n)
    some (divide (100 * diffs.sum : Int) total, divide (toDigits ctxDigits (rmse * (100 * n : Nat))) total)

/-- `_wilson`. -/
def wilson (hits trials : Nat) : Option (String × String) :=
  if trials = 0 then some ("0", "1")
  else do
    let z : ℚ := 196 / 100
    let n : ℚ := trials
    let p := divide hits n
    let z2 := op (z * z)
    let denom := op (1 + divide z2 n)
    let center := divide (op (p + divide z2 (op (2 * n)))) denom
    let spread := op (divide (op (p * op (1 - p))) n + divide z2 (op (op (4 * n) * n)))
    let half := divide (op (z * sqrtToDigits ctxDigits spread)) denom
    let low ← dec (max 0 (op (center - half)))
    let high ← dec (min 1 (op (center + half)))
    some (low, high)

/-- The thresholds of a granularity: `FEMP_HOURLY_DAILY`, `FEMP_MONTHLY`. -/
def thresholds : Granularity → Nat × Nat
  | .day => (10, 30)
  | .month => (5, 15)

def passes (granularity : Granularity) (m : Option (ℚ × ℚ)) : Bool :=
  m.any fun m => decide (op |m.1| ≤ ((thresholds granularity).1 : ℚ) ∧ m.2 ≤ ((thresholds granularity).2 : ℚ))

/-- `str.partition(":")`: what is before the colon, and what is after it if there is one. -/
def partitionColon (s : String) : String × Option String :=
  let head := s.toList.takeWhile (· ≠ ':')
  (String.ofList head, ((s.toList.drop head.length).head?.map fun _ => String.ofList (s.toList.drop (head.length + 1))))

/-- The provider and the reason of a qualified reason. -/
def qualifiedReason (reason : String) : String × String :=
  match partitionColon reason with
  | (provider, some bare) => (provider, bare)
  | (_, none) => ("unknown", reason)

/-- `PR_CLASSES`. -/
def prClasses : List (String × String) :=
  [("model_changed", "model-switch"), ("tools_changed", "tools-changed"), ("system_changed", "system-changed"),
   ("messages_changed", "messages-changed"), ("param_changed", "param-change")]

/-- `_NOT_COMPARED`. -/
def notCompared : List String := noComparison ++ ["key_changed", "compacted"]

/-- `_REBUILD_LABELS`. -/
def rebuildLabels : List String := ["messages_changed", "system_changed"]

/-- A count of a cause and a reason. -/
abbrev Cell : Type := (String × String) × Nat

/-- The row of a class of one provider, unless it has nothing to compare. -/
def classRow (several : Bool) (provider : String) (cells : List Cell) (label cause : String) :
    Option (List (String × String × String)) :=
  let predicted := ((cells.filter fun c => decide (c.1.1 = cause)).map Prod.snd).sum
  let actual := ((cells.filter fun c => decide (c.1.2 = label)).map Prod.snd).sum
  if predicted = 0 ∧ actual = 0 then some []
  else do
    let tp := (cells.lookup (cause, label)).getD 0
    let precision ← ratio tp predicted
    let recalled ← ratio tp actual
    some [(if several then provider ++ ":" ++ label else label, precision, recalled)]

/-- `_precision_recall`. -/
def precisionRecall (confusion : List Cell) : Option (List (String × String × String)) := do
  let split : List (String × Cell) := confusion.map fun c =>
    let q := partitionColon c.1.2
    (q.1, ((c.1.1, q.2.getD ""), c.2))
  let providers := (split.map Prod.fst).dedup.insertionSort (· ≤ ·)
  let rows ← providers.mapM fun provider =>
    let cells := (tally ((split.filter fun c => decide (c.1 = provider)).map Prod.snd)).filter fun c =>
      decide (c.1.2 ∉ notCompared) && !decide (c.1.1 = "compaction" ∧ c.1.2 ∈ rebuildLabels)
    (prClasses.mapM fun c => classRow (decide (1 < providers.length)) provider cells c.1 c.2).map List.flatten
  some rows.flatten

/-- The row of a gap band, with the pooled counts where it has few trials. -/
def rhoRow (counts : BandCounts) (band : String) : Option (String × Nat × Nat × String × String) :=
  let all : Nat × Nat := (counts.map Prod.snd).sum
  let c := bandCount counts band
  (if minBandTrials ≤ c.2 then wilson c.1 c.2 else wilson all.1 all.2).map fun w => (band, c.1, c.2, w.1, w.2)

/-- A metric that may be missing, as a text. -/
def decOf (m : Option ℚ) : Option (Option String) :=
  match m with
  | none => some none
  | some m => (dec m).map some

/-- `MIN_CALIBRATION_PERIODS`. -/
def minPeriods : Nat := 12

/-- The status and the mode of a gate, and what is noted of them. -/
def gate (granularity : Granularity) (n : Nat) (doc cal : Option (ℚ × ℚ)) : String × Option String × List String :=
  if n < minPeriods then
    ("insufficient_data", none, [toString n ++ " periods < " ++ toString minPeriods ++ ": projections UNCALIBRATED"])
  else if doc.isNone then
    ("insufficient_data", none, ["no billed cost in the comparison: projections UNCALIBRATED"])
  else if passes granularity doc then ("pass", some "documented", [])
  else if passes granularity cal then ("pass", some "calibrated", [])
  else ("fail", none, [])

/-- The notes of every report. -/
def reportNotes (granularity : Granularity) (folds : Nat) : List String :=
  ["NMBE and CV(RMSE) with p = 0 on serving-inference cost points per period",
   "thresholds: FEMP Table 4-2 (ASHRAE Guideline 14)" ++
     (if granularity = .day then "; the daily row reuses the hourly thresholds" else ""),
   "calibrated variant: ρ fitted out of fold (day ordinal mod " ++ toString folds ++ ")",
   "gap bands with fewer than " ++ toString minBandTrials ++ " trials use the pooled ρ"]

/-- The report of the merged partial sums of both passes. -/
def reportOf (granularity : Granularity) (folds : Nat) (one two : CalibrationPartial) : Option CalibrationReport := do
  let doc := metrics one.periodBilled one.periodDocumented
  let cal := metrics one.periodBilled two.periodCalibrated
  let (status, modeUsed, gateNotes) := gate granularity one.periodBilled.length doc cal
  let bands := tally (one.rhoCounts.map fun c => ((ofLex c.1).2, c.2))
  let rho ← gapBands.mapM fun band => rhoRow bands band.1
  let reasons := one.confusion.map fun c => ((ofLex c.1).1, qualifiedReason (ofLex c.1).2, c.2)
  let plain := tally (reasons.map fun c => (toLex (c.1, c.2.1.2), c.2.2))
  let qualified := tally (reasons.map fun c => ((c.1, c.2.1.1 ++ ":" ++ c.2.1.2), c.2.2))
  let providers := (reasons.map (·.2.1.1)).dedup.insertionSort (· ≤ ·)
  let calibrated := if two.periodCalibrated = [] then none else cal
  let nmbePct ← decOf (doc.map Prod.fst)
  let cvrmsePct ← decOf (doc.map Prod.snd)
  let nmbePctCalibrated ← decOf (calibrated.map Prod.fst)
  let cvrmsePctCalibrated ← decOf (calibrated.map Prod.snd)
  let diagPrecisionRecall ← precisionRecall qualified
  some
    { granularity, nPeriods := one.periodBilled.length, status, modeUsed, nmbePct, cvrmsePct, nmbePctCalibrated
      cvrmsePctCalibrated, rho, diagPrecisionRecall
      thresholds := (toString (thresholds granularity).1, toString (thresholds granularity).2)
      diagConfusion := plain.insertionSort fun a b => a.1 ≤ b.1
      unlabeled := one.unlabeled, noComparisonLabels := one.noComparisonLabels, ttlCorroboration := one.ttlCorroboration
      notes := reportNotes granularity folds ++ gateNotes ++
        (if 1 < providers.length then ["precision/recall per provider: " ++ ", ".intercalate providers] else []) ++
        (if plain.any fun c => decide ((ofLex c.1).2 = "key_changed") then
          ["key_changed labels have no Token Bill equivalent (reported, not scored)"] else []) }

/-- `finish_calibration`. -/
def finishCalibration (parts1 parts2 : List CalibrationPartial) (granularity : Granularity) (folds : Nat) :
    Option CalibrationReport :=
  if folds < 2 then none
  else if (parts1 ++ parts2).all fun part => decide (part.granularity = granularity) then do
    let one ← mergePartials ({ granularity } :: parts1)
    let two ← mergePartials ({ granularity } :: parts2)
    reportOf granularity folds one two
  else none

/-- `calibrate`. -/
def calibrate (s : Setting) (batches : List (List Lane)) : Option CalibrationReport :=
  if s.folds < 2 then none
  else do
    let parts1 ← batches.mapM s.pass1
    let rho ← fitRhoByFold parts1 s.folds
    let parts2 ← batches.mapM (s.pass2 rho)
    finishCalibration parts1 parts2 s.granularity s.folds

end TokenBill.Calibrate
