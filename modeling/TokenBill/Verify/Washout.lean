import TokenBill.General.Grouping
import Mathlib.Algebra.GroupWithZero.Nat
import Mathlib.Data.Prod.Lex
import Mathlib.Data.String.Basic

/-!
# Which cluster-days a measurement takes

`measure` cuts the panel for each design in its own way and hands it to an estimator, and a guard computes a bound of
the quality from a selection of its own. The estimators are modelled up to the cells whose sums they take; their
floating point arithmetic on the cells is left out. A date is the number of its day.
-/

namespace TokenBill.Washout

open General

/-! ### The panel -/

/-- A cluster and a date. -/
abbrev ClusterDay := String × Int

/-- What the estimators read of a `PanelRow`. -/
structure Row where
  clusterId : String
  (dateUtc costBaselineNano : Int)
  activeDevDays : Nat
  treated : Bool
  outcomePrs : Option Nat

def Row.day (r : Row) : ClusterDay := (r.clusterId, r.dateUtc)

def firstDate : Int := -719162

def lastDate : Int := 2932896

/-- `UsageError`, or the `OverflowError` of a date that does not exist. -/
inductive Failure where
  | usage
  | overflow
  deriving DecidableEq

/-- `check_rows`: what the types of the rows leave to check. -/
def checkRows (panel : List Row) : Except Failure (List Row) :=
  if panel.any fun r => decide (r.clusterId = "" ∨ r.dateUtc < firstDate ∨ lastDate < r.dateUtc) then .error .usage
  else .ok panel

/-- `_add_days`. -/
def addDays (date days : Int) : Except Failure Int :=
  if date + days < firstDate ∨ lastDate < date + days then .error .overflow else .ok (date + days)

/-- `first_treated_date`. -/
def firstTreatedDate (panel : List Row) : Option Int := ((panel.filter (·.treated)).map (·.dateUtc)).min?

/-! ### Cells -/

/-- `_Cell`, without its cluster and date. -/
structure Cell where
  cost : Int
  devDays : Nat
  treated : Bool
  prs : Option Nat

/-- What a row adds to the cell of its cluster and date. -/
def mergeRow (held : Option Cell) (r : Row) : Cell :=
  match held with
  | none => ⟨r.costBaselineNano, r.activeDevDays, r.treated, r.outcomePrs⟩
  | some cell =>
    { cost := cell.cost + r.costBaselineNano
      devDays := cell.devDays + r.activeDevDays
      treated := cell.treated || r.treated
      prs := match r.outcomePrs with
        | none => cell.prs
        | some n => some (cell.prs.getD 0 + n) }

/-- `_merged_rows`. -/
def mergedRows (panel : List Row) : List (ClusterDay × Cell) :=
  (collect Row.day mergeRow panel).insertionSort fun a b => toLex a.1 ≤ toLex b.1

/-- What is measured of a cell. -/
inductive Metric where
  | cost
  | prs

/-- `_value`: the terms of the quotient. -/
def value (cell : Cell) (metric : Metric) : Option (Int × Nat) :=
  if cell.devDays = 0 then none
  else
    match metric with
    | .cost => some (cell.cost, cell.devDays)
    | .prs => cell.prs.map fun n : Nat => ((n : Int), cell.devDays)

/-- The start of a cluster after one more of its cells. -/
def startStep (held : Option (Option Int)) (c : ClusterDay × Cell) : Option Int :=
  if c.2.treated then
    match held.join with
    | none => some c.1.2
    | some prev => some (min prev c.1.2)
  else held.getD none

/-- `_cluster_starts`. -/
def clusterStarts (cells : List (ClusterDay × Cell)) : List (String × Option Int) :=
  collect (fun c => c.1.1) startStep cells

/-! ### Imputation difference-in-differences -/

/-- Where `_TwoWay` puts a cell. -/
inductive Place where
  | skipped
  | untreated
  | treated
  deriving DecidableEq

/-- The loop body of `_TwoWay`. -/
def place (starts : List (String × Option Int)) (metric : Metric) (washoutDays : Int) (c : ClusterDay × Cell) :
    Except Failure Place :=
  if (value c.2 metric).isNone then .ok .skipped
  else
    match (starts.lookup c.1.1).join with
    | none => .ok .untreated
    | some start =>
      if start ≤ c.1.2 then
        if 0 < washoutDays then
          match addDays start washoutDays with
          | .error e => .error e
          | .ok cut => if c.1.2 < cut then .ok .skipped else .ok .treated
        else .ok .treated
      else .ok .untreated

/-- The cells of `_TwoWay`. -/
structure TwoWay where
  (untreated treated : List (ClusterDay × Cell))

def placedAt (p : Place) (cells : List (ClusterDay × Cell)) (places : List Place) : List (ClusterDay × Cell) :=
  ((cells.zip places).filter fun c => decide (c.2 = p)).map (·.1)

/-- `_TwoWay`. -/
def twoWay (cells : List (ClusterDay × Cell)) (metric : Metric) (washoutDays : Int) : Except Failure TwoWay :=
  match cells.mapM (place (clusterStarts cells) metric washoutDays) with
  | .error e => .error e
  | .ok places => .ok ⟨placedAt .untreated cells places, placedAt .treated cells places⟩

/-- `_did`, up to the fit: the cells that it takes. -/
def did (panel : List Row) (metric : Metric) (washoutDays : Int) : Except Failure (List ClusterDay) :=
  if washoutDays < 0 then .error .usage
  else
    match twoWay (mergedRows panel) metric washoutDays with
    | .error e => .error e
    | .ok tw =>
      if tw.treated = [] ∨ tw.untreated = [] then .error .usage
      else .ok ((tw.untreated ++ tw.treated).map (·.1))

/-! ### CUPED difference in means -/

/-- `_Unit`: a cluster with the cells that its sums before and after a date are of. -/
structure CupedUnit where
  cluster : String
  (pre post : List (ClusterDay × Cell))

def CupedUnit.treated (u : CupedUnit) : Bool := u.post.any (·.2.treated)

/-- `_cuped_units`: a unit for each cluster with cells from the date on. -/
def cupedUnits (panel : List Row) (preUntil : Int) (metric : Metric) : List CupedUnit :=
  let cells := (mergedRows panel).filter fun c => (value c.2 metric).isSome
  let pre := cells.filter fun c => decide (c.1.2 < preUntil)
  let post := cells.filter fun c => decide (preUntil ≤ c.1.2)
  (post.map (·.1.1)).dedup.map fun cluster =>
    ⟨cluster, pre.filter fun c => decide (c.1.1 = cluster), post.filter fun c => decide (c.1.1 = cluster)⟩

/-- `_cuped`, up to the arithmetic: the cells that it takes. -/
def cuped (panel : List Row) (preUntil : Int) (metric : Metric) : Except Failure (List ClusterDay) :=
  let units := cupedUnits panel preUntil metric
  if units.any (·.treated) ∧ units.any (!·.treated) then .ok (units.flatMap fun u => (u.pre ++ u.post).map (·.1))
  else .error .usage

/-! ### Interrupted time series -/

def panelDates (panel : List Row) : List Int := (panel.map (·.dateUtc)).dedup.insertionSort (· ≤ ·)

/-- `pre_midpoint`. -/
def preMidpoint (dates : List Int) : Except Failure Int :=
  let ds := dates.dedup.insertionSort (· ≤ ·)
  if ds.length < 4 then .error .usage
  else
    match ds[ds.length / 2]? with
    | some d => .ok d
    | none => .error .usage

/-- The dates of `_parse(org_series(panel))`: those with developer-days. -/
def seriesDates (panel : List Row) : List Int :=
  (panelDates panel).filter fun d => decide (0 < ((panel.filter fun r => decide (r.dateUtc = d)).map (·.activeDevDays)).sum)

/-- `MIN_SIDE_DAYS`. -/
def minSideDays : Nat := 7

def shiftable (dates : List Int) (step : Int) : Bool :=
  decide (minSideDays ≤ (dates.filter fun d => decide (d < step)).length ∧
    minSideDays ≤ (dates.filter fun d => decide (step ≤ d)).length)

/-- `event_study_its(org_series(panel))`, up to the regression: the cluster-days of the days that it takes. -/
def eventStudyIts (panel : List Row) (change placebo : Int) : Except Failure (List ClusterDay) :=
  let dates := seriesDates panel
  if dates = [] ∨ ¬placebo < change ∨ shiftable dates change = false ∨
      shiftable (dates.filter fun d => decide (d < change)) placebo = false then .error .usage
  else .ok ((panel.filter fun r => decide (r.dateUtc ∈ dates)).map Row.day)

/-! ### The measurement -/

/-- `MeasurePlan.design`. -/
inductive Design where
  | clusterRct
  | steppedWedge
  | ab
  | its
  | other
  deriving DecidableEq

/-- `COMPARISON_DESIGNS`. -/
def comparisonDesigns : List Design := [.clusterRct, .steppedWedge, .ab]

/-- What a measurement reads of a `MeasurePlan` and its pre-registration. -/
structure Plan where
  design : Design
  washoutHours : Int
  (changeDate placeboDate : Option Int)

/-- `math.ceil(plan.washout_hours / 24)`. -/
def Plan.need (plan : Plan) : Int := -(-plan.washoutHours / 24)

/-- `_washout`: whether the guard passes. -/
def Plan.washoutPasses (plan : Plan) (used : Int) : Bool :=
  decide (plan.design ∉ comparisonDesigns ∨ plan.need ≤ used)

def outcomeRows (panel : List Row) : List Row := panel.filter (·.outcomePrs.isSome)

/-- `_quality` of a design: the cluster-days that `quality_lower_bound` takes, if there is a bound. -/
def quality (panel : List Row) (design : Design) (preUntil washoutDays : Int) : Except Failure (List ClusterDay) :=
  let bound := match design with
    | .steppedWedge => did (outcomeRows panel) .prs washoutDays
    | .clusterRct => cuped (outcomeRows panel) preUntil .prs
    | _ => .ok []
  match bound with
  | .error .usage => .ok []
  | bound => bound

/-- A measurement: the cluster-days of its estimate and of its quality bound. -/
structure Measured where
  washoutPassed : Bool
  (estimate quality : List ClusterDay)
  deriving DecidableEq

/-- The cluster-days of the estimate of `measure`. -/
def estimate (plan : Plan) (panel : List Row) (washoutDays : Int) : Except Failure (List ClusterDay) :=
  match plan.design, firstTreatedDate panel with
  | .its, first => do
    let change ← ((plan.changeDate <|> first).map .ok).getD (.error .usage)
    let placebo ← (plan.placeboDate.map .ok).getD
      (preMidpoint ((panel.filter fun r => decide (r.dateUtc < change)).map (·.dateUtc)))
    eventStudyIts panel change placebo
  | .steppedWedge, some _ => did panel .cost washoutDays
  | .clusterRct, some first => do
    let cut ← addDays first washoutDays
    cuped (panel.filter fun r => !decide (first ≤ r.dateUtc ∧ r.dateUtc < cut)) first .cost
  | _, _ => .error .usage

def Plan.washoutUsed (plan : Plan) (washoutDays : Option Int) : Int := washoutDays.getD plan.need

/-- `measure`. -/
def measure (plan : Plan) (panel : List Row) (washoutDays : Option Int) : Except Failure Measured := do
  let rows ← checkRows panel
  if rows = [] then .error .usage
  else
    let w := plan.washoutUsed washoutDays
    let estimate ← estimate plan rows w
    let quality ← quality rows plan.design ((firstTreatedDate rows).getD 0) w
    pure ⟨plan.washoutPasses w, estimate, quality⟩

end TokenBill.Washout
