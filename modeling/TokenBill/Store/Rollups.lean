import TokenBill.Store.Db

/-!
# Daily rollups

`store/rollups.py`: the cells of `daily_rollup` and `cluster_day` of a date, computed
from the requests of that date and the kinds of their lanes; the stale dates; and the
refresh, which keeps the user counts of dates whose principals were retained. The rows
of a date have no order of their own.
-/

namespace TokenBill.Store

/-! ### Cells -/

/-- The rows of a `GROUP BY`: one for each key, with the distinct principals and the sums of its
items. -/
def groupRows {α κ ν : Type} [DecidableEq κ] (key : α → κ) (user : α → Option Principal)
    (sums : List α → ν) (items : List α) : List (RollupRow κ ν) :=
  (items.map key).dedup.map fun k =>
    let cell := items.filter fun i => decide (key i = k)
    ⟨k, (cell.filterMap user).dedup.length, sums cell⟩

/-- `billable IS NOT 0`. -/
def billable (i : InferenceRow) : Bool := i.inference.billable != some false

/-- The requests of a date that have a billable inference, joined with the kinds of their lanes: all
a rollup reads. -/
def dayView (db : Db) (date : Nat) : List (RequestRow × LaneKind) :=
  (db.requests.filter fun r => decide (r.dateUtc = date) && r.inferences.any billable).map fun r =>
    (r, db.laneKind r.request.laneKey)

/-- The point, exact and range amounts of the billed bases of an inference. -/
def billed (amount : PricedColumns → Int) (p : PricedColumns) : Int :=
  if p.pricedNano.isSome && p.basis.any (· != .listEquivalent) then amount p else 0

/-- The list-equivalent point of an inference on the Copilot paths, or on the others. -/
def listEquivalent (copilot : Bool) (i : InferenceRow) : Int :=
  if i.priced.basis = some .listEquivalent ∧
      decide (i.inference.pricing.billingPath ∈ copilotBillingPaths) = copilot then
    i.priced.pricedNano.getD 0
  else 0

/-- A billable inference of a date, with its request and the kind of its lane. -/
structure DayItem where
  row : RequestRow
  laneKind : LaneKind
  inference : InferenceRow

def dayItems (view : List (RequestRow × LaneKind)) : List DayItem :=
  view.flatMap fun r => (r.1.inferences.filter billable).map fun i => ⟨r.1, r.2, i⟩

/-- The group of an inference in `_DAILY_SQL`. -/
def dailyKey (date : Nat) (i : DayItem) : DailyKey :=
  let a := i.row.request.attribution
  { dateUtc := date
    team := a.team
    costCenter := a.costCenter
    workspaceId := a.workspaceId
    workloadClass := a.workloadClass
    laneKind := i.laneKind
    model := if i.inference.inference.pricing.model = "" then none
      else some i.inference.inference.pricing.model
    billingPath := i.inference.inference.pricing.billingPath
    arm := a.arm
    wave := a.wave }

/-- The sums of `_DAILY_SQL`. -/
def dailySums (cell : List DayItem) : DailySums :=
  let tokens (get : UsageBuckets → Nat) : Nat := (cell.map fun i => get i.inference.inference.usage).sum
  let money (get : InferenceRow → Int) : Int := (cell.map fun i => get i.inference).sum
  { requests := (cell.map (·.row.requestId)).dedup.length
    uncachedInput := tokens (·.uncachedInput)
    cacheRead := tokens (·.cacheRead)
    cacheWrite := tokens fun u => u.cacheWrite
    output := tokens (·.output)
    exactNano := money fun i => billed (·.exactNano) i.priced
    allowanceNano := money (listEquivalent false)
    estLowNano := money fun i => billed (·.estLowNano) i.priced
    estHighNano := money fun i => billed (·.estHighNano) i.priced
    unpricedInferences := (cell.filter fun i => i.inference.priced.pricedNano.isNone).length
    rateCardSha := match (cell.filterMap (·.inference.priced.rateCardSha)).dedup with
      | [sha] => some sha
      | _ => none
    poolNano := money (listEquivalent true) }

/-- `daily_rows` of one date. -/
def dailyRows (db : Db) (date : Nat) : List (RollupRow DailyKey DailySums) :=
  groupRows (dailyKey date) (·.row.principal) dailySums (dayItems (dayView db date))

/-- A request with a billable inference, in one of its clusters. -/
structure ClusterItem where
  row : RequestRow
  clusterKind : ClusterKind
  clusterId : String

/-- The clusters of a request. -/
def clustersOf (r : RequestRow) : List ClusterItem :=
  let a := r.request.attribution
  [(.team, a.team), (.workspace, a.workspaceId), (.mdmGroup, a.extra.lookup "mdm_group"),
    (.gateway, a.extra.lookup "gateway")].filterMap fun c => c.2.map fun id => ⟨r, c.1, id⟩

/-- The group of a request in `cluster_rows`. -/
def clusterKey (date : Nat) (i : ClusterItem) : ClusterKey :=
  ⟨date, i.clusterKind, i.clusterId, i.row.request.attribution.arm, i.row.request.attribution.wave⟩

/-- The sums of `cluster_rows`. -/
def clusterSums (cell : List ClusterItem) : ClusterSums :=
  let money (get : InferenceRow → Int) : Int :=
    (cell.map fun i => ((i.row.inferences.filter billable).map get).sum).sum
  { requests := cell.length
    exactNano := money fun i => billed (·.exactNano) i.priced
    allowanceNano := money (listEquivalent false)
    poolNano := money (listEquivalent true) }

/-- `cluster_rows` of one date. -/
def clusterRows (db : Db) (date : Nat) : List (RollupRow ClusterKey ClusterSums) :=
  groupRows (clusterKey date) (·.row.principal) clusterSums
    ((dayView db date).flatMap fun r => clustersOf r.1)

/-! ### Stale dates -/

def sortedDates (dates : List Nat) : List Nat := dates.dedup.insertionSort (· ≤ ·)

/-- `mark_dirty`. -/
def markDirty (db : Db) (dates : List Nat) : Db :=
  { db with info := { db.info with rollupsDirty := sortedDates (db.info.rollupsDirty ++ dates) } }

/-! ### Refresh -/

/-- A row of a retained date keeps the larger user count it had. -/
def keepUsers {κ ν : Type} [DecidableEq κ] (old : List (RollupRow κ ν)) (row : RollupRow κ ν) :
    RollupRow κ ν :=
  match old.find? fun o => decide (o.key = row.key) with
  | some o => { row with activeUsers := max o.activeUsers row.activeUsers }
  | none => row

/-- The rows of some dates replaced by fresh ones; those of dates before `retained` keep their user
counts. -/
def refreshTable {κ ν : Type} [DecidableEq κ] (dateUtc : κ → Nat) (fresh : Nat → List (RollupRow κ ν))
    (retained : Option Nat) (wanted : List Nat) (old : List (RollupRow κ ν)) :
    List (RollupRow κ ν) :=
  (old.filter fun r => decide (dateUtc r.key ∉ wanted)) ++
    wanted.flatMap fun d =>
      if retained.any (d < ·) then (fresh d).map (keepUsers old) else fresh d

/-- `refresh_rollups` of some dates. -/
def refreshDates (db : Db) (dates : List Nat) : Db :=
  let wanted := sortedDates dates
  { db with
    dailyRollup := refreshTable (·.dateUtc) (dailyRows db) db.info.identityRetainedBefore wanted
      db.dailyRollup
    clusterDay := refreshTable (·.dateUtc) (clusterRows db) db.info.identityRetainedBefore wanted
      db.clusterDay
    info := { db.info with rollupsDirty := db.info.rollupsDirty.filter (· ∉ wanted) } }

/-- `refresh_rollups` of the stale dates. -/
def refreshRollups (db : Db) : Db := refreshDates db db.info.rollupsDirty

/-- `cluster_days` of a kind over the dates from `since` on and before `until`: a writable store
refreshes the stale dates first, a read-only one computes them. -/
def clusterDays (db : Db) (readOnly : Bool) (kind : ClusterKind) (since until_ : Nat) :
    Db × List (RollupRow ClusterKey ClusterSums) :=
  let inWindow (d : Nat) : Bool := decide (since ≤ d ∧ d < until_)
  let stale := db.info.rollupsDirty.filter inWindow
  let ofKind (rows : List (RollupRow ClusterKey ClusterSums)) :=
    rows.filter fun r => decide (r.key.clusterKind = kind)
  if readOnly then
    (db, ofKind (db.clusterDay.filter fun r =>
        inWindow r.key.dateUtc && !decide (r.key.dateUtc ∈ stale)) ++
      ofKind ((sortedDates stale).flatMap (clusterRows db)))
  else
    let db := refreshDates db stale
    (db, ofKind (db.clusterDay.filter fun r => inWindow r.key.dateUtc))

end TokenBill.Store
