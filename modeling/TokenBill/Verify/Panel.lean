import TokenBill.General.Decimals
import TokenBill.General.Tally
import TokenBill.Store.Rollups

/-!
# The verification panel

`verify/panel.py`: one row for each cluster and day of a window, with the cost of its
requests under a baseline and an actual rate card, the active developers the ledger
counts, and whether the cluster is treated. A date is its number of days since
1970-01-01, a date string what it parses to; a mapping is a table of its items.
-/

namespace TokenBill.Verify

open General Store

/-! ### Dates -/

def isLeap (year : Nat) : Bool := year % 4 = 0 && (year % 100 ≠ 0 || year % 400 = 0)

/-- The days of a month. -/
def daysInMonth (year month : Nat) : Nat :=
  if month = 2 then if isLeap year then 29 else 28
  else if month = 4 ∨ month = 6 ∨ month = 9 ∨ month = 11 then 30
  else 31

def daysBeforeMonth (year month : Nat) : Nat :=
  ((List.range (month - 1)).map fun m => daysInMonth year (m + 1)).sum

def daysBeforeYear (year : Nat) : Nat :=
  let y := year - 1
  y * 365 + y / 4 - y / 100 + y / 400

/-- `toordinal` of a date, counted from 1970-01-01. -/
def dayNumber (year month day : Nat) : Int :=
  (daysBeforeYear year + daysBeforeMonth year month + day : Nat) - 719163

/-- `date.fromisoformat` of a text that `_ISO_DATE_RE` matches. -/
def parseDate (text : String) : Option Int :=
  match text.toList with
  | [y1, y2, y3, y4, '-', m1, m2, '-', d1, d2] =>
    if [y1, y2, y3, y4, m1, m2, d1, d2].all (·.isDigit) then
      let year := Decimal.ofDigits [y1, y2, y3, y4]
      let month := Decimal.ofDigits [m1, m2]
      let day := Decimal.ofDigits [d1, d2]
      if 1 ≤ year ∧ 1 ≤ month ∧ month ≤ 12 ∧ 1 ≤ day ∧ day ≤ daysInMonth year month then
        some (dayNumber year month day)
      else none
    else none
  | _ => none

/-- `iso_date`. -/
def isoDate (text name : String) : Except Error Int :=
  match parseDate text with
  | some day => .ok day
  | none => .error (.usage (name ++ " must be a YYYY-MM-DD date"))

example : ["1970-01-01", "2024-02-29", "9999-12-31", "2023-02-29", "2024-2-9"].map parseDate =
    [some 0, some 19782, some 2932896, none, none] := by decide

def lastDate : Int := 2932896

/-! ### Clusters -/

/-- Where the cluster id of a kind lives on an attribution (`CLUSTER_FIELDS`). -/
def clusterField (kind : ClusterKind) (a : Attribution) : Option String :=
  match kind with
  | .team => a.team
  | .workspace => a.workspaceId
  | .mdmGroup => a.extra.lookup "mdm_group"
  | .gateway => a.extra.lookup "gateway"

/-- `cluster_of`: an empty id is none. -/
def clusterOf (request : Request) (kind : ClusterKind) : Option String :=
  (clusterField kind request.attribution).filter (· ≠ "")

/-- `CONTROL_ARMS`. -/
def controlArms : List String := ["control", "holdback"]

/-- `parse_arm`. -/
def parseArm (value : String) : Except Error (String × Option Int) := do
  let arm := value.toList.takeWhile (· ≠ '@')
  let date := (value.toList.dropWhile (· ≠ '@')).tail
  if arm = [] then throw (.usage "arm labels must be non-empty strings")
  if '@' ∈ value.toList then
    let day ← isoDate (String.ofList date) "arm adoption date"
    pure (String.ofList arm, some day)
  else pure (String.ofList arm, none)

/-- `_check_window`: the dates of a window. -/
def checkWindow (since until_ : String) : Except Error (Int × Int) := do
  let lo ← isoDate since "since"
  let hi ← isoDate until_ "until"
  if hi ≤ lo then throw (.usage "until must be after since")
  pure (lo, hi)

/-! ### Costs -/

/-- `_costs`. -/
def costs (priced : PricedInference) (cls : BillingClass) : Int :=
  match priced.figure.nano with
  | none => 0
  | some nano =>
    if cls = .allowance then if priced.figure.basis = .listEquivalent then nano else 0
    else if priced.figure.basis = .listEquivalent then 0
    else priced.exactNano

/-- The inferences of a request that may be billed, each with the time of its attempt. -/
def activeInferences (request : Request) : List (Inference × Nat) :=
  request.attempts.flatMap fun a =>
    (a.inferences.filter fun i => i.billable != some false).map fun i => (i, a.tsStartMs)

/-- The cost of a request in a billing class. -/
def requestCost (pricer : Pricer) (cls : BillingClass) (request : Request) : Int :=
  (((activeInferences request).filter fun i =>
    decide (billingClass (some i.1.pricing.billingPath) = cls)).map fun i =>
      costs (pricer.priceInference i.1 i.2) cls).sum

/-! ### What the panel reads -/

/-- The order of `iter_requests`. -/
def requestOrder (r : RequestRow) : Nat ×ₗ String ×ₗ Nat ×ₗ String :=
  toLex (r.request.tsStartMs, toLex (r.request.laneKey, toLex (r.request.seq, r.requestId)))

/-- `iter_requests` of the days from `lo` on and before `hi`. -/
def iterRequests (db : Db) (lo hi : Int) : List Request :=
  ((db.requests.filter fun r =>
    decide (lo * dayMs ≤ r.request.tsStartMs ∧ r.request.tsStartMs < hi * dayMs)).insertionSort
      fun a b => requestOrder a ≤ requestOrder b).map (·.request)

/-- The order of `cluster_days`. -/
def clusterDayOrder (r : RollupRow ClusterKey ClusterSums) : Nat ×ₗ String ×ₗ String ×ₗ String :=
  toLex (r.key.dateUtc, toLex (r.key.clusterId, toLex (r.key.arm.getD "", r.key.wave.getD "")))

/-- `cluster_days` of the days from `lo` on and before `hi`, in order. -/
def sortedClusterDays (db : Db) (readOnly : Bool) (kind : ClusterKind) (lo hi : Int) :
    Db × List (RollupRow ClusterKey ClusterSums) :=
  let (db, rows) := Store.clusterDays db readOnly kind lo.toNat hi.toNat
  (db, rows.insertionSort fun a b => clusterDayOrder a ≤ clusterDayOrder b)

/-! ### Rows -/

/-- A cluster and a day. -/
abbrev CellKey := String × Nat

/-- `PanelRow`. -/
structure PanelRow where
  clusterId : String
  dateUtc : Nat
  (costBaselineNano costActualNano : Int)
  activeDevDays : Nat
  (arm wave : Option String)
  treated : Bool
  outcomePrs : Option Nat
  deriving DecidableEq

/-- One row of `check_rows`: what the types of a row leave to check. -/
def checkRow (r : PanelRow) : Except Error Unit :=
  if r.clusterId = "" then .error (.usage "PanelRow.cluster_id must be a non-empty string")
  else if lastDate < r.dateUtc then .error (.usage "PanelRow.date_utc must be a YYYY-MM-DD date")
  else .ok ()

/-- `check_rows`. -/
def checkRows (panel : List PanelRow) : Except Error (List PanelRow) := do
  panel.forM checkRow
  pure panel

/-- The experiment tag of a cell after one more: a control arm gives way to another arm, and the first
wave stays. -/
def addTag (tags : List (CellKey × Option String × Option String)) (key : CellKey)
    (arm wave : Option String) : List (CellKey × Option String × Option String) :=
  let prev := (tags.lookup key).getD (none, none)
  let arm := if arm.isSome && (prev.1.isNone || prev.1.any (· ∈ controlArms)) then arm else prev.1
  upsert (·.1) (key, arm, prev.2.or wave) tags

/-- A request of the panel, in its cell. -/
structure CellRequest where
  key : CellKey
  request : Request

def cellRequests (kind : ClusterKind) (requests : List Request) : List CellRequest :=
  requests.filterMap fun r =>
    (clusterOf r kind).map fun cluster => ⟨(cluster, dayOf r.tsStartMs), r⟩

/-- Baseline cost, actual cost and active users of each cluster day and request, under its cell. -/
def cellEntries (baseline actual : Pricer) (cls : BillingClass)
    (days : List (RollupRow ClusterKey ClusterSums)) (requests : List CellRequest) :
    List (CellKey × Int × Int × Nat) :=
  (days.map fun d => ((d.key.clusterId, d.key.dateUtc), (0, 0, d.activeUsers))) ++
    requests.map fun r => (r.key, (requestCost baseline cls r.request, requestCost actual cls r.request, 0))

/-- `cells`. -/
def cellsOf (baseline actual : Pricer) (cls : BillingClass)
    (days : List (RollupRow ClusterKey ClusterSums)) (requests : List CellRequest) :
    List (CellKey × Int × Int × Nat) := tally (cellEntries baseline actual cls days requests)

/-- `tags`. -/
def tagsOf (days : List (RollupRow ClusterKey ClusterSums)) (requests : List CellRequest) :
    List (CellKey × Option String × Option String) :=
  let tags := days.foldl (fun tags d =>
    addTag tags (d.key.clusterId, d.key.dateUtc) d.key.arm d.key.wave) []
  requests.foldl (fun tags r =>
    let a := r.request.attribution
    if a.arm.isSome || a.wave.isSome then addTag tags r.key a.arm a.wave else tags) tags

def activeOf (requests : List CellRequest) (key : CellKey) : List Request :=
  (requests.filter fun r => decide (r.key = key) && !(activeInferences r.request).isEmpty).map (·.request)

def principalsOf (requests : List Request) : List Principal :=
  (requests.filterMap (·.attribution.principal)).dedup

/-- The active developers of a cell: where a day has several rows and every active request its
principal, each developer counts once. -/
def devDays (days : List (RollupRow ClusterKey ClusterSums)) (requests : List CellRequest)
    (key : CellKey) (users : Nat) : Nat :=
  let splits := (days.filter fun d => decide ((d.key.clusterId, d.key.dateUtc) = key)).length
  let active := activeOf requests key
  let people := principalsOf active
  if 1 < splits ∧ (∀ r ∈ active, r.attribution.principal ≠ none) ∧ people ≠ [] then
    min users people.length
  else users

/-- `first_tag`: the first day a cluster carries an arm that starts treatment. -/
def firstTag (assigned : List (String × String × Option Int))
    (tags : List (CellKey × Option String × Option String)) (cluster : String) : Option Nat :=
  let sorted := tags.insertionSort fun a b => toLex a.1 ≤ toLex b.1
  (sorted.find? fun t => decide (t.1.1 = cluster) &&
    t.2.1.any fun arm => arm ∉ controlArms &&
      (assigned.lookup cluster).all fun a => a.1 = arm).map (·.1.2)

/-- `outcomes`: the largest pull requests of each team and day. -/
def outcomesOf (db : Db) (kind : ClusterKind) (lo hi : Int) (key : CellKey) : Option Nat :=
  if kind = .team then
    ((db.outcomes.filter fun o => decide (lo ≤ o.dateUtc ∧ o.dateUtc < hi) &&
      decide ((o.team, o.dateUtc) = key)).map (·.pullRequests)).max?
  else none

/-- The arm of a row and whether it is treated. -/
def treatment (assigned : List (String × String × Option Int))
    (tags : List (CellKey × Option String × Option String)) (key : CellKey) : Option String × Bool :=
  let tagged := (firstTag assigned tags key.1).any (· ≤ key.2)
  match assigned.lookup key.1 with
  | some (arm, start) =>
    (some arm, if arm ∈ controlArms then false
      else match start with
        | some start => decide (start ≤ key.2)
        | none => tagged)
  | none => (((tags.lookup key).getD (none, none)).1, tagged)

/-- The row of a cell. -/
def panelRow (outcomePrs : CellKey → Option Nat) (assigned : List (String × String × Option Int))
    (days : List (RollupRow ClusterKey ClusterSums)) (requests : List CellRequest)
    (cell : CellKey × Int × Int × Nat) : PanelRow :=
  let tags := tagsOf days requests
  let (arm, treated) := treatment assigned tags cell.1
  { clusterId := cell.1.1
    dateUtc := cell.1.2
    costBaselineNano := cell.2.1
    costActualNano := cell.2.2.1
    activeDevDays := devDays days requests cell.1 cell.2.2.2
    arm
    wave := ((tags.lookup cell.1).getD (none, none)).2
    treated
    outcomePrs := outcomePrs cell.1 }

/-- `build_panel`, on a writable or a read-only store. -/
def buildPanel (db : Db) (readOnly : Bool) (kind : ClusterKind) (since until_ : String)
    (baseline actual : Pricer) (arms : List (String × String) := [])
    (cls : BillingClass := .billed) : Except Error (List PanelRow) := do
  if cls = .pool then throw (.usage "billing_class must be one of billed, allowance")
  let (lo, hi) ← checkWindow since until_
  let assigned ← arms.mapM fun a => do
    let arm ← parseArm a.2
    pure (a.1, arm)
  let (db, days) := sortedClusterDays db readOnly kind lo hi
  let requests := cellRequests kind (iterRequests db lo hi)
  let cells := (cellsOf baseline actual cls days requests).insertionSort fun a b => toLex a.1 ≤ toLex b.1
  pure (cells.map (panelRow (outcomesOf db kind lo hi) assigned days requests))

end TokenBill.Verify
