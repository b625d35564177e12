import TokenBill.Core.Encode
import TokenBill.Core.Findings

/-!
# The ledger's tables

The tables of `store/schema.py` as lists of rows. A `requests` row keeps its request
whole, with its attempts nested (the row codec of `store/db.py` is lossless), beside
the priced rows of its inferences; a `merge_members` row keeps the document its JSON
decodes to. Columns that the store computes from these are functions here.
-/

namespace TokenBill.Store

/-! ### Dates -/

/-- `DAY_MS`. -/
def dayMs : Nat := 86400000

/-- `MAX_MS`: the last millisecond of 9999-12-31. -/
def maxMs : Nat := 253402300799999

def dayOf (tsMs : Nat) : Nat := tsMs / dayMs

/-- `date_of`. -/
def dateOf (tsMs : Nat) : Except Error Nat :=
  if tsMs ≤ maxMs then .ok (dayOf tsMs)
  else .error (.usage "timestamp outside 1970-01-01 … 9999-12-31")

/-- `date_start_ms`. -/
def dateStartMs (date : Nat) : Nat := date * dayMs

/-! ### Prices -/

/-- `PricedLine`, as far as the ledger stores it. -/
structure PricedLine where
  bucket : String
  quantity : Nat
  amountNano : Int
  (lowNano highNano : Option Int)
  exact : Bool
  rateRowId : String
  deriving DecidableEq

/-- `PricedInference`. -/
structure PricedInference where
  lines : List PricedLine
  figure : Figure
  exactNano : Int
  estimated : Option Figure
  unpricedReason : Option String

/-- `Pricer`. -/
structure Pricer where
  rateCardSha256 : String
  basis : Basis
  priceInference : Inference → Nat → PricedInference

/-- The priced columns of an inference (`lines` is what `lines_json` and the bucket columns
hold). -/
structure PricedColumns where
  pricedNano : Option Int := none
  exactNano : Int := 0
  estNano : Int := 0
  estLowNano : Int := 0
  estHighNano : Int := 0
  evidence : Option Evidence := none
  basis : Option Basis := none
  unpricedReason : Option String := none
  rateCardSha : Option String := none
  lines : List PricedLine := []
  deriving DecidableEq

/-! ### Rows -/

/-- A row of `sources`. -/
structure SourceRow where
  (sourceId adapter nameHmac sha256 : String)
  (nameKeyId principalKeyId : Option String)
  (ingestedMs records quarantined : Nat)
  stats : List (String × Int)

/-- A row of `sessions`. -/
structure SessionRow where
  (sessionKey sourceKind : String)
  (startedMs endedMs : Nat)
  attribution : Attribution

/-- The columns a lane shell fills. -/
structure LaneShell where
  kind : LaneKind
  parentLaneKey : Option String
  (cacheScopeKey ttlObserved : String)
  laneExact : Bool

/-- A row of `lanes`; a placeholder has no shell. -/
structure LaneRow where
  (laneKey sessionKey : String)
  shell : Option LaneShell := none
  team : Option String := none
  billingClass : Option BillingClass := none

/-- A row of `inferences`: the inference, its attempt's time, its own copy of the principal and its
prices. -/
structure InferenceRow where
  inference : Inference
  tsMs : Nat
  principal : Option Principal
  priced : PricedColumns
  deriving DecidableEq

/-- A row of `requests` with its attempts and inferences; `attrPrio` only where it was merged. -/
structure RequestRow where
  request : Request
  fidelity : Fidelity
  sourcePriority : Int
  adapter : String
  sourcesMask : Nat
  attrPrio : Option (List (String × Int))
  inferences : List InferenceRow

/-- A row of `merge_members`. -/
structure MemberRow where
  (requestId memberKey origRequestId adapter sourceId : String)
  fidelity : Fidelity
  priority : Int
  principal : Option Principal
  tsStartMs : Nat
  doc : Request

/-- A row of `request_index`: the request of a provider request id, or a collision. -/
structure HintRow where
  providerRequestId : String
  requestId : Option String
  collision : Bool

/-- A row of `events`. -/
structure EventRow where
  eventId : String
  event : LaneEvent

/-- A row of `findings`. -/
structure FindingRow where
  runId : String
  finding : Finding
  createdMs : Nat

/-- A row of `audit`. -/
structure AuditRow where
  tsMs : Nat
  (actor action : String)
  detail : List (String × Json)

/-! ### Rollups -/

/-- A row of a rollup: its key, the distinct principals and the sums. -/
structure RollupRow (κ ν : Type) where
  key : κ
  activeUsers : Nat
  sums : ν
  deriving DecidableEq

/-- The key of `daily_rollup`. -/
structure DailyKey where
  dateUtc : Nat
  (team costCenter workspaceId : Option String)
  workloadClass : WorkloadClass
  laneKind : LaneKind
  model : Option String
  billingPath : String
  (arm wave : Option String)
  deriving DecidableEq

/-- The sums of `daily_rollup`. -/
structure DailySums where
  (requests uncachedInput cacheRead cacheWrite output : Nat)
  (exactNano allowanceNano estLowNano estHighNano : Int)
  unpricedInferences : Nat
  rateCardSha : Option String
  poolNano : Int
  deriving DecidableEq

/-- `CLUSTER_KINDS`. -/
inductive ClusterKind where
  | team | workspace | mdmGroup | gateway
  deriving DecidableEq

/-- The key of `cluster_day`. -/
structure ClusterKey where
  dateUtc : Nat
  clusterKind : ClusterKind
  clusterId : String
  (arm wave : Option String)
  deriving DecidableEq

/-- The sums of `cluster_day`. -/
structure ClusterSums where
  requests : Nat
  (exactNano allowanceNano poolNano : Int)

/-! ### The database -/

/-- The keys of `meta` that the store reads back. -/
structure Meta where
  orgKeyId : String := ""
  orgKeyMode : String := "none"
  nameKeyId : String := ""
  adoptedKeyId : String := ""
  adoptedNameKeyId : String := ""
  /-- `dq.name_key_mismatch`. -/
  nameMismatch : Nat := 0
  /-- `dq.principal_key_mismatch`. -/
  principalMismatch : Nat := 0
  rollupsDirty : List Nat := []
  identityRetainedBefore : Option Nat := none
  rateCardBasis : List (String × Basis) := []

/-- A ledger. -/
structure Db where
  info : Meta := {}
  sources : List SourceRow := []
  sessions : List SessionRow := []
  lanes : List LaneRow := []
  requests : List RequestRow := []
  mergeMembers : List MemberRow := []
  messageIndex : List (String × String) := []
  requestIndex : List HintRow := []
  events : List EventRow := []
  aggregates : List UsageAggregate := []
  costLines : List CostLine := []
  outcomes : List OutcomeAggregate := []
  dailyRollup : List (RollupRow DailyKey DailySums) := []
  clusterDay : List (RollupRow ClusterKey ClusterSums) := []
  findings : List FindingRow := []
  audit : List AuditRow := []

/-! ### Computed columns -/

namespace RequestRow

/-- The column `request_id`. -/
def requestId (r : RequestRow) : String := r.request.requestId

/-- The column `date_utc`. -/
def dateUtc (r : RequestRow) : Nat := dayOf r.request.tsStartMs

/-- The column `principal`. -/
def principal (r : RequestRow) : Option Principal := r.request.attribution.principal

end RequestRow

/-- The column `eff_billing_path`: the attribution's, else the serving inference's. -/
def effBillingPath (r : Request) : Option String :=
  match r.attribution.billingPath.filter (· ≠ "") with
  | some path => some path
  | none => r.servingInference.map (·.pricing.billingPath)

/-- `COALESCE(l.kind, 'unknown')` of a lane. -/
def Db.laneKind (db : Db) (laneKey : String) : LaneKind :=
  match (db.lanes.find? fun l => decide (l.laneKey = laneKey)).bind (·.shell) with
  | some shell => shell.kind
  | none => .unknown

end TokenBill.Store
