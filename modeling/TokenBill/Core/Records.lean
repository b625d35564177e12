import Mathlib.Algebra.GroupWithZero.Nat
import Mathlib.Algebra.Ring.Int.Defs
import Mathlib.Data.String.Basic

/-!
# Canonical ledger records

The frozen records of `tokenbill/core/records.py` that the ledger stores and
publishes. A field keeps the source's name in camel case; enumerations are
inductive types whose `value` is the string of the source; a record whose
`__post_init__` refuses a value carries that check as a field, so that a refused
value cannot be built.

Dates (`YYYY-MM-DD`, always compared and never parsed by the code modelled here)
are numbered by their day since 1970-01-01: the order of ISO date strings is the
order of these numbers.
-/

namespace TokenBill

/-- The errors of `core/errors.py` that the modelled code raises, and SQLite's own. -/
inductive Error where
  /-- Invalid invocation or input shape. -/
  | usage (msg : String)
  /-- A privacy rule would be violated. -/
  | privacy (msg : String)
  /-- A result object fails a construction-time invariant. -/
  | contract (msg : String)
  /-- `sqlite3.IntegrityError`. -/
  | integrity (msg : String)
  deriving DecidableEq

/-- `MAX_TOKENS`. -/
def maxTokens : Nat := 2 ^ 53

/-! ### Enumerations -/

/-- `LaneKind`. -/
inductive LaneKind where
  | main | subagent | workflowAgent | helper | compaction | apiRun | unknown
  deriving DecidableEq

def LaneKind.value : LaneKind → String
  | main => "main" | subagent => "subagent" | workflowAgent => "workflow_agent"
  | helper => "helper" | compaction => "compaction" | apiRun => "api_run" | unknown => "unknown"

/-- `InferenceKind`. -/
inductive InferenceKind where
  | message | compaction | advisor | fallbackDeclined | fallback | keepalive | outputResidual | other
  deriving DecidableEq

/-- `UsageSource`. -/
inductive UsageSource where
  | final | messageStartOnly | partialStream | estimated | providerRollup
  deriving DecidableEq

/-- `Outcome`. -/
inductive Outcome where
  | ok | httpError | aborted | timeout | refused | networkError | unknown
  deriving DecidableEq

/-- `WorkloadClass`. -/
inductive WorkloadClass where
  | interactive | ci | scheduled | eval | batch | service | unknown
  deriving DecidableEq

def WorkloadClass.value : WorkloadClass → String
  | interactive => "interactive" | ci => "ci" | scheduled => "scheduled" | eval => "eval"
  | batch => "batch" | service => "service" | unknown => "unknown"

/-- `Fidelity`, an `IntEnum`. -/
inductive Fidelity where
  | aggregate | estimated | noTtlSplit | full
  deriving DecidableEq

/-- `int(fidelity)`. -/
def Fidelity.toNat : Fidelity → Nat
  | aggregate => 0 | estimated => 1 | noTtlSplit => 2 | full => 3

/-- A billing class: `billed`, `allowance` (seat allowance) or `pool` (Copilot credits). -/
inductive BillingClass where
  | billed | allowance | pool
  deriving DecidableEq

/-- `COPILOT_BILLING_PATHS`. -/
def copilotBillingPaths : List String := ["copilot_pool", "copilot_direct"]

/-- `billing_class`. -/
def billingClass (billingPath : Option String) : BillingClass :=
  if billingPath = some "subscription" then .allowance
  else if billingPath.any (· ∈ copilotBillingPaths) then .pool
  else .billed

/-! ### Principals -/

/-- A principal: a store pseudonym `p_<20 hex>`, or one of the two in-transit forms
`c_<20 hex>` and `r_<opaque ref>`. The payload is what follows the two characters. -/
inductive Principal where
  /-- `p_…`. -/
  | p (hex : String)
  /-- `c_…`. -/
  | c (hex : String)
  /-- `r_…`. -/
  | r (ref : String)
  deriving DecidableEq

/-- The string of a principal. -/
def Principal.text : Principal → String
  | p hex => "p_" ++ hex
  | c hex => "c_" ++ hex
  | r ref => "r_" ++ ref

/-- `is_collector_ref`: an in-transit principal. -/
def Principal.isCollectorRef : Principal → Bool
  | p _ => false
  | c _ => true
  | r _ => true

/-- `str.startswith`, computed on the characters. -/
def startsWith (s pre : String) : Bool := pre.toList.isPrefixOf s.toList

/-- `is_name_hash`: an `h_…` name hash. -/
def isNameHash : Option String → Bool
  | none => false
  | some s => startsWith s "h_"

/-! ### Usage -/

/-- The fields of `UsageBuckets`. -/
structure UsageCounts where
  uncachedInput : Nat := 0
  cacheRead : Nat := 0
  cacheWrite5m : Nat := 0
  cacheWrite1h : Nat := 0
  cacheWriteOther : Nat := 0
  cacheWriteOtherTtlS : Option Nat := none
  cacheWriteUnknown : Nat := 0
  output : Nat := 0
  outputReasoning : Option Nat := none
  webSearchRequests : Nat := 0
  webFetchRequests : Nat := 0
  deriving DecidableEq

/-- `ContractViolation(f"{type}.{name}: {why}")`. -/
def fail (type name why : String) : Error := .contract (type ++ "." ++ name ++ ": " ++ why)

/-- The bucket counts `UsageBuckets.__post_init__` checks, in its order. -/
def UsageCounts.bucketCounts (u : UsageCounts) : List (String × Nat) :=
  [("uncached_input", u.uncachedInput), ("cache_read", u.cacheRead),
   ("cache_write_5m", u.cacheWrite5m), ("cache_write_1h", u.cacheWrite1h),
   ("cache_write_other", u.cacheWriteOther), ("cache_write_unknown", u.cacheWriteUnknown),
   ("output", u.output), ("web_search_requests", u.webSearchRequests),
   ("web_fetch_requests", u.webFetchRequests)]

/-- The check `UsageBuckets.__post_init__` fails first, if any. -/
def UsageCounts.check (u : UsageCounts) : Option Error :=
  match u.bucketCounts.find? fun b => decide (maxTokens < b.2) with
  | some (name, _) => some (fail "UsageBuckets" name "must be an int in [0, 2**53]")
  | none =>
    if u.outputReasoning.any (maxTokens < ·) then
      some (fail "UsageBuckets" "output_reasoning" "must be an int in [0, 2**53]")
    else if u.outputReasoning.any (u.output < ·) then
      some (fail "UsageBuckets" "output_reasoning" "exceeds output")
    else if u.cacheWriteOtherTtlS.any fun ttl => ttl == 0 || decide (maxTokens < ttl) then
      some (fail "UsageBuckets" "cache_write_other_ttl_s" "must be a positive int")
    else if 0 < u.cacheWriteOther ∧ u.cacheWriteOtherTtlS = none then
      some (fail "UsageBuckets" "cache_write_other_ttl_s" "required when cache_write_other > 0")
    else none

/-- Disjoint billed token buckets that passed their checks. -/
structure UsageBuckets extends UsageCounts where
  valid : toUsageCounts.check = none
  deriving DecidableEq

/-- The constructor `UsageBuckets(...)`: it raises on a failed check. -/
def UsageCounts.build (u : UsageCounts) : Except Error UsageBuckets :=
  match h : u.check with
  | some e => .error e
  | none => .ok ⟨u, h⟩

theorem UsageCounts.build_eq_ok {u : UsageCounts} {b : UsageBuckets} :
    u.build = .ok b ↔ b.toUsageCounts = u := by
  unfold build
  split
  · rename_i e h
    constructor
    · intro hb; cases hb
    · rintro rfl
      rw [b.valid] at h
      cases h
  · constructor
    · intro hb; cases hb; rfl
    · rintro rfl; rfl

/-- `UsageBuckets()`. -/
def UsageBuckets.empty : UsageBuckets := ⟨{}, by decide⟩

/-- `UsageBuckets.cache_write`. -/
def UsageCounts.cacheWrite (u : UsageCounts) : Nat :=
  u.cacheWrite5m + u.cacheWrite1h + u.cacheWriteOther + u.cacheWriteUnknown

/-- `UsageBuckets.total_input`. -/
def UsageCounts.totalInput (u : UsageCounts) : Nat := u.uncachedInput + u.cacheRead + u.cacheWrite

/-- `a + b` where both are there, else nothing. -/
def addBoth (a b : Option Nat) : Option Nat :=
  match a, b with
  | some x, some y => some (x + y)
  | _, _ => none

/-- `UsageBuckets.__add__`. -/
def UsageBuckets.add (a b : UsageBuckets) : Except Error UsageBuckets :=
  if a.cacheWriteOtherTtlS ≠ none ∧ b.cacheWriteOtherTtlS ≠ none ∧
      a.cacheWriteOtherTtlS ≠ b.cacheWriteOtherTtlS then
    .error (.contract "UsageBuckets.__add__: different cache_write_other_ttl_s")
  else
    UsageCounts.build
      { uncachedInput := a.uncachedInput + b.uncachedInput
        cacheRead := a.cacheRead + b.cacheRead
        cacheWrite5m := a.cacheWrite5m + b.cacheWrite5m
        cacheWrite1h := a.cacheWrite1h + b.cacheWrite1h
        cacheWriteOther := a.cacheWriteOther + b.cacheWriteOther
        cacheWriteOtherTtlS := a.cacheWriteOtherTtlS.or b.cacheWriteOtherTtlS
        cacheWriteUnknown := a.cacheWriteUnknown + b.cacheWriteUnknown
        output := a.output + b.output
        outputReasoning := addBoth a.outputReasoning b.outputReasoning
        webSearchRequests := a.webSearchRequests + b.webSearchRequests
        webFetchRequests := a.webFetchRequests + b.webFetchRequests }

/-! ### Requests -/

/-- `PricingContext`. -/
structure PricingContext where
  (provider channel model modelRaw : String)
  serviceTier : String := "standard"
  speed : String := "standard"
  inferenceGeo : Option String := none
  endpointScope : String := "unknown"
  writeTtlHint : Option String := none
  billingPath : String := "unknown"
  routing : String := "direct"
  compliance : Option String := none
  contextTier : Option String := none
  deriving DecidableEq

/-- `Inference`, the atomic priced unit. -/
structure Inference where
  inferenceId : String
  kind : InferenceKind
  usage : UsageBuckets
  pricing : PricingContext
  usageSource : UsageSource := .final
  billable : Option Bool := some true
  billingRuleId : Option String := none
  outputUpper : Option Nat := none
  providerReportedCostNano : Option Int := none
  providerReportedCostBasis : Option String := none
  deriving DecidableEq

/-- `CacheDiagnostic`. -/
structure CacheDiagnostic where
  (reason providerReason : String)
  missedInputTokensEstimate : Option Nat
  source : String
  deriving DecidableEq

/-- `Attempt`. -/
structure Attempt where
  attemptId : String
  (attemptNo tsStartMs : Nat)
  (ttftMs durationMs : Option Nat)
  outcome : Outcome
  httpStatus : Option Nat
  (errorType retryLayer : Option String)
  retryAfterMs : Option Nat
  shouldRetry : Option Bool
  (providerRequestId providerMessageId modelServed stopReason : Option String)
  inferences : List Inference
  diagnostics : Option CacheDiagnostic := none
  appliedEdits : List (String × Nat) := []
  thinkingDropped : Nat := 0
  sdkRetryCount : Option Nat := none
  rawUsageJson : Option String := none
  conventionId : Option String := none
  deriving DecidableEq

/-- An attempt that succeeds and says no more of itself. -/
def Attempt.plain (attemptId : String) (attemptNo tsStartMs : Nat) (inferences : List Inference) : Attempt :=
  ⟨attemptId, attemptNo, tsStartMs, none, none, .ok, none, none, none, none, none, none, none, none, none, inferences,
    none, [], 0, none, none, none⟩

/-- `Breakpoint`. -/
structure Breakpoint where
  blockIndex : Nat
  ttl : String
  assumed : Bool := false
  deriving DecidableEq

/-- `RequestParams`. -/
structure RequestParams where
  modelRequested : String
  maxTokens : Option Nat := none
  stream : Option Bool := none
  thinking : Option String := none
  effort : Option String := none
  sessionEffort : Option String := none
  toolChoice : Option String := none
  outputFormat : Option String := none
  speed : Option String := none
  serviceTierRequested : Option String := none
  inferenceGeoRequested : Option String := none
  betas : List String := []
  breakpoints : List Breakpoint := []
  automaticCaching : Option Bool := none
  contextManagement : Option String := none
  taskBudget : Option Nat := none
  webSearchEnabled : Option Bool := none
  citationsEnabled : Option Bool := none
  hasImages : Option Bool := none
  advisorModel : Option String := none
  disableParallelToolUse : Option Bool := none
  deriving DecidableEq

/-- `BlockRef`. -/
structure BlockRef where
  h : String
  (hSorted hNorm : Option String)
  (tier kind : String)
  role : Option String
  nBytes : Nat
  estTokens : Option Nat
  imagePx : Option (Nat × Nat) := none
  volatileClasses : List String := []
  lookbackPos : Nat := 0
  deferred : Bool := false
  deriving DecidableEq

/-- `ContentFingerprint`. -/
structure ContentFingerprint where
  keyId : String
  blocks : List BlockRef
  tierEnd : Nat × Nat × Nat
  deriving DecidableEq

/-- `AppendedItem`. -/
structure AppendedItem where
  kind : String
  name : Option String
  nBytes : Nat
  isError : Bool := false
  images : Nat := 0
  deriving DecidableEq

/-- `Attribution`. -/
structure Attribution where
  principal : Option Principal := none
  team : Option String := none
  costCenter : Option String := none
  project : Option String := none
  repo : Option String := none
  workspaceId : Option String := none
  apiKeyId : Option String := none
  agentProduct : Option String := none
  agentType : Option String := none
  querySource : Option String := none
  skill : Option String := none
  mcpServer : Option String := none
  plugin : Option String := none
  workloadClass : WorkloadClass := .unknown
  entrypoint : Option String := none
  clientVersion : Option String := none
  billingPath : Option String := none
  cwdKey : Option String := none
  arm : Option String := none
  wave : Option String := none
  extra : List (String × String) := []
  deriving DecidableEq

/-- `SourceRef`. -/
structure SourceRef where
  (adapter sourceId locator : String)
  fidelity : Fidelity
  priority : Int
  deriving DecidableEq

/-- `Request`: one logical request, with at least one attempt. -/
structure Request where
  (requestId sessionKey laneKey : String)
  seq : Nat
  attribution : Attribution
  params : RequestParams
  attempts : List Attempt
  fingerprint : Option ContentFingerprint := none
  appended : List AppendedItem := []
  source : Option SourceRef := none
  attempts_ne : attempts ≠ []
  deriving DecidableEq

namespace Request

/-- `Request.ts_start_ms`: the start of the first attempt. -/
def tsStartMs (r : Request) : Nat := (r.attempts.head r.attempts_ne).tsStartMs

/-- `Request.final_attempt`. -/
def finalAttempt (r : Request) : Attempt := r.attempts.getLast r.attempts_ne

/-- `Request.serving_inference`: the last MESSAGE or FALLBACK inference of the final attempt. -/
def servingInference (r : Request) : Option Inference :=
  r.finalAttempt.inferences.reverse.find? fun inf => inf.kind == .message || inf.kind == .fallback

/-- `Request.billable_inferences`. -/
def billableInferences (r : Request) : List Inference :=
  (r.attempts.flatMap (·.inferences)).filter (·.billable != some false)

/-- `Request.model`: the serving inference's model, else the requested one. -/
def model (r : Request) : String :=
  match r.servingInference with
  | some si => if si.pricing.model ≠ "" then si.pricing.model else r.params.modelRequested
  | none => r.params.modelRequested

end Request

/-! ### Lanes, sessions and provider records -/

/-- The value of a lane-event attribute. -/
inductive AttrValue where
  | str (s : String) | int (n : Int) | bool (b : Bool) | null
  deriving DecidableEq

/-- `LaneEventKind`. -/
inductive LaneEventKind where
  | compaction | clear | modelFallback | modelSwitchUser | apiError | contextEdit | upgrade
  | contextInjection | humanPrompt | sessionMeta | costState | imageEviction | quotaState
  deriving DecidableEq

/-- `LaneEvent`. -/
structure LaneEvent where
  laneKey : String
  tsMs : Nat
  kind : LaneEventKind
  attrs : List (String × AttrValue) := []
  deriving DecidableEq

/-- `Lane`. -/
structure Lane where
  (laneKey sessionKey : String)
  kind : LaneKind
  parentLaneKey : Option String
  cacheScopeKey : String
  requests : List Request
  events : List LaneEvent := []
  ttlObserved : String := "unknown"
  laneExact : Bool := true

/-- `Session`. -/
structure Session where
  (sessionKey sourceKind : String)
  attribution : Attribution
  lanes : List Lane
  (startedMs endedMs : Nat)

/-- `UsageAggregate`. -/
structure UsageAggregate where
  (aggId sourceKind : String)
  (bucketStartMs bucketEndMs : Nat)
  dims : List (String × String)
  usage : UsageBuckets
  reportedCostNano : Option Int := none
  reportedCostBasis : Option String := none
  listCostNano : Option Int := none
  finality : String := "provisional"
  fetchedMs : Nat := 0
  deriving DecidableEq

/-- `CostLine`. -/
structure CostLine where
  (lineId sourceKind : String)
  dateUtc : Nat
  channel : String
  workspaceId : Option String
  description : String
  (model costType tokenType sku serviceTier inferenceGeo endpointScope : Option String)
  amountNano : Int
  listAmountNano : Option Int := none
  currency : String := "USD"
  finality : String := "provisional"
  principal : Option Principal := none
  fetchedMs : Nat := 0
  quantity : Option String := none
  unit : Option String := none
  costCenter : Option String := none
  team : Option String := none
  repo : Option String := none
  workload : Option String := none
  workflow : Option String := none
  routing : Option String := none
  speed : Option String := none
  pseudo : Option String := none
  deriving DecidableEq

/-- `OutcomeAggregate`. -/
structure OutcomeAggregate where
  dateUtc : Nat
  team : String
  (nUsers sessions commits pullRequests linesAdded linesRemoved editsAccepted editsRejected : Nat)
  sourceKind : String := "anthropic.cc_analytics"
  extra : List (String × Nat) := []
  deriving DecidableEq

/-- `SourceInfo`. -/
structure SourceInfo where
  (sourceId adapter nameHmac sha256 : String)
  bytes : Nat
  (nameKeyId principalKeyId : Option String)

/-- `IngestResult`, less the notes, capabilities and record-store rows the ledger never reads
(`quarantined` is only counted). -/
structure IngestResult where
  source : SourceInfo
  requests : List Request := []
  sessions : List Session := []
  events : List LaneEvent := []
  aggregates : List UsageAggregate := []
  costLines : List CostLine := []
  outcomes : List OutcomeAggregate := []
  quarantined : Nat := 0
  stats : List (String × Int) := []

end TokenBill
