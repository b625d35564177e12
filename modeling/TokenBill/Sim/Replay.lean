import TokenBill.Core.Findings
import TokenBill.Sim.Labels
import TokenBill.Sim.UsageTuples

/-!
# Usage replay

`sim/usage_replay.py`: the requests of a lane under a policy, in one pass. A pass goes over the requests with a
serving inference in order and transforms the usage of each in fixed steps: rates, context, cache state, TTL. What
it has of the request before (its total under the policy, the uncached part of it, its pricing context) decides what
is read of the cache.

Selectors are predicates on lanes; what a run asks of the pricer, of the cache rules and of the tokenizer bands, and
the groups that were found across lanes, are fields of the run.
-/

namespace TokenBill.Sim

open Transitions

/-! ### Policies -/

/-- `_Compiled`: a policy as the engine reads it, in milliseconds and tokens. -/
structure Compiled where
  ttl : List ((Lane → Bool) × Nat) := []
  keepalive : Option ((Lane → Bool) × Int × Int) := none
  cw : Option Int := none
  cr : Option (String × Int) := none
  remap : List ((Lane → Bool) × String) := []
  effort : List ((Lane → Bool) × Nat × ℚ) := []
  fastOff : Bool := false
  geoGlobal : Bool := false
  regionalToGlobal : Bool := false
  batch : Bool := false
  repairs : List String := []

/-- `_LaneCfg`: what a policy does to one lane. -/
structure LaneCfg where
  ttlS : Option Nat := none
  ka : Option (Int × Int) := none
  cw : Option (Int × Int) := none
  cr : Option (String × Int × Int) := none
  remap : Option String := none
  effort : Option (Nat × ℚ) := none
  batch : Bool := false
  restore : Bool := false
  rateCtx : Bool := false
  needsTrans : Bool := false
  skipped : List String := []

/-- The passes over a lane. -/
inductive Side where
  | point | low | high

/-- `_Req` of a request with a serving inference. -/
structure Served where
  req : Request
  inf : Inference
  (reset resetCw : Bool)

namespace Served

variable (st : Served)

/-- `_Req.ts`. -/
def ts : Int := st.req.tsStartMs

/-- `_Req.serving_ts`. -/
def servingTs : Nat := st.req.finalAttempt.tsStartMs

/-- `_Req.obs_t`. -/
def obs : UsageTuple := tupleOf st.inf.usage

/-- `_Req.own_ttl`. -/
def ownTtl : Option Nat := writeTtl st.inf

end Served

/-- One replay call. The floors are token counts, as `static_prefix_floor` leaves them. -/
structure Run where
  compiled : Compiled
  hashes : Hashes
  providers : Providers
  supports : PricingContext → String → Nat → Bool
  minCacheable : PricingContext → Nat → Int
  ttlOptions : String → String → String → List Nat
  tokenizerBand : PricingContext → String → Nat → Option (ℚ × ℚ)
  calibrated : Bool
  summaryTokens : Int
  floor : String × String → Nat
  stagger : String → Option (Nat × Int)
  ciPrefix : String → Option (Nat × Int)

/-! ### The steps of a lane -/

/-- The requests with a serving inference and the resets between them: one pointer goes over the events. -/
def prepareFrom : List LaneEvent → Option Nat → List Request → List Served
  | _, _, [] => []
  | events, prevTs, req :: rest =>
    match req.servingInference with
    | none => prepareFrom events prevTs rest
    | some inf =>
      let upTo := events.takeWhile fun ev => decide (ev.tsMs ≤ req.tsStartMs)
      let window := upTo.filter fun ev => prevTs.any (· < ev.tsMs)
      let resetCw := window.any fun ev => decide (ev.kind = .compaction ∨ ev.kind = .clear)
      let reset := resetCw || window.any (fun ev => decide (ev.kind = .contextEdit)) || Calibrate.editsContext req
      { req, inf, reset, resetCw } :: prepareFrom (events.drop upTo.length) (some req.tsStartMs) rest

/-- `_Run._prepare`: the steps of a lane. -/
def prepare (lane : Lane) : List Served := prepareFrom lane.events none lane.requests

/-! ### What a policy does to a lane -/

namespace Run

variable (run : Run)

/-- `_xctx`. -/
def xctx (ctx : PricingContext) (remap : Option String) (batch : Bool) : PricingContext :=
  let ctx := match remap with
    | some target => if ctx.model ≠ target then { ctx with model := target, modelRaw := target } else ctx
    | none => ctx
  { ctx with
    speed := if run.compiled.fastOff then "standard" else ctx.speed
    inferenceGeo := if run.compiled.geoGlobal then none else ctx.inferenceGeo
    endpointScope := if run.compiled.regionalToGlobal then "global" else ctx.endpointScope
    serviceTier := if batch then "batch" else ctx.serviceTier }

/-- Why keepalive pings are not sent on a request. -/
def pingBlock (req : Request) : Option String :=
  let p := req.params
  if p.outputFormat.isSome then some "keepalive skipped: structured outputs"
  else if p.toolChoice.any fun c => decide (c = "any") || "tool:".toList.isPrefixOf c.toList then
    some "keepalive skipped: forced tool_choice"
  else if p.thinking.any fun t => "enabled".toList.isPrefixOf t.toList then some "keepalive skipped: thinking enabled"
  else if p.serviceTierRequested = some "batch" ∨
      (req.servingInference.any fun si => decide (si.pricing.serviceTier = "batch")) = true then
    some "keepalive skipped: batch"
  else none

/-- `_keepalive_block`, of a lane that has requests. -/
def keepaliveBlock (lane : Lane) (steps : List Served) : Option String :=
  if (lane.requests.head?.any fun first => decide (first.attribution.agentProduct = some "claude_code")) = true then
    some "keepalive not allowed for claude_code"
  else
    (lane.requests.findSome? pingBlock).or
      (if steps.all fun st => run.supports st.inf.pricing "keepalive" st.servingTs then none
        else some "keepalive not supported for model")

/-- `_batch_eligible`. -/
def batchEligible (lane : Lane) : Bool :=
  match lane.requests with
  | [req] =>
    (req.servingInference.any fun si => decide (si.pricing.serviceTier ≠ "batch") &&
      (decide (si.pricing.speed ≠ "fast") || run.compiled.fastOff)) &&
    decide (req.attribution.workloadClass ∈ [WorkloadClass.ci, .eval, .scheduled, .service]) &&
    !decide ("managed".toList <:+: ((req.attribution.entrypoint.getD "").toList.map Char.toLower))
  | _ => false

/-- `_median`. -/
def median (values : List Int) : Int :=
  let sorted := values.insertionSort (· ≤ ·)
  let mid := sorted.length / 2
  if sorted.length % 2 = 1 then sorted.getD mid 0 else (sorted.getD (mid - 1) 0 + sorted.getD mid 0) / 2

/-- `_restore_eligible`. -/
def restoreEligible (steps : List Served) : Bool :=
  match steps with
  | [] => false
  | first :: _ =>
    decide (5 ≤ steps.length) && (steps.all fun st => decide (st.obs.reads = 0 ∧ st.obs.writes = 0)) &&
      decide (max (run.minCacheable first.inf.pricing first.servingTs) 4096 ≤ median (steps.map (·.obs.totalInput)))

def firstMatch {α : Type} (lane : Lane) (entries : List ((Lane → Bool) × α)) : Option α :=
  (entries.find? fun e => e.1 lane).map Prod.snd

/-- The keepalive of a lane, or why there is none. -/
def laneKeepalive (lane : Lane) (steps : List Served) : Option (Int × Int) × List String :=
  match run.compiled.keepalive with
  | some (selector, kappa, maxIdle) =>
    if selector lane then
      match run.keepaliveBlock lane steps with
      | some reason => (none, [reason])
      | none => (some (kappa, maxIdle), [])
    else (none, [])
  | none => (none, [])

/-- The TTL of a lane, or why there is none. -/
def laneTtl (lane : Lane) (steps : List Served) (pings : Bool) : Option Nat × List String :=
  match firstMatch lane run.compiled.ttl with
  | some seconds =>
    let bad := ((steps.filter fun st => decide (seconds ∉ run.ttlOptions st.inf.pricing.provider st.inf.pricing.channel
      st.inf.pricing.model)).map (·.inf.pricing.channel)).dedup.insertionSort (· ≤ ·)
    if pings then (none, ["ttl policy ignored on a keepalive lane (the TTL stays 5m)"])
    else match bad with
      | channel :: _ => (none, ["ttl policy not applicable on channel " ++ channel])
      | [] => (some seconds, [])
  | none => (none, [])

/-- The compaction window of a lane, or why there is none. -/
def laneWindow (lane : Lane) (steps : List Served) (remap : Option String) : Option (Int × Int) × List String :=
  match run.compiled.cw, steps with
  | some window, first :: _ =>
    if lane.kind = .main then
      if run.supports (run.xctx first.inf.pricing remap false) "1m_context" first.servingTs then
        (some (window, run.summaryTokens), [])
      else (none, ["compaction window: model without 1m context"])
    else (none, [])
  | _, _ => (none, [])

/-- Whether a lane is batched, or why not. -/
def laneBatch (lane : Lane) (steps : List Served) (remap : Option String) : Bool × List String :=
  match steps with
  | first :: _ =>
    if run.compiled.batch && run.batchEligible lane then
      if run.supports (run.xctx first.inf.pricing remap false) "batch" first.servingTs then (true, [])
      else (false, ["batch not supported for model"])
    else (false, [])
  | [] => (false, [])

/-- `_lane_cfg`. -/
def laneCfg (lane : Lane) (steps : List Served) : LaneCfg :=
  let c := run.compiled
  let remap := firstMatch lane c.remap
  let effort := firstMatch lane c.effort
  let (ka, kaSkipped) := run.laneKeepalive lane steps
  let (ttlS, ttlSkipped) := run.laneTtl lane steps ka.isSome
  let (cw, cwSkipped) := run.laneWindow lane steps remap
  let cr := if lane.kind = .main ∧ steps ≠ [] then c.cr.map fun cr => (cr.1, cr.2, run.summaryTokens) else none
  let (batch, batchSkipped) := run.laneBatch lane steps remap
  let restore := decide ("restore_caching" ∈ c.repairs) && run.restoreEligible steps
  let cross := steps.head?.any fun first =>
    (run.stagger first.req.requestId).isSome || (run.ciPrefix first.req.requestId).isSome
  { ttlS, ka, cw, cr, remap, effort, batch, restore
    rateCtx := remap.isSome || c.fastOff || c.geoGlobal || c.regionalToGlobal
    needsTrans := ttlS.isSome || ka.isSome || cw.isSome || cr.isSome || c.fastOff || cross || restore ||
      decide ("fallback_credit" ∈ c.repairs) || decide ("retry_backoff_cap" ∈ c.repairs)
    skipped := kaSkipped ++ ttlSkipped ++ cwSkipped ++ batchSkipped }

end Run

end TokenBill.Sim
