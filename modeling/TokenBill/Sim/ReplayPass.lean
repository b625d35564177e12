import TokenBill.Sim.Replay

/-!
# A pass of the usage replay

`_Run._pass` of `sim/usage_replay.py`, a step at a time: the rate transforms of a request, the context transforms,
the keepalive pings before it, the cache-state transforms in their order, and then the TTL, the smallest prefix that is
cached and the batch tier.
-/

namespace TokenBill.Sim

open Transitions

/-! ### Decisions -/

/-- `_decide`: within ten seconds of the horizon the bounds take both outcomes. -/
def decideAlive (side : Side) (gap horizon : Int) : Bool :=
  if |gap - horizon| ≤ 10000 then
    match side with
    | .low => true
    | .high => false
    | .point => decide (gap ≤ horizon)
  else decide (gap ≤ horizon)

/-- `_ka_pings`. -/
def kaPings (gap kappa maxIdle : Int) : Int := if gap ≤ kappa then 0 else min (-(-gap / kappa) - 1) (maxIdle / kappa)

/-- `_scale_q` of a count. -/
def scaleQ (f : ℚ) (q : Int) : Int := if q = 0 then q else divHalfEven (q * f.num) f.den

/-- `_scale_t`. -/
def scaleT (f : ℚ) (t : UsageTuple) : UsageTuple :=
  if f = 1 then t
  else
    { t with
      uncached := scaleQ f t.uncached, reads := scaleQ f t.reads, w5 := scaleQ f t.w5, w1 := scaleQ f t.w1
      other := scaleQ f t.other, unknown := scaleQ f t.unknown, output := scaleQ f t.output
      reasoning := t.reasoning.map (scaleQ f) }

/-- `_EFFORT_RANK`. -/
def effortRank (level : String) : Option Nat := ["low", "medium", "high", "xhigh", "max"].idxOf? level

/-- `_THINKING_SHARE`. -/
def thinkingShare : ℚ := 505 / 1000

/-- The hit rate of a batch in a pass. -/
def batchHit : Side → ℚ
  | .point => 64 / 100
  | .low => 98 / 100
  | .high => 30 / 100

/-- `_effort`. -/
def effortOutput (t : UsageTuple) (scale : ℚ) (side : Side) : UsageTuple :=
  let scale := match side with
    | .point => scale
    | .low => max 0 (scale - 1 / 4)
    | .high => min 1 (scale + 1 / 4)
  let thinking := t.reasoning.getD (t.output * thinkingShare.num / thinkingShare.den)
  let cut := thinking * (scale.den - scale.num) / scale.den
  if cut = 0 then t else { t with output := t.output - cut, reasoning := t.reasoning.map (· - cut) }

/-- `_gate`: below the smallest prefix nothing is cached. -/
def gate (t : UsageTuple) (minCacheable : Int) : UsageTuple :=
  if t.totalInput < minCacheable ∧ (t.reads ≠ 0 ∨ t.writes ≠ 0) then withSplit t t.totalInput 0 0 pref5m else t

/-- `_batch_split`. -/
def batchSplit (t : UsageTuple) (ctx : PricingContext) (side : Side) : UsageTuple :=
  if ctx.channel = "bedrock" then withSplit t t.totalInput 0 0 pref5m
  else
    let reads := t.reads * (batchHit side).num / (batchHit side).den
    let moved := t.reads - reads
    if moved = 0 then t else { t with reads := reads, w5 := t.w5 + moved }

/-- `_pref`. -/
def prefOf (t : UsageTuple) (ob : Option Transition) (ttlPref : Option Pref) (pings : Bool) : Pref :=
  match ttlPref with
  | some pref => pref
  | none =>
    if pings then pref5m
    else (dominant t).getD (if (ob.bind (·.ttlS)) = some 3600 then pref1h else pref5m)

/-- `_retry_capped`. -/
def retryCapped (req : Request) (writes : Option Int) (ob : Transition) : Bool :=
  match ob.ttlS, writes with
  | some tau, some writes =>
    decide (2 ≤ req.attempts.length ∧ 0 < ob.expectedReuse) &&
      decide ((tau : Int) * 1000 < (req.finalAttempt.tsStartMs : Int) - req.tsStartMs ∧ (ob.expectedReuse : Int) ≤ 2 * writes)
  | _, _ => false

/-! ### The state of a pass -/

/-- What a pass has of the step before. -/
structure Prev where
  st : Served
  (total uncached : Int)
  ctx : PricingContext

/-- What a pass carries from step to step. -/
structure Pass where
  index : Nat := 0
  prev : Option Prev := none
  removed : Int := 0
  prevObsTotal : Int := 0
  firstTotal : Int := 0

/-- An inference that the policy adds. -/
structure Extra where
  kind : InferenceKind
  t : UsageTuple
  ctx : PricingContext
  ts : Int
  id : String

/-- `_State` of a step. -/
structure State where
  served : Served
  servingT : UsageTuple
  servingCtx : PricingContext
  servingUpper : Option Int
  altT : Option UsageTuple
  band : Option String
  extras : List Extra
  changed : Bool

/-- The input of a request as it is split between uncached tokens, reads and writes, and whether a transform made it
a hit. -/
structure Flow where
  (u r w : Int)
  flipped : Bool := false
  bandGap : Int := 0

/-- What a step is transformed with. -/
structure Env where
  cfg : LaneCfg
  side : Side
  scopeKey : String
  ob : Option Transition
  prev : Option Prev
  st : Served
  ctx : PricingContext

namespace Run

variable (run : Run)

/-- `_scaled`. -/
def scaled (t : UsageTuple) (ctx : PricingContext) (cfg : LaneCfg) (ts : Nat) (side : Side) : UsageTuple :=
  match cfg.remap.bind fun target => run.tokenizerBand ctx target ts, side with
  | some band, .low => scaleT band.1 t
  | some band, .high => scaleT band.2 t
  | _, _ => t

/-- `_scaled_int`. -/
def scaledInt (q : Int) (ctx : PricingContext) (cfg : LaneCfg) (ts : Nat) (side : Side) : Int :=
  if cfg.remap.isNone ∨ q = 0 then q else (run.scaled ⟨0, q, 0, 0, 0, none, 0, 0, none, 0, 0⟩ ctx cfg ts side).reads

/-- `_param_change`. -/
def paramChanged (cur prev : Served) (ignoreSpeed : Bool) : Bool :=
  let p := cur.req.params
  let pp := prev.req.params
  let a := cur.req.attribution
  let pa := prev.req.attribution
  (!ignoreSpeed && decide (cur.inf.pricing.speed ≠ prev.inf.pricing.speed)) ||
    ((differs p.effort pp.effort || differs p.thinking pp.thinking) &&
      !effortChangeKeepsCache run.providers a.agentProduct
        (if cur.inf.pricing.model ≠ "" then cur.inf.pricing.model else cur.req.model) cur.inf.pricing.channel
        a.clientVersion p.betas) ||
    differs a.clientVersion pa.clientVersion || differs a.cwdKey pa.cwdKey

/-- `tau_pi`. -/
def tauPi (e : Env) : Int :=
  match e.cfg.ttlS, e.ob.bind (·.ttlS) with
  | some ttl, _ => ttl
  | none, some ttl => ttl
  | none, none => (e.st.ownTtl.getD 300 : Nat)

/-- `alive`: the cache of the step before is there. -/
def alive (e : Env) (prev : Prev) : Bool :=
  if e.ctx.model ≠ prev.ctx.model ∨ e.st.reset then false
  else if run.paramChanged e.st prev.st run.compiled.fastOff then false
  else
    let gap := e.st.ts - prev.st.ts
    match e.cfg.ka with
    | some (kappa, maxIdle) => decide (gap ≤ kaPings gap kappa maxIdle * kappa + 300000)
    | none => decideAlive e.side gap (tauPi e * 1000)

/-- `alive`, which is asked of a step that has one before. -/
def aliveAfter (e : Env) : Bool := e.prev.any (run.alive e)

/-! ### Cache-state transforms -/

/-- `restore_caching`. -/
def restoreCaching (e : Env) (total : Int) (f : Flow) : Flow :=
  if e.cfg.restore then
    match e.prev with
    | some prev =>
      let gap := e.st.ts - prev.st.ts
      if decideAlive e.side gap (tauPi e * 1000) then
        { u := 0, r := min prev.total total, w := total - min prev.total total, flipped := true, bandGap := gap }
      else { f with u := 0, r := 0, w := total }
    | none => { f with u := 0, r := 0, w := total }
  else f

def shared (e : Env) (tokens : Nat) : Int := run.scaledInt tokens e.st.inf.pricing e.cfg e.st.servingTs e.side

/-- `stagger_fanout` of the first step of a lane. -/
def staggerFanout (e : Env) (f : Flow) : Flow :=
  match run.stagger e.st.req.requestId with
  | some (tokens, gap) =>
    let moved := min f.w (run.shared e tokens)
    { f with r := f.r + moved, w := f.w - moved, flipped := f.flipped || decide (0 < moved), bandGap := gap }
  | none => f

/-- `shared_ci_prefix` of the first step of a lane. -/
def sharedCiPrefix (e : Env) (total : Int) (f : Flow) : Flow :=
  match run.ciPrefix e.st.req.requestId with
  | some (tokens, gap) =>
    let r := max f.r (min (run.shared e tokens) (total - f.u))
    { f with r := r, w := total - f.u - r, flipped := true, bandGap := gap }
  | none => f

def laneFirst (e : Env) (total : Int) (f : Flow) : Flow :=
  if e.prev.isNone then run.sharedCiPrefix e total (run.staggerFanout e f) else f

/-- A hit that reads some of the input, and writes the rest of what is cached. -/
def readFlow (f : Flow) (total reads : Int) : Flow :=
  { f with r := min reads (total - f.u), w := total - f.u - min reads (total - f.u) }

/-- Whether a keepalive, a longer TTL, `fast_off` or `fallback_credit` makes a miss a hit. -/
def hitFlip (e : Env) (ob : Transition) : Bool :=
  let tauObs := ob.ttlS.getD 300
  ob.isMissEvent &&
    ((e.cfg.ttlS.any (tauObs < ·) && decide (ob.cause = .ttlExpiry) && run.aliveAfter e) ||
      (e.cfg.ka.isSome && decide (ob.cause = .ttlExpiry) && run.aliveAfter e) ||
      (run.compiled.fastOff && decide (ob.cause = .paramChange ∧ ob.subCause = some .fastToggle) && run.aliveAfter e) ||
      (decide ("fallback_credit" ∈ run.compiled.repairs) &&
        decide (ob.cause = .modelSwitch ∧ ob.subCause = some .refusalFallback) &&
        decide (4 * (ob.expectedReuse : Int) ≤ 5 * e.st.obs.writes)))

/-- Whether a shorter TTL makes a hit a miss. -/
def missFlip (e : Env) (ob : Transition) : Bool :=
  let tauObs := ob.ttlS.getD 300
  e.cfg.ttlS.any fun ttl => decide (ttl < tauObs) && !ob.isMissEvent && decide (ob.gapMs ≤ tauObs * 1000) &&
    !decideAlive e.side ob.gapMs (ttl * 1000)

/-- The transforms that an observed transition decides. -/
def observed (e : Env) (total : Int) (f : Flow) : Flow :=
  match e.ob with
  | none => f
  | some ob =>
    let expected := min ((e.prev.map fun prev => prev.total - prev.uncached).getD 0) total
    let f := if run.hitFlip e ob then { readFlow f total expected with flipped := true, bandGap := ob.gapMs } else f
    let f := if missFlip e ob then
        readFlow f total (run.scaledInt (run.floor (e.scopeKey, e.st.req.model)) e.st.inf.pricing e.cfg e.st.servingTs e.side)
      else f
    if "retry_backoff_cap" ∈ run.compiled.repairs ∧ retryCapped e.st.req (some e.st.obs.writes) ob = true then
      { readFlow f total expected with flipped := true, bandGap := ob.gapMs }
    else f

def cacheState (e : Env) (total : Int) (f : Flow) : Flow :=
  run.observed e total (run.laneFirst e total (restoreCaching e total f))

/-! ### Rates and context -/

/-- The usage and its upper bound under the rate transforms. -/
def rated (e : Env) : UsageTuple × Option Int :=
  let obsCtx := e.st.inf.pricing
  let upper : Option Int := e.st.inf.outputUpper.map Int.ofNat
  let (t, upper) := if e.cfg.remap.isSome then
      (run.scaled e.st.obs obsCtx e.cfg e.st.servingTs e.side,
        upper.map fun u => run.scaledInt u obsCtx e.cfg e.st.servingTs e.side)
    else (e.st.obs, upper)
  match e.cfg.effort with
  | some (rank, scale) =>
    if ((e.st.req.params.effort.bind effortRank).any (rank < ·)) = true then (effortOutput t scale e.side, upper) else (t, upper)
  | none => (t, upper)

/-- A request after the context transforms: its split and total, what was removed of it, the calls that were added,
and whether the context was replaced. -/
structure Context where
  flow : Flow
  (total removed : Int)
  extras : List Extra := []
  replaced : Bool := false

def replacedContext (obsTotal total : Int) (u : Int) (extras : List Extra) : Context :=
  { flow := { u := min u total, r := 0, w := total - min u total }, total, removed := obsTotal - total, extras
    replaced := true }

/-- `_Run._pass`, its context transforms. -/
def contextOf (e : Env) (pass : Pass) (t : UsageTuple) (pref : Pref) : Context :=
  let obsTotal := t.uncached + t.reads + t.writes
  let plain : Context :=
    { flow := { u := t.uncached, r := t.reads, w := t.writes }, total := obsTotal, removed := pass.removed }
  if e.cfg.cw.isNone ∧ e.cfg.cr.isNone then plain
  else
    let removed := if e.prev.isSome ∧ (e.st.resetCw ∨ 2 * obsTotal < pass.prevObsTotal) then 0 else pass.removed
    let effective := obsTotal - removed
    let added := if e.prev.isSome then max 0 (obsTotal - pass.prevObsTotal) else obsTotal
    let call := fun (kind : InferenceKind) (t : UsageTuple) (name : String) =>
      (⟨kind, t, e.ctx, e.st.servingTs, run.hashes.stableId "replay" [name, e.st.req.requestId]⟩ : Extra)
    match e.cfg.cw.filter (·.1 < effective), e.cfg.cr.filter (fun cr => e.prev.isSome && decide (cr.2.1 < effective) &&
        !run.aliveAfter e) with
    | some (_, summary), _ =>
      let read := if run.aliveAfter e then
          min ((e.prev.map fun prev => prev.total - prev.uncached).getD 0) effective else 0
      let ct := withSplit ⟨0, 0, 0, 0, 0, none, 0, summary, none, 0, 0⟩ 0 read (effective - read) pref
      replacedContext obsTotal (summary + added) t.uncached [call .compaction ct "compaction"]
    | none, some (action, _, summary) =>
      if action = "compact" then
        replacedContext obsTotal (summary + added) t.uncached
          [call .other ⟨effective, 0, 0, 0, 0, none, 0, summary, none, 0, 0⟩ "cold-resume"]
      else replacedContext obsTotal (pass.firstTotal + added) t.uncached []
    | none, none =>
      if 0 < removed then
        let r := max 0 (t.reads - removed)
        let w := if removed ≤ t.reads then t.writes else max 0 (t.writes - (removed - t.reads))
        { flow := { u := t.uncached, r, w }, total := r + w + t.uncached, removed }
      else { plain with removed }

/-- `_pings`: the keepalive reads before a request. -/
def pings (e : Env) : List Extra :=
  match e.cfg.ka, e.prev with
  | some (kappa, maxIdle), some prev =>
    (List.range (kaPings (e.st.ts - prev.st.ts) kappa maxIdle).toNat).map fun k =>
      { kind := .keepalive, t := ⟨prev.uncached, prev.total - prev.uncached, 0, 0, 0, none, 0, 0, none, 0, 0⟩
        ctx := prev.ctx, ts := prev.st.ts + (k + 1) * kappa
        id := run.hashes.stableId "replay" ["keepalive", e.st.req.requestId, toString (k + 1)] }
  | _, _ => []

/-! ### Steps -/

/-- The TTL, the smallest prefix that is cached, and the batch tier, of a usage that the policy changes or not. -/
def priced (e : Env) (gated : Bool) (ttlPref : Option Pref) (t : UsageTuple) : UsageTuple :=
  let t := match ttlPref with
    | some pref => rerate t pref
    | none => t
  let t := if gated then gate t (run.minCacheable e.ctx e.st.servingTs) else t
  if e.cfg.batch then batchSplit t e.ctx e.side else t

/-- The usage under the policy, and the one it would have without the flip to a hit. -/
def outcome (e : Env) (t : UsageTuple) (before : Flow) (after : Flow) (pref : Pref) (ttlPref : Option Pref) :
    UsageTuple × Option UsageTuple :=
  let split := withSplit t after.u after.r after.w pref
  let rerated := match ttlPref with
    | some pref => rerate split pref
    | none => split
  let gated := decide (rerated ≠ e.st.obs ∨ e.ctx ≠ e.st.inf.pricing)
  let new := run.priced e gated ttlPref split
  let alt := if after.flipped && run.calibrated then
      some (run.priced e gated ttlPref (withSplit t before.u before.r before.w pref))
    else none
  (new, alt.filter (· ≠ new))

/-- The environment of a step of a pass. -/
def envOf (cfg : LaneCfg) (side : Side) (lane : Lane) (trans : Nat → Option Transition) (pass : Pass) (st : Served) : Env :=
  let obsCtx := st.inf.pricing
  { cfg, side, scopeKey := lane.cacheScopeKey, prev := pass.prev, st
    ob := if pass.prev.isSome then trans pass.index else none
    ctx := if cfg.rateCtx || cfg.batch then run.xctx obsCtx cfg.remap cfg.batch else obsCtx }

/-- One step of `_Run._pass`. -/
def step (cfg : LaneCfg) (side : Side) (lane : Lane) (trans : Nat → Option Transition) (pass : Pass) (st : Served) :
    State × Pass :=
  let e := run.envOf cfg side lane trans pass st
  let ttlPref := cfg.ttlS.map prefOfTtl
  let (t, upper) := run.rated e
  let pref := prefOf t e.ob ttlPref cfg.ka.isSome
  let obsTotal := t.uncached + t.reads + t.writes
  let pass := if e.prev.isNone then { pass with firstTotal := obsTotal } else pass
  let context := run.contextOf e pass t pref
  let extras := context.extras ++ run.pings e
  let after := if context.replaced then context.flow else run.cacheState e context.total context.flow
  let (new, alt) := run.outcome e t context.flow after pref ttlPref
  let state : State :=
    { served := st, servingT := new, servingCtx := e.ctx, servingUpper := upper, altT := alt
      band := alt.map fun _ => gapBand after.bandGap, extras
      changed := decide (new ≠ st.obs ∨ e.ctx ≠ st.inf.pricing) || !extras.isEmpty || alt.isSome }
  (state, { pass with
    index := pass.index + 1, removed := context.removed, prevObsTotal := obsTotal
    prev := some { st, total := new.totalInput, uncached := new.uncached, ctx := e.ctx } })

/-- The steps of a pass. -/
def steps (cfg : LaneCfg) (side : Side) (lane : Lane) (trans : Nat → Option Transition) : Pass → List Served → List State
  | _, [] => []
  | pass, st :: rest =>
    (run.step cfg side lane trans pass st).1 :: steps cfg side lane trans (run.step cfg side lane trans pass st).2 rest

/-- The transitions of a lane by their index, where the policy asks for them. -/
def transitionsOf (cfg : LaneCfg) (lane : Lane) (served : List Served) : Nat → Option Transition :=
  if cfg.needsTrans ∧ 2 ≤ served.length then
    fun i => (classifyTransitions run.providers lane).find? fun t => decide (t.index = i)
  else fun _ => none

/-- A pass over a lane: the states of its requests with a serving inference. -/
def pass (lane : Lane) (side : Side) : List State :=
  let served := prepare lane
  let cfg := run.laneCfg lane served
  run.steps cfg side lane (run.transitionsOf cfg lane served) {} served

end Run

end TokenBill.Sim
