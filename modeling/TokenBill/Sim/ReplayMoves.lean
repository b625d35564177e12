import TokenBill.Sim.ReplayPass

/-!
# The usage replay only moves tokens

A policy without compaction, cold-resume, model-remap or effort terms leaves the input of every request what it was:
each of its transforms splits the same total between uncached tokens, reads and writes, none of them negative, and what
it does of the request before, which the next one reads, has the same property.
-/

namespace TokenBill.Sim

open Transitions

/-- A policy whose terms are all about the cache, the rates and the tier. -/
structure Compiled.CacheOnly (c : Compiled) : Prop where
  cw : c.cw = none
  cr : c.cr = none
  remap : c.remap = []
  effort : c.effort = []

/-- A lane on which nothing but the cache state, the rates and the tier is changed. -/
structure LaneCfg.CacheOnly (cfg : LaneCfg) : Prop where
  cw : cfg.cw = none
  cr : cfg.cr = none
  remap : cfg.remap = none
  effort : cfg.effort = none

theorem Run.laneCfg_cacheOnly {run : Run} (h : run.compiled.CacheOnly) (lane : Lane) (served : List Served) :
    (run.laneCfg lane served).CacheOnly := by
  have hwindow : ∀ remap, (run.laneWindow lane served remap).1 = none := by
    intro remap
    unfold Run.laneWindow
    rw [h.cw]
  refine ⟨hwindow _, ?_, ?_, ?_⟩
  · show (if lane.kind = .main ∧ served ≠ [] then run.compiled.cr.map _ else none) = none
    rw [h.cr, Option.map_none, ite_self]
  · show Run.firstMatch lane run.compiled.remap = none
    rw [h.remap]
    rfl
  · show Run.firstMatch lane run.compiled.effort = none
    rw [h.effort]
    rfl

/-! ### Splits of a total -/

/-- A flow splits a total into parts that are not negative. -/
structure Flow.Splits (f : Flow) (total : Int) : Prop where
  sum : f.u + f.r + f.w = total
  u_nonneg : 0 ≤ f.u
  r_nonneg : 0 ≤ f.r
  w_nonneg : 0 ≤ f.w

/-- What was before a step has an input, some of which is uncached. -/
def Prev.Ok (prev : Prev) : Prop := 0 ≤ prev.uncached ∧ prev.uncached ≤ prev.total

variable {f : Flow} {total : Int} {e : Env} {obs t : UsageTuple}

theorem readFlow_splits {reads : Int} (h : f.Splits total) (hreads : 0 ≤ reads) :
    (Run.readFlow f total reads).Splits total := by
  have hsum := h.sum
  have hu := h.u_nonneg
  have hr := h.r_nonneg
  have hw := h.w_nonneg
  refine ⟨?_, hu, ?_, ?_⟩
  · show f.u + min reads (total - f.u) + (total - f.u - min reads (total - f.u)) = total
    omega
  · show 0 ≤ min reads (total - f.u)
    omega
  · show 0 ≤ total - f.u - min reads (total - f.u)
    omega

theorem Flow.Splits.mark (h : f.Splits total) (flipped : Bool) (bandGap : Int) :
    ({ f with flipped, bandGap } : Flow).Splits total :=
  ⟨h.sum, h.u_nonneg, h.r_nonneg, h.w_nonneg⟩

theorem restoreCaching_splits (hprev : ∀ prev ∈ e.prev, prev.Ok) (h : f.Splits total) :
    (Run.restoreCaching e total f).Splits total := by
  have hsum := h.sum
  have hu := h.u_nonneg
  have hr := h.r_nonneg
  have hw := h.w_nonneg
  have htotal : 0 ≤ total := by omega
  have hmiss : ({ f with u := 0, r := 0, w := total } : Flow).Splits total := ⟨by simp, le_rfl, le_rfl, htotal⟩
  unfold Run.restoreCaching
  split
  · split
    · rename_i prev hp
      obtain ⟨h0, hle⟩ := hprev prev hp
      dsimp only
      split
      · refine ⟨?_, le_rfl, ?_, ?_⟩
        · show 0 + min prev.total total + (total - min prev.total total) = total
          omega
        · show 0 ≤ min prev.total total
          omega
        · show 0 ≤ total - min prev.total total
          omega
      · exact hmiss
    · exact hmiss
  · exact h

section Run

variable (run : Run)

theorem scaledInt_of_remap {cfg : LaneCfg} (h : cfg.remap = none) (q : Int) (ctx : PricingContext) (ts : Nat) (side : Side) :
    run.scaledInt q ctx cfg ts side = q := by
  unfold Run.scaledInt
  rw [h, if_pos (.inl rfl)]

variable {e : Env} {f : Flow} {total : Int}

theorem shared_of_remap (h : e.cfg.remap = none) (tokens : Nat) : run.shared e tokens = tokens :=
  scaledInt_of_remap run h _ _ _ _

theorem staggerFanout_splits (hremap : e.cfg.remap = none) (h : f.Splits total) :
    (run.staggerFanout e f).Splits total := by
  have hsum := h.sum
  have hr := h.r_nonneg
  have hw := h.w_nonneg
  unfold Run.staggerFanout
  split
  · rename_i tokens gap hgroup
    rw [shared_of_remap run hremap]
    refine ⟨?_, h.u_nonneg, ?_, ?_⟩
    · show f.u + (f.r + min f.w tokens) + (f.w - min f.w tokens) = total
      omega
    · show 0 ≤ f.r + min f.w tokens
      omega
    · show 0 ≤ f.w - min f.w tokens
      omega
  · exact h

theorem sharedCiPrefix_splits (hremap : e.cfg.remap = none) (h : f.Splits total) :
    (run.sharedCiPrefix e total f).Splits total := by
  have hsum := h.sum
  have hr := h.r_nonneg
  have hw := h.w_nonneg
  unfold Run.sharedCiPrefix
  split
  · rename_i tokens gap hgroup
    rw [shared_of_remap run hremap]
    refine ⟨?_, h.u_nonneg, ?_, ?_⟩
    · show f.u + max f.r (min tokens (total - f.u)) + (total - f.u - max f.r (min tokens (total - f.u))) = total
      omega
    · show 0 ≤ max f.r (min tokens (total - f.u))
      omega
    · show 0 ≤ total - f.u - max f.r (min tokens (total - f.u))
      omega
  · exact h

theorem laneFirst_splits (hremap : e.cfg.remap = none) (h : f.Splits total) :
    (run.laneFirst e total f).Splits total := by
  unfold Run.laneFirst
  split
  · exact sharedCiPrefix_splits run hremap (staggerFanout_splits run hremap h)
  · exact h

theorem observed_splits (hremap : e.cfg.remap = none) (hprev : ∀ prev ∈ e.prev, prev.Ok)
    (h : f.Splits total) : (run.observed e total f).Splits total := by
  have htotal : 0 ≤ total := by
    have hsum := h.sum
    have hu := h.u_nonneg
    have hr := h.r_nonneg
    have hw := h.w_nonneg
    omega
  have hread : 0 ≤ (e.prev.map fun prev => prev.total - prev.uncached).getD 0 := by
    cases hp : e.prev with
    | none => exact le_rfl
    | some prev =>
      obtain ⟨-, hle⟩ := hprev prev hp
      rw [Option.map_some, Option.getD_some]
      omega
  unfold Run.observed
  split
  · exact h
  · rename_i ob hob
    have hexpected : 0 ≤ min ((e.prev.map fun prev => prev.total - prev.uncached).getD 0) total := le_min hread htotal
    dsimp only
    -- each transform splits the total that the one before left
    have hhit : (if run.hitFlip e ob = true then
        { Run.readFlow f total (min ((e.prev.map fun prev => prev.total - prev.uncached).getD 0) total) with
          flipped := true, bandGap := ob.gapMs } else f).Splits total := by
      split
      · exact (readFlow_splits h hexpected).mark true ob.gapMs
      · exact h
    have hmiss : ∀ g : Flow, g.Splits total → (if Run.missFlip e ob = true then
        Run.readFlow g total (run.scaledInt (run.floor (e.scopeKey, e.st.req.model)) e.st.inf.pricing e.cfg e.st.servingTs
          e.side) else g).Splits total := by
      intro g hg
      rw [scaledInt_of_remap run hremap]
      split
      · exact readFlow_splits hg (Int.natCast_nonneg _)
      · exact hg
    have hafter := hmiss _ hhit
    split
    · exact (readFlow_splits hafter hexpected).mark true ob.gapMs
    · exact hafter

theorem cacheState_splits (hremap : e.cfg.remap = none) (hprev : ∀ prev ∈ e.prev, prev.Ok)
    (h : f.Splits total) : (run.cacheState e total f).Splits total :=
  observed_splits run hremap hprev (laneFirst_splits run hremap (restoreCaching_splits hprev h))

end Run

/-! ### Usages -/

/-- A usage has the input of another, and no bucket of it is negative. -/
structure Moves (obs t : UsageTuple) : Prop where
  natural : Natural t
  totalInput : t.totalInput = obs.totalInput

theorem Moves.rerate (h : Moves obs t) (pref : Pref) : Moves obs (rerate t pref) :=
  ⟨h.natural.rerate pref, (totalInput_rerate t pref).trans h.totalInput⟩

theorem Natural.totalInput_nonneg (h : Natural t) : 0 ≤ t.totalInput := by
  have hu := h.uncached
  have hr := h.reads
  have hw := h.writes
  rw [totalInput_eq]
  omega

theorem Natural.uncached_le (h : Natural t) : t.uncached ≤ t.totalInput := by
  have hr := h.reads
  have hw := h.writes
  rw [totalInput_eq]
  omega

theorem Moves.uncached (h : Moves obs t) (pref : Pref) : Moves obs (withSplit t t.totalInput 0 0 pref) := by
  refine ⟨h.natural.withSplit h.natural.totalInput_nonneg le_rfl le_rfl pref, ?_⟩
  rw [totalInput_withSplit, ← h.totalInput]
  omega

theorem Moves.gate (h : Moves obs t) (minCacheable : Int) : Moves obs (gate t minCacheable) := by
  unfold Sim.gate
  split
  · exact h.uncached pref5m
  · exact h

theorem batch_reads (side : Side) {reads : Int} (h : 0 ≤ reads) :
    0 ≤ reads * (batchHit side).num / (batchHit side).den ∧ reads * (batchHit side).num / (batchHit side).den ≤ reads := by
  have hpoint : (batchHit .point).num = 16 ∧ (batchHit .point).den = 25 := by decide +kernel
  have hlow : (batchHit .low).num = 49 ∧ (batchHit .low).den = 50 := by decide +kernel
  have hhigh : (batchHit .high).num = 3 ∧ (batchHit .high).den = 10 := by decide +kernel
  cases side with
  | point =>
    rw [hpoint.1, hpoint.2]
    omega
  | low =>
    rw [hlow.1, hlow.2]
    omega
  | high =>
    rw [hhigh.1, hhigh.2]
    omega

theorem Moves.batchSplit (h : Moves obs t) (ctx : PricingContext) (side : Side) :
    Moves obs (batchSplit t ctx side) := by
  unfold Sim.batchSplit
  split
  · exact h.uncached pref5m
  · dsimp only
    obtain ⟨h0, hle⟩ := batch_reads side h.natural.reads
    generalize t.reads * (batchHit side).num / (batchHit side).den = reads at h0 hle ⊢
    split
    · exact h
    · have hw5 := h.natural.w5
      have htotal := h.totalInput
      refine ⟨⟨h.natural.uncached, h0, ?_, h.natural.w1, h.natural.other, h.natural.unknown⟩, ?_⟩
      · show 0 ≤ t.w5 + (t.reads - reads)
        omega
      · rw [← htotal]
        show t.uncached + reads + (t.w5 + (t.reads - reads)) + t.w1 + t.other + t.unknown =
          t.uncached + t.reads + t.w5 + t.w1 + t.other + t.unknown
        omega

theorem Moves.priced (h : Moves obs t) (run : Run) (e : Env) (gated : Bool) (ttlPref : Option Pref) :
    Moves obs (run.priced e gated ttlPref t) := by
  have hend : ∀ t', Moves obs t' → Moves obs
      (let t' := if gated then Sim.gate t' (run.minCacheable e.ctx e.st.servingTs) else t'
       if e.cfg.batch then Sim.batchSplit t' e.ctx e.side else t') := by
    intro t' h'
    have hgate : Moves obs (if gated = true then Sim.gate t' (run.minCacheable e.ctx e.st.servingTs) else t') := by
      split
      · exact h'.gate _
      · exact h'
    dsimp only
    split
    · exact hgate.batchSplit _ _
    · exact hgate
  cases ttlPref with
  | none => exact hend t h
  | some pref => exact hend _ (h.rerate pref)

theorem Moves.ofFlow (hobs : Natural obs) (h : f.Splits obs.totalInput) (pref : Pref) :
    Moves obs (withSplit obs f.u f.r f.w pref) :=
  ⟨hobs.withSplit h.u_nonneg h.r_nonneg h.w_nonneg pref, (totalInput_withSplit obs f.u f.r f.w pref).trans h.sum⟩

/-! ### Steps -/

/-- A pass carries a request before whose uncached input is part of its input. -/
def Pass.Ok (pass : Pass) : Prop := ∀ prev ∈ pass.prev, prev.Ok

/-- A state has the input of its request, in the usage under the policy and in the one without the flip. -/
structure State.Conserves (state : State) : Prop where
  serving : Moves state.served.obs state.servingT
  alt : ∀ alt ∈ state.altT, Moves state.served.obs alt

theorem rated_cacheOnly (run : Run) (h : e.cfg.CacheOnly) : (run.rated e).1 = e.st.obs := by
  unfold Run.rated
  rw [h.remap, h.effort]
  rfl

theorem contextOf_cacheOnly (run : Run) (h : e.cfg.CacheOnly) (pass : Pass) (t : UsageTuple) (pref : Pref) :
    run.contextOf e pass t pref =
      { flow := { u := t.uncached, r := t.reads, w := t.writes }, total := t.uncached + t.reads + t.writes
        removed := pass.removed } := by
  unfold Run.contextOf
  rw [h.cw, h.cr]
  exact if_pos ⟨rfl, rfl⟩

theorem observedFlow_splits (st : Served) :
    ({ u := st.obs.uncached, r := st.obs.reads, w := st.obs.writes } : Flow).Splits st.obs.totalInput := by
  have hnatural : Natural st.obs := natural_tupleOf _
  exact ⟨(totalInput_eq st.obs).symm, hnatural.uncached, hnatural.reads, hnatural.writes⟩

/-- A step of a pass conserves the input of its request, and leaves what the next step reads in order. -/
theorem step_conserves (run : Run) {cfg : LaneCfg} (h : cfg.CacheOnly) (side : Side) (lane : Lane)
    (trans : Nat → Option Transition) {pass : Pass} (hpass : pass.Ok) (st : Served) :
    (run.step cfg side lane trans pass st).1.served = st ∧ (run.step cfg side lane trans pass st).1.Conserves ∧
      (run.step cfg side lane trans pass st).2.Ok := by
  set e := run.envOf cfg side lane trans pass st with he
  have hcfg : e.cfg.CacheOnly := h
  have hnatural : Natural st.obs := natural_tupleOf _
  have hrated : (run.rated e).1 = st.obs := rated_cacheOnly run hcfg
  have hbefore := observedFlow_splits st
  have htotal : st.obs.uncached + st.obs.reads + st.obs.writes = st.obs.totalInput := (totalInput_eq st.obs).symm
  have hafter : (run.cacheState e st.obs.totalInput { u := st.obs.uncached, r := st.obs.reads, w := st.obs.writes }).Splits
      st.obs.totalInput := cacheState_splits run hcfg.remap hpass hbefore
  -- the step is the outcome of the two splits
  have hstep : ∀ pref ttlPref, Moves st.obs (run.outcome e st.obs { u := st.obs.uncached, r := st.obs.reads, w := st.obs.writes }
        (run.cacheState e st.obs.totalInput { u := st.obs.uncached, r := st.obs.reads, w := st.obs.writes }) pref ttlPref).1 ∧
      ∀ alt ∈ (run.outcome e st.obs { u := st.obs.uncached, r := st.obs.reads, w := st.obs.writes }
        (run.cacheState e st.obs.totalInput { u := st.obs.uncached, r := st.obs.reads, w := st.obs.writes }) pref ttlPref).2,
        Moves st.obs alt := by
    intro pref ttlPref
    refine ⟨(Moves.ofFlow hnatural hafter pref).priced run e _ ttlPref, fun alt halt => ?_⟩
    have hmem := Option.mem_filter_iff.mp halt
    obtain ⟨halt', -⟩ := hmem
    split at halt'
    · obtain rfl := Option.some.inj halt'
      exact (Moves.ofFlow hnatural hbefore pref).priced run e _ ttlPref
    · cases halt'
  unfold Run.step
  dsimp only
  rw [← he, contextOf_cacheOnly run hcfg, hrated, if_neg Bool.false_ne_true, htotal]
  obtain ⟨hserving, halt⟩ := hstep (prefOf st.obs e.ob (cfg.ttlS.map prefOfTtl) cfg.ka.isSome) (cfg.ttlS.map prefOfTtl)
  refine ⟨rfl, ⟨hserving, halt⟩, fun prev hprev => ?_⟩
  obtain rfl := Option.some.inj hprev
  refine ⟨hserving.natural.uncached, ?_⟩
  exact hserving.natural.uncached_le

theorem steps_conserve (run : Run) {cfg : LaneCfg} (h : cfg.CacheOnly) (side : Side) (lane : Lane)
    (trans : Nat → Option Transition) {pass : Pass} (hpass : pass.Ok) (served : List Served) :
    (run.steps cfg side lane trans pass served).map (·.served) = served ∧
      ∀ state ∈ run.steps cfg side lane trans pass served, state.Conserves := by
  induction served generalizing pass with
  | nil => exact ⟨rfl, fun state hstate => absurd hstate List.not_mem_nil⟩
  | cons st rest ih =>
    obtain ⟨hst, hconserves, hok⟩ := step_conserves run h side lane trans hpass st
    obtain ⟨hmap, hrest⟩ := ih hok
    refine ⟨?_, fun state hstate => ?_⟩
    · rw [Run.steps, List.map_cons, hst, hmap]
    · rcases List.mem_cons.mp hstate with rfl | hstate
      · exact hconserves
      · exact hrest state hstate

/-- A policy without compaction, cold-resume, model-remap or effort terms only moves tokens between buckets: in every
pass the states are those of the steps of the lane, in order, and each has the observed total input of its request and no
negative bucket. -/
theorem pass_conserves (run : Run) (h : run.compiled.CacheOnly) (lane : Lane) (side : Side) :
    (run.pass lane side).map (·.served) = prepare lane ∧ ∀ state ∈ run.pass lane side,
      state.servingT.totalInput = state.served.inf.usage.totalInput ∧ Natural state.servingT ∧
        ∀ alt ∈ state.altT, alt.totalInput = state.served.inf.usage.totalInput ∧ Natural alt := by
  have hempty : ({} : Pass).Ok := fun prev hprev => absurd hprev (Option.not_mem_none prev)
  obtain ⟨hserved, hconserves⟩ := steps_conserve run (run.laneCfg_cacheOnly h lane (prepare lane)) side lane
    (run.transitionsOf (run.laneCfg lane (prepare lane)) lane (prepare lane)) hempty (prepare lane)
  refine ⟨hserved, fun state hstate => ?_⟩
  have hobs : state.served.obs.totalInput = state.served.inf.usage.totalInput := by
    unfold UsageTuple.totalInput UsageCounts.totalInput UsageCounts.cacheWrite Served.obs tupleOf
    dsimp only
    omega
  obtain ⟨hserving, halt⟩ := hconserves state hstate
  exact ⟨hserving.totalInput.trans hobs, hserving.natural, fun alt h => ⟨(halt alt h).totalInput.trans hobs, (halt alt h).natural⟩⟩

/-- A replay with a TTL of one hour on every lane. -/
def hourRun : Run where
  compiled := { ttl := [(fun _ => true, 3600)] }
  hashes := ⟨fun text => text, fun _ value => value, fun key => key⟩
  providers := ⟨fun model => model, fun _ _ _ => true, fun _ _ => none⟩
  supports := fun _ _ _ => true
  minCacheable := fun _ _ => 0
  ttlOptions := fun _ _ _ => [300, 3600]
  tokenizerBand := fun _ _ _ => none
  calibrated := false
  summaryTokens := 0
  floor := fun _ => 0
  stagger := fun _ => none
  ciPrefix := fun _ => none

/-- A request that reads and writes. -/
def hourRequest : Request where
  requestId := "rq"
  sessionKey := "s"
  laneKey := "a"
  seq := 0
  attribution := {}
  params := { modelRequested := "m" }
  attempts := [.plain "at" 1 0 [{
    inferenceId := "inf", kind := .message, usage := ⟨{ uncachedInput := 10, cacheRead := 100, cacheWrite5m := 50 }, by decide⟩
    pricing := { provider := "anthropic", channel := "anthropic_api", model := "m", modelRaw := "m" } }]]
  attempts_ne := List.cons_ne_nil _ _

/-- A lane of one request. -/
def hourLane : Lane where
  laneKey := "a"
  sessionKey := "s"
  kind := .main
  parentLaneKey := none
  cacheScopeKey := "unknown"
  requests := [hourRequest]

theorem hourRun_conserves : hourRun.compiled.CacheOnly ∧ (hourRun.pass hourLane .point).length = 1 ∧
    ((hourRun.pass hourLane .point).map (·.served) = prepare hourLane ∧ ∀ state ∈ hourRun.pass hourLane .point,
      state.servingT.totalInput = state.served.inf.usage.totalInput ∧ Natural state.servingT ∧
        ∀ alt ∈ state.altT, alt.totalInput = state.served.inf.usage.totalInput ∧ Natural alt) :=
  ⟨⟨rfl, rfl, rfl, rfl⟩, by decide +kernel, pass_conserves hourRun ⟨rfl, rfl, rfl, rfl⟩ hourLane .point⟩

end TokenBill.Sim
