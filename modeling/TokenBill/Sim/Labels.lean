import TokenBill.Core.Transitions
import TokenBill.General.SlidingSums

/-!
# Diagnostic labels

`sim/calibrate.py` compares the diagnostic label of a request with the cause that Token Bill tells without
it. The label is one of the causes of `core/transitions.py`, so it is taken out of the transition afterwards:
from the cause, the sub-cause, the resets of the lane and the input of the step before. What comes out is the
cause of the step on the same lane without its diagnostics.
-/

namespace TokenBill.Calibrate

open General Transitions List

/-- A lane as its constructor leaves it: the events are in order. -/
structure BuiltLane extends Lane where
  events_sorted : events.Pairwise fun a b => a.tsMs ≤ b.tsMs

/-! ### Taking a label out -/

/-- Whether an event is one of `_RESET_EVENTS`. -/
def isResetEvent (ev : LaneEvent) : Bool := decide (ev.kind = .compaction ∨ ev.kind = .clear ∨ ev.kind = .contextEdit)

def editsContext (req : Request) : Bool := req.attempts.any fun att => decide (att.appliedEdits ≠ [] ∨ 0 < att.thinkingDropped)

/-- The resets of steps after one of a time. -/
def resetsFrom (resetTs : List Nat) : Option Nat → List Request → List Bool
  | _, [] => []
  | prevTs, req :: rest =>
    (editsContext req || prevTs.any fun prevTs =>
      decide (bisectRight id resetTs prevTs < bisectRight id resetTs req.tsStartMs)) ::
        resetsFrom resetTs (some req.tsStartMs) rest

/-- `_rule1_resets`. -/
def rule1Resets (lane : Lane) (steps : List Request) : List Bool :=
  resetsFrom ((lane.events.filter isResetEvent).map (·.tsMs)) none steps

/-- `_undiagnosed_cause`. -/
def undiagnosedCause (t : Transition) (reset : Bool) (prevTotal : Nat) : Cause :=
  if !t.isMissEvent then .hit
  else if (t.diagReason.bind diagCauses) = some (t.cause, t.subCause) then
    if t.diagReason = some "compacted" ∧ reset then .compaction
    else if 10 * t.total < 9 * prevTotal then .contextShrank
    else .unexplained
  else t.cause

def servedSteps (lane : Lane) : List Request := lane.requests.filter (·.servingInference.isSome)

def servingInput (req : Request) : Nat := (req.servingInference.map fun inf => inf.usage.totalInput).getD 0

/-- The cause that is scored for a transition between steps, if it has a label. -/
def scoredCause (lane : Lane) (steps : List Request) (t : Transition) : Option Cause :=
  t.diagReason.map fun _ =>
    undiagnosedCause t ((rule1Resets lane steps).getD t.index false) ((steps[t.index - 1]?.map servingInput).getD 0)

/-- `_Walker.walk` with labels: the transitions of a lane and the causes that are scored for them. -/
def walkLabels (p : Providers) (lane : Lane) : List (Transition × Option Cause) :=
  (classifyTransitions p lane).map fun t => (t, scoredCause lane (servedSteps lane) t)

/-! ### Lanes without diagnostics -/

def bareAttempt (att : Attempt) : Attempt := { att with diagnostics := none }

def bareRequest (req : Request) : Request :=
  { req with attempts := req.attempts.map bareAttempt, attempts_ne := fun h => req.attempts_ne (map_eq_nil_iff.mp h) }

def bareLane (lane : Lane) : Lane := { lane with requests := lane.requests.map bareRequest }

def bareStep (s : Step) : Step := { s with req := bareRequest s.req }

theorem finalAttempt_bare (req : Request) : (bareRequest req).finalAttempt = bareAttempt req.finalAttempt :=
  getLast_map _

theorem tsStartMs_bare (req : Request) : (bareRequest req).tsStartMs = req.tsStartMs := by
  have hhead : (bareRequest req).attempts.head (bareRequest req).attempts_ne = bareAttempt (req.attempts.head req.attempts_ne) :=
    head_map _
  unfold Request.tsStartMs
  rw [hhead]
  rfl

theorem servingInference_bare (req : Request) : (bareRequest req).servingInference = req.servingInference := by
  unfold Request.servingInference
  rw [finalAttempt_bare]
  rfl

theorem billableInferences_bare (req : Request) : (bareRequest req).billableInferences = req.billableInferences := by
  unfold Request.billableInferences bareRequest
  rw [flatMap_map]
  rfl

theorem model_bare (req : Request) : (bareRequest req).model = req.model := by
  unfold Request.model
  rw [servingInference_bare]
  rfl

theorem editsContext_bare (req : Request) : editsContext (bareRequest req) = editsContext req := by
  unfold editsContext bareRequest
  rw [any_map]
  rfl

theorem durationMs_bare (req : Request) : durationMs (bareRequest req) = durationMs req := by
  unfold durationMs
  rw [tsStartMs_bare]
  unfold bareRequest
  rw [map_map]
  rfl

theorem streamOf_bare (requests : List Request) :
    (streamOf (requests.map bareRequest)).steps = (streamOf requests).steps.map bareStep ∧
      (streamOf (requests.map bareRequest)).lastTtl = (streamOf requests).lastTtl := by
  induction requests using List.reverseRecOn with
  | nil => exact ⟨rfl, rfl⟩
  | append_singleton rest req ih =>
    obtain ⟨hsteps, httl⟩ := ih
    rw [map_append, map_singleton, streamOf_append, streamOf_append]
    constructor
    · show (streamOf (rest.map bareRequest)).steps ++ ((streamOf (rest.map bareRequest)).stepOf (bareRequest req)).toList = _
      have hstep : (streamOf (rest.map bareRequest)).stepOf (bareRequest req) =
          ((streamOf rest).stepOf req).map bareStep := by
        unfold Stream.stepOf
        rw [servingInference_bare, httl, Option.map_map]
        rfl
      rw [hsteps, hstep, Stream.next, map_append]
      cases (streamOf rest).stepOf req <;> rfl
    · show (bareRequest req).billableInferences.foldl recordWrite (streamOf (rest.map bareRequest)).lastTtl = _
      rw [billableInferences_bare, httl]
      rfl

/-! ### A transition without its label -/

theorem paramChange_bare (p : Providers) (cur prev : Step) : paramChange p (bareStep cur) (bareStep prev) = paramChange p cur prev := by
  have hmodel : (bareStep cur).pricedModel = cur.pricedModel := by
    unfold Step.pricedModel Step.model
    rw [show (bareStep cur).req.model = cur.req.model from model_bare cur.req]
    rfl
  unfold paramChange
  rw [hmodel]
  rfl

theorem expiry_bare (p : Providers) (cur prev : Step) (gap : Int) (tauMs : Option Int) :
    expiry p (bareStep cur) (bareStep prev) gap tauMs = expiry p cur prev gap tauMs := by
  have hknown : semanticsKnown p (bareStep cur) = semanticsKnown p cur := by
    unfold semanticsKnown Step.pricedModel Step.model
    rw [show (bareStep cur).req.model = cur.req.model from model_bare cur.req]
    rfl
  unfold expiry
  rw [hknown, show durationMs (bareStep prev).req = durationMs prev.req from durationMs_bare prev.req]

theorem isReset_bare (window : List LaneEvent) (req : Request) : isReset window (bareRequest req) = isReset window req :=
  congrArg (_ || ·) (editsContext_bare req)

theorem minCacheable_bare (p : Providers) (memo : MinCache) (s : Step) :
    minCacheable p memo (bareStep s) = minCacheable p memo s := by
  unfold minCacheable
  rw [show (bareStep s).req.tsStartMs = s.req.tsStartMs from tsStartMs_bare s.req]
  rfl

section Transition

variable (p : Providers) (lane : Lane) (alternating : Bool) (i : Nat) (beforePrev : Option Step) (prev cur : Step)
  (memo : MinCache)

/-- What the causes of a transition are told from. -/
def signalsOf : Signals :=
  let gap : Int := cur.req.tsStartMs - prev.req.tsStartMs
  let total := cur.inf.usage.cacheRead + cur.inf.usage.cacheWrite + cur.inf.usage.uncachedInput
  let prevPrefix := prev.inf.usage.cacheRead + prev.inf.usage.cacheWrite
  let expected := min prevPrefix total
  let tauMs : Option Int := cur.tau.map fun tau => (tau * 1000 : Nat)
  let window := eventWindow lane.events prev.req.tsStartMs cur.req.tsStartMs
  { miss := isMissEvent (expected - cur.inf.usage.cacheRead) expected
    reset := isReset window cur.req
    modelSwitch := decide (cur.model ≠ prev.model)
    expired := (expiry p cur prev gap tauMs).2
    param := paramChange p cur prev
    diagReason := cur.req.finalAttempt.diagnostics.map (·.reason)
    shrank := decide (10 * total < 9 * (prevPrefix + prev.inf.usage.uncachedInput))
    subCause := switchSubCause ⟨lane.kind, cur, prev, beforePrev, window, gap, tauMs, alternating⟩ }

/-- The cause of a transition and what its label is taken out of. -/
theorem transition_signals :
    let t := (transition p lane alternating i beforePrev prev cur memo).1
    let signals := signalsOf p lane alternating beforePrev prev cur
    (t.cause, t.subCause) = causeOf signals ∧ t.isMissEvent = signals.miss ∧ t.diagReason = signals.diagReason ∧
      t.index = i ∧ decide (10 * t.total < 9 * (prev.inf.usage.totalInput)) = signals.shrank := by
  refine ⟨rfl, rfl, rfl, rfl, ?_⟩
  have hinput : prev.inf.usage.totalInput =
      prev.inf.usage.cacheRead + prev.inf.usage.cacheWrite + prev.inf.usage.uncachedInput := by
    rw [UsageCounts.totalInput]
    omega
  rw [hinput]
  rfl

/-- The step without diagnostics has the same signals but for its label. -/
theorem signalsOf_bare : signalsOf p (bareLane lane) alternating (beforePrev.map bareStep) (bareStep prev) (bareStep cur) =
    { signalsOf p lane alternating beforePrev prev cur with diagReason := none } := by
  have hcur : (bareStep cur).req.tsStartMs = cur.req.tsStartMs := tsStartMs_bare cur.req
  have hprev : (bareStep prev).req.tsStartMs = prev.req.tsStartMs := tsStartMs_bare prev.req
  have hmodel : ∀ s : Step, (bareStep s).model = s.model := fun s => model_bare s.req
  have hsub : ∀ window gap tauMs, switchSubCause ⟨(bareLane lane).kind, bareStep cur, bareStep prev, beforePrev.map bareStep,
      window, gap, tauMs, alternating⟩ = switchSubCause ⟨lane.kind, cur, prev, beforePrev, window, gap, tauMs, alternating⟩ := by
    intro window gap tauMs
    have hkinds : (bareStep cur).req.attempts.flatMap (fun att => att.inferences.map (·.kind)) =
        cur.req.attempts.flatMap fun att => att.inferences.map (·.kind) :=
      flatMap_map bareAttempt _ cur.req.attempts
    have hbefore : (beforePrev.map bareStep).any (fun b => decide (b.model = cur.model)) =
        beforePrev.any fun b => decide (b.model = cur.model) := by
      cases beforePrev with
      | none => rfl
      | some b => exact congrArg (fun m => decide (m = cur.model)) (hmodel b)
    unfold switchSubCause
    rw [hkinds, hmodel cur, hmodel prev, hbefore]
    rfl
  unfold signalsOf
  dsimp only
  rw [hcur, hprev, hmodel cur, hmodel prev, paramChange_bare, expiry_bare, hsub]
  have hreset : ∀ window, isReset window (bareStep cur).req = isReset window cur.req := fun window => isReset_bare window cur.req
  have hdiag : (bareStep cur).req.finalAttempt.diagnostics = none := by
    rw [show (bareStep cur).req.finalAttempt = bareAttempt cur.req.finalAttempt from finalAttempt_bare cur.req]
    rfl
  rw [hreset, hdiag]
  rfl

theorem transition_memo_bare :
    (transition p (bareLane lane) alternating i (beforePrev.map bareStep) (bareStep prev) (bareStep cur) memo).2 =
      (transition p lane alternating i beforePrev prev cur memo).2 := by
  have hcur : (bareStep cur).req.tsStartMs = cur.req.tsStartMs := tsStartMs_bare cur.req
  have hprev : (bareStep prev).req.tsStartMs = prev.req.tsStartMs := tsStartMs_bare prev.req
  have hmodel : ∀ s : Step, (bareStep s).model = s.model := fun s => model_bare s.req
  have hreset : ∀ window, isReset window (bareStep cur).req = isReset window cur.req := fun window => isReset_bare window cur.req
  unfold transition
  dsimp only
  rw [hcur, hprev, hmodel cur, hmodel prev, paramChange_bare, hreset, minCacheable_bare]
  rfl

end Transition

/-! ### The label taken out -/

/-- Only the label of a compaction is the cause of a reset. -/
theorem eq_compacted {reason : String} (h : diagCauses reason = some (.compaction, none)) : reason = "compacted" := by
  unfold diagCauses at h
  split at h
  all_goals first
    | rfl
    | cases h

theorem diagCauses_ne {reason : String} {diag : Cause × Option SubCause} (h : diagCauses reason = some diag) :
    diag ≠ (.ttlExpiry, none) ∧ (diag.1 = .modelSwitch ∨ diag.1 = .paramChange → diag.2 = some .diag) := by
  unfold diagCauses at h
  split at h
  all_goals first
    | (obtain rfl := Option.some.inj h; decide)
    | cases h

theorem switchSubCause_ne (s : Switch) : switchSubCause s ≠ .diag := by
  unfold switchSubCause
  dsimp only
  repeat' split
  all_goals decide

theorem paramChange_ne (p : Providers) (cur prev : Step) : paramChange p cur prev ≠ some .diag := by
  unfold paramChange
  dsimp only
  repeat' split
  all_goals decide

/-- The cause without a label is what the label leaves when it is taken out. -/
theorem undiagnosedCause_eq {t : Transition} {s : Signals} {reset : Bool} {prevTotal : Nat}
    (hcause : (t.cause, t.subCause) = causeOf s) (hmiss : t.isMissEvent = s.miss) (hdiag : t.diagReason = s.diagReason)
    (hreset : reset = s.reset) (hshrank : decide (10 * t.total < 9 * prevTotal) = s.shrank) (hsub : s.subCause ≠ .diag)
    (hparam : s.param ≠ some .diag) : undiagnosedCause t reset prevTotal = (causeOf { s with diagReason := none }).1 := by
  have hfirst : t.cause = (causeOf s).1 := congrArg Prod.fst hcause
  unfold undiagnosedCause
  rw [hcause, hmiss, hdiag, hreset, hfirst]
  have hshrank' : (10 * t.total < 9 * prevTotal) = (s.shrank = true) := by
    rw [← hshrank, decide_eq_true_eq]
  simp only [hshrank']
  unfold causeOf
  cases s.miss with
  | false => rfl
  | true =>
    rw [Bool.not_true, if_neg Bool.false_ne_true, if_neg Bool.false_ne_true, if_neg Bool.false_ne_true]
    cases hr : s.reset with
    | true =>
      rw [if_pos rfl, if_pos rfl]
      split
      · rename_i heq
        obtain ⟨reason, hreason, hdiag'⟩ := Option.bind_eq_some_iff.mp heq
        rw [hreason, eq_compacted hdiag', if_pos ⟨rfl, rfl⟩]
      · rfl
    | false =>
      rw [if_neg Bool.false_ne_true, if_neg Bool.false_ne_true]
      cases s.modelSwitch with
      | true =>
        rw [if_pos rfl, if_pos rfl, if_neg]
        intro heq
        obtain ⟨reason, -, hdiag'⟩ := Option.bind_eq_some_iff.mp heq
        exact hsub (Option.some.inj ((diagCauses_ne hdiag').2 (.inl rfl)))
      | false =>
        rw [if_neg Bool.false_ne_true, if_neg Bool.false_ne_true]
        cases s.expired with
        | true =>
          rw [if_pos rfl, if_pos rfl, if_neg]
          intro heq
          obtain ⟨reason, -, hdiag'⟩ := Option.bind_eq_some_iff.mp heq
          exact (diagCauses_ne hdiag').1 rfl
        | false =>
          rw [if_neg Bool.false_ne_true, if_neg Bool.false_ne_true]
          cases hp : s.param with
          | some sub =>
            rw [if_neg]
            intro heq
            obtain ⟨reason, -, hdiag'⟩ := Option.bind_eq_some_iff.mp heq
            refine hparam ?_
            rw [hp]
            exact (diagCauses_ne hdiag').2 (.inr rfl)
          | none =>
            cases hd : s.diagReason.bind diagCauses with
            | some diag =>
              rw [if_pos rfl, if_neg fun h => Bool.false_ne_true h.2]
              cases s.shrank <;> rfl
            | none =>
              have hne : ∀ x : Cause × Option SubCause, (none : Option (Cause × Option SubCause)) ≠ some x := by
                intro x h
                cases h
              rw [if_neg (hne _)]
              rfl

/-! ### Resets and steps -/

theorem resetsFrom_getElem {resetTs : List Nat} {prevTs : Option Nat} {steps : List Request} {i : Nat} {prev cur : Request}
    (hprev : steps[i]? = some prev) (hcur : steps[i + 1]? = some cur) :
    (resetsFrom resetTs prevTs steps)[i + 1]? = some (editsContext cur ||
      decide (bisectRight id resetTs prev.tsStartMs < bisectRight id resetTs cur.tsStartMs)) := by
  induction steps generalizing i prevTs with
  | nil => cases hprev
  | cons req rest ih =>
    rw [getElem?_cons_succ] at hcur
    cases i with
    | zero =>
      obtain rfl := Option.some.inj hprev
      cases rest with
      | nil => cases hcur
      | cons next rest =>
        obtain rfl := Option.some.inj hcur
        rfl
    | succ i => exact ih hprev hcur

/-- The resets of the calibration are those of the classification. -/
theorem isReset_eq (lane : BuiltLane) (prevTs : Nat) (req : Request) :
    isReset (eventWindow lane.events prevTs req.tsStartMs) req = (editsContext req ||
      decide (bisectRight id ((lane.events.filter isResetEvent).map (·.tsMs)) prevTs <
        bisectRight id ((lane.events.filter isResetEvent).map (·.tsMs)) req.tsStartMs)) := by
  have hsorted : ((lane.events.filter isResetEvent).map (·.tsMs)).Pairwise fun a b => id a ≤ id b :=
    pairwise_map.mpr (lane.events_sorted.filter _)
  have hwindow : (eventWindow lane.events prevTs req.tsStartMs).any isResetEvent =
      decide (bisectRight id ((lane.events.filter isResetEvent).map (·.tsMs)) prevTs <
        bisectRight id ((lane.events.filter isResetEvent).map (·.tsMs)) req.tsStartMs) := by
    rw [Bool.eq_iff_iff, any_eq_true, decide_eq_true_eq, bisectRight_lt_iff hsorted]
    constructor
    · rintro ⟨ev, hev, hreset⟩
      obtain ⟨hmem, hafter, hupto⟩ := (mem_window lane.events_sorted prevTs req.tsStartMs).mp hev
      exact ⟨ev.tsMs, mem_map_of_mem (mem_filter.mpr ⟨hmem, hreset⟩), hafter, hupto⟩
    · rintro ⟨ts, hts, hafter, hupto⟩
      obtain ⟨ev, hev, rfl⟩ := mem_map.mp hts
      obtain ⟨hmem, hreset⟩ := mem_filter.mp hev
      exact ⟨ev, (mem_window lane.events_sorted prevTs req.tsStartMs).mpr ⟨hmem, hafter, hupto⟩, hreset⟩
  rw [← hwindow, Bool.or_comm]
  rfl

theorem steps_req (requests : List Request) :
    (streamOf requests).steps.map (·.req) = requests.filter (·.servingInference.isSome) := by
  induction requests using List.reverseRecOn with
  | nil => rfl
  | append_singleton rest req ih =>
    rw [streamOf_append, Stream.next, map_append, ih, filter_append]
    refine congrArg (rest.filter (·.servingInference.isSome) ++ ·) ?_
    unfold Stream.stepOf
    cases h : req.servingInference with
    | none =>
      rw [filter_cons_of_neg (by rw [h]; decide)]
      rfl
    | some inf =>
      rw [filter_cons_of_pos (by rw [h]; rfl)]
      rfl

/-- A transition and the cause that is scored for it, beside the transition without the label. -/
def Undiagnosed (scored : Transition × Option Cause) (bare : Transition) : Prop :=
  bare.index = scored.1.index ∧ scored.2 = scored.1.diagReason.map fun _ => bare.cause

/-- The causes of consecutive steps, with and without diagnostics. -/
theorem scored_transitions (p : Providers) (lane : BuiltLane) (alternating : Bool) (requests : List Request) {i : Nat}
    {beforePrev : Option Step} {steps : List Step} {memo : MinCache} (hrequests : requests.drop i = steps.map (·.req))
    (hinf : ∀ s ∈ steps, s.req.servingInference = some s.inf) :
    List.Forall₂ Undiagnosed
      ((transitions p lane.toLane alternating i beforePrev steps memo).map fun t => (t, scoredCause lane.toLane requests t))
      (transitions p (bareLane lane.toLane) alternating i (beforePrev.map bareStep) (steps.map bareStep) memo) := by
  induction steps generalizing i beforePrev memo with
  | nil => exact .nil
  | cons prev rest ih =>
    cases rest with
    | nil => exact .nil
    | cons cur rest =>
      have hprevAt : requests[i]? = some prev.req := by
        have h := congrArg (·[0]?) hrequests
        simpa using h
      have hcurAt : requests[i + 1]? = some cur.req := by
        have h := congrArg (·[1]?) hrequests
        simpa using h
      have hdrop : requests.drop (i + 1) = (cur :: rest).map (·.req) := by
        have h := congrArg (List.drop 1) hrequests
        rwa [drop_drop] at h
      obtain ⟨hcause, hmiss, hdiag, hindex, hshrank⟩ :=
        transition_signals p lane.toLane alternating (i + 1) beforePrev prev cur memo
      refine List.Forall₂.cons ⟨rfl, ?_⟩ ?_
      · show scoredCause lane.toLane requests (transition p lane.toLane alternating (i + 1) beforePrev prev cur memo).1 = _
        have hreset : (rule1Resets lane.toLane requests).getD (i + 1) false =
            (signalsOf p lane.toLane alternating beforePrev prev cur).reset := by
          rw [getD_eq_getElem?_getD, rule1Resets, resetsFrom_getElem hprevAt hcurAt, Option.getD_some, ← isReset_eq]
          rfl
        have hinput : (requests[i]?.map servingInput).getD 0 = prev.inf.usage.totalInput := by
          rw [hprevAt, Option.map_some, Option.getD_some, servingInput, hinf prev mem_cons_self, Option.map_some,
            Option.getD_some]
        have hbare := transition_signals p (bareLane lane.toLane) alternating (i + 1) (beforePrev.map bareStep)
          (bareStep prev) (bareStep cur) memo
        unfold scoredCause
        rw [hindex, Nat.add_sub_cancel, hinput]
        refine congrArg (fun c => Option.map (fun _ => c) _) ?_
        rw [undiagnosedCause_eq hcause hmiss hdiag hreset hshrank (switchSubCause_ne _) (paramChange_ne p cur prev),
          ← signalsOf_bare, ← hbare.1]
        rfl
      · have hmemo := transition_memo_bare p lane.toLane alternating (i + 1) beforePrev prev cur memo
        show List.Forall₂ Undiagnosed _ (transitions p (bareLane lane.toLane) alternating (i + 1) (some (bareStep prev))
          ((cur :: rest).map bareStep) (transition p (bareLane lane.toLane) alternating (i + 1) (beforePrev.map bareStep)
            (bareStep prev) (bareStep cur) memo).2)
        rw [hmemo]
        exact ih hdrop fun s hs => hinf s (mem_cons_of_mem _ hs)

end TokenBill.Calibrate
