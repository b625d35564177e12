import TokenBill.Core.DecimalText
import TokenBill.Core.Records
import Mathlib.Data.List.Infix

/-!
# Transitions of a lane

`core/lanes.py`, the TTL of the last write before a request, and `core/transitions.py`, the shared miss
definition: every request of a lane after the first is compared with the one before it, and where less
of its prefix was read than expected, the first cause that applies is told. The TTL comes from a stream
over the requests.

The cache rules and the pricer are protocols, and the normalization of model names is that of
`core/models.py`; what the classification asks of them is in `Providers`.
-/

namespace TokenBill.Transitions

open List

/-! ### The last write -/

/-- `_HINT_TTL_S`. -/
def hintTtl : String → Option Nat
  | "5m" => some 300
  | "1h" => some 3600
  | _ => none

/-- The TTLs of the classes that an inference wrote, which both functions below spell out alike. -/
def ttlCandidates (inf : Inference) : List Nat :=
  (if inf.usage.cacheWrite5m ≠ 0 then [300] else []) ++
    (if inf.usage.cacheWrite1h ≠ 0 then [3600] else []) ++
    (if inf.usage.cacheWriteOther ≠ 0 then inf.usage.cacheWriteOtherTtlS.toList else []) ++
    (if inf.usage.cacheWriteUnknown ≠ 0 then (inf.pricing.writeTtlHint.bind hintTtl).toList else [])

/-- `ttl_of_last_write`: backwards over the billable inferences of the requests before an index. -/
def ttlOfLastWrite (lane : Lane) (beforeIndex : Nat) : Option Nat :=
  let backwards := (lane.requests.take beforeIndex).reverse.flatMap (·.billableInferences.reverse)
  (backwards.find? fun inf => decide (inf.usage.cacheWrite ≠ 0)).bind fun inf => (ttlCandidates inf).min?

/-- `_write_ttl`. -/
def writeTtl (inf : Inference) : Option Nat := (ttlCandidates inf).min?

/-! ### Versions and effort -/

/-- What the classification asks of the cache rules, the pricer and the model names. -/
structure Providers where
  normalizeModel : String → String
  ttlSemanticsKnown : String → String → String → Bool
  minCacheableTokens : PricingContext → Nat → Option Nat

/-- `\d` of a regular expression. -/
def isAnyDigit (c : Char) : Bool := (asciiDigit c).isDigit

/-- The runs of digits that single dots separate, at the start of a text of at most so many characters. -/
def versionGroups : Nat → List Char → List (List Char)
  | 0, _ => []
  | fuel + 1, cs =>
    let digits := cs.takeWhile isAnyDigit
    if digits.isEmpty then []
    else match cs.dropWhile isAnyDigit with
      | '.' :: rest => digits :: versionGroups fuel rest
      | _ => [digits]

/-- `int` of a run of digits. -/
def digitsValue (digits : List Char) : Nat :=
  digits.foldl (fun n c => 10 * n + ((asciiDigit c).toNat - '0'.toNat)) 0

/-- `parse_version`. -/
def parseVersion (version : Option String) : Option (List Nat) :=
  version.bind fun version =>
    let cs := version.toList.dropWhile isPySpace
    let groups := versionGroups version.length (match cs with
      | 'v' :: rest => rest
      | _ => cs)
    if groups.isEmpty || groups.any (18 < ·.length) then none else some (groups.map digitsValue)

/-- `version_at_least` of two parsed versions: missing components count as zero. -/
def versionAtLeast (a b : List Nat) : Bool :=
  let width := max a.length b.length
  let pad := fun l : List Nat => l ++ List.replicate (width - l.length) 0
  !decide (pad a < pad b)

/-- `EFFORT_KEEPS_CACHE_CLAUDE_CODE`. -/
def effortKeepsCacheClaudeCode : List String := ["claude-opus-5-5", "claude-fable-5-1"]

/-- `EFFORT_KEEPS_CACHE_EXCLUDED_CHANNELS`. -/
def effortExcludedChannels : List String := ["bedrock", "vertex"]

/-- `PER_MESSAGE_EFFORT_BETA`. -/
def perMessageEffortBeta : String := "mid-conversation-output-config-2026-07-01"

/-- `CLAUDE_CODE_EFFORT_MIN_VERSION`, parsed. -/
def claudeCodeEffortMinVersion : List Nat := [2, 1, 260]

/-- `PER_MESSAGE_EFFORT_MODELS`. -/
def perMessageEffortModels : List String :=
  ["claude-fable-5-1", "claude-mythos-5-1", "claude-opus-5", "claude-opus-5-5"]

/-- `PER_MESSAGE_EFFORT_CHANNELS`. -/
def perMessageEffortChannels : List String := ["anthropic_api", "claude_platform_aws", "vertex"]

/-- `_canonical_model`. -/
def canonicalModel (p : Providers) (model : String) (known : List String) : String :=
  if model ∈ known ∨ model = "" then model else p.normalizeModel model

/-- `effort_change_keeps_cache`. -/
def effortChangeKeepsCache (p : Providers) (agentProduct : Option String) (model channel : String)
    (clientVersion : Option String) (betas : List String) : Bool :=
  (decide (agentProduct = some "claude_code") &&
    decide (canonicalModel p model effortKeepsCacheClaudeCode ∈ effortKeepsCacheClaudeCode ∧
      channel ∉ effortExcludedChannels) &&
    ((parseVersion clientVersion).all fun version => versionAtLeast version claudeCodeEffortMinVersion)) ||
  (decide (perMessageEffortBeta ∈ betas) &&
    decide (canonicalModel p model perMessageEffortModels ∈ perMessageEffortModels ∧
      channel ∈ perMessageEffortChannels))

/-! ### Causes -/

/-- `HIT` and `CAUSES`. -/
inductive Cause where
  | hit | compaction | modelSwitch | ttlExpiry | paramChange | toolsChanged | systemChanged | messagesChanged
  | contextShrank | unexplained
  deriving DecidableEq

/-- The slug of a cause. -/
def Cause.slug : Cause → String
  | hit => "hit" | compaction => "compaction" | modelSwitch => "model-switch" | ttlExpiry => "ttl-expiry"
  | paramChange => "param-change" | toolsChanged => "tools-changed" | systemChanged => "system-changed"
  | messagesChanged => "messages-changed" | contextShrank => "context-shrank" | unexplained => "unexplained"

/-- The sub-causes of a model switch, a parameter change and a diagnosed key. -/
inductive SubCause where
  | refusalFallback | availabilityFallback | planToggle | pingPong | user | fastToggle | effortChange
  | contextTierChange | clientUpgrade | directoryChange | diag | cacheKey
  deriving DecidableEq

/-- The slug of a sub-cause. -/
def SubCause.slug : SubCause → String
  | refusalFallback => "refusal-fallback" | availabilityFallback => "availability-fallback"
  | planToggle => "plan-toggle" | pingPong => "ping-pong" | user => "user" | fastToggle => "fast-toggle"
  | effortChange => "effort-change" | contextTierChange => "context-tier-change"
  | clientUpgrade => "client-upgrade" | directoryChange => "directory-change" | diag => "diag"
  | cacheKey => "cache-key"

/-- `DIAG_CAUSES`. -/
def diagCauses : String → Option (Cause × Option SubCause)
  | "tools_changed" => some (.toolsChanged, none)
  | "system_changed" => some (.systemChanged, none)
  | "messages_changed" => some (.messagesChanged, none)
  | "param_changed" => some (.paramChange, some .diag)
  | "key_changed" => some (.unexplained, some .cacheKey)
  | "compacted" => some (.compaction, none)
  | "model_changed" => some (.modelSwitch, some .diag)
  | _ => none

/-- `is_miss_event`: at least 2,000 tokens and more than a twentieth of what was expected. -/
def isMissEvent (missed expected : Nat) : Bool := decide (2000 ≤ missed ∧ expected < missed * 20)

/-- The families of `_family`. -/
inductive Family where
  | opus | sonnet
  deriving DecidableEq

/-- `_family`. -/
def family (model : String) : Option Family :=
  if "opus".toList <:+: model.toList then some .opus
  else if "sonnet".toList <:+: model.toList then some .sonnet
  else none

/-- `_opus_sonnet_switches`: the last family and the number of switches. -/
def opusSonnetSwitches (models : List String) : Nat :=
  ((models.filterMap family).foldl (fun (acc : Nat × Option Family) fam =>
    (if acc.2.any (fam ≠ ·) then acc.1 + 1 else acc.1, some fam)) (0, none)).1

/-- `_differs`: both are observed, and not the same. -/
def differs {α : Type} [DecidableEq α] (a b : Option α) : Bool := a.isSome && b.isSome && decide (a ≠ b)

/-- `_attr`. -/
def attr (event : LaneEvent) (key : String) : Option AttrValue := event.attrs.lookup key

/-- `_duration_ms`. -/
def durationMs (req : Request) : Nat :=
  ((req.attempts.map fun att => att.tsStartMs + att.durationMs.getD 0).foldl max 0) - req.tsStartMs

/-! ### The stream -/

/-- `_Step`: a request with a serving inference, and the TTL before it. -/
structure Step where
  req : Request
  inf : Inference
  tau : Option Nat

/-- `_Step.model`. -/
def Step.model (s : Step) : String := s.req.model

def Step.pricedModel (s : Step) : String := if s.inf.pricing.model ≠ "" then s.inf.pricing.model else s.model

/-- What the stream over the requests of a lane carries. -/
structure Stream where
  steps : List Step := []
  lastTtl : Option Nat := none

def recordWrite (lastTtl : Option Nat) (billed : Inference) : Option Nat :=
  if 0 < billed.usage.cacheWrite then writeTtl billed else lastTtl

def Stream.stepOf (st : Stream) (req : Request) : Option Step :=
  req.servingInference.map fun inf =>
    ⟨req, inf, st.lastTtl.or (inf.pricing.writeTtlHint.bind hintTtl)⟩

def Stream.next (st : Stream) (req : Request) : Stream where
  steps := st.steps ++ (st.stepOf req).toList
  lastTtl := req.billableInferences.foldl recordWrite st.lastTtl

def streamOf (requests : List Request) : Stream := requests.foldl Stream.next {}

/-! ### One transition -/

/-- `Transition`. -/
structure Transition where
  (requestId laneKey : String)
  index : Nat
  gapMs : Int
  (total reads prevPrefix expectedReuse missed : Nat)
  isMissEvent : Bool
  cause : Cause
  subCause : Option SubCause
  ttlS : Option Nat
  ambiguous : Bool
  predictedHit : Option Bool
  diagReason : Option String

/-- `_Semantics.known`. -/
def semanticsKnown (p : Providers) (s : Step) : Bool :=
  p.ttlSemanticsKnown s.inf.pricing.provider s.inf.pricing.channel s.pricedModel

/-- `_param_change`. -/
def paramChange (p : Providers) (cur prev : Step) : Option SubCause :=
  let a := cur.req.attribution
  let pa := prev.req.attribution
  if cur.inf.pricing.speed ≠ prev.inf.pricing.speed then some .fastToggle
  else if (differs cur.req.params.effort prev.req.params.effort ||
      differs cur.req.params.thinking prev.req.params.thinking) &&
      !effortChangeKeepsCache p a.agentProduct cur.pricedModel cur.inf.pricing.channel a.clientVersion
        cur.req.params.betas then some .effortChange
  else if differs cur.inf.pricing.contextTier prev.inf.pricing.contextTier then some .contextTierChange
  else if differs a.clientVersion pa.clientVersion then some .clientUpgrade
  else if differs a.cwdKey pa.cwdKey then some .directoryChange
  else none

/-- The events after one time and not after another, of events in order: two `bisect_right` and a slice. -/
def eventWindow (events : List LaneEvent) (prevTs ts : Nat) : List LaneEvent :=
  let bisect := fun t : Nat => (events.takeWhile (decide <| ·.tsMs ≤ t)).length
  (events.take (bisect ts)).drop (bisect prevTs)

/-- What `_switch_sub_cause` reads of a step. -/
structure Switch where
  laneKind : LaneKind
  (cur prev : Step)
  beforePrev : Option Step
  window : List LaneEvent
  gap : Int
  tauMs : Option Int
  alternating : Bool

/-- `_switch_sub_cause`. -/
def switchSubCause (s : Switch) : SubCause :=
  let kinds := s.cur.req.attempts.flatMap fun att => att.inferences.map (·.kind)
  let triggers := (s.window.filter (·.kind = .modelFallback)).filterMap (attr · "trigger")
  let families := [family s.cur.model, family s.prev.model]
  if kinds.any (fun kind => kind = .fallback || kind = .fallbackDeclined) || decide (.str "refusal" ∈ triggers) then
    .refusalFallback
  else if decide (.str "availability" ∈ triggers) && s.window.any (fun ev => decide (ev.kind = .apiError) &&
      (decide (attr ev "status" = some (.int 529)) ||
        decide (attr ev "error_type" ∈ [some (.str "overloaded"), some (.str "overloaded_error")]))) then
    .availabilityFallback
  else if s.laneKind = .main ∧ s.cur.req.attribution.agentProduct = some "claude_code" ∧ s.alternating ∧
      some .opus ∈ families ∧ some .sonnet ∈ families ∧ s.window.any (·.kind = .humanPrompt) then
    .planToggle
  else if (s.beforePrev.any fun b => decide (b.model = s.cur.model)) && s.tauMs.any (s.gap ≤ ·) then .pingPong
  else .user

/-- The smallest prefix that is cached, by pricing context and day. -/
abbrev MinCache : Type := List ((PricingContext × Nat) × Nat)

/-- `min_cacheable`. -/
def minCacheable (p : Providers) (memo : MinCache) (s : Step) : Nat × MinCache :=
  let key := (s.inf.pricing, s.req.tsStartMs / 86400000)
  match memo.lookup key with
  | some value => (value, memo)
  | none =>
    let value := (p.minCacheableTokens s.inf.pricing s.req.tsStartMs).getD 0
    (value, (key, value) :: memo)

/-- Whether the gap is close to the TTL, and whether it is beyond it. -/
def expiry (p : Providers) (cur prev : Step) (gap : Int) (tauMs : Option Int) : Bool × Bool :=
  match tauMs with
  | none => (false, false)
  | some tauMs =>
    -- unknown TTL semantics widen both windows by the duration of the request before
    let wide := !semanticsKnown p cur
    let slack : Int := 10000 + if wide then durationMs prev.req else 0
    (decide (|gap - tauMs| ≤ slack), decide ((if wide then tauMs + slack else tauMs) < gap))

/-- What the causes of a step are told from. -/
structure Signals where
  (miss reset modelSwitch : Bool)
  subCause : SubCause
  expired : Bool
  param : Option SubCause
  diagReason : Option String
  shrank : Bool

/-- The first cause that applies. -/
def causeOf (s : Signals) : Cause × Option SubCause :=
  if !s.miss then (.hit, none)
  else if s.reset then (.compaction, none)
  else if s.modelSwitch then (.modelSwitch, some s.subCause)
  else if s.expired then (.ttlExpiry, none)
  else match s.param, s.diagReason.bind diagCauses with
    | some sub, _ => (.paramChange, some sub)
    | none, some diag => diag
    | none, none => if s.shrank then (.contextShrank, none) else (.unexplained, none)

def isReset (window : List LaneEvent) (req : Request) : Bool :=
  (window.any fun ev => decide (ev.kind = .compaction ∨ ev.kind = .clear ∨ ev.kind = .contextEdit)) ||
    req.attempts.any fun att => decide (att.appliedEdits ≠ [] ∨ 0 < att.thinkingDropped)

/-- The transition to a step, and the memo after it. -/
def transition (p : Providers) (lane : Lane) (alternating : Bool) (i : Nat) (beforePrev : Option Step) (prev cur : Step)
    (memo : MinCache) : Transition × MinCache :=
  let gap : Int := cur.req.tsStartMs - prev.req.tsStartMs
  let reads := cur.inf.usage.cacheRead
  let total := reads + cur.inf.usage.cacheWrite + cur.inf.usage.uncachedInput
  let prevPrefix := prev.inf.usage.cacheRead + prev.inf.usage.cacheWrite
  let prevTotal := prevPrefix + prev.inf.usage.uncachedInput
  let expected := min prevPrefix total
  let missed := expected - reads
  let miss := isMissEvent missed expected
  let tauMs : Option Int := cur.tau.map fun tau => (tau * 1000 : Nat)
  let (ambiguous, expired) := expiry p cur prev gap tauMs
  let diagReason := cur.req.finalAttempt.diagnostics.map (·.reason)
  let window := eventWindow lane.events prev.req.tsStartMs cur.req.tsStartMs
  let reset := isReset window cur.req
  let modelSwitch := decide (cur.model ≠ prev.model)
  let param := paramChange p cur prev
  let (cause, subCause) := causeOf {
    miss, reset, modelSwitch, expired, param, diagReason, shrank := decide (10 * total < 9 * prevTotal)
    subCause := switchSubCause ⟨lane.kind, cur, prev, beforePrev, window, gap, tauMs, alternating⟩ }
  let hopeful := fun tauMs => !modelSwitch && !reset && param.isNone && decide (gap ≤ tauMs)
  let (predicted, memo) : Option Bool × MinCache := match tauMs with
    | none => (none, memo)
    | some tauMs =>
      if hopeful tauMs then
        let (least, memo) := minCacheable p memo cur
        (some (decide (least ≤ expected)), memo)
      else (some false, memo)
  ({ requestId := cur.req.requestId, laneKey := lane.laneKey, index := i, gapMs := gap, total, reads, prevPrefix
     expectedReuse := expected, missed, isMissEvent := miss, cause, subCause, ttlS := cur.tau, ambiguous
     predictedHit := predicted, diagReason }, memo)

/-- The transitions between steps, the first of which has the given index. -/
def transitions (p : Providers) (lane : Lane) (alternating : Bool) : Nat → Option Step → List Step → MinCache →
    List Transition
  | i, beforePrev, prev :: cur :: rest, memo =>
    let (t, memo) := transition p lane alternating (i + 1) beforePrev prev cur memo
    t :: transitions p lane alternating (i + 1) (some prev) (cur :: rest) memo
  | _, _, _, _ => []

/-- `classify_transitions`. -/
def classifyTransitions (p : Providers) (lane : Lane) : List Transition :=
  let steps := (streamOf lane.requests).steps
  transitions p lane (decide (2 ≤ opusSonnetSwitches (steps.map Step.model))) 0 none steps []

end TokenBill.Transitions

/-!
## The classification is sound

The TTL that the stream carries before a request is the TTL of the last write of the requests before it,
so that of a step can be recomputed from the prefix of the lane. Of every transition the cause is a hit
just where nothing is missed, and no more is missed than was expected to be read.
-/

namespace TokenBill.Transitions

open List

/-! ### The stream and the prefix -/

/-- What the last of several billed inferences with a write leaves. -/
theorem foldl_recordWrite (billed : List Inference) (lastTtl : Option Nat) :
    billed.foldl recordWrite lastTtl =
      match billed.reverse.find? fun inf => decide (inf.usage.cacheWrite ≠ 0) with
      | some inf => writeTtl inf
      | none => lastTtl := by
  induction billed using List.reverseRecOn with
  | nil => rfl
  | append_singleton rest inf ih =>
    rw [foldl_append, reverse_append, ih]
    show recordWrite _ inf = match (inf :: rest.reverse).find? _ with | some inf => writeTtl inf | none => lastTtl
    unfold recordWrite
    by_cases hw : 0 < inf.usage.cacheWrite
    · have hne : decide (inf.usage.cacheWrite ≠ 0) = true := decide_eq_true (Nat.pos_iff_ne_zero.mp hw)
      rw [if_pos hw, find?_cons, hne]
    · have heq : decide (inf.usage.cacheWrite ≠ 0) = false := decide_eq_false fun hne => hw (Nat.pos_of_ne_zero hne)
      rw [if_neg hw, find?_cons, heq]

theorem streamOf_append (requests : List Request) (req : Request) :
    streamOf (requests ++ [req]) = (streamOf requests).next req := foldl_append

theorem lastTtl_streamOf (requests : List Request) :
    (streamOf requests).lastTtl = (requests.flatMap (·.billableInferences)).foldl recordWrite none := by
  induction requests using List.reverseRecOn with
  | nil => rfl
  | append_singleton rest req ih =>
    rw [streamOf_append, flatMap_append, foldl_append, ← ih, flatMap_singleton]
    rfl

theorem lastTtl_eq (lane : Lane) (k : Nat) : (streamOf (lane.requests.take k)).lastTtl = ttlOfLastWrite lane k := by
  have hbackwards : ((lane.requests.take k).flatMap (·.billableInferences)).reverse =
      (lane.requests.take k).reverse.flatMap (·.billableInferences.reverse) := reverse_flatMap
  rw [lastTtl_streamOf, foldl_recordWrite, hbackwards]
  unfold ttlOfLastWrite
  dsimp only
  generalize List.find? _ _ = last
  cases last with
  | none => rfl
  | some inf => rfl

theorem mem_steps {requests : List Request} {s : Step} (h : s ∈ (streamOf requests).steps) :
    ∃ k, requests[k]? = some s.req ∧ s.req.servingInference = some s.inf ∧
      s.tau = (streamOf (requests.take k)).lastTtl.or (s.inf.pricing.writeTtlHint.bind hintTtl) := by
  induction requests using List.reverseRecOn with
  | nil => cases h
  | append_singleton rest req ih =>
    rw [streamOf_append] at h
    rcases mem_append.mp h with h | h
    · obtain ⟨k, hk, hinf, htau⟩ := ih h
      have hlt : k < rest.length := (List.getElem?_eq_some_iff.mp hk).1
      refine ⟨k, ?_, hinf, ?_⟩
      · rw [getElem?_append_left hlt]
        exact hk
      · rw [take_append_of_le_length hlt.le]
        exact htau
    · obtain ⟨inf, hinf, rfl⟩ := Option.map_eq_some_iff.mp (Option.mem_toList.mp h)
      refine ⟨rest.length, ?_, hinf, ?_⟩
      · rw [getElem?_append_right le_rfl, Nat.sub_self]
        rfl
      · rw [take_left' rfl]

/-! ### One transition -/

/-- A diagnosis is never a hit. -/
theorem diagCauses_ne_hit {reason : String} {diag : Cause × Option SubCause} (h : diagCauses reason = some diag) :
    diag.1 ≠ .hit := by
  unfold diagCauses at h
  split at h
  all_goals first
    | (obtain rfl := Option.some.inj h; decide)
    | cases h

theorem causeOf_hit (s : Signals) : (causeOf s).1 = .hit ↔ s.miss = false := by
  unfold causeOf
  cases hmiss : s.miss with
  | false => simp
  | true =>
    refine iff_of_false (fun h => ?_) (by decide)
    simp only [Bool.not_true, Bool.false_eq_true, if_false] at h
    split at h
    · cases h
    split at h
    · cases h
    split at h
    · cases h
    split at h
    · cases h
    · rename_i hdiag
      obtain ⟨reason, -, hreason⟩ := Option.bind_eq_some_iff.mp hdiag
      exact diagCauses_ne_hit hreason h
    · split at h
      · cases h
      · cases h

section Transition

variable (p : Providers) (lane : Lane) (alternating : Bool) (i : Nat) (beforePrev : Option Step) (prev cur : Step)
  (memo : MinCache)

theorem transition_hit : (transition p lane alternating i beforePrev prev cur memo).1.cause = .hit ↔
    (transition p lane alternating i beforePrev prev cur memo).1.isMissEvent = false :=
  causeOf_hit _

theorem transition_missed : (transition p lane alternating i beforePrev prev cur memo).1.missed ≤
    (transition p lane alternating i beforePrev prev cur memo).1.expectedReuse :=
  Nat.sub_le _ _

end Transition

theorem mem_transitions {p : Providers} {lane : Lane} {alternating : Bool} {i : Nat} {beforePrev : Option Step}
    {steps : List Step} {memo : MinCache} {t : Transition} (h : t ∈ transitions p lane alternating i beforePrev steps memo) :
    ∃ j before prev, ∃ cur ∈ steps, ∃ held, t = (transition p lane alternating j before prev cur held).1 := by
  induction steps generalizing i beforePrev memo with
  | nil => cases h
  | cons prev rest ih =>
    cases rest with
    | nil => cases h
    | cons cur rest =>
      rcases mem_cons.mp h with rfl | h
      · exact ⟨_, _, prev, cur, mem_cons_of_mem _ mem_cons_self, memo, rfl⟩
      · obtain ⟨j, before, prev', cur', hcur, held, ht⟩ := ih h
        exact ⟨j, before, prev', cur', mem_cons_of_mem _ hcur, held, ht⟩

/-! ### The classification -/

/-- What is sound of a transition: its TTL is that of the last write before its request, or the hint of the
request; its cause is a hit just where it is no miss; and no more is missed than was expected. -/
structure Sound (lane : Lane) (t : Transition) : Prop where
  ttl : ∃ k req inf, lane.requests[k]? = some req ∧ req.servingInference = some inf ∧ t.requestId = req.requestId ∧
    t.ttlS = (ttlOfLastWrite lane k).or (inf.pricing.writeTtlHint.bind hintTtl)
  hit : t.cause = .hit ↔ t.isMissEvent = false
  missed : t.missed ≤ t.expectedReuse

/-- The stream agrees with the prefix before every request, and every transition is sound. -/
theorem classification_sound (p : Providers) (lane : Lane) :
    (∀ k, (streamOf (lane.requests.take k)).lastTtl = ttlOfLastWrite lane k) ∧
      ∀ t ∈ classifyTransitions p lane, Sound lane t := by
  refine ⟨lastTtl_eq lane, fun t ht => ?_⟩
  obtain ⟨j, before, prev, cur, hcur, held, rfl⟩ := mem_transitions ht
  obtain ⟨k, hk, hinf, htau⟩ := mem_steps hcur
  rw [lastTtl_eq] at htau
  exact ⟨⟨k, cur.req, cur.inf, hk, hinf, rfl, htau⟩, transition_hit .., transition_missed ..⟩

end TokenBill.Transitions
