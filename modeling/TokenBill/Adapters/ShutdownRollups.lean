import TokenBill.Copilot.RecordKeys
import TokenBill.Core.PyJson
import TokenBill.General.GroupSums
import Mathlib.Data.List.Chain

/-!
# Shutdown rollups of the Copilot CLI

At the end of a leg the CLI writes the counters of each model since the session began. The importer takes
the difference to the shutdown before, splits its cache-inclusive input, and emits an aggregate under an id
made of the session, the leg and the model. An aggregate replaces an earlier one of its id.
-/

namespace TokenBill.ShutdownRollups

open General List

/-! ### Counters -/

/-- The counters of a model in a shutdown. -/
structure Counters where
  (input cacheRead cacheWrite output : Nat)
  (reasoning nano : Option Nat)
  deriving DecidableEq

/-- The counters of each model. -/
abbrev Table : Type := List (String × Counters)

/-- `MAX_TOKENS`. -/
def maxTokens : Nat := 2 ^ 53

/-- `_count`. -/
def count : PyJson String → Option Nat
  | .int n => if 0 ≤ n ∧ n ≤ maxTokens then some n.toNat else none
  | _ => none

/-- `round` of an exact number: to the nearest integer, and to the even one in the middle. -/
def round (x : ℚ) : Int := divHalfEven x.num x.den

/-- `_nano_aiu`, of an exact number or what is none. -/
def nanoAiu : PyJson String → Option Nat
  | .int n => if 0 ≤ n ∧ n ≤ 2 ^ 63 then some n.toNat else none
  | .float x => if 0 ≤ x ∧ x ≤ 2 ^ 63 then some (round x).toNat else none
  | _ => none

/-- `_MODEL_RE`. -/
def isModel (s : String) : Bool :=
  match s.toList with
  | [] => false
  | c :: cs => c.isAlphanum && decide (cs.length ≤ 63) &&
      cs.all fun c => c.isAlphanum || decide (c ∈ [' ', '.', '_', ':', '/', '(', ')', '[', ']', '+', '-'])

/-- A counter that is 0 where it is missing. -/
def counter (usage : PyJson.Dict String) (key : String) : Option Nat :=
  match usage.lookup key with
  | none | some .null => some 0
  | some v => count v

/-- A counter that may be missing. -/
def optional (usage : PyJson.Dict String) (key : String) : Option (Option Nat) :=
  match usage.lookup key with
  | none | some .null => some none
  | some v => (count v).map some

/-- The counters of a model, or nothing where the loop of `on_shutdown` refuses them. -/
def readMetric (entry : String × PyJson String) : Option (String × Counters) :=
  match entry.2 with
  | .dict metric =>
    match metric.lookup "usage" with
    | some (.dict usage) => do
      guard (isModel entry.1)
      let input ← counter usage "inputTokens"
      let cacheRead ← counter usage "cacheReadTokens"
      let cacheWrite ← counter usage "cacheWriteTokens"
      let output ← counter usage "outputTokens"
      let reasoning ← optional usage "reasoningTokens"
      return (entry.1, ⟨input, cacheRead, cacheWrite, output, reasoning, (metric.lookup "totalNanoAiu").bind nanoAiu⟩)
    | _ => none
  | _ => none

/-- The members of an object of JSON have distinct names. -/
structure Metrics where
  members : PyJson.Dict String
  distinct : (members.map (·.1)).Nodup

/-- The cumulative counters of a shutdown, in the order of the models, or nothing where it is refused. -/
def cumulative (metrics : Metrics) : Option Table :=
  (metrics.members.insertionSort fun a b => a.1 ≤ b.1).mapM readMetric

/-! ### Deltas -/

/-- Whether no optional counter that is in both falls. -/
def optLe (c p : Option Nat) : Bool :=
  match c, p with
  | some c, some p => decide (p ≤ c)
  | _, _ => true

def monotone (c p : Counters) : Bool :=
  decide (p.input ≤ c.input) && decide (p.cacheRead ≤ c.cacheRead) && decide (p.cacheWrite ≤ c.cacheWrite) &&
    decide (p.output ≤ c.output) && optLe c.reasoning p.reasoning && optLe c.nano p.nano

/-- The counters less those before. -/
def Counters.sub (c p : Counters) : Counters where
  input := c.input - p.input
  cacheRead := c.cacheRead - p.cacheRead
  cacheWrite := c.cacheWrite - p.cacheWrite
  output := c.output - p.output
  reasoning := c.reasoning.map fun n => n - p.reasoning.getD 0
  nano := c.nano.map fun n => n - p.nano.getD 0

/-- What a shutdown adds to a model. In a leg with a compaction it is what it says. -/
def delta (compacted : Bool) (prev : Table) (entry : String × Counters) : Counters :=
  match prev.lookup entry.1 with
  | none => entry.2
  | some p => if !compacted && monotone entry.2 p then entry.2.sub p else entry.2

/-- `any(counts.values()) or delta[5]`. -/
def Counters.any (d : Counters) : Bool :=
  decide (d.input ≠ 0 ∨ d.cacheRead ≠ 0 ∨ d.cacheWrite ≠ 0 ∨ d.output ≠ 0 ∨ d.reasoning.getD 0 ≠ 0 ∨ d.nano.getD 0 ≠ 0)

/-- The deltas of one `session.shutdown`. -/
structure LegRollup where
  (leg startMs endMs : Int)
  items : Table

/-! ### The session -/

/-- The state of the parser that the rollups depend on. -/
structure State where
  leg : Int := -1
  legStart : Int := 0
  legComp : Bool := false
  legShut : Bool := false
  prev : Table := []
  legs : List LegRollup := []

/-- `_new_leg`. -/
def State.newLeg (s : State) (ts : Int) : State :=
  { s with leg := s.leg + 1, legStart := ts, legComp := false, legShut := false }

/-- `on_shutdown` with counters that are not refused. -/
def State.shutdown (s : State) (ts : Int) (cum : Table) : State :=
  let s := if s.leg < 0 then s.newLeg ts else s
  let items := (cum.map fun entry => (entry.1, delta s.legComp s.prev entry)).filter fun item => item.2.any
  { s with prev := cum, legShut := true, legs := s.legs ++ [⟨s.leg, s.legStart, ts, items⟩] }

/-- The events that matter: the other ones change no leg and no counter. -/
inductive Event where
  | start (ts : Int)
  | resume (ts : Int)
  | compaction (success : Bool)
  | shutdown (ts : Int) (metrics : Option Metrics)
  | other

def Event.table : Event → Option Table
  | .shutdown _ metrics => metrics.bind cumulative
  | _ => none

/-- `handle`: a shutdown that is refused is quarantined. -/
def State.handle (s : State) : Event → State
  | .start ts => s.newLeg ts
  | .resume ts => s.newLeg ts
  | .compaction success => if success then { s with legComp := true } else s
  | .shutdown ts metrics =>
    match metrics.bind cumulative with
    | none => s
    | some cum => s.shutdown ts cum
  | .other => s

theorem handle_shutdown (s : State) (ts : Int) (metrics : Option Metrics) :
    s.handle (.shutdown ts metrics) =
      match metrics.bind cumulative with
      | none => s
      | some cum => s.shutdown ts cum := rfl

def run (events : List Event) : State := events.foldl State.handle {}

/-! ### Aggregates -/

/-- The buckets of a rollup that are not always 0. -/
structure Usage where
  (uncachedInput cacheRead cacheWriteUnknown output : Nat)
  outputReasoning : Option Nat

/-- `_reasoning`. -/
def reasoning (d : Counters) : Option Nat :=
  match d.reasoning with
  | none => none
  | some n => if d.output < n then none else some n

/-- `normalize_shutdown_rollup`: an input that does not include what was cached is taken as exclusive of it. -/
def normalize (d : Counters) : Usage where
  uncachedInput := if d.input < d.cacheRead + d.cacheWrite then d.input else d.input - d.cacheRead - d.cacheWrite
  cacheRead := d.cacheRead
  cacheWriteUnknown := d.cacheWrite
  output := d.output
  outputReasoning := reasoning d

/-- `UsageAggregate(copilot.cli_rollup)`, with the model of its dims and the cost in nano-AIU, before it is rounded. -/
structure UsageAggregate where
  (aggId model : String)
  (bucketStartMs bucketEndMs : Int)
  usage : Usage
  reportedNano : Option Nat

section Emitting

variable (h : Hashes) (sessionKey : String) (label : String → String)

def idParts (leg : Int) (model : String) : List String := ["copilot.cli_rollup", sessionKey, toString leg, model]

/-- `natural_id("agg", "copilot.cli_rollup", session_key, leg, model)`. -/
def aggId (leg : Int) (model : String) : String := h.stableId "agg" (idParts sessionKey leg model)

/-- The aggregate of a delta. -/
def aggregateOf (leg : LegRollup) (item : String × Counters) : UsageAggregate where
  aggId := aggId h sessionKey leg.leg item.1
  model := label item.1
  bucketStartMs := min leg.startMs leg.endMs
  bucketEndMs := leg.endMs
  usage := normalize item.2
  reportedNano := item.2.nano

/-- `_rollup_aggregates`. -/
def rollupAggregates (legs : List LegRollup) : List UsageAggregate :=
  legs.flatMap fun leg => leg.items.map (aggregateOf h sessionKey label leg)

/-- What the ledger keeps: a later aggregate replaces an earlier one of its id. -/
def ledger (aggs : List UsageAggregate) : List UsageAggregate :=
  aggs.foldl (fun rows a => upsert (·.aggId) a rows) []

end Emitting

/-! ### What deltas add up to -/

/-- Counters that do not decrease and stay reported. -/
structure Below (p c : Counters) : Prop where
  input : p.input ≤ c.input
  cacheRead : p.cacheRead ≤ c.cacheRead
  cacheWrite : p.cacheWrite ≤ c.cacheWrite
  output : p.output ≤ c.output
  reasoning : ∀ n, p.reasoning = some n → ∃ m, c.reasoning = some m ∧ n ≤ m
  nano : ∀ n, p.nano = some n → ∃ m, c.nano = some m ∧ n ≤ m

/-- Models that stay reported, with their counters. -/
def Kept (t t' : Table) : Prop := ∀ m p, t.lookup m = some p → ∃ c, t'.lookup m = some c ∧ Below p c

/-- A counter that deltas telescope to, and that is 0 where nothing is added. -/
structure Telescopes (f : Counters → Nat) : Prop where
  sub : ∀ {c p : Counters}, Below p c → f (c.sub p) + f p = f c
  idle : ∀ {d : Counters}, d.any = false → f d = 0

theorem getD_sub_add {c p : Option Nat} (h : ∀ n, p = some n → ∃ m, c = some m ∧ n ≤ m) :
    (c.map fun n => n - p.getD 0).getD 0 + p.getD 0 = c.getD 0 := by
  cases p with
  | none => cases c <;> simp
  | some n =>
    obtain ⟨m, rfl, hle⟩ := h n rfl
    exact Nat.sub_add_cancel hle

theorem idle_iff {d : Counters} : d.any = false ↔ d.input = 0 ∧ d.cacheRead = 0 ∧ d.cacheWrite = 0 ∧
    d.output = 0 ∧ d.reasoning.getD 0 = 0 ∧ d.nano.getD 0 = 0 := by
  unfold Counters.any
  rw [decide_eq_false_iff_not]
  push Not
  rfl

theorem telescopes_input : Telescopes (·.input) := ⟨fun h => Nat.sub_add_cancel h.input, fun h => (idle_iff.mp h).1⟩

theorem telescopes_cacheRead : Telescopes (·.cacheRead) :=
  ⟨fun h => Nat.sub_add_cancel h.cacheRead, fun h => (idle_iff.mp h).2.1⟩

theorem telescopes_cacheWrite : Telescopes (·.cacheWrite) :=
  ⟨fun h => Nat.sub_add_cancel h.cacheWrite, fun h => (idle_iff.mp h).2.2.1⟩

theorem telescopes_output : Telescopes (·.output) :=
  ⟨fun h => Nat.sub_add_cancel h.output, fun h => (idle_iff.mp h).2.2.2.1⟩

theorem telescopes_reasoning : Telescopes fun c => c.reasoning.getD 0 :=
  ⟨fun h => getD_sub_add h.reasoning, fun h => (idle_iff.mp h).2.2.2.2.1⟩

theorem telescopes_nano : Telescopes fun c => c.nano.getD 0 :=
  ⟨fun h => getD_sub_add h.nano, fun h => (idle_iff.mp h).2.2.2.2.2⟩

theorem monotone_of_below {c p : Counters} (h : Below p c) : monotone c p = true := by
  have hopt : ∀ {c p : Option Nat}, (∀ n, p = some n → ∃ m, c = some m ∧ n ≤ m) → optLe c p = true := by
    intro c p h
    cases p with
    | none => cases c <;> rfl
    | some n =>
      obtain ⟨m, rfl, hle⟩ := h n rfl
      exact decide_eq_true hle
  unfold monotone
  rw [decide_eq_true h.input, decide_eq_true h.cacheRead, decide_eq_true h.cacheWrite, decide_eq_true h.output,
    hopt h.reasoning, hopt h.nano]
  rfl

/-- A counter summed over the models of a table that a predicate selects. -/
def total (p : String → Bool) (f : Counters → Nat) (t : Table) : Nat :=
  (t.map fun e => if p e.1 then f e.2 else 0).sum

theorem total_append (p : String → Bool) (f : Counters → Nat) (t t' : Table) :
    total p f (t ++ t') = total p f t + total p f t' := by
  unfold total
  rw [map_append, sum_append]

theorem total_filter_any {f : Counters → Nat} (hf : Telescopes f) (p : String → Bool) (t : Table) :
    total p f (t.filter fun e => e.2.any) = total p f t := by
  unfold total
  induction t with
  | nil => rfl
  | cons e t ih =>
    rw [filter_cons, map_cons, sum_cons, ← ih]
    cases he : e.2.any with
    | true => rw [if_pos rfl, map_cons, sum_cons]
    | false => rw [if_neg Bool.noConfusion, hf.idle he, ite_self, Nat.zero_add]

variable {cum : Table} {events : List Event} {s : State}

theorem total_delta {f : Counters → Nat} (hf : Telescopes f) {prev : Table} (hk : Kept prev cum)
    (hprev : (prev.map (·.1)).Nodup) (hcum : (cum.map (·.1)).Nodup) (p : String → Bool) :
    total p f (cum.map fun e => (e.1, delta false prev e)) + total p f prev = total p f cum := by
  have hcover : ∀ e ∈ prev, e.1 ∈ cum.map (·.1) := fun e he => by
    obtain ⟨c, hc, -⟩ := hk e.1 e.2 (lookup_of_mem hprev he)
    exact mem_map.mpr ⟨_, mem_of_lookup hc, rfl⟩
  have hbefore := sum_lookup hprev hcum hcover fun e => if p e.1 then f e.2 else 0
  unfold total
  rw [← hbefore, map_map, map_map, ← sum_map_add]
  refine congrArg List.sum (map_congr_left fun e he => ?_)
  simp only [Function.comp_apply]
  cases hlookup : prev.lookup e.1 with
  | none => simp [delta, hlookup]
  | some q =>
    obtain ⟨c, hc, hbelow⟩ := hk e.1 q hlookup
    obtain rfl : e.2 = c := Option.some.inj ((lookup_of_mem hcum he).symm.trans hc)
    have hdelta : delta false prev e = e.2.sub q := by
      unfold delta
      rw [hlookup]
      dsimp only
      rw [monotone_of_below hbelow]
      rfl
    rw [hdelta, Option.map_some, Option.getD_some]
    split
    · exact hf.sub hbelow
    · rfl

/-! ### Runs -/

def tables (events : List Event) : List Table := events.filterMap Event.table

def State.items (s : State) : Table := s.legs.flatMap (·.items)

theorem readMetric_fst {entry : String × PyJson String} {e : String × Counters} (h : readMetric entry = some e) :
    e.1 = entry.1 := by
  unfold readMetric at h
  split at h
  · split at h
    · simp only [Option.bind_eq_bind, Option.bind_eq_some_iff] at h
      obtain ⟨_, _, _, _, _, _, _, _, _, _, _, _, h⟩ := h
      obtain rfl := Option.some.inj h
      rfl
    · cases h
  · cases h

theorem nodup_cumulative {metrics : Metrics} (h : cumulative metrics = some cum) : (cum.map (·.1)).Nodup := by
  have hmap : ∀ {l : PyJson.Dict String} {t : Table}, l.mapM readMetric = some t → t.map (·.1) = l.map (·.1) := by
    intro l
    induction l with
    | nil =>
      intro t ht
      cases ht
      rfl
    | cons entry l ih =>
      intro t ht
      rw [mapM_cons] at ht
      simp only [Option.bind_eq_bind, Option.bind_eq_some_iff] at ht
      obtain ⟨e, he, t, ht, hcons⟩ := ht
      obtain rfl := Option.some.inj hcons
      rw [map_cons, map_cons, readMetric_fst he, ih ht]
  rw [hmap h]
  exact ((perm_insertionSort _ _).map _).nodup_iff.mpr metrics.distinct

/-- What holds after events without a compaction: the deltas add up to the last counters. -/
structure Telescoped (events : List Event) (s : State) : Prop where
  prev : s.prev = (tables events).getLast?.getD []
  legComp : s.legComp = false
  nodup : (s.prev.map (·.1)).Nodup
  adds : ∀ {f : Counters → Nat}, Telescopes f → ∀ p, total p f s.items = total p f s.prev

theorem Telescoped.newLeg (h : Telescoped events s) (ts : Int) :
    Telescoped events (s.newLeg ts) := ⟨h.prev, rfl, h.nodup, h.adds⟩

theorem Telescoped.idle (h : Telescoped events s) {e : Event} (he : e.table = none) : Telescoped (events ++ [e]) s := by
  have htables : tables (events ++ [e]) = tables events := by
    unfold tables
    rw [filterMap_append, filterMap_cons, he]
    exact append_nil _
  exact ⟨htables ▸ h.prev, h.legComp, h.nodup, h.adds⟩

/-- A shutdown adds its deltas. -/
theorem Telescoped.shutdown (h : Telescoped events s) {e : Event}
    (he : e.table = some cum) (hcum : (cum.map (·.1)).Nodup) (hk : Kept s.prev cum) (ts : Int) :
    Telescoped (events ++ [e]) (s.shutdown ts cum) := by
  have htables : tables (events ++ [e]) = tables events ++ [cum] := by
    unfold tables
    rw [filterMap_append, filterMap_cons, he]
    rfl
  have hleg : Telescoped events (if s.leg < 0 then s.newLeg ts else s) := by
    split
    · exact h.newLeg ts
    · exact h
  have hprev : (if s.leg < 0 then s.newLeg ts else s).prev = s.prev := by split <;> rfl
  unfold State.shutdown
  generalize (if s.leg < 0 then s.newLeg ts else s) = u at hleg hprev
  refine ⟨?_, hleg.legComp, hcum, fun {f} hf p => ?_⟩
  · rw [htables, getLast?_concat]
    rfl
  · have hitems : total p f (u.legs.flatMap (·.items) ++
        (cum.map fun entry => (entry.1, delta u.legComp u.prev entry)).filter fun item => item.2.any) =
          total p f cum := by
      rw [total_append, total_filter_any hf, hleg.legComp, Nat.add_comm,
        show total p f (u.legs.flatMap (·.items)) = total p f u.prev from hleg.adds hf p]
      exact total_delta hf (hprev ▸ hk) hleg.nodup hcum p
    show total p f ((u.legs ++ [_]).flatMap LegRollup.items) = total p f cum
    rw [flatMap_append, flatMap_singleton]
    exact hitems

/-- The deltas of a session without a successful compaction whose counters do not decrease add up to its last
counters. -/
theorem run_telescoped (hcompact : .compaction true ∉ events)
    (hkept : (tables events).IsChain Kept) : Telescoped events (run events) := by
  induction events using List.reverseRecOn with
  | nil => exact ⟨rfl, rfl, nodup_nil, fun _ _ => rfl⟩
  | append_singleton events e ih =>
    have hchain : (tables events).IsChain Kept := by
      unfold tables at hkept
      rw [filterMap_append] at hkept
      exact hkept.left_of_append
    have hih := ih (fun h => hcompact (mem_append_left _ h)) hchain
    have hrun : run (events ++ [e]) = (run events).handle e := foldl_append
    rw [hrun]
    cases e with
    | start ts => exact (hih.newLeg ts).idle rfl
    | resume ts => exact (hih.newLeg ts).idle rfl
    | other => exact hih.idle rfl
    | compaction success =>
      cases success with
      | false => exact hih.idle rfl
      | true => exact absurd (mem_append_right _ mem_cons_self) hcompact
    | shutdown ts metrics =>
      cases hcum : metrics.bind cumulative with
      | none =>
        have hhandle : (run events).handle (.shutdown ts metrics) = run events := by
          rw [handle_shutdown, hcum]
        rw [hhandle]
        exact hih.idle hcum
      | some cum =>
        have hhandle : (run events).handle (.shutdown ts metrics) = (run events).shutdown ts cum := by
          rw [handle_shutdown, hcum]
        rw [hhandle]
        obtain ⟨metrics, rfl, hmetrics⟩ := Option.bind_eq_some_iff.mp hcum
        have htable : Event.table (.shutdown ts (some metrics)) = some cum := hcum
        refine hih.shutdown htable (nodup_cumulative hmetrics) ?_ ts
        have htables : tables (events ++ [.shutdown ts (some metrics)]) = tables events ++ [cum] := by
          unfold tables
          rw [filterMap_append, filterMap_cons, htable]
          rfl
        rw [htables] at hkept
        rw [hih.prev]
        intro m p hp
        cases hlast : (tables events).getLast? with
        | none =>
          rw [hlast] at hp
          cases hp
        | some last =>
          rw [hlast] at hp
          exact isChain_append.mp hkept |>.2.2 last hlast cum rfl m p hp

/-! ### Aggregates of a session -/

def State.added (s : State) : List (Int × String) := s.legs.flatMap fun leg => leg.items.map fun item => (leg.leg, item.1)

def exclusive (d : Counters) : Nat := if d.input < d.cacheRead + d.cacheWrite then d.cacheRead + d.cacheWrite else 0

def dropped (d : Counters) : Nat := if d.output < d.reasoning.getD 0 then d.reasoning.getD 0 else 0

theorem normalize_input (d : Counters) : (normalize d).uncachedInput + (normalize d).cacheRead +
    (normalize d).cacheWriteUnknown = d.input + exclusive d := by
  unfold normalize exclusive
  dsimp only
  split <;> omega

theorem normalize_reasoning (d : Counters) :
    (normalize d).outputReasoning.getD 0 + dropped d = d.reasoning.getD 0 := by
  show (reasoning d).getD 0 + dropped d = _
  unfold reasoning dropped
  cases d.reasoning with
  | none => rfl
  | some n =>
    dsimp only [Option.getD_some]
    split
    · exact Nat.zero_add n
    · rfl

section Emitted

variable (h : Hashes) (sessionKey : String) (label : String → String)

def sumOf (l : String) (g : UsageAggregate → Nat) (aggs : List UsageAggregate) : Nat :=
  ((aggs.filter fun a => decide (a.model = l)).map g).sum

/-- The digests of a session's ids collide for no two texts. -/
def NoCollision (added : List (Int × String)) : Prop :=
  ∀ a ∈ added, ∀ b ∈ added, aggId h sessionKey a.1 a.2 = aggId h sessionKey b.1 b.2 →
    "\x1f".intercalate (idParts sessionKey a.1 a.2) = "\x1f".intercalate (idParts sessionKey b.1 b.2)

theorem idParts_inj {leg leg' : Int} {model model' : String}
    (he : "\x1f".intercalate (idParts sessionKey leg model) = "\x1f".intercalate (idParts sessionKey leg' model')) :
    leg = leg' ∧ model = model' := by
  rw [← String.toList_inj, String.toList_intercalate, String.toList_intercalate] at he
  simp only [idParts, map_cons, map_nil, intercalate_cons_cons, intercalate_singleton,
    append_assoc, append_cancel_left_eq] at he
  obtain ⟨hleg, hmodel⟩ := append_sep_inj (Copilot.Seats.sepFree_toString leg) (Copilot.Seats.sepFree_toString leg') he
  exact ⟨Copilot.Seats.toString_int_injective (String.toList_inj.mp hleg), String.toList_inj.mp hmodel⟩

theorem map_aggId_rollupAggregates (legs : List LegRollup) :
    (rollupAggregates h sessionKey label legs).map (·.aggId) =
      (legs.flatMap fun leg => leg.items.map fun item => (leg.leg, item.1)).map fun a => aggId h sessionKey a.1 a.2 := by
  unfold rollupAggregates
  rw [map_flatMap, map_flatMap]
  refine flatMap_congr fun leg _ => ?_
  rw [map_map, map_map]
  rfl

theorem ledger_of_nodup {aggs : List UsageAggregate} (hn : (aggs.map (·.aggId)).Nodup) : ledger aggs = aggs := by
  have hall : ∀ {aggs rows : List UsageAggregate}, ((rows ++ aggs).map (·.aggId)).Nodup →
      aggs.foldl (fun rows a => upsert (·.aggId) a rows) rows = rows ++ aggs := by
    intro aggs
    induction aggs with
    | nil => exact fun _ => (append_nil _).symm
    | cons a aggs ih =>
      intro rows hn
      have hnew : a.aggId ∉ rows.map (·.aggId) := by
        rw [map_append, map_cons] at hn
        exact fun hmem => (nodup_append.mp hn).2.2 _ hmem _ mem_cons_self rfl
      rw [foldl_cons, upsert_append hnew, ih (by simpa using hn)]
      simp
  exact hall hn

/-- A figure of aggregates is summed over the deltas. -/
theorem sumOf_rollupAggregates {g : UsageAggregate → Nat} {f : Counters → Nat}
    (hg : ∀ leg item, g (aggregateOf h sessionKey label leg item) = f item.2) (l : String) (legs : List LegRollup) :
    sumOf l g (rollupAggregates h sessionKey label legs) =
      total (fun m => decide (label m = l)) f (legs.flatMap LegRollup.items) := by
  have hitems : ∀ (leg : LegRollup) (items : Table), sumOf l g (items.map (aggregateOf h sessionKey label leg)) =
      total (fun m => decide (label m = l)) f items := by
    intro leg items
    unfold sumOf total
    induction items with
    | nil => rfl
    | cons item items ih =>
      rw [map_cons, filter_cons, map_cons, sum_cons, ← ih]
      have hmodel : (aggregateOf h sessionKey label leg item).model = label item.1 := rfl
      rw [hmodel]
      by_cases hl : label item.1 = l <;> simp [hl, hg]
  have happend : ∀ as bs, sumOf l g (as ++ bs) = sumOf l g as + sumOf l g bs := by
    intro as bs
    unfold sumOf
    rw [filter_append, map_append, sum_append]
  unfold rollupAggregates
  induction legs with
  | nil => rfl
  | cons leg legs ih => rw [flatMap_cons, flatMap_cons, happend, total_append, hitems, ih]

/-- The rollups of a session without a successful compaction, whose counters do not decrease and stay reported, and
where no leg adds to a model twice: per model they sum to the counters of the last shutdown, but that the cached
tokens of a delta whose input does not include them count twice, and reasoning of a delta beyond its output does not
count. -/
theorem rollups_telescope {events : List Event} (hcompact : .compaction true ∉ events)
    (hkept : (tables events).IsChain Kept) (honce : (run events).added.Nodup)
    (hfree : NoCollision h sessionKey (run events).added) (l : String) :
    let aggs := ledger (rollupAggregates h sessionKey label (run events).legs)
    let last := (tables events).getLast?.getD []
    let ofModel := fun m => decide (label m = l)
    sumOf l (fun a => a.usage.cacheRead) aggs = total ofModel (·.cacheRead) last ∧
    sumOf l (fun a => a.usage.cacheWriteUnknown) aggs = total ofModel (·.cacheWrite) last ∧
    sumOf l (fun a => a.usage.output) aggs = total ofModel (·.output) last ∧
    sumOf l (fun a => a.reportedNano.getD 0) aggs = total ofModel (fun c => c.nano.getD 0) last ∧
    sumOf l (fun a => a.usage.uncachedInput + a.usage.cacheRead + a.usage.cacheWriteUnknown) aggs =
      total ofModel (·.input) last + total ofModel exclusive (run events).items ∧
    sumOf l (fun a => a.usage.outputReasoning.getD 0) aggs + total ofModel dropped (run events).items =
      total ofModel (fun c => c.reasoning.getD 0) last := by
  intro aggs last ofModel
  have hrun := run_telescoped hcompact hkept
  have hids : ((rollupAggregates h sessionKey label (run events).legs).map (·.aggId)).Nodup := by
    rw [map_aggId_rollupAggregates]
    refine List.Nodup.map_on (fun a ha b hb he => ?_) honce
    obtain ⟨hleg, hmodel⟩ := idParts_inj sessionKey (hfree a ha b hb he)
    exact Prod.ext hleg hmodel
  have haggs : aggs = rollupAggregates h sessionKey label (run events).legs := ledger_of_nodup hids
  have hadds : ∀ {f : Counters → Nat}, Telescopes f → total ofModel f (run events).items = total ofModel f last :=
    fun hf => (hrun.adds hf ofModel).trans (by rw [hrun.prev])
  have hplus : ∀ (f g : Counters → Nat) (t : Table), total ofModel (fun d => f d + g d) t =
      total ofModel f t + total ofModel g t := by
    intro f g t
    unfold total
    rw [← sum_map_add]
    refine congrArg List.sum (map_congr_left fun e _ => ?_)
    split <;> rfl
  rw [haggs]
  refine ⟨?_, ?_, ?_, ?_, ?_, ?_⟩
  · exact (sumOf_rollupAggregates h sessionKey label (fun _ _ => rfl) l _).trans (hadds telescopes_cacheRead)
  · exact (sumOf_rollupAggregates h sessionKey label (fun _ _ => rfl) l _).trans (hadds telescopes_cacheWrite)
  · exact (sumOf_rollupAggregates h sessionKey label (fun _ _ => rfl) l _).trans (hadds telescopes_output)
  · exact (sumOf_rollupAggregates h sessionKey label (fun _ _ => rfl) l _).trans (hadds telescopes_nano)
  · rw [sumOf_rollupAggregates h sessionKey label (f := fun d => d.input + exclusive d)
      (fun _ item => normalize_input item.2) l, hplus]
    exact congrArg (· + _) (hadds telescopes_input)
  · rw [sumOf_rollupAggregates h sessionKey label (f := fun d => (normalize d).outputReasoning.getD 0)
      (fun _ _ => rfl) l, ← hadds telescopes_reasoning]
    show total ofModel _ (run events).items + total ofModel dropped (run events).items = _
    rw [← hplus]
    exact congrArg (total ofModel · _) (funext fun d => normalize_reasoning d)

end Emitted

/-! ### Sessions -/

def metricsOf (input cacheRead output reasoning : Int) : Metrics where
  members := [("m", .dict [("usage", .dict [("inputTokens", .int input), ("cacheReadTokens", .int cacheRead),
    ("outputTokens", .int output), ("reasoningTokens", .int reasoning)]), ("totalNanoAiu", .int (10 * input))])]
  distinct := nodup_singleton _

theorem kept_singleton {m : String} {p c : Counters} (h : Below p c) : Kept [(m, p)] [(m, c)] := by
  intro k q hq
  obtain ⟨rfl, rfl⟩ := Prod.mk.inj (mem_singleton.mp (mem_of_lookup hq))
  exact ⟨c, by simp, h⟩

def sampleHashes : Hashes := ⟨fun t => String.ofList t.toList.reverse, fun _ => id, id⟩

def twoLegs : List Event :=
  [.start 0, .shutdown 1 (some (metricsOf 10 4 6 1)), .resume 2, .shutdown 3 (some (metricsOf 30 9 8 2))]

theorem twoLegs_tables : tables twoLegs =
    [[("m", ⟨10, 4, 0, 6, some 1, some 100⟩)], [("m", ⟨30, 9, 0, 8, some 2, some 300⟩)]] := by decide

theorem twoLegs_telescope :
    let aggs := ledger (rollupAggregates sampleHashes "s" id (run twoLegs).legs)
    sumOf "m" (fun a => a.usage.cacheRead) aggs =
      total (fun m => decide (id m = "m")) (·.cacheRead) ((tables twoLegs).getLast?.getD []) :=
  (@rollups_telescope sampleHashes "s" id twoLegs (by simp [twoLegs])
    (by
      rw [twoLegs_tables]
      exact .cons_cons (kept_singleton ⟨by decide, by decide, by decide, by decide, by simp, by simp⟩) (.singleton _))
    (by decide)
    (by
      unfold NoCollision
      decide) "m").1

def cachedLater : List Event :=
  [.start 0, .shutdown 1 (some (metricsOf 10 4 6 1)), .resume 2, .shutdown 3 (some (metricsOf 12 9 8 5))]

def twoShutdowns : List Event :=
  [.start 0, .shutdown 1 (some (metricsOf 10 4 6 1)), .shutdown 3 (some (metricsOf 30 9 8 2))]

/-- Counters that do not decrease and stay reported need not be what the rollups sum to. -/
theorem rollups_do_not_telescope :
    (.compaction true ∉ cachedLater ∧ (tables cachedLater).IsChain Kept ∧
      sumOf "m" (fun a => a.usage.uncachedInput + a.usage.cacheRead + a.usage.cacheWriteUnknown)
          (ledger (rollupAggregates sampleHashes "s" id (run cachedLater).legs)) ≠
        total (fun m => decide (m = "m")) (·.input) ((tables cachedLater).getLast?.getD []) ∧
      sumOf "m" (fun a => a.usage.outputReasoning.getD 0)
          (ledger (rollupAggregates sampleHashes "s" id (run cachedLater).legs)) ≠
        total (fun m => decide (m = "m")) (fun c => c.reasoning.getD 0) ((tables cachedLater).getLast?.getD [])) ∧
    .compaction true ∉ twoShutdowns ∧ (tables twoShutdowns).IsChain Kept ∧
      sumOf "m" (fun a => a.usage.output)
          (ledger (rollupAggregates sampleHashes "s" id (run twoShutdowns).legs)) ≠
        total (fun m => decide (m = "m")) (·.output) ((tables twoShutdowns).getLast?.getD []) := by
  have hlater : tables cachedLater =
      [[("m", ⟨10, 4, 0, 6, some 1, some 100⟩)], [("m", ⟨12, 9, 0, 8, some 5, some 120⟩)]] := by decide
  have htwo : tables twoShutdowns =
      [[("m", ⟨10, 4, 0, 6, some 1, some 100⟩)], [("m", ⟨30, 9, 0, 8, some 2, some 300⟩)]] := by decide
  refine ⟨⟨by simp [cachedLater], ?_, by decide, by decide⟩, by simp [twoShutdowns], ?_, by decide⟩
  · rw [hlater]
    exact .cons_cons (kept_singleton ⟨by decide, by decide, by decide, by decide, by simp, by simp⟩) (.singleton _)
  · rw [htwo]
    exact .cons_cons (kept_singleton ⟨by decide, by decide, by decide, by decide, by simp, by simp⟩) (.singleton _)

end TokenBill.ShutdownRollups
