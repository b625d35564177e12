import TokenBill.Adapters.TeamRollup
import TokenBill.Core.Addable
import TokenBill.General.Grouping
import Mathlib.Algebra.BigOperators.Pi

/-!
# What a team rollup adds up

What an entry counts is read in one commutative monoid: the tokens and the money of every cell,
and the outcome counts. A group holds the sums of the entries added under its date and team, and of
the same entries the distinct identities (`readAll_tracks`); merging groups adds their sums, or fails
because a sum is out of range (`combineAll_cases`).
-/

namespace TokenBill.Admin

open General Kanon
open List hiding count

/-! ### Sums -/

/-- The tokens and the money of a cell. -/
abbrev CellSums : Type := (Counter → ℕ) × WithTop ℕ × ℤ × ℕ × ℤ × ℕ

def Cell.sums (c : Cell) : CellSums :=
  (count c.usage.toUsageCounts, reasoning c.usage.toUsageCounts, c.cost, c.nCost, c.listed, c.nList)

def tableSums (cells : List (String × Cell)) (key : String) : CellSums := ((cells.lookup key).map Cell.sums).getD 0

/-- The sums of every cell and of the outcome counts. -/
abbrev Sums : Type := (String → CellSums) × Outcome

def Entry.sums (e : Entry) : Sums := (tableSums e.cells.entries, e.outcome.getD 0)

def Group.sums (g : Group) : Sums := (tableSums g.cells, g.outcome.getD 0)

def Payload.sums (p : Payload) : Sums := (tableSums p.cells, p.outcome)

def Emitted.sums (g : Emitted) : Sums := (tableSums g.cells, g.outcome.getD 0)

theorem addCell_sums {a b c : Cell} (h : addCell a b = .ok c) : c.sums = a.sums + b.sums := by
  unfold addCell at h
  split at h
  · cases h
  · rename_i usage hu
    obtain rfl := Except.ok.inj h
    obtain ⟨hcount, hreasoning⟩ := count_add hu
    simp only [Cell.sums, hcount, hreasoning]
    rfl

theorem addOutcome_sums {held new o : Option Outcome} (h : addOutcome held new = .ok o) :
    o.getD 0 = held.getD 0 + new.getD 0 := by
  unfold addOutcome at h
  cases new with
  | none =>
    obtain rfl := Except.ok.inj h
    exact (add_zero _).symm
  | some new =>
    dsimp only at h
    split at h
    · cases h
    · obtain rfl := Except.ok.inj h
      cases held with
      | none => exact (zero_add _).symm
      | some held => rfl

/-! ### Tables -/

variable {key : String} {α : Type} {table : List (String × Cell)} {e : Error}

theorem lookup_eq_none_iff_keys {l : List (String × α)} : l.lookup key = none ↔ key ∉ l.map (·.1) := by
  rw [lookup_eq_none_iff, mem_map]
  constructor
  · rintro h ⟨e, he, rfl⟩
    simpa using h e he
  · intro h e he
    exact bne_iff_ne.mpr fun hk => h ⟨e, he, hk.symm⟩

theorem lookup_update {more : List (String × Cell)} (hn : (more.map (·.1)).Nodup) (key : String) :
    (more.foldl (fun cells c => upsert (·.1) c cells) table).lookup key =
      (more.lookup key).or (table.lookup key) := by
  induction more generalizing table with
  | nil => rfl
  | cons c more ih =>
    obtain ⟨hnot, hn⟩ := nodup_cons.mp hn
    rw [foldl_cons, ih hn, lookup_cons]
    by_cases hk : key = c.1
    · have hnone : more.lookup key = none := lookup_eq_none_iff_keys.mpr (hk ▸ hnot)
      have hself : (upsert (·.1) c table).lookup key = some c.2 := by
        rw [lookup_upsert c.1 c.2, if_pos hk]
      rw [hnone, hself, hk, beq_self_eq_true]
      rfl
    · have hother : (upsert (·.1) c table).lookup key = table.lookup key := by
        rw [lookup_upsert c.1 c.2, if_neg hk]
      rw [hother, beq_false_of_ne hk]

theorem nodup_update {more : List (String × Cell)} (hn : (table.map (·.1)).Nodup) :
    ((more.foldl (fun cells c => upsert (·.1) c cells) table).map (·.1)).Nodup :=
  @List.foldlRecOn _ _ (fun cells => (cells.map (·.1)).Nodup) more (fun cells c => upsert (·.1) c cells) table hn
    fun _ h _ _ => nodup_map_upsert h

/-- The cells of a record added to those of a group. -/
theorem tableSums_update {cells merged : List (String × Cell)} (hn : (cells.map (·.1)).Nodup)
    (hm : List.Forall₂ (fun c m => m.1 = c.1 ∧ m.2.sums = tableSums table c.1 + c.2.sums) cells merged) :
    tableSums (merged.foldl (fun cells c => upsert (·.1) c cells) table) =
      tableSums table + tableSums cells := by
  have hkeys : cells.map (·.1) = merged.map (·.1) := map_eq_of_forall₂ (hm.imp fun c m h => h.1.symm)
  have hlook : ∀ key, (cells.lookup key = none ∧ merged.lookup key = none) ∨
      ∃ c m, cells.lookup key = some c ∧ merged.lookup key = some m ∧ m.sums = tableSums table key + c.sums := by
    intro key
    induction hm with
    | nil => exact .inl ⟨rfl, rfl⟩
    | @cons c m cells merged h _ ih =>
      obtain ⟨-, hn⟩ := nodup_cons.mp hn
      rw [lookup_cons, lookup_cons, h.1]
      by_cases hk : key = c.1
      · rw [hk, beq_self_eq_true]
        exact .inr ⟨_, _, rfl, rfl, h.2⟩
      · rw [beq_false_of_ne hk]
        exact ih hn (List.cons.inj hkeys).2
  funext key
  simp only [Pi.add_apply]
  unfold tableSums at hlook ⊢
  rw [lookup_update (hkeys ▸ hn)]
  rcases hlook key with ⟨hc, hm⟩ | ⟨c, m, hc, hm, hsum⟩
  · rw [hc, hm]
    exact (add_zero _).symm
  · rw [hc, hm]
    exact hsum

/-! ### A read -/

/-- A rollup holds what was added to it. -/
structure Tracks (days : Days) (accepted : List Entry) : Prop where
  nodup : (days.map (·.1)).Nodup
  keys : ∀ key, key ∈ days.map (·.1) ↔ ∃ e ∈ accepted, e.key = key
  users : ∀ key, (held days key).users.Nodup
  identities : ∀ key x, x ∈ (held days key).users ↔ ∃ e ∈ accepted, e.key = key ∧ e.identity = x
  cells : ∀ key, ((held days key).cells.map (·.1)).Nodup
  sums : ∀ key, (held days key).sums = ((accepted.filter fun e => decide (e.key = key)).map Entry.sums).sum

theorem held_upsert (days : Days) (key key' : GroupKey) (g : Group) :
    held (upsert (·.1) (key, g) days) key' = if key' = key then g else held days key' := by
  unfold held
  rw [lookup_upsert]
  split
  · rfl
  · rfl

theorem mem_keys_upsert {days : Days} {key key' : GroupKey} {g : Group} :
    key' ∈ (upsert (·.1) (key, g) days).map (·.1) ↔ key' = key ∨ key' ∈ days.map (·.1) := by
  constructor
  · intro h
    obtain ⟨e, he, rfl⟩ := mem_map.mp h
    rcases mem_of_mem_upsert he with rfl | he
    · exact .inl rfl
    · exact .inr (mem_map_of_mem he)
  · rintro (rfl | h)
    · exact mem_map.mpr ⟨_, mem_upsert_self, rfl⟩
    · by_cases hk : key' = key
      · exact mem_map.mpr ⟨_, mem_upsert_self, hk.symm⟩
      · obtain ⟨e, he, rfl⟩ := mem_map.mp h
        exact mem_map_of_mem (mem_upsert_of_ne hk he)

theorem add_tracks {days days' : Days} {accepted : List Entry} {e : Entry} (ht : Tracks days accepted)
    (h : add days e = .ok days') : Tracks days' (accepted ++ [e]) := by
  obtain ⟨merged, hm, h⟩ := bind_eq_ok.mp h
  obtain ⟨outcome, ho, h⟩ := bind_eq_ok.mp h
  obtain rfl := pure_eq_ok.mp h
  have hmerged : List.Forall₂ (fun c m => m.1 = c.1 ∧
      m.2.sums = tableSums (held days e.key).cells c.1 + c.2.sums) e.cells.entries merged := by
    refine (mapM_eq_ok.mp hm).imp fun c m hcm => ?_
    unfold tableSums
    cases hl : (held days e.key).cells.lookup c.1 with
    | none =>
      rw [hl] at hcm
      obtain rfl := Except.ok.inj hcm
      exact ⟨rfl, (zero_add _).symm⟩
    | some prev =>
      rw [hl] at hcm
      obtain ⟨cell, hcell, rfl⟩ := map_eq_ok.mp hcm
      exact ⟨rfl, addCell_sums hcell⟩
  constructor
  · exact nodup_map_upsert ht.nodup
  · intro key
    rw [mem_keys_upsert, ht.keys]
    simp only [mem_append, mem_singleton, or_and_right, exists_or, exists_eq_left]
    constructor
    · rintro (rfl | h)
      · exact .inr rfl
      · exact .inl h
    · rintro (h | rfl)
      · exact .inr h
      · exact .inl rfl
  · intro key
    rw [held_upsert]
    split
    · split
      · exact ht.users _
      · rename_i hnot
        exact nodup_append'.mpr ⟨ht.users _, nodup_singleton _, by simpa using hnot⟩
    · exact ht.users key
  · intro key x
    rw [held_upsert]
    have hnew : x ∈ (if e.identity ∈ (held days e.key).users then (held days e.key).users
        else (held days e.key).users ++ [e.identity]) ↔ x ∈ (held days e.key).users ∨ e.identity = x := by
      split
      · rename_i hin
        exact ⟨.inl, fun h => h.elim id fun he => he ▸ hin⟩
      · simp [eq_comm]
    simp only [mem_append, mem_singleton, or_and_right, exists_or, exists_eq_left]
    split
    · rename_i hk
      rw [hnew, ht.identities, hk]
      simp
    · rename_i hk
      rw [ht.identities]
      constructor
      · exact .inl
      · rintro (h | ⟨he, -⟩)
        · exact h
        · exact absurd he.symm hk
  · intro key
    rw [held_upsert]
    split
    · exact nodup_update (ht.cells _)
    · exact ht.cells key
  · intro key
    rw [held_upsert, filter_append, map_append, sum_append]
    split
    · rename_i hk
      have hsums := ht.sums e.key
      rw [hk, ← hsums]
      simp only [filter_cons, decide_true, if_true, filter_nil, map_cons, map_nil,
        sum_cons, sum_nil, add_zero]
      exact Prod.ext (tableSums_update e.cells.nodup hmerged) (addOutcome_sums ho)
    · rename_i hk
      have hne : ¬ e.key = key := fun h => hk h.symm
      rw [ht.sums key, filter_cons, if_neg (by simpa using hne), filter_nil, map_nil,
        sum_nil, add_zero]

theorem readRecord_tracks {u : Unicode} {opts : Options} {s s' : Read} {r : PersonRecord}
    (ht : Tracks s.days s.accepted) (h : readRecord u opts s r = .ok s') : Tracks s'.days s'.accepted := by
  unfold readRecord at h
  split at h
  · obtain ⟨q, -, rfl⟩ := map_eq_ok.mp h
    exact ht
  · split at h
    · split at h
      · obtain ⟨q, -, rfl⟩ := map_eq_ok.mp h
        exact ht
      · rename_i hadd
        obtain rfl := Except.ok.inj h
        exact add_tracks ht hadd
    · obtain rfl := Except.ok.inj h
      exact ht

theorem readAll_tracks {u : Unicode} {opts : Options} {file : List PersonRecord} {s : Read}
    (h : readAll u opts file = .ok s) : Tracks s.days s.accepted := by
  have hrun : ∀ (file : List PersonRecord) (s s' : Read), Tracks s.days s.accepted →
      file.foldlM (readRecord u opts) s = .ok s' → Tracks s'.days s'.accepted := by
    intro file
    induction file with
    | nil =>
      intro s s' ht h
      obtain rfl := pure_eq_ok.mp h
      exact ht
    | cons r file ih =>
      intro s s' ht h
      rw [foldlM_cons] at h
      obtain ⟨s₁, h₁, h⟩ := bind_eq_ok.mp h
      exact ih s₁ s' (readRecord_tracks ht h₁) h
  refine hrun file {} s ⟨nodup_nil, ?_, ?_, ?_, ?_, fun _ => rfl⟩ h
  · simp
  · exact fun _ => nodup_nil
  · simp [held]
  · exact fun _ => nodup_nil

/-! ### Merging -/

/-- The sums of some groups are in range: every token bucket of every cell and every outcome count. -/
def Fits (sums : Sums) : Prop := (∀ key i, (sums.1 key).1 i ≤ maxTokens) ∧ ∀ i, sums.2 i ≤ maxTokens

theorem fail_contract {u : UsageCounts} (h : u.check = some e) : ∃ msg, e = .contract msg := by
  unfold UsageCounts.check at h
  split at h
  · exact ⟨_, (Option.some.inj h).symm⟩
  · split_ifs at h <;> exact ⟨_, (Option.some.inj h).symm⟩

theorem build_contract {u : UsageCounts} (h : u.build = .error e) : ∃ msg, e = .contract msg := by
  unfold UsageCounts.build at h
  split at h
  · rename_i e' he
    obtain rfl := Except.error.inj h
    exact fail_contract he
  · cases h

theorem add_contract {a b : UsageBuckets} (h : a.add b = .error e) : ∃ msg, e = .contract msg := by
  unfold UsageBuckets.add at h
  split at h
  · exact ⟨_, (Except.error.inj h).symm⟩
  · exact build_contract h

theorem bind_eq_error {β : Type} {x : Except Error α} {f : α → Except Error β}
    (h : x >>= f = .error e) : x = .error e ∨ ∃ a, x = .ok a ∧ f a = .error e := by
  cases x with
  | error e' => exact .inl (congrArg Except.error (Except.error.inj h))
  | ok a => exact .inr ⟨a, rfl, h⟩

theorem addUsage_contract {a b : UsageBuckets} (h : addUsage a b = .error e) : ∃ msg, e = .contract msg := by
  unfold addUsage at h
  split at h
  · split at h
    · rcases bind_eq_error h with h | ⟨_, -, h⟩
      · exact build_contract h
      · rcases bind_eq_error h with h | ⟨_, -, h⟩
        · exact build_contract h
        · exact add_contract h
    · exact add_contract h
  · exact add_contract h

/-- Two cells are added, or a token bucket of theirs is out of range. -/
theorem combineCell_cases (a b : Cell) :
    (∃ c, combineCell a b = .ok c ∧ c.sums = a.sums + b.sums) ∨
      ∃ msg i, combineCell a b = .error (.contract msg) ∧ maxTokens < (a.sums + b.sums).1 i := by
  unfold combineCell
  cases hu : addUsage a.usage b.usage with
  | ok usage =>
    obtain ⟨hcount, hreasoning⟩ := count_addUsage hu
    refine .inl ⟨_, rfl, ?_⟩
    simp only [Cell.sums, hcount, hreasoning]
    rfl
  | error e =>
    obtain ⟨msg, rfl⟩ := addUsage_contract hu
    by_cases hall : ∀ i, count a.usage.toUsageCounts i + count b.usage.toUsageCounts i ≤ maxTokens
    · obtain ⟨c, hc⟩ := addUsage_ok hall
      rw [hu] at hc
      cases hc
    · obtain ⟨i, hi⟩ := not_forall.mp hall
      exact .inr ⟨msg, i, rfl, not_le.mp hi⟩

theorem mapM_eq_error {β : Type} {f : α → Except Error β} {xs : List α}
    (h : xs.mapM f = .error e) : ∃ x ∈ xs, f x = .error e := by
  induction xs with
  | nil => cases h
  | cons x xs ih =>
    rw [mapM_cons] at h
    rcases bind_eq_error h with h | ⟨_, -, h⟩
    · exact ⟨x, mem_cons_self, h⟩
    · rcases bind_eq_error h with h | ⟨_, -, h⟩
      · obtain ⟨y, hy, hf⟩ := ih h
        exact ⟨y, mem_cons_of_mem _ hy, hf⟩
      · cases h

/-- The keys of two dictionaries, in order. -/
theorem mem_keys_both {a b : List (String × Cell)} :
    key ∈ ((a ++ b).map (·.1)).dedup.insertionSort (· ≤ ·) ↔ a.lookup key ≠ none ∨ b.lookup key ≠ none := by
  rw [mem_insertionSort, mem_dedup, map_append, mem_append, ne_eq, ne_eq,
    lookup_eq_none_iff_keys, lookup_eq_none_iff_keys, not_not, not_not]

theorem combineKey_cases {a b : List (String × Cell)} (hk : a.lookup key ≠ none ∨ b.lookup key ≠ none) :
    (∃ c, combineKey a b key = .ok (key, c) ∧ c.sums = tableSums a key + tableSums b key) ∨
      ∃ msg i, combineKey a b key = .error (.contract msg) ∧
        maxTokens < (tableSums a key + tableSums b key).1 i := by
  unfold combineKey tableSums
  cases ha : a.lookup key with
  | none =>
    cases hb : b.lookup key with
    | none => exact absurd hk (by rw [ha, hb]; simp)
    | some y => exact .inl ⟨y, rfl, (zero_add _).symm⟩
  | some x =>
    cases hb : b.lookup key with
    | none => exact .inl ⟨x, rfl, (add_zero _).symm⟩
    | some y =>
      rcases combineCell_cases x y with ⟨c, hc, hsum⟩ | ⟨msg, i, he, hi⟩
      · exact .inl ⟨c, by simp only [hc]; rfl, hsum⟩
      · exact .inr ⟨msg, i, by simp only [he]; rfl, hi⟩

/-- What a dictionary holds whose entries come from its keys. -/
theorem lookup_of_keys {keys : List String} {cells : List (String × Cell)} {f : String → CellSums}
    (h : List.Forall₂ (fun key c => c.1 = key ∧ c.2.sums = f key) keys cells) (key : String) :
    tableSums cells key = if key ∈ keys then f key else 0 := by
  unfold tableSums
  induction h with
  | nil => rfl
  | @cons k c keys cells hc _ ih =>
    rw [lookup_cons, hc.1]
    by_cases hk : key = k
    · rw [hk, beq_self_eq_true, if_pos mem_cons_self]
      exact hc.2
    · rw [beq_false_of_ne hk, ih]
      refine if_congr ?_ rfl rfl
      rw [mem_cons]
      exact ⟨.inr, fun h => h.resolve_left hk⟩

/-- Two dictionaries are added, or a token bucket of a key is out of range. -/
theorem combineCells_cases (a b : List (String × Cell)) :
    (∃ cells, combineCells a b = .ok cells ∧ tableSums cells = tableSums a + tableSums b) ∨
      ∃ msg key i, combineCells a b = .error (.contract msg) ∧
        maxTokens < (tableSums a key + tableSums b key).1 i := by
  cases h : combineCells a b with
  | ok cells =>
    refine .inl ⟨cells, rfl, funext fun key => ?_⟩
    have hkeys := lookup_of_keys (f := fun key => tableSums a key + tableSums b key)
      (forall₂_imp_of_mem (mapM_eq_ok.mp h) fun key hkey c _ hc => by
        rcases combineKey_cases (mem_keys_both.mp hkey) with ⟨cell, he, hsum⟩ | ⟨msg, i, he, -⟩
        · rw [he] at hc
          obtain rfl := Except.ok.inj hc
          exact ⟨rfl, hsum⟩
        · rw [he] at hc
          cases hc) key
    rw [hkeys, Pi.add_apply]
    split
    · rfl
    · rename_i hnot
      rw [mem_keys_both, not_or, not_not, not_not] at hnot
      unfold tableSums
      rw [hnot.1, hnot.2]
      exact (add_zero _).symm
  | error e =>
    obtain ⟨key, hkey, he⟩ := mapM_eq_error h
    rcases combineKey_cases (mem_keys_both.mp hkey) with ⟨cell, hok, -⟩ | ⟨msg, i, herr, hi⟩
    · rw [hok] at he
      cases he
    · rw [herr] at he
      obtain rfl := Except.error.inj he
      exact .inr ⟨msg, key, i, rfl, hi⟩

theorem combinePayload_cases (a b : Payload) :
    (∃ p, combinePayload a b = .ok p ∧ p.sums = a.sums + b.sums ∧ p.has = a.has + b.has) ∨
      ∃ msg key i, combinePayload a b = .error (.contract msg) ∧
        maxTokens < ((a.sums + b.sums).1 key).1 i := by
  unfold combinePayload
  rcases combineCells_cases a.cells b.cells with ⟨cells, hc, hsum⟩ | ⟨msg, key, i, he, hi⟩
  · rw [hc]
    exact .inl ⟨_, rfl, Prod.ext hsum rfl, rfl⟩
  · rw [he]
    exact .inr ⟨msg, key, i, rfl, hi⟩

theorem tableSums_le (cells : List (String × Cell)) (key : String) (i : Counter) :
    (tableSums cells key).1 i ≤ maxTokens := by
  unfold tableSums
  cases cells.lookup key with
  | none => exact Nat.zero_le _
  | some c => exact count_le c.usage i

/-- Payloads are added up, or the tokens of a key are out of range. -/
theorem combineAll_cases (p : Payload) (ps : List Payload) :
    (∃ q, combineAll combinePayload (p :: ps) = .ok (some q) ∧
        q.sums = ((p :: ps).map Payload.sums).sum ∧ q.has = ((p :: ps).map (·.has)).sum ∧
        ∀ key i, ((((p :: ps).map Payload.sums).sum).1 key).1 i ≤ maxTokens) ∨
      ∃ msg, combineAll combinePayload (p :: ps) = .error (.contract msg) ∧
        ¬ Fits ((p :: ps).map Payload.sums).sum := by
  have hrun : ∀ (ps : List Payload) (p : Payload),
      (∃ q, ps.foldlM combinePayload p = .ok q ∧ q.sums = p.sums + (ps.map Payload.sums).sum ∧
        q.has = p.has + (ps.map (·.has)).sum) ∨
      ∃ msg key i, ps.foldlM combinePayload p = .error (.contract msg) ∧
        maxTokens < ((p.sums + (ps.map Payload.sums).sum).1 key).1 i := by
    intro ps
    induction ps with
    | nil => exact fun p => .inl ⟨p, rfl, (add_zero _).symm, (add_zero _).symm⟩
    | cons b ps ih =>
      intro p
      rw [foldlM_cons]
      rcases combinePayload_cases p b with ⟨c, hc, hsum, hhas⟩ | ⟨msg, key, i, he, hi⟩
      · rw [hc]
        rcases ih c with ⟨q, hq, hqs, hqh⟩ | ⟨msg, key, i, he, hi⟩
        · refine .inl ⟨q, hq, ?_, ?_⟩
          · rw [hqs, hsum, map_cons, sum_cons, add_assoc]
          · rw [hqh, hhas, map_cons, sum_cons, Nat.add_assoc]
        · refine .inr ⟨msg, key, i, he, ?_⟩
          rw [map_cons, sum_cons, ← add_assoc, ← hsum]
          exact hi
      · rw [he]
        refine .inr ⟨msg, key, i, rfl, ?_⟩
        rw [map_cons, sum_cons, ← add_assoc]
        exact lt_of_lt_of_le hi (Nat.le_add_right _ _)
  rcases hrun ps p with ⟨q, hq, hqs, hqh⟩ | ⟨msg, key, i, he, hi⟩
  · refine .inl ⟨q, ?_, hqs, hqh, fun key i => ?_⟩
    · exact congrArg (some <$> ·) hq
    · rw [map_cons, sum_cons, ← hqs]
      exact tableSums_le q.cells key i
  · refine .inr ⟨msg, ?_, fun hfits => ?_⟩
    · exact congrArg (some <$> ·) he
    · exact absurd (hfits.1 key i) (not_le.mpr hi)

end TokenBill.Admin
