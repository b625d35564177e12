import TokenBill.General.Tables
import Mathlib.Algebra.BigOperators.Ring.Finset

/-!
# Groups that climb a ladder

Groups of elements with keys are published when they have `k` elements. The keys of the others are made coarser level
by level; groups that then share a key are one, and a key that is published already takes what comes under it. What is
left after the last level is suppressed. Keys are visited in the order of their texts.

Every element stays in exactly one group, published or pending, so the published groups and what is suppressed part
the elements.
-/

namespace TokenBill.General

open List

variable {κ ι π τ : Type} [DecidableEq κ] [DecidableEq ι] [DecidableEq π]

/-- A group, with the keys it came from. -/
structure LadderGroup (ι π : Type) where
  people : Finset π
  origins : Finset ι

/-- Groups with keys. -/
abbrev LadderTable (κ ι π : Type) : Type := List (κ × LadderGroup ι π)

namespace LadderGroup

def empty : LadderGroup ι π := ⟨∅, ∅⟩

def merge (g h : LadderGroup ι π) : LadderGroup ι π := ⟨g.people ∪ h.people, g.origins ∪ h.origins⟩

end LadderGroup

namespace Ladder

open LadderGroup

def absorb (table : LadderTable κ ι π) (key : κ) (g : LadderGroup ι π) : LadderTable κ ι π :=
  upsert (·.1) (key, ((table.lookup key).getD empty).merge g) table

section Steps

variable [LinearOrder τ] (text : κ → τ)

def visit (table : LadderTable κ ι π) : LadderTable κ ι π := table.insertionSort fun a b => text a.1 ≤ text b.1

def coarsen (level : κ → κ) (pending : LadderTable κ ι π) : LadderTable κ ι π :=
  (visit text pending).foldl (fun merged t => absorb merged (level t.1) t.2) []

/-- One pending group: it goes to its key if that is published, is published if it is large enough, and waits
otherwise. -/
def publishGroup (k : ℕ) (state : LadderTable κ ι π × LadderTable κ ι π) (t : κ × LadderGroup ι π) :
    LadderTable κ ι π × LadderTable κ ι π :=
  if t.1 ∈ state.1.map (·.1) then (absorb state.1 t.1 t.2, state.2)
  else if k ≤ t.2.people.card then (state.1 ++ [t], state.2)
  else (state.1, state.2 ++ [t])

def publishAll (k : ℕ) (published pending : LadderTable κ ι π) : LadderTable κ ι π × LadderTable κ ι π :=
  (visit text pending).foldl (publishGroup k) (published, [])

def climb (k : ℕ) : List (κ → κ) → LadderTable κ ι π × LadderTable κ ι π → LadderTable κ ι π × LadderTable κ ι π
  | [], state => state
  | level :: levels, state => climb k levels (publishAll text k state.1 (coarsen text level state.2))

end Steps

/-! ### In how many groups an element is -/

def occurs (p : π) (table : LadderTable κ ι π) : ℕ := table.countP fun t => p ∈ t.2.people

omit [DecidableEq κ] [DecidableEq ι] in
theorem occurs_append (p : π) (a b : LadderTable κ ι π) : occurs p (a ++ b) = occurs p a + occurs p b :=
  countP_append

omit [DecidableEq κ] [DecidableEq ι] in
theorem occurs_cons (p : π) (t : κ × LadderGroup ι π) (table : LadderTable κ ι π) :
    occurs p (t :: table) = (if p ∈ t.2.people then 1 else 0) + occurs p table := by
  unfold occurs
  rw [countP_cons, Nat.add_comm]
  simp only [decide_eq_true_eq]

omit [DecidableEq κ] [DecidableEq ι] in
theorem occurs_perm (p : π) {a b : LadderTable κ ι π} (h : a.Perm b) : occurs p a = occurs p b := h.countP_eq _

theorem absorb_cons (t : κ × LadderGroup ι π) (table : LadderTable κ ι π) (key : κ) (g : LadderGroup ι π) :
    absorb (t :: table) key g = if t.1 = key then (key, t.2.merge g) :: table else t :: absorb table key g := by
  unfold absorb
  rw [upsert_cons, lookup_cons]
  by_cases hkey : t.1 = key
  · rw [if_pos hkey, if_pos hkey, hkey, beq_self_eq_true]
    rfl
  · rw [if_neg hkey, if_neg hkey, beq_false_of_ne (Ne.symm hkey)]

variable {table : LadderTable κ ι π}

theorem occurs_absorb {p : π} {key : κ} {g : LadderGroup ι π}
    (h : occurs p table + (if p ∈ g.people then 1 else 0) ≤ 1) :
    occurs p (absorb table key g) = occurs p table + if p ∈ g.people then 1 else 0 := by
  induction table with
  | nil =>
    have hpeople : (key, (empty : LadderGroup ι π).merge g).2.people = g.people := Finset.empty_union _
    show occurs p [(key, empty.merge g)] = _
    rw [occurs_cons, hpeople, Nat.add_comm]
  | cons t table ih =>
    rw [occurs_cons] at h
    rw [absorb_cons, occurs_cons]
    split
    · rw [occurs_cons]
      have hmerge : (p ∈ (key, t.2.merge g).2.people) ↔ p ∈ t.2.people ∨ p ∈ g.people := Finset.mem_union
      by_cases ht : p ∈ t.2.people
      · by_cases hg : p ∈ g.people
        · rw [if_pos ht, if_pos hg] at h
          omega
        · rw [if_pos (hmerge.mpr (.inl ht)), if_pos ht, if_neg hg, Nat.add_zero]
      · simp only [hmerge, ht, false_or, if_false, Nat.zero_add, Nat.add_comm]
    · rw [occurs_cons, ih (by omega), Nat.add_assoc]

theorem nodup_keys_absorb (h : (table.map (·.1)).Nodup) (key : κ)
    (g : LadderGroup ι π) : ((absorb table key g).map (·.1)).Nodup :=
  nodup_map_upsert h

theorem large_absorb {k : ℕ} (h : ∀ t ∈ table, k ≤ t.2.people.card) {key : κ}
    (hkey : key ∈ table.map (·.1)) (g : LadderGroup ι π) : ∀ t ∈ absorb table key g, k ≤ t.2.people.card := by
  induction table with
  | nil => cases hkey
  | cons t table ih =>
    rw [forall_mem_cons] at h
    rw [absorb_cons]
    split
    · exact forall_mem_cons.mpr
        ⟨h.1.trans (Finset.card_le_card Finset.subset_union_left), h.2⟩
    · rename_i hne
      exact forall_mem_cons.mpr
        ⟨h.1, ih h.2 ((mem_cons.mp hkey).resolve_left (Ne.symm hne))⟩

/-! ### What a level preserves -/

/-- Every element is in one group, the published keys differ, and the published groups are large. -/
structure Parts (k : ℕ) (all : Finset π) (published pending : LadderTable κ ι π) : Prop where
  once : ∀ p, occurs p published + occurs p pending = if p ∈ all then 1 else 0
  distinct : (published.map (·.1)).Nodup
  large : ∀ t ∈ published, k ≤ t.2.people.card

omit [DecidableEq κ] [DecidableEq ι] in
theorem Parts.le_one {k : ℕ} {all : Finset π} {published pending : LadderTable κ ι π}
    (h : Parts k all published pending) (p : π) : occurs p published + occurs p pending ≤ 1 := by
  rw [h.once p]
  split <;> omega

theorem Parts.publishGroup {k : ℕ} {all : Finset π} {published rest pending : LadderTable κ ι π}
    {t : κ × LadderGroup ι π} (h : Parts k all published (rest ++ t :: pending)) :
    Parts k all (publishGroup k (published, rest) t).1 ((publishGroup k (published, rest) t).2 ++ pending) := by
  have honce : ∀ p, occurs p published + (occurs p rest + ((if p ∈ t.2.people then 1 else 0) + occurs p pending)) =
      if p ∈ all then 1 else 0 := fun p => by
    rw [← occurs_cons, ← occurs_append]
    exact h.once p
  have hle : ∀ p, occurs p published + (occurs p rest + ((if p ∈ t.2.people then 1 else 0) + occurs p pending)) ≤ 1 :=
    fun p => by
      rw [honce p]
      split <;> omega
  unfold Ladder.publishGroup
  split
  · rename_i hkey
    refine ⟨fun p => ?_, nodup_keys_absorb h.distinct _ _, large_absorb h.large hkey _⟩
    show occurs p (absorb published t.1 t.2) + occurs p (rest ++ pending) = _
    have := hle p
    rw [occurs_append, occurs_absorb (by omega), ← honce p]
    omega
  split
  · rename_i hkey hcard
    refine ⟨fun p => ?_, ?_, forall_mem_append.mpr ⟨h.large, forall_mem_singleton.mpr hcard⟩⟩
    · show occurs p (published ++ [t]) + occurs p (rest ++ pending) = _
      have hnil : occurs p ([] : LadderTable κ ι π) = 0 := rfl
      rw [occurs_append, occurs_append, occurs_cons, ← honce p]
      omega
    · rw [map_append]
      refine nodup_append.mpr ⟨h.distinct, nodup_singleton _, fun a ha b hb hab => hkey ?_⟩
      have hb : b = t.1 := mem_singleton.mp hb
      rw [← hb, ← hab]
      exact ha
  · rw [append_assoc, singleton_append]
    exact h

theorem Parts.foldl_publishGroup {k : ℕ} {all : Finset π} {published rest pending : LadderTable κ ι π}
    (h : Parts k all published (rest ++ pending)) :
    Parts k all (pending.foldl (Ladder.publishGroup k) (published, rest)).1
      (pending.foldl (Ladder.publishGroup k) (published, rest)).2 := by
  induction pending generalizing published rest with
  | nil =>
    rw [append_nil] at h
    exact h
  | cons t pending ih =>
    rw [foldl_cons]
    exact ih h.publishGroup

section Text

variable [LinearOrder τ] {text : κ → τ} {k : ℕ} {all : Finset π} {published pending : LadderTable κ ι π}

omit [DecidableEq κ] [DecidableEq ι] [DecidableEq π] in
theorem visit_perm (text : κ → τ) (table : LadderTable κ ι π) : (visit text table).Perm table :=
  perm_insertionSort _ _

theorem Parts.publishAll (h : Parts k all published pending) :
    Parts k all (publishAll text k published pending).1 (publishAll text k published pending).2 := by
  refine Parts.foldl_publishGroup ⟨fun p => ?_, h.distinct, h.large⟩
  rw [nil_append, occurs_perm p (visit_perm text pending)]
  exact h.once p

/-- Merging under coarser keys loses no element. -/
theorem occurs_foldl_absorb {level : κ → κ} {p : π} {merged : LadderTable κ ι π} (l : LadderTable κ ι π)
    (h : occurs p merged + occurs p l ≤ 1) :
    occurs p (l.foldl (fun merged t => absorb merged (level t.1) t.2) merged) = occurs p merged + occurs p l := by
  induction l generalizing merged with
  | nil => rfl
  | cons t l ih =>
    rw [occurs_cons] at h ⊢
    have habsorb : occurs p (absorb merged (level t.1) t.2) = occurs p merged + if p ∈ t.2.people then 1 else 0 :=
      occurs_absorb (by omega)
    rw [foldl_cons, ih (by omega), habsorb, Nat.add_assoc]

theorem Parts.coarsen (h : Parts k all published pending) (level : κ → κ) :
    Parts k all published (coarsen text level pending) := by
  refine ⟨fun p => ?_, h.distinct, h.large⟩
  have hle := h.le_one p
  unfold Ladder.coarsen
  rw [occurs_foldl_absorb, ← h.once p, occurs_perm p (visit_perm text pending)]
  · exact congrArg _ (Nat.zero_add _)
  · rw [occurs_perm p (visit_perm text pending)]
    exact (Nat.zero_add _).le.trans (by omega)

theorem Parts.climb (levels : List (κ → κ)) {state : LadderTable κ ι π × LadderTable κ ι π}
    (h : Parts k all state.1 state.2) :
    Parts k all (climb text k levels state).1 (climb text k levels state).2 := by
  induction levels generalizing state with
  | nil => exact h
  | cons level levels ih => exact ih (h.coarsen level).publishAll

end Text

omit [DecidableEq κ] [DecidableEq ι] in
/-- The sizes of groups add up to the number of times their elements occur. -/
theorem sum_card {all : Finset π} (h : ∀ t ∈ table, t.2.people ⊆ all) :
    (table.map fun t => t.2.people.card).sum = ∑ p ∈ all, occurs p table := by
  induction table with
  | nil => exact (Finset.sum_const_zero).symm
  | cons t table ih =>
    rw [forall_mem_cons] at h
    have hcard : t.2.people.card = ∑ p ∈ all, if p ∈ t.2.people then 1 else 0 := by
      rw [← Finset.card_filter, Finset.filter_mem_eq_inter, Finset.inter_eq_right.mpr h.1]
    rw [map_cons, sum_cons, ih h.2, hcard, ← Finset.sum_add_distrib]
    exact Finset.sum_congr rfl fun p _ => (occurs_cons p t table).symm

omit [DecidableEq κ] [DecidableEq ι] in
theorem subset_of_occurs {all : Finset π} (h : ∀ p, p ∉ all → occurs p table = 0) :
    ∀ t ∈ table, t.2.people ⊆ all := by
  intro t ht p hp
  by_contra hall
  exact absurd (decide_eq_true hp) (by simpa using countP_eq_zero.mp (h p hall) t ht)

end Ladder

open Ladder

/-- The published groups and the number of elements that are suppressed. -/
def ladder [LinearOrder τ] (text : κ → τ) (k : ℕ) (levels : List (κ → κ)) (rows : List (κ × Finset π)) :
    LadderTable κ κ π × ℕ :=
  let pending := rows.map fun r => (r.1, (⟨r.2, {r.1}⟩ : LadderGroup κ π))
  let (published, rest) := climb text k levels (publishAll text k [] pending)
  (published, (rest.map fun t => t.2.people.card).sum)

/-- The published groups and the suppressed elements part all elements, and the published groups are large. -/
structure Laddered (k : ℕ) (all : Finset π) (published : LadderTable κ ι π) (suppressed : ℕ) : Prop where
  /-- The published keys differ. -/
  distinct : (published.map (·.1)).Nodup
  protects : ∀ t ∈ published, k ≤ t.2.people.card
  /-- Every element is in one published group or suppressed, and no other is in any. -/
  once : ∃ hidden : Finset π, hidden.card = suppressed ∧
    ∀ p, occurs p published + (if p ∈ hidden then 1 else 0) = if p ∈ all then 1 else 0
  counts : (published.map fun t => t.2.people.card).sum + suppressed = all.card

omit [DecidableEq κ] [DecidableEq ι] in
/-- A published group has no other elements. -/
theorem Laddered.subset {k : ℕ} {all : Finset π} {published : LadderTable κ ι π} {suppressed : ℕ}
    (h : Laddered k all published suppressed) : ∀ t ∈ published, t.2.people ⊆ all := by
  refine subset_of_occurs fun p hp => ?_
  obtain ⟨hidden, -, honce⟩ := h.once
  have honce := honce p
  rw [if_neg hp] at honce
  omega

omit [DecidableEq κ] [DecidableEq ι] in
theorem Ladder.Parts.laddered {k : ℕ} {all : Finset π} {published rest : LadderTable κ ι π}
    (h : Parts k all published rest) : Laddered k all published (rest.map fun t => t.2.people.card).sum := by
  have hzero : ∀ p, p ∉ all → occurs p published = 0 ∧ occurs p rest = 0 := fun p hp => by
    have honce := h.once p
    rw [if_neg hp] at honce
    omega
  have hrest := sum_card (subset_of_occurs fun p hp => (hzero p hp).2)
  have hpublished := sum_card (subset_of_occurs fun p hp => (hzero p hp).1)
  refine ⟨h.distinct, h.large, ⟨all.filter fun p => occurs p rest = 1, ?_, fun p => ?_⟩, ?_⟩
  · rw [hrest, Finset.card_filter]
    refine Finset.sum_congr rfl fun p hp => ?_
    have honce := h.once p
    rw [if_pos hp] at honce
    split <;> omega
  · have honce := h.once p
    by_cases hp : p ∈ all
    · rw [if_pos hp] at honce ⊢
      by_cases hr : occurs p rest = 1
      · rw [if_pos (Finset.mem_filter.mpr ⟨hp, hr⟩)]
        omega
      · rw [if_neg fun hmem : p ∈ all.filter _ => hr (Finset.mem_filter.mp hmem).2]
        omega
    · rw [if_neg fun hmem : p ∈ all.filter _ => hp (Finset.mem_filter.mp hmem).1, if_neg hp, (hzero p hp).1]
  · rw [hpublished, hrest, ← Finset.sum_add_distrib, Finset.card_eq_sum_ones]
    refine Finset.sum_congr rfl fun p hp => ?_
    rw [h.once p, if_pos hp]

section Ladder

variable [LinearOrder τ] {text : κ → τ} {k : ℕ} {levels : List (κ → κ)} {rows : List (κ × Finset π)}

/-- Groups that part the elements are published and suppressed without loss. -/
theorem ladder_laddered {all : Finset π}
    (hrows : ∀ p, rows.countP (fun r => p ∈ r.2) = if p ∈ all then 1 else 0) :
    Laddered k all (ladder text k levels rows).1 (ladder text k levels rows).2 := by
  refine Parts.laddered (Parts.climb levels (Parts.publishAll ⟨fun p => ?_, nodup_nil, nofun⟩))
  unfold occurs
  rw [countP_map, ← hrows p]
  exact Nat.zero_add _

/-- The order of the groups does not matter when their keys have different texts. -/
theorem ladder_perm {rows' : List (κ × Finset π)} (h : rows.Perm rows')
    (htext : (rows.map fun r => text r.1).Nodup) :
    ladder text k levels rows = ladder text k levels rows' := by
  have hvisit : ∀ {a b : LadderTable κ κ π}, a.Perm b → (a.map fun t => text t.1).Nodup → visit text a = visit text b := by
    intro a b hab hnodup
    refine List.Perm.eq_of_pairwise (fun x y hx hy hxy hyx => ?_) (pairwise_insertionSort _ _)
      (pairwise_insertionSort _ _) (((perm_insertionSort _ a).trans hab).trans (perm_insertionSort _ b).symm)
    exact inj_on_of_nodup_map hnodup ((mem_insertionSort _).mp hx)
      (hab.mem_iff.mpr ((mem_insertionSort _).mp hy)) (le_antisymm hxy hyx)
  unfold ladder publishAll
  dsimp only
  rw [hvisit (h.map _)]
  rw [map_map]
  exact htext

end Ladder

end TokenBill.General
