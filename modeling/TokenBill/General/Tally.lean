import TokenBill.General.Tables
import Mathlib.Algebra.BigOperators.Group.List.Basic
import Mathlib.Data.List.Sort

/-!
# Amounts under keys

`tally` adds amounts to a table under their keys. What a key holds is the sum of its
amounts, so the table, read in the order of its keys, does not depend on the order of the
amounts.
-/

namespace TokenBill.General

open List

variable {κ M : Type} [DecidableEq κ] [AddCommMonoid M]

def addAt (table : List (κ × M)) (entry : κ × M) : List (κ × M) :=
  upsert (·.1) (entry.1, (table.lookup entry.1).getD 0 + entry.2) table

def tally (entries : List (κ × M)) : List (κ × M) := entries.foldl addAt []

/-- What a table of a key's amounts holds: nothing when there are none. -/
def amountOf (entries : List (κ × M)) (k : κ) : Option M :=
  if k ∈ entries.map (·.1) then some ((entries.filter fun e => decide (e.1 = k)).map (·.2)).sum
  else none

theorem lookup_foldl_addAt (entries table : List (κ × M)) (k : κ) :
    (entries.foldl addAt table).lookup k =
      match amountOf entries k with
      | none => table.lookup k
      | some total => some ((table.lookup k).getD 0 + total) := by
  induction entries generalizing table with
  | nil => rfl
  | cons e es ih =>
    rw [foldl_cons, ih, addAt, lookup_upsert]
    unfold amountOf
    by_cases hk : k = e.1
    · subst hk
      by_cases hmem : e.1 ∈ es.map (·.1)
      · simp [hmem, add_assoc]
      · have hnone : es.filter (fun e' => decide (e'.1 = e.1)) = [] := by
          rw [filter_eq_nil_iff]
          intro e' he' h
          exact hmem (mem_map.mpr ⟨e', he', of_decide_eq_true h⟩)
        simp [hmem, hnone]
    · have hne : ¬ e.1 = k := fun h => hk h.symm
      by_cases hmem : k ∈ es.map (·.1)
      · simp [hk, hne, hmem]
      · simp [hk, hmem]

theorem lookup_tally (entries : List (κ × M)) (k : κ) : (tally entries).lookup k = amountOf entries k := by
  unfold tally
  rw [lookup_foldl_addAt]
  cases amountOf entries k with
  | none => rfl
  | some total => exact congrArg some (zero_add total)

theorem nodup_addAt {table : List (κ × M)} (e : κ × M) (h : (table.map (·.1)).Nodup) :
    ((addAt table e).map (·.1)).Nodup := nodup_map_upsert h

theorem nodup_tally (entries : List (κ × M)) : ((tally entries).map (·.1)).Nodup :=
  @List.foldlRecOn _ _ (fun table => (table.map (·.1)).Nodup) entries addAt [] nodup_nil
    fun _ h e _ => nodup_addAt e h

theorem mem_tally {entries : List (κ × M)} {k : κ} {total : M} :
    (k, total) ∈ tally entries ↔ amountOf entries k = some total := by
  rw [← lookup_tally]
  exact ⟨lookup_of_mem (nodup_tally entries), mem_of_lookup⟩

/-- The order of the amounts does not matter. -/
theorem amountOf_perm {xs ys : List (κ × M)} (h : xs.Perm ys) (k : κ) : amountOf xs k = amountOf ys k := by
  unfold amountOf
  rw [((h.filter _).map _).sum_eq]
  exact if_congr ((h.map _).mem_iff) rfl rfl

theorem tally_perm [DecidableEq M] {xs ys : List (κ × M)} (h : xs.Perm ys) : (tally xs).Perm (tally ys) :=
  (perm_ext_iff_of_nodup (nodup_tally xs).of_map (nodup_tally ys).of_map).mpr fun ⟨k, total⟩ => by
    rw [mem_tally, mem_tally, amountOf_perm h]

/-- An amount adds to the amounts under the keys it is one of. -/
theorem sum_addAt {table : List (κ × M)} (e : κ × M) (p : κ → Bool) (h : (table.map (·.1)).Nodup) :
    (((addAt table e).filter fun e => p e.1).map (·.2)).sum =
      ((table.filter fun e => p e.1).map (·.2)).sum + if p e.1 then e.2 else 0 := by
  unfold addAt
  induction table with
  | nil => by_cases hp : p e.1 <;> simp [upsert, hp]
  | cons t table ih =>
    obtain ⟨-, h⟩ := nodup_cons.mp h
    unfold upsert
    by_cases ht : t.1 = e.1
    · rw [if_pos ht, lookup_cons, ht, beq_self_eq_true]
      by_cases hp : p e.1
      · simp [hp, ht, add_right_comm]
      · simp [hp, ht]
    · rw [if_neg ht, lookup_cons, beq_false_of_ne fun h => ht h.symm]
      have ih := ih h
      by_cases hp : p t.1
      · simp only [filter_cons, hp, if_true, map_cons, sum_cons]
        rw [ih, add_assoc]
      · simp only [filter_cons, hp, Bool.false_eq_true, if_false]
        exact ih

/-- The amounts under some keys add up to the amounts that were added under them. -/
theorem sum_tally (entries : List (κ × M)) (p : κ → Bool) :
    (((tally entries).filter fun e => p e.1).map (·.2)).sum =
      ((entries.filter fun e => p e.1).map (·.2)).sum := by
  have hrun : ∀ (entries table : List (κ × M)), (table.map (·.1)).Nodup →
      (((entries.foldl addAt table).filter fun e => p e.1).map (·.2)).sum =
        ((table.filter fun e => p e.1).map (·.2)).sum +
          ((entries.filter fun e => p e.1).map (·.2)).sum := by
    intro entries
    induction entries with
    | nil => exact fun _ _ => (add_zero _).symm
    | cons e es ih =>
      intro table hn
      rw [foldl_cons, ih _ (nodup_addAt e hn), sum_addAt e p hn, add_assoc]
      congr 1
      by_cases hp : p e.1 <;> simp [hp]
  exact (hrun entries [] nodup_nil).trans (zero_add _)

/-- Entries with distinct keys come in one order of their keys. -/
theorem sorted_eq {α : Type} {le : α → α → Prop} [DecidableRel le] [Std.Total le] [IsTrans α le]
    {xs ys : List α} (hanti : ∀ a ∈ xs, ∀ b ∈ ys, le a b → le b a → a = b) (h : xs.Perm ys) :
    xs.insertionSort le = ys.insertionSort le := by
  refine List.Perm.eq_of_pairwise (fun a b ha hb => ?_) (pairwise_insertionSort le xs)
    (pairwise_insertionSort le ys)
    ((perm_insertionSort le xs).trans (h.trans (perm_insertionSort le ys).symm))
  exact hanti a ((mem_insertionSort le).mp ha) b ((mem_insertionSort le).mp hb)

/-! ### Sorting by a key, and the first entry of each key -/

/-- The entries in the order of a key. -/
def sortedBy {α β : Type} [LinearOrder β] (f : α → β) (l : List α) : List α := l.insertionSort fun a b => f a ≤ f b

section FirstOfKey

variable {α β : Type} [LinearOrder β] {f : α → β} {xs ys : List α}

theorem sortedBy_perm (f : α → β) (l : List α) : (sortedBy f l).Perm l := perm_insertionSort _ l

theorem pairwise_sortedBy (f : α → β) (l : List α) : (sortedBy f l).Pairwise fun a b => f a ≤ f b :=
  pairwise_insertionSort _ l

theorem sortedBy_eq (hf : ∀ a ∈ xs, ∀ b ∈ xs, f a = f b → a = b) (h : xs.Perm ys) : sortedBy f xs = sortedBy f ys :=
  sorted_eq (fun a ha b hb hab hba => hf a ha b (h.mem_iff.mpr hb) (le_antisymm hab hba)) h

theorem find?_firstOfKey (key : α → κ) (k : κ) (l : List α) :
    (firstOfKey key l).find? (fun x => decide (key x = k)) = l.find? fun x => decide (key x = k) := by
  induction l with
  | nil => rfl
  | cons x xs ih =>
    rw [firstOfKey, find?_cons, find?_cons]
    by_cases hx : key x = k
    · simp only [hx, decide_true]
    · simp only [hx, decide_false]
      rw [← ih, find?_filter_ne key (Ne.symm hx)]

/-- Entries with a key of their own are each found by it. -/
theorem mem_iff_find? {key : α → κ} {l : List α} (hn : (l.map key).Nodup) {x : α} :
    x ∈ l ↔ l.find? (fun y => decide (key y = key x)) = some x := by
  refine ⟨fun hx => ?_, mem_of_find?_eq_some⟩
  have hsome : (l.find? fun y => decide (key y = key x)).isSome := find?_isSome.mpr ⟨x, hx, decide_eq_true rfl⟩
  obtain ⟨y, hy⟩ := Option.isSome_iff_exists.mp hsome
  rw [hy, inj_on_of_nodup_map hn (mem_of_find?_eq_some hy) hx (by simpa using find?_some hy)]

theorem mem_firstOfKey_iff (key : α → κ) {l : List α} {x : α} :
    x ∈ firstOfKey key l ↔ l.find? (fun y => decide (key y = key x)) = some x := by
  rw [mem_iff_find? (nodup_firstOfKey key l), find?_firstOfKey]

end FirstOfKey

end TokenBill.General
