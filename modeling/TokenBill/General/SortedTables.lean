import TokenBill.General.Tables
import Mathlib.Order.Lattice

/-!
# Tables in the order of their keys

A table of pairs with strictly increasing keys is determined by what it reads under each
key. Pairs are written and removed in their places.
-/

namespace TokenBill.General

open List

variable {κ α : Type} [LinearOrder κ]

def SortedKeys (l : List (κ × α)) : Prop := (l.map (·.1)).Pairwise (· < ·)

instance (l : List (κ × α)) : Decidable (SortedKeys l) :=
  inferInstanceAs (Decidable (List.Pairwise (· < ·) (l.map (·.1))))

def insertKey (k : κ) (v : α) : List (κ × α) → List (κ × α)
  | [] => [(k, v)]
  | f :: fs => if k < f.1 then (k, v) :: f :: fs else if k = f.1 then (k, v) :: fs else f :: insertKey k v fs

def eraseKey (k : κ) (l : List (κ × α)) : List (κ × α) := l.filter fun f => decide (f.1 ≠ k)

theorem SortedKeys.nil : SortedKeys ([] : List (κ × α)) := List.Pairwise.nil

variable {l : List (κ × α)} {k : κ} {v : α}

theorem sortedKeys_cons {f : κ × α} : SortedKeys (f :: l) ↔ (∀ g ∈ l, f.1 < g.1) ∧ SortedKeys l := by
  unfold SortedKeys
  rw [map_cons, pairwise_cons, forall_mem_map]

theorem SortedKeys.nodup (h : SortedKeys l) : (l.map (·.1)).Nodup :=
  List.Pairwise.imp (fun h => ne_of_lt h) h

/-! ### Reading -/

theorem lookup_eq_some_iff (h : SortedKeys l) :
    l.lookup k = some v ↔ (k, v) ∈ l := ⟨mem_of_lookup, lookup_of_mem h.nodup⟩

theorem lookup_eq_none_of_lt (h : ∀ f ∈ l, k < f.1) : l.lookup k = none :=
  lookup_eq_none_iff.mpr fun f hf => by simpa using ne_of_lt (h f hf)

/-- Sorted tables that read the same are the same. -/
theorem sortedKeys_ext {m : List (κ × α)} (hl : SortedKeys l) (hm : SortedKeys m)
    (h : ∀ k, l.lookup k = m.lookup k) : l = m := by
  have hmem : ∀ f, f ∈ l ↔ f ∈ m := fun ⟨k, v⟩ => by
    rw [← lookup_eq_some_iff hl, ← lookup_eq_some_iff hm, h k]
  have hperm : l.Perm m := (perm_ext_iff_of_nodup hl.nodup.of_map hm.nodup.of_map).mpr hmem
  have hasymm (a b : κ × α) (_ : a ∈ l) (_ : b ∈ m) (hab : a.1 < b.1) (hba : b.1 < a.1) : a = b :=
    absurd hba (lt_asymm hab)
  exact List.Perm.eq_of_pairwise hasymm (pairwise_map.mp hl) (pairwise_map.mp hm) hperm

theorem sortedKeys_eq_iff {m : List (κ × α)} (hl : SortedKeys l) (hm : SortedKeys m) :
    l = m ↔ ∀ k, l.lookup k = m.lookup k :=
  ⟨fun h _ => h ▸ rfl, sortedKeys_ext hl hm⟩

/-! ### Writing -/

theorem lookup_insertKey (k : κ) (v : α) (l : List (κ × α)) (k' : κ) :
    (insertKey k v l).lookup k' = if k' = k then some v else l.lookup k' := by
  induction l with
  | nil =>
    by_cases hk : k' = k <;> simp [insertKey, hk]
  | cons f fs ih =>
    unfold insertKey
    split
    · by_cases hk : k' = k
      · simp [hk]
      · rw [lookup_cons, beq_false_of_ne hk, if_neg hk]
    · split
      · rename_i heq
        by_cases hk : k' = k
        · simp [hk]
        · rw [lookup_cons, lookup_cons, ← heq, beq_false_of_ne hk, if_neg hk]
      · rename_i hne
        rw [lookup_cons, lookup_cons, ih]
        by_cases hk : k' = k
        · rw [if_pos hk, if_pos hk, hk, beq_false_of_ne hne]
        · rw [if_neg hk, if_neg hk]

theorem mem_insertKey {f : κ × α} (h : f ∈ insertKey k v l) : f = (k, v) ∨ f ∈ l := by
  induction l with
  | nil => exact .inl (mem_singleton.mp h)
  | cons g gs ih =>
    unfold insertKey at h
    split at h
    · exact mem_cons.mp h
    · split at h
      · exact (mem_cons.mp h).imp_right (mem_cons_of_mem _)
      · rcases mem_cons.mp h with rfl | h
        · exact .inr mem_cons_self
        · exact (ih h).imp_right (mem_cons_of_mem _)

theorem SortedKeys.insertKey (h : SortedKeys l) (k : κ) (v : α) : SortedKeys (insertKey k v l) := by
  induction l with
  | nil => exact pairwise_singleton _ _
  | cons f fs ih =>
    obtain ⟨hf, hfs⟩ := sortedKeys_cons.mp h
    unfold General.insertKey
    split
    · rename_i hlt
      refine sortedKeys_cons.mpr ⟨fun g hg => ?_, h⟩
      rcases mem_cons.mp hg with rfl | hg
      · exact hlt
      · exact hlt.trans (hf g hg)
    · split
      · rename_i heq
        exact sortedKeys_cons.mpr ⟨fun g hg => heq ▸ hf g hg, hfs⟩
      · rename_i hnlt hne
        refine sortedKeys_cons.mpr ⟨fun g hg => ?_, ih hfs⟩
        rcases mem_insertKey hg with rfl | hg
        · exact lt_of_le_of_ne (not_lt.mp hnlt) fun h => hne h.symm
        · exact hf g hg

theorem insertKey_last (h : ∀ f ∈ l, f.1 < k) : insertKey k v l = l ++ [(k, v)] := by
  induction l with
  | nil => rfl
  | cons f fs ih =>
    have hf := h f mem_cons_self
    unfold insertKey
    rw [if_neg (lt_asymm hf), if_neg (ne_of_gt hf), ih fun g hg => h g (mem_cons_of_mem _ hg)]
    rfl

theorem lookup_foldl_insertKey {changes : List (κ × α)} (h : SortedKeys changes) (base : List (κ × α)) (k : κ) :
    (changes.foldl (fun table f => insertKey f.1 f.2 table) base).lookup k = (changes.lookup k).or (base.lookup k) := by
  induction changes generalizing base with
  | nil => rfl
  | cons m changes ih =>
    obtain ⟨hlt, hchanges⟩ := sortedKeys_cons.mp h
    rw [foldl_cons, ih hchanges, lookup_insertKey, lookup_cons]
    by_cases hk : k = m.1
    · rw [if_pos hk, hk, lookup_eq_none_of_lt hlt, beq_self_eq_true]
      rfl
    · rw [if_neg hk, beq_false_of_ne hk]

theorem SortedKeys.foldl_insertKey {base : List (κ × α)} (h : SortedKeys base) (changes : List (κ × α)) :
    SortedKeys (changes.foldl (fun table f => General.insertKey f.1 f.2 table) base) := by
  induction changes generalizing base with
  | nil => exact h
  | cons m changes ih => exact ih (h.insertKey m.1 m.2)

/-! ### Removing -/

theorem lookup_filter_key (p : κ → Bool) (l : List (κ × α)) (k : κ) :
    (l.filter fun f => p f.1).lookup k = if p k then l.lookup k else none := by
  induction l with
  | nil => simp
  | cons f fs ih =>
    obtain ⟨name, v⟩ := f
    rw [filter_cons, lookup_cons]
    by_cases hk : k = name
    · subst hk
      by_cases hp : p k
      · simp [hp]
      · rw [if_neg hp, ih, if_neg hp, if_neg hp]
    · rw [beq_false_of_ne hk, ← ih]
      split
      · rw [lookup_cons, beq_false_of_ne hk]
      · rfl

theorem lookup_eraseKey (k : κ) (l : List (κ × α)) (k' : κ) :
    (eraseKey k l).lookup k' = if k' = k then none else l.lookup k' := by
  rw [eraseKey, lookup_filter_key fun key => decide (key ≠ k)]
  by_cases hk : k' = k <;> simp [hk]

theorem SortedKeys.filter (h : SortedKeys l) (p : κ × α → Bool) :
    SortedKeys (l.filter p) := List.Pairwise.sublist (filter_sublist.map _) h

theorem SortedKeys.eraseKey (h : SortedKeys l) (k : κ) : SortedKeys (eraseKey k l) :=
  h.filter _

/-! ### Changing the values -/

theorem SortedKeys.map_value {β : Type} (h : SortedKeys l) (g : α → β) :
    SortedKeys (l.map fun f => (f.1, g f.2)) := by
  unfold SortedKeys
  rw [map_map]
  exact h

end TokenBill.General
