import Mathlib.Data.List.Perm.Basic
import Mathlib.Data.List.Nodup

/-!
# Keyed tables as lists

A table is a list of rows with a key. `upsert` is `INSERT … ON CONFLICT (key) DO
UPDATE`, and `firstOfKey` is a dictionary filled by `setdefault`.
-/

namespace TokenBill.General

open List

variable {α κ : Type} [DecidableEq κ]

/-- The row of the key of `x` replaced by `x`, or `x` added. -/
def upsert (key : α → κ) (x : α) : List α → List α
  | [] => [x]
  | y :: ys => if key y = key x then x :: ys else y :: upsert key x ys

theorem upsert_cons (key : α → κ) (x y : α) (ys : List α) :
    upsert key x (y :: ys) = if key y = key x then x :: ys else y :: upsert key x ys := rfl

variable {key : α → κ} {l : List α} {x : α} {k : κ} {β : Type}

theorem mem_of_mem_upsert {z : α} (h : z ∈ upsert key x l) : z = x ∨ z ∈ l := by
  induction l with
  | nil => exact .inl (mem_singleton.mp h)
  | cons y ys ih =>
    rw [upsert_cons] at h
    split at h
    · exact (mem_cons.mp h).imp_right (mem_cons_of_mem _)
    · rcases mem_cons.mp h with rfl | h
      · exact .inr mem_cons_self
      · exact (ih h).imp_right (mem_cons_of_mem _)

theorem mem_upsert_self : x ∈ upsert key x l := by
  induction l with
  | nil => exact mem_cons_self
  | cons y ys ih =>
    rw [upsert_cons]
    split
    · exact mem_cons_self
    · exact mem_cons_of_mem _ ih

theorem mem_upsert_of_ne {z : α} (hk : key z ≠ key x) (h : z ∈ l) : z ∈ upsert key x l := by
  induction l with
  | nil => cases h
  | cons y ys ih =>
    rw [upsert_cons]
    rcases mem_cons.mp h with rfl | h
    · rw [if_neg hk]
      exact mem_cons_self
    · split
      · exact mem_cons_of_mem _ h
      · exact mem_cons_of_mem _ (ih h)

theorem nodup_map_upsert (h : (l.map key).Nodup) : ((upsert key x l).map key).Nodup := by
  induction l with
  | nil => exact nodup_singleton _
  | cons y ys ih =>
    obtain ⟨hy, hys⟩ := nodup_cons.mp h
    rw [upsert_cons]
    split
    · rename_i hk
      exact nodup_cons.mpr ⟨hk ▸ hy, hys⟩
    · rename_i hk
      refine nodup_cons.mpr ⟨fun hmem => ?_, ih hys⟩
      obtain ⟨z, hz, hzk⟩ := mem_map.mp hmem
      rcases mem_of_mem_upsert hz with rfl | hz
      · exact hk hzk.symm
      · exact hy (mem_map.mpr ⟨z, hz, hzk⟩)

/-- The row a key reads after `upsert`. -/
theorem find?_upsert (key : α → κ) (x : α) (k : κ) (l : List α) :
    (upsert key x l).find? (fun y => decide (key y = k)) =
      if key x = k then some x else l.find? fun y => decide (key y = k) := by
  induction l with
  | nil => by_cases hk : key x = k <;> simp [upsert, hk]
  | cons y ys ih =>
    rw [upsert_cons]
    by_cases hy : key y = key x
    · rw [if_pos hy]
      by_cases hk : key x = k
      · simp [hk]
      · have hyk : key y ≠ k := hy ▸ hk
        simp [hk, hyk]
    · rw [if_neg hy]
      by_cases hyk : key y = k
      · have hk : key x ≠ k := fun hk => hy (hyk.trans hk.symm)
        simp [hyk, hk]
      · simpa [hyk] using ih

/-- The row a key reads after the rows of another key are deleted. -/
theorem find?_filter_ne (key : α → κ) {a : κ} (hk : k ≠ a) (l : List α) :
    (l.filter fun y => decide (key y ≠ a)).find? (fun y => decide (key y = k)) =
      l.find? fun y => decide (key y = k) := by
  rw [find?_filter]
  congr 1
  funext y
  by_cases hy : key y = k <;> simp [hy, hk]

/-- What a table of pairs reads under a key is in it. -/
theorem mem_of_lookup {v : β} {l : List (κ × β)} (h : l.lookup k = some v) : (k, v) ∈ l := by
  obtain ⟨pre, post, rfl, -⟩ := List.lookup_eq_some_iff.mp h
  exact mem_append_right _ mem_cons_self

/-- What a table without repeated keys holds for a key is what is looked up. -/
theorem lookup_of_mem {v : β} {l : List (κ × β)} (hn : (l.map (·.1)).Nodup) (h : (k, v) ∈ l) : l.lookup k = some v := by
  induction l with
  | nil => cases h
  | cons t l ih =>
    obtain ⟨hnot, hn⟩ := nodup_cons.mp hn
    rcases mem_cons.mp h with rfl | h
    · rw [lookup_cons, beq_self_eq_true]
    · have hne : k ≠ t.1 := fun he => hnot (mem_map.mpr ⟨(k, v), h, he⟩)
      rw [lookup_cons, beq_false_of_ne hne]
      exact ih hn h

/-- A table without repeated keys reads the same in every order. -/
theorem lookup_perm {β : Type} {l m : List (κ × β)} (h : l.Perm m) (hn : (l.map (·.1)).Nodup) (k : κ) :
    l.lookup k = m.lookup k := by
  have hm : (m.map (·.1)).Nodup := (h.map _).nodup_iff.mp hn
  cases hl : l.lookup k with
  | none =>
    rw [eq_comm, lookup_eq_none_iff]
    exact fun f hf => lookup_eq_none_iff.mp hl f (h.mem_iff.mpr hf)
  | some v => exact (lookup_of_mem hm (h.mem_iff.mp (mem_of_lookup hl))).symm

theorem lookup_map_value {κ α : Type} [BEq κ] (g : α → β) (l : List (κ × α)) (k : κ) :
    (l.map fun f => (f.1, g f.2)).lookup k = (l.lookup k).map g := by
  induction l with
  | nil => rfl
  | cons f fs ih =>
    rw [map_cons, lookup_cons, lookup_cons, ih]
    cases k == f.1 <;> rfl

theorem upsert_append (h : key x ∉ l.map key) : upsert key x l = l ++ [x] := by
  induction l with
  | nil => rfl
  | cons y ys ih =>
    obtain ⟨hne, hys⟩ := not_or.mp (fun h' => h (mem_cons.mpr h') : ¬(key x = key y ∨ key x ∈ ys.map key))
    rw [upsert_cons, if_neg (Ne.symm hne), ih hys]
    rfl

theorem foldl_upsert_append (key : α → κ) {xs : List α} (h : ((l ++ xs).map key).Nodup) :
    xs.foldl (fun table x => upsert key x table) l = l ++ xs := by
  induction xs generalizing l with
  | nil => exact (append_nil l).symm
  | cons x xs ih =>
    have hnew : key x ∉ l.map key := by
      rw [map_append, map_cons] at h
      exact fun hmem => (disjoint_of_nodup_append h) hmem mem_cons_self
    rw [append_cons] at h
    rw [foldl_cons, upsert_append hnew, ih h, ← append_cons]

theorem find?_foldl_upsert_of_ne {writes : List α} (h : ∀ w ∈ writes, key w ≠ k) :
    (writes.foldl (fun table w => upsert key w table) l).find? (fun y => decide (key y = k)) =
      l.find? fun y => decide (key y = k) := by
  induction writes generalizing l with
  | nil => rfl
  | cons w writes ih =>
    rw [forall_mem_cons] at h
    rw [foldl_cons, ih h.2, find?_upsert, if_neg h.1]

theorem find?_foldl_upsert (key : α → κ) {writes : List α} (hmem : x ∈ writes)
    (hsame : ∀ w ∈ writes, key w = key x → w = x) (l : List α) :
    (writes.foldl (fun table w => upsert key w table) l).find? (fun y => decide (key y = key x)) = some x := by
  induction writes generalizing l with
  | nil => cases hmem
  | cons w writes ih =>
    rw [forall_mem_cons] at hsame
    rw [foldl_cons]
    by_cases hx : x ∈ writes
    · exact ih hx hsame.2 _
    · have hne : ∀ w' ∈ writes, key w' ≠ key x := fun w' hw' hk => hx (hsame.2 w' hw' hk ▸ hw')
      rw [find?_foldl_upsert_of_ne hne, (mem_cons.mp hmem).resolve_right hx, find?_upsert, if_pos rfl]

/-- The value a key reads after its pair is written. -/
theorem lookup_upsert (k : κ) (v : β) (k' : κ) (l : List (κ × β)) :
    (upsert (·.1) (k, v) l).lookup k' = if k' = k then some v else l.lookup k' := by
  induction l with
  | nil =>
    by_cases hk : k' = k
    · simp [upsert, hk]
    · simp [upsert, lookup_cons, hk, beq_eq_false_iff_ne.mpr hk]
  | cons y ys ih =>
    rw [upsert_cons]
    by_cases hy : y.1 = k
    · rw [if_pos hy, lookup_cons, lookup_cons, hy]
      by_cases hk : k' = k
      · simp [hk]
      · simp [hk, beq_eq_false_iff_ne.mpr hk]
    · rw [if_neg hy, lookup_cons, lookup_cons]
      by_cases hk : k' = y.1
      · simp [hk, hy]
      · rw [beq_eq_false_iff_ne.mpr hk]
        exact ih

def firstOfKey (key : α → κ) : List α → List α
  | [] => []
  | x :: xs => x :: (firstOfKey key xs).filter fun y => decide (key y ≠ key x)

theorem firstOfKey_sublist (key : α → κ) (l : List α) : (firstOfKey key l).Sublist l := by
  induction l with
  | nil => exact .slnil
  | cons x xs ih => exact (filter_sublist.trans ih).cons_cons x

theorem exists_mem_firstOfKey (key : α → κ) (h : x ∈ l) : ∃ y ∈ firstOfKey key l, key y = key x := by
  induction l with
  | nil => cases h
  | cons z zs ih =>
    by_cases hz : key z = key x
    · exact ⟨z, mem_cons_self, hz⟩
    · rcases mem_cons.mp h with rfl | h
      · exact absurd rfl hz
      · obtain ⟨y, hy, hk⟩ := ih h
        refine ⟨y, mem_cons_of_mem _ (mem_filter.mpr ⟨hy, ?_⟩), hk⟩
        rw [decide_eq_true_eq, hk]
        exact fun h => hz h.symm

theorem nodup_firstOfKey (key : α → κ) (l : List α) : ((firstOfKey key l).map key).Nodup := by
  induction l with
  | nil => exact nodup_nil
  | cons x xs ih =>
    refine nodup_cons.mpr ⟨fun h => ?_, ih.sublist (filter_sublist.map key)⟩
    obtain ⟨y, hy, hk⟩ := mem_map.mp h
    exact absurd hk (by simpa using (mem_filter.mp hy).2)

end TokenBill.General
