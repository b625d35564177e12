import TokenBill.General.Tally

/-!
# Partial sums

The amounts of a batch, added under their keys and sorted by key, are a partial sum. The partial sums of the
batches are added in the same way, and what comes out is the partial sum of all their amounts: it depends neither
on the batches nor on the order of the amounts.
-/

namespace TokenBill.General

open List

variable {κ M : Type} [LinearOrder κ] [AddCommMonoid M]

def partialSum (entries : List (κ × M)) : List (κ × M) := (tally entries).insertionSort fun a b => a.1 ≤ b.1

theorem partialSum_sorted (entries : List (κ × M)) : (partialSum entries).Pairwise fun a b => a.1 < b.1 := by
  have : Std.Total fun a b : κ × M => a.1 ≤ b.1 := ⟨fun a b => le_total a.1 b.1⟩
  have : IsTrans (κ × M) fun a b => a.1 ≤ b.1 := ⟨fun a b c hab hbc => hab.trans hbc⟩
  have hperm := perm_insertionSort (fun a b : κ × M => a.1 ≤ b.1) (tally entries)
  have hsorted := pairwise_insertionSort (fun a b : κ × M => a.1 ≤ b.1) (tally entries)
  have hnodup : (partialSum entries).Pairwise fun a b => a.1 ≠ b.1 :=
    pairwise_map.mp ((hperm.map Prod.fst).nodup_iff.mpr (nodup_tally entries))
  exact (hsorted.and hnodup).imp fun h => lt_of_le_of_ne h.1 h.2

theorem mem_partialSum {entries : List (κ × M)} {e : κ × M} :
    e ∈ partialSum entries ↔ amountOf entries e.1 = some e.2 := by
  rw [partialSum, mem_insertionSort]
  exact mem_tally

/-- Partial sums are equal if every key holds the same. -/
theorem partialSum_congr {xs ys : List (κ × M)} (h : ∀ k, amountOf xs k = amountOf ys k) :
    partialSum xs = partialSum ys := by
  have hperm : (partialSum xs).Perm (partialSum ys) := by
    have hnodup : ∀ entries : List (κ × M), (partialSum entries).Nodup := fun entries =>
      (partialSum_sorted entries).imp fun hlt heq => absurd (congrArg Prod.fst heq) (ne_of_lt hlt)
    refine (perm_ext_iff_of_nodup (hnodup xs) (hnodup ys)).mpr fun e => ?_
    rw [mem_partialSum, mem_partialSum, h]
  exact hperm.eq_of_pairwise (fun a b _ _ hab hba => absurd hba (not_lt_of_gt hab)) (partialSum_sorted xs)
    (partialSum_sorted ys)

theorem partialSum_perm {xs ys : List (κ × M)} (h : xs.Perm ys) : partialSum xs = partialSum ys :=
  partialSum_congr (amountOf_perm h)

theorem amountOf_append (xs ys : List (κ × M)) (k : κ) :
    amountOf (xs ++ ys) k = match amountOf xs k, amountOf ys k with
      | some a, some b => some (a + b)
      | some a, none => some a
      | none, b => b := by
  have hnone : ∀ {entries : List (κ × M)}, k ∉ entries.map (·.1) → entries.filter (fun e => decide (e.1 = k)) = [] := by
    intro entries h
    refine filter_eq_nil_iff.mpr fun e he => ?_
    rw [decide_eq_true_eq]
    exact fun heq => h (heq ▸ mem_map_of_mem he)
  unfold amountOf
  rw [map_append, filter_append, map_append, sum_append]
  by_cases hx : k ∈ xs.map (·.1)
  · by_cases hy : k ∈ ys.map (·.1)
    · rw [if_pos (mem_append_left _ hx), if_pos hx, if_pos hy]
    · rw [if_pos (mem_append_left _ hx), if_pos hx, if_neg hy, hnone hy, map_nil, sum_nil, add_zero]
  · by_cases hy : k ∈ ys.map (·.1)
    · rw [if_pos (mem_append_right _ hy), if_neg hx, if_pos hy, hnone hx, map_nil, sum_nil, zero_add]
    · rw [if_neg hx, if_neg hy, if_neg]
      exact fun h => (mem_append.mp h).elim hx hy

theorem amountOf_partialSum (entries : List (κ × M)) (k : κ) : amountOf (partialSum entries) k = amountOf entries k := by
  have hlookup := lookup_tally (partialSum entries) k
  have hnodup : ((partialSum entries).map (·.1)).Nodup :=
    pairwise_map.mpr ((partialSum_sorted entries).imp fun h => ne_of_lt h)
  have hself : (tally (partialSum entries)).lookup k = (partialSum entries).lookup k := by
    rw [hlookup]
    unfold amountOf
    by_cases hk : k ∈ (partialSum entries).map (·.1)
    · obtain ⟨e, he, rfl⟩ := mem_map.mp hk
      have hone : (partialSum entries).filter (fun e' => decide (e'.1 = e.1)) = [e] := by
        have hperm : ((partialSum entries).filter fun e' => decide (e'.1 = e.1)).Perm [e] := by
          refine (perm_ext_iff_of_nodup (hnodup.of_map.filter _) (nodup_singleton e)).mpr fun e' => ?_
          rw [mem_filter, decide_eq_true_eq, mem_singleton]
          constructor
          · rintro ⟨he', hkey⟩
            exact inj_on_of_nodup_map hnodup he' he hkey
          · rintro rfl
            exact ⟨he, rfl⟩
        exact perm_singleton.mp hperm
      rw [if_pos hk, hone, map_singleton, sum_singleton]
      exact (lookup_of_mem hnodup he).symm
    · rw [if_neg hk]
      cases hl : (partialSum entries).lookup k with
      | none => rfl
      | some v => exact absurd (mem_map_of_mem (mem_of_lookup hl)) hk
  rw [← hlookup, hself]
  cases hl : (partialSum entries).lookup k with
  | some v => exact (mem_partialSum.mp (mem_of_lookup hl)).symm
  | none =>
    cases ha : amountOf entries k with
    | none => rfl
    | some v =>
      have hmem : (k, v) ∈ partialSum entries := mem_partialSum.mpr ha
      rw [lookup_of_mem hnodup hmem] at hl
      cases hl

theorem partialSum_flatMap {α : Type} (f : α → List (κ × M)) (batches : List α) :
    partialSum (batches.flatMap fun b => partialSum (f b)) = partialSum (batches.flatMap f) := by
  refine partialSum_congr fun k => ?_
  induction batches with
  | nil => rfl
  | cons b rest ih => rw [flatMap_cons, flatMap_cons, amountOf_append, amountOf_append, amountOf_partialSum, ih]

end TokenBill.General
