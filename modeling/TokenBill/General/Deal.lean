import TokenBill.General.Lists
import Mathlib.Data.Int.CardIntervalMod

/-!
# Dealing a list into groups

A list is dealt in runs, by `groups[i * n // len(xs)].append(xs[i])` for each index, or in turn, by
`i % n`: either way no group has two elements more than another.
-/

namespace TokenBill.General

open List

variable {α : Type}

/-! ### In runs -/

/-- The groups of a list by `i * n // len(xs)`. -/
def deal (n : Nat) (xs : List α) : List (List α) :=
  (List.range n).map fun j => (xs.zipIdx.filter fun p => decide (p.2 * n / xs.length = j)).map Prod.fst

theorem length_deal (n : Nat) (xs : List α) : (deal n xs).length = n := by
  unfold deal
  rw [length_map, length_range]

theorem deal_perm {n : Nat} (hn : 0 < n) (xs : List α) : (deal n xs).flatten.Perm xs := by
  have hfibres := flatten_fibres_perm (fun p : α × Nat => p.2 * n / xs.length) (l := xs.zipIdx)
    (nodup_range (n := n)) fun p hp => by
      have hlt : p.2 < xs.length := by
        have := snd_lt_add_of_mem_zipIdx hp
        omega
      exact mem_range.mpr (Nat.div_lt_of_lt_mul (Nat.mul_lt_mul_of_pos_right hlt hn))
  have hmap := hfibres.map Prod.fst
  rw [zipIdx_map_fst, map_flatten, map_map] at hmap
  exact hmap

theorem length_filter_range (c d m : Nat) :
    ((List.range m).filter fun i => decide (c ≤ i ∧ i < d)).length = min m d - min m c := by
  induction m with
  | zero => simp
  | succ m ih =>
    rw [range_succ, filter_append, length_append, ih]
    by_cases h : c ≤ m ∧ m < d
    · rw [filter_cons_of_pos (by simpa using h), filter_nil, length_singleton]
      omega
    · rw [filter_cons_of_neg (by simpa using h), filter_nil, length_nil]
      omega

/-- An index is dealt to a group when it lies between two quotients that are rounded up. -/
theorem index_mul_div_eq_iff {i j n m : Nat} (hn : 0 < n) (hm : 0 < m) :
    i * n / m = j ↔ (j * m + (n - 1)) / n ≤ i ∧ i < ((j + 1) * m + (n - 1)) / n := by
  have hceil : ∀ a, (a + (n - 1)) / n ≤ i ↔ a ≤ i * n := fun a => by
    rw [← Nat.lt_succ_iff, Nat.div_lt_iff_lt_mul hn, Nat.succ_mul]
    omega
  rw [← Nat.not_le (b := i), hceil, hceil, Nat.div_eq_iff hm]
  have hsucc : (j + 1) * m = j * m + m := Nat.succ_mul j m
  omega

/-- A group has the quotient of the lengths, or one more. -/
theorem length_of_mem_deal {n : Nat} {xs : List α} (hn : 0 < n) (hle : n ≤ xs.length) {g : List α} (hg : g ∈ deal n xs) :
    xs.length / n ≤ g.length ∧ g.length ≤ xs.length / n + 1 := by
  obtain ⟨j, hj, rfl⟩ := mem_map.mp hg
  have hm : 0 < xs.length := Nat.lt_of_lt_of_le hn hle
  have hmap : (List.range xs.length).filter (fun i => decide (i * n / xs.length = j)) =
      (xs.zipIdx.filter fun p => decide (p.2 * n / xs.length = j)).map Prod.snd := by
    rw [range_eq_range', ← zipIdx_map_snd 0 xs, filter_map]
    rfl
  have hbetween : (List.range xs.length).filter (fun i => decide (i * n / xs.length = j)) =
      (List.range xs.length).filter fun i => decide ((j * xs.length + (n - 1)) / n ≤ i ∧
        i < ((j + 1) * xs.length + (n - 1)) / n) :=
    filter_congr fun i _ => decide_eq_decide.mpr (index_mul_div_eq_iff hn hm)
  have hlen : ((xs.zipIdx.filter fun p => decide (p.2 * n / xs.length = j)).map Prod.fst).length =
      min xs.length (((j + 1) * xs.length + (n - 1)) / n) - min xs.length ((j * xs.length + (n - 1)) / n) := by
    rw [length_map, ← length_map (f := Prod.snd), ← hmap, hbetween, length_filter_range]
  -- the upper end of a group is at most the length, and one rounded quotient above the lower end
  have hupper : ((j + 1) * xs.length + (n - 1)) / n ≤ xs.length := by
    have hj : (j + 1) * xs.length ≤ n * xs.length := Nat.mul_le_mul_right _ (mem_range.mp hj)
    refine Nat.le_of_lt_succ ((Nat.div_lt_iff_lt_mul hn).mpr ?_)
    have hcomm : (xs.length + 1) * n = n * xs.length + n := by rw [Nat.succ_mul, Nat.mul_comm]
    rw [Nat.succ_eq_add_one, hcomm]
    omega
  have hsplit : (j + 1) * xs.length + (n - 1) = j * xs.length + (n - 1) + xs.length := by
    rw [Nat.succ_mul]
    omega
  have hadd := Nat.add_div (a := j * xs.length + (n - 1)) (b := xs.length) hn
  rw [hlen, Nat.min_eq_right hupper]
  rw [hsplit] at hupper ⊢
  have hlower : (j * xs.length + (n - 1)) / n ≤ (j * xs.length + (n - 1) + xs.length) / n :=
    Nat.div_le_div_right (Nat.le_add_right _ _)
  clear hlen hsplit hbetween hmap
  generalize (j * xs.length + (n - 1) + xs.length) / n = upper at *
  generalize (j * xs.length + (n - 1)) / n = lower at *
  generalize xs.length / n = quotient at *
  split at hadd <;> omega

/-- No group of at most as many groups as elements is empty. -/
theorem ne_nil_of_mem_deal {n : Nat} {xs : List α} (hn : 0 < n) (hle : n ≤ xs.length) {g : List α} (hg : g ∈ deal n xs) :
    g ≠ [] := by
  have hlen := (length_of_mem_deal hn hle hg).1
  have hpos : 0 < xs.length / n := Nat.div_pos hle hn
  exact ne_nil_of_length_pos (Nat.lt_of_lt_of_le hpos hlen)

/-! ### In turn -/

theorem length_filter_zipIdx (p : Nat → Bool) (xs : List α) (start : Nat) :
    ((xs.zipIdx start).filter fun x => p x.2).length = Nat.count (fun i => p (start + i)) xs.length := by
  induction xs generalizing start with
  | nil => rfl
  | cons x xs ih =>
    have hshift : Nat.count (fun i => p (start + (i + 1))) xs.length =
        ((xs.zipIdx (start + 1)).filter fun x => p x.2).length := by
      rw [ih]
      refine congrArg (fun q : Nat → Nat => Nat.count (fun i => p (q i)) xs.length) (funext fun i => ?_)
      omega
    rw [zipIdx_cons, length_cons, Nat.count_succ', hshift, Nat.add_zero, filter_cons]
    cases p start <;> rfl

/-- An index is in the class of a residue when the steps from the first index are. -/
theorem add_mod_eq_iff {n : Nat} (hn : 0 < n) {start i r : Nat} (hr : r < n) :
    (start + i) % n = r ↔ i ≡ r + (n - start % n) [MOD n] := by
  have hmod : start % n < n := Nat.mod_lt _ hn
  have hback : start % n + (r + (n - start % n)) = r + n := by omega
  constructor
  · intro h
    refine Nat.ModEq.add_left_cancel' (start % n) ?_
    unfold Nat.ModEq
    rw [hback, Nat.mod_add_mod, h, Nat.add_mod_right, Nat.mod_eq_of_lt hr]
  · intro h
    have hleft := h.add_left (start % n)
    unfold Nat.ModEq at hleft
    rwa [hback, Nat.mod_add_mod, Nat.add_mod_right, Nat.mod_eq_of_lt hr] at hleft

/-- Of the elements dealt in turn from an index on, every residue gets the quotient of the lengths, or one more. -/
theorem length_filter_turn {n : Nat} (hn : 0 < n) (xs : List α) (start : Nat) {r : Nat} (hr : r < n) :
    xs.length / n ≤ ((xs.zipIdx start).filter fun x => decide (x.2 % n = r)).length ∧
      ((xs.zipIdx start).filter fun x => decide (x.2 % n = r)).length ≤ xs.length / n + 1 := by
  have hcount : Nat.count (fun i => decide ((start + i) % n = r)) xs.length =
      Nat.count (· ≡ r + (n - start % n) [MOD n]) xs.length := by
    simp only [decide_eq_true_eq, add_mod_eq_iff hn hr]
  rw [length_filter_zipIdx (fun i => decide (i % n = r)), hcount, Nat.count_modEq_card _ hn]
  constructor
  · exact Nat.le_add_right _ _
  · split <;> omega

end TokenBill.General
