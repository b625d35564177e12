import Mathlib.Algebra.Order.BigOperators.Group.List
import Mathlib.Algebra.BigOperators.Ring.Finset
import Mathlib.Algebra.BigOperators.Group.Finset.Powerset
import Mathlib.Algebra.BigOperators.Group.Finset.Sigma
import Mathlib.Data.Rat.Floor

/-!
# Shapley values and rounded shares

The Shapley value of a player is the average of what it adds to the coalitions of the
others, and the values of all players add up to the value of the grand coalition over the
empty one. Shares that add up to an integer are rounded to integers that do: each share is
rounded down, and the deficit, less than the number of shares, is handed out one by one.
-/

namespace TokenBill.General

open List

/-! ### Shapley values -/

section Shapley

variable {ι : Type} [DecidableEq ι] (N : Finset ι) (v : Finset ι → ℚ)

/-- The weight of a coalition of `s` of the other `n - 1` players. -/
def shapleyWeight (n s : ℕ) : ℚ := (s.factorial * (n - s - 1).factorial : ℚ) / n.factorial

def shapley (i : ι) : ℚ :=
  ∑ S ∈ (N.erase i).powerset, shapleyWeight N.card S.card * (v (insert i S) - v S)

/-- A coalition is worth as much to those it lacks as to those it has, but for the first and last. -/
theorem weight_balance {n s : ℕ} (h0 : 0 < s) (hn : s < n) :
    s * shapleyWeight n (s - 1) = (n - s : ℚ) * shapleyWeight n s := by
  obtain ⟨t, rfl⟩ : ∃ t, s = t + 1 := ⟨s - 1, by omega⟩
  obtain ⟨m, rfl⟩ : ∃ m, n = t + 2 + m := ⟨n - (t + 2), by omega⟩
  have h1 : t + 2 + m - (t + 1 - 1) - 1 = m + 1 := by omega
  have h2 : t + 2 + m - (t + 1) - 1 = m := by omega
  unfold shapleyWeight
  rw [h1, h2, Nat.add_sub_cancel, Nat.factorial_succ, Nat.factorial_succ]
  push_cast
  ring

theorem weight_last {n : ℕ} (hn : 0 < n) : n * shapleyWeight n (n - 1) = 1 := by
  obtain ⟨m, rfl⟩ : ∃ m, n = m + 1 := ⟨n - 1, by omega⟩
  have h : m + 1 - (m + 1 - 1) - 1 = 0 := by omega
  have hpos : ((m + 1).factorial : ℚ) ≠ 0 := by exact_mod_cast Nat.factorial_ne_zero _
  unfold shapleyWeight
  rw [h, Nat.add_sub_cancel, Nat.factorial_zero, Nat.cast_one, mul_one, ← mul_div_assoc,
    div_eq_one_iff_eq hpos, Nat.factorial_succ]
  push_cast
  ring

theorem weight_first {n : ℕ} (hn : 0 < n) : n * shapleyWeight n 0 = 1 := by
  obtain ⟨m, rfl⟩ : ∃ m, n = m + 1 := ⟨n - 1, by omega⟩
  have h : m + 1 - 0 - 1 = m := by omega
  have hpos : ((m + 1).factorial : ℚ) ≠ 0 := by exact_mod_cast Nat.factorial_ne_zero _
  unfold shapleyWeight
  rw [h, Nat.factorial_zero, Nat.cast_one, one_mul, ← mul_div_assoc, div_eq_one_iff_eq hpos,
    Nat.factorial_succ]
  push_cast
  ring

/-- What the players lose without themselves, by coalition. -/
theorem sum_without : ∑ i ∈ N, ∑ S ∈ (N.erase i).powerset, shapleyWeight N.card S.card * v S =
    ∑ S ∈ N.powerset, (N.card - S.card : ℚ) * shapleyWeight N.card S.card * v S := by
  have hpairs : ∀ i S, i ∈ N ∧ S ∈ (N.erase i).powerset ↔ i ∈ N \ S ∧ S ∈ N.powerset := fun i S => by
    rw [Finset.mem_powerset, Finset.mem_powerset, Finset.mem_sdiff]
    constructor
    · exact fun ⟨hi, hS⟩ => ⟨⟨hi, fun h => Finset.notMem_erase i N (hS h)⟩,
        hS.trans (Finset.erase_subset _ _)⟩
    · exact fun ⟨⟨hi, hn⟩, hS⟩ => ⟨hi, fun j hj => Finset.mem_erase.mpr ⟨fun h => hn (h ▸ hj), hS hj⟩⟩
  rw [Finset.sum_comm' hpairs]
  refine Finset.sum_congr rfl fun S hS => ?_
  have hsub := Finset.mem_powerset.mp hS
  rw [Finset.sum_const, Finset.card_sdiff_of_subset hsub, nsmul_eq_mul,
    Nat.cast_sub (Finset.card_le_card hsub)]
  ring

/-- What the players have with themselves, by coalition. -/
theorem sum_with : ∑ i ∈ N, ∑ S ∈ (N.erase i).powerset, shapleyWeight N.card S.card * v (insert i S) =
    ∑ S ∈ N.powerset, S.card * shapleyWeight N.card (S.card - 1) * v S := by
  have hinner : ∀ i ∈ N, ∑ S ∈ (N.erase i).powerset, shapleyWeight N.card S.card * v (insert i S) =
      ∑ T ∈ N.powerset with i ∈ T, shapleyWeight N.card (T.card - 1) * v T := fun i hi => by
    refine Finset.sum_nbij' (insert i) (fun T => T.erase i) ?_ ?_ ?_ ?_ ?_
    · intro S hS
      have hsub := (Finset.mem_powerset.mp hS).trans (Finset.erase_subset _ _)
      exact Finset.mem_filter.mpr ⟨Finset.mem_powerset.mpr (Finset.insert_subset hi hsub),
        Finset.mem_insert_self _ _⟩
    · intro T hT
      exact Finset.mem_powerset.mpr
        (Finset.erase_subset_erase _ (Finset.mem_powerset.mp (Finset.mem_filter.mp hT).1))
    · intro S hS
      exact Finset.erase_insert fun h => Finset.notMem_erase i N (Finset.mem_powerset.mp hS h)
    · intro T hT
      exact Finset.insert_erase (Finset.mem_filter.mp hT).2
    · intro S hS
      rw [Finset.card_insert_of_notMem fun h => Finset.notMem_erase i N (Finset.mem_powerset.mp hS h),
        Nat.add_sub_cancel]
  have hpairs : ∀ i T, (i ∈ N ∧ T ∈ N.powerset.filter (i ∈ ·)) ↔ i ∈ T ∧ T ∈ N.powerset := fun i T => by
    rw [Finset.mem_filter, Finset.mem_powerset]
    exact ⟨fun ⟨_, hT, hi⟩ => ⟨hi, hT⟩, fun ⟨hi, hT⟩ => ⟨hT hi, hT, hi⟩⟩
  rw [Finset.sum_congr rfl hinner, Finset.sum_comm' hpairs]
  refine Finset.sum_congr rfl fun T _ => ?_
  rw [Finset.sum_const, nsmul_eq_mul]
  ring

/-- Efficiency: the Shapley values add up to the value of the grand coalition over the empty one. -/
theorem sum_shapley : ∑ i ∈ N, shapley N v i = v N - v ∅ := by
  have hsplit : ∑ i ∈ N, shapley N v i = ∑ S ∈ N.powerset,
      (S.card * shapleyWeight N.card (S.card - 1) - (N.card - S.card) * shapleyWeight N.card S.card) *
        v S := by
    simp only [shapley, mul_sub, Finset.sum_sub_distrib]
    rw [sum_with, sum_without, ← Finset.sum_sub_distrib]
    exact Finset.sum_congr rfl fun S _ => (sub_mul _ _ _).symm
  rw [hsplit]
  rcases N.eq_empty_or_nonempty with rfl | hN
  · simp
  · have hpos := hN.card_pos
    rw [Finset.sum_eq_add N ∅ hN.ne_empty]
    · rw [weight_last hpos, Finset.card_empty, Nat.cast_zero, sub_zero, weight_first hpos]
      ring
    · intro S hS hne
      have hlt := Finset.card_lt_card ((Finset.mem_powerset.mp hS).ssubset_of_ne hne.1)
      rw [weight_balance (Finset.card_pos.mpr (Finset.nonempty_iff_ne_empty.mpr hne.2)) hlt, sub_self,
        zero_mul]
    · exact fun h => absurd (Finset.mem_powerset_self N) h
    · exact fun h => absurd (Finset.empty_mem_powerset N) h

/-- A player that adds nothing to any coalition is worth nothing. -/
theorem shapley_null {i : ι} (h : ∀ S ⊆ N.erase i, v (insert i S) = v S) : shapley N v i = 0 :=
  Finset.sum_eq_zero fun S hS => by rw [h S (Finset.mem_powerset.mp hS), sub_self, mul_zero]

/-- Two players that add the same to every coalition of the others are worth the same. -/
theorem shapley_symm {i j : ι} (hi : i ∈ N) (hj : j ∈ N)
    (h : ∀ S ⊆ (N.erase i).erase j, v (insert i S) = v (insert j S)) : shapley N v i = shapley N v j := by
  rcases eq_or_ne i j with rfl | hij
  · rfl
  set σ := Equiv.swap i j
  have hsub : ∀ {a b : ι}, a ∈ N → b ∈ N → σ a = b → σ b = a → (∀ x, x ≠ a → x ≠ b → σ x = x) →
      ∀ S ∈ (N.erase a).powerset, S.image σ ∈ (N.erase b).powerset := fun {a b} ha hb hab hba hfix S hS => by
    rw [Finset.mem_powerset] at hS ⊢
    intro y hy
    obtain ⟨x, hx, rfl⟩ := Finset.mem_image.mp hy
    obtain ⟨hxa, hxN⟩ := Finset.mem_erase.mp (hS hx)
    refine Finset.mem_erase.mpr ⟨fun hxb => hxa (σ.injective (hxb.trans hab.symm)), ?_⟩
    by_cases hxb : x = b
    · rw [hxb, hba]
      exact ha
    · rw [hfix x hxa hxb]
      exact hxN
  have hswap : ∀ S : Finset ι, (S.image σ).image σ = S := fun S => by
    rw [Finset.image_image]
    conv_rhs => rw [← Finset.image_id (s := S)]
    exact Finset.image_congr fun x _ => Equiv.swap_apply_self i j x
  have hterm : ∀ S ∈ (N.erase i).powerset,
      v (insert i S) - v S = v (insert j (S.image σ)) - v (S.image σ) := fun S hS => by
    have hiS : i ∉ S := fun hmem => (Finset.mem_erase.mp (Finset.mem_powerset.mp hS hmem)).1 rfl
    -- the coalition without `j`, which the swap leaves alone
    have himage : (S.erase j).image σ = S.erase j := by
      conv_rhs => rw [← Finset.image_id (s := S.erase j)]
      refine Finset.image_congr fun x hx => Equiv.swap_apply_of_ne_of_ne ?_ (Finset.mem_erase.mp hx).1
      exact fun hxi => hiS (hxi ▸ (Finset.mem_erase.mp hx).2)
    have hothers := h (S.erase j) fun x hx => Finset.mem_erase.mpr
      ⟨(Finset.mem_erase.mp hx).1, Finset.mem_powerset.mp hS (Finset.mem_erase.mp hx).2⟩
    by_cases hjS : j ∈ S
    · have himageS : S.image σ = insert i (S.erase j) := by
        conv_lhs => rw [← Finset.insert_erase hjS]
        rw [Finset.image_insert, himage, Equiv.swap_apply_right]
      rw [himageS, hothers, Finset.insert_erase hjS, Finset.insert_comm, Finset.insert_erase hjS]
    · rw [Finset.erase_eq_of_notMem hjS] at himage hothers
      rw [himage, hothers]
  refine Finset.sum_nbij' (fun S => S.image σ) (fun S => S.image σ)
    (hsub hi hj (Equiv.swap_apply_left i j) (Equiv.swap_apply_right i j)
      fun x hxi hxj => Equiv.swap_apply_of_ne_of_ne hxi hxj)
    (hsub hj hi (Equiv.swap_apply_right i j) (Equiv.swap_apply_left i j)
      fun x hxj hxi => Equiv.swap_apply_of_ne_of_ne hxi hxj)
    (fun S _ => hswap S) (fun S _ => hswap S) fun S hS => ?_
  rw [hterm S hS, Finset.card_image_of_injective S σ.injective]

end Shapley

/-! ### Rounded shares -/

section Shares

variable {κ : Type}

/-- Shares that add up to an integer miss it by fewer units than there are shares once they are rounded
down. -/
theorem sum_floor_bounds (l : List κ) (f : κ → ℚ) {target : ℤ} (h : (l.map f).sum = target) :
    (l.map fun k => (f k).floor).sum ≤ target ∧
      target ≤ (l.map fun k => (f k).floor).sum + l.length := by
  have hbounds : (((l.map fun k => (f k).floor).sum : ℤ) : ℚ) ≤ (l.map f).sum ∧
      (l.map f).sum ≤ ((l.map fun k => (f k).floor).sum : ℤ) + l.length := by
    clear h
    induction l with
    | nil => simp
    | cons k l ih =>
      have hle := Rat.floor_le (f k)
      have hlt : f k - 1 < (f k).floor := Rat.lt_floor
      simp only [map_cons, sum_cons, length_cons, Int.cast_add, Nat.cast_add, Nat.cast_one]
      constructor <;> linarith [ih.1, ih.2]
  rw [h] at hbounds
  exact ⟨by exact_mod_cast hbounds.1, by exact_mod_cast hbounds.2⟩

/-- When the largest parts, each below a unit, get a unit each and that many units are missing, nobody gets
one who lacks nothing. -/
theorem pos_of_first {A B : List κ} {g : κ → ℚ} (h0 : ∀ k ∈ B, 0 ≤ g k) (h1 : ∀ k ∈ A, g k < 1)
    (hsorted : ∀ a ∈ A, ∀ b ∈ B, g b ≤ g a) (hsum : (A.map g).sum + (B.map g).sum = A.length) :
    ∀ a ∈ A, 0 < g a := by
  intro a ha
  by_contra hle
  have hB : (B.map g).sum = 0 := by
    refine sum_eq_zero fun x hx => ?_
    obtain ⟨b, hb, rfl⟩ := mem_map.mp hx
    exact le_antisymm (le_trans (hsorted a ha b hb) (not_lt.mp hle)) (h0 b hb)
  have hA : (A.map g).sum < (A.map fun _ => (1 : ℚ)).sum :=
    sum_lt_sum_of_ne_nil (ne_nil_of_mem ha) _ _ h1
  rw [map_const', sum_replicate, nsmul_eq_mul, mul_one] at hA
  linarith

theorem sum_bumped {l b : List κ} [DecidablePred (· ∈ b)] (hl : l.Nodup) (hb : b.Nodup) (hsub : ∀ k ∈ b, k ∈ l) (g : κ → ℤ) :
    (l.map fun k => g k + if k ∈ b then 1 else 0).sum = (l.map g).sum + b.length := by
  have hones : (l.map fun k => if k ∈ b then (1 : ℤ) else 0).sum = (l.filter (· ∈ b)).length := by
    clear hl hsub
    induction l with
    | nil => rfl
    | cons k l ih =>
      rw [map_cons, sum_cons, ih, filter_cons]
      by_cases hk : k ∈ b
      · simp [hk, add_comm]
      · simp [hk]
  have hperm : (l.filter (· ∈ b)).Perm b := by
    refine (perm_ext_iff_of_nodup (hl.filter _) hb).mpr fun k => ?_
    simpa using hsub k
  rw [sum_map_add, hones, hperm.length_eq]

end Shares

end TokenBill.General
