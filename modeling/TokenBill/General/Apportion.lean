import TokenBill.General.Shapley

/-!
# Splitting an integer by weights

The largest-remainder rule: each weight gets its share rounded down, and the units that are missing go
to the largest remainders, the first of equal ones first. The parts add up to the whole, and each is its
share rounded down, or up where the share is not whole.
-/

namespace TokenBill.General

open List

/-- The order in which weights at their places get a unit more. -/
def rankLe (total den : Int) (a b : Int × Nat) : Prop :=
  total * b.1 % den < total * a.1 % den ∨ total * a.1 % den = total * b.1 % den ∧ a.2 ≤ b.2

instance (total den : Int) : DecidableRel (rankLe total den) := fun _ _ => inferInstanceAs (Decidable (_ ∨ _))

def missing (total : Int) (weights : List Int) : Int :=
  total - (weights.map fun w => total * w / weights.sum).sum

def bumped (total : Int) (weights : List Int) : List (Int × Nat) :=
  (weights.zipIdx.insertionSort (rankLe total weights.sum)).take (missing total weights).toNat

def apportion (total : Int) (weights : List Int) : List Int :=
  weights.zipIdx.map fun k => total * k.1 / weights.sum + if k ∈ bumped total weights then 1 else 0

example : apportion 10 [6, 6, 2] = [4, 4, 2] ∧ apportion 11 [6, 6, 2] = [5, 5, 1] := by decide

@[simp] theorem length_apportion (total : Int) (weights : List Int) :
    (apportion total weights).length = weights.length := by
  simp [apportion]

/-! ### The missing units -/

variable {total : Int} {weights : List Int}

instance (total den : Int) : Std.Total (rankLe total den) := ⟨fun a b => by
  unfold rankLe
  omega⟩

instance (total den : Int) : IsTrans (Int × Nat) (rankLe total den) := ⟨fun a b c => by
  unfold rankLe
  omega⟩

/-- The shares rounded down and what rounding takes from them are the whole, for every denominator. -/
theorem mul_sum_floors (total den : Int) (l : List Int) :
    den * (l.map fun w => total * w / den).sum + (l.map fun w => total * w % den).sum = total * l.sum := by
  induction l with
  | nil => simp
  | cons w l ih =>
    simp only [map_cons, sum_cons]
    have hw := Int.mul_ediv_add_emod (total * w) den
    linarith

theorem mul_missing (total : Int) (weights : List Int) :
    weights.sum * missing total weights = (weights.map fun w => total * w % weights.sum).sum := by
  have h := mul_sum_floors total weights.sum weights
  unfold missing
  linarith

theorem sum_mods_bounds {den : Int} (hden : 0 < den) (total : Int) (l : List Int) :
    0 ≤ (l.map fun w => total * w % den).sum ∧ (l.map fun w => total * w % den).sum ≤ den * l.length := by
  induction l with
  | nil => simp
  | cons w l ih =>
    have h0 := Int.emod_nonneg (total * w) hden.ne'
    have h1 := Int.emod_lt_of_pos (total * w) hden
    simp only [map_cons, sum_cons, length_cons, Nat.cast_add, Nat.cast_one]
    constructor <;> linarith

theorem missing_bounds (hden : 0 < weights.sum) : 0 ≤ missing total weights ∧ missing total weights ≤ weights.length := by
  have h := mul_missing total weights
  obtain ⟨h0, h1⟩ := sum_mods_bounds hden total weights
  constructor
  · exact nonneg_of_mul_nonneg_right (h ▸ h0) hden
  · exact le_of_mul_le_mul_left (h ▸ h1) hden

/-! ### The parts -/

theorem nodup_zipIdx (l : List Int) : l.zipIdx.Nodup := by
  refine List.Nodup.of_map Prod.snd ?_
  rw [zipIdx_map_snd]
  exact nodup_range'

theorem map_fst_zipIdx (l : List Int) (f : Int → Int) : (l.zipIdx.map fun k => f k.1) = l.map f := by
  conv_rhs => rw [← zipIdx_map_fst 0 l, map_map]
  rfl

theorem perm_order (total : Int) (weights : List Int) :
    (weights.zipIdx.insertionSort (rankLe total weights.sum)).Perm weights.zipIdx := perm_insertionSort _ _

theorem length_bumped (hden : 0 < weights.sum) : (bumped total weights).length = (missing total weights).toNat := by
  have hbounds : 0 ≤ missing total weights ∧ missing total weights ≤ weights.length := missing_bounds hden
  unfold bumped
  rw [length_take, (perm_order total weights).length_eq, length_zipIdx]
  omega

theorem sum_apportion (hden : 0 < weights.sum) : (apportion total weights).sum = total := by
  have hperm := perm_order total weights
  have hsub : ∀ k ∈ bumped total weights, k ∈ weights.zipIdx := fun k hk =>
    hperm.mem_iff.mp (mem_of_mem_take hk)
  have hnodup : (bumped total weights).Nodup :=
    (hperm.nodup_iff.mpr (nodup_zipIdx weights)).sublist (take_sublist _ _)
  have hsum := sum_bumped (nodup_zipIdx weights) hnodup hsub fun k => total * k.1 / weights.sum
  have hfloors := map_fst_zipIdx weights fun w => total * w / weights.sum
  unfold apportion
  rw [hsum, hfloors, length_bumped hden]
  have hbounds : 0 ≤ missing total weights ∧ missing total weights ≤ weights.length := missing_bounds hden
  unfold missing at hbounds ⊢
  omega

/-- A unit more goes to shares that are not whole. -/
theorem mod_pos_of_bumped (hden : 0 < weights.sum) {k : Int × Nat} (hk : k ∈ bumped total weights) :
    0 < total * k.1 % weights.sum := by
  set den := weights.sum with hdef
  have hcast : (0 : ℚ) < den := by exact_mod_cast hden
  set order := weights.zipIdx.insertionSort (rankLe total den)
  have hsorted : order.Pairwise (rankLe total den) := pairwise_insertionSort _ _
  rw [← take_append_drop (missing total weights).toNat order, pairwise_append] at hsorted
  set g : Int × Nat → ℚ := fun k => ((total * k.1 % den : Int) : ℚ) / den
  have hsum : ∀ l : List (Int × Nat), (l.map g).sum = (((l.map fun k => total * k.1 % den).sum : Int) : ℚ) / den :=
    fun l => by
      induction l with
      | nil => simp
      | cons k l ih =>
        simp only [map_cons, sum_cons, ih, Int.cast_add, add_div]
        rfl
  have hmods : ((order.take (missing total weights).toNat).map fun k => total * k.1 % den).sum +
      ((order.drop (missing total weights).toNat).map fun k => total * k.1 % den).sum = den * missing total weights := by
    rw [← sum_append, ← map_append, take_append_drop, ((perm_order total weights).map _).sum_eq,
      hdef, mul_missing, map_fst_zipIdx weights fun w => total * w % weights.sum]
  have hlen : ((bumped total weights).length : Int) = missing total weights := by
    rw [length_bumped hden]
    exact Int.toNat_of_nonneg (missing_bounds hden).1
  have hpos := pos_of_first (A := bumped total weights) (B := order.drop (missing total weights).toNat) (g := g)
    (fun k _ => div_nonneg (by exact_mod_cast Int.emod_nonneg _ hden.ne') hcast.le)
    (fun k _ => by
      rw [div_lt_one hcast]
      exact_mod_cast Int.emod_lt_of_pos _ hden)
    (fun a ha b hb => by
      refine div_le_div_of_nonneg_right ?_ hcast.le
      exact_mod_cast (hsorted.2.2 a ha b hb).elim (fun h => h.le) (fun h => h.1.ge))
    (by
      rw [hsum, hsum, ← add_div, ← Int.cast_add, div_eq_iff hcast.ne']
      rw [show (bumped total weights).map (fun k => total * k.1 % den) =
        (order.take (missing total weights).toNat).map (fun k => total * k.1 % den) from rfl, hmods, ← hlen]
      push_cast
      ring)
  have hdiv := hpos k hk
  rw [div_pos_iff_of_pos_right hcast] at hdiv
  exact_mod_cast hdiv

/-- What a part is: its share rounded down, or up where the share is not whole. -/
def Rounded (total den w part : Int) : Prop :=
  part = total * w / den ∨ part = total * w / den + 1 ∧ 0 < total * w % den

theorem apportion_rounded (hden : 0 < weights.sum) :
    List.Forall₂ (Rounded total weights.sum) weights (apportion total weights) := by
  conv =>
    lhs
    rw [← zipIdx_map_fst 0 weights]
  unfold apportion
  rw [forall₂_map_left_iff, forall₂_map_right_iff, forall₂_same]
  intro k hk
  split_ifs with hb
  · exact .inr ⟨rfl, mod_pos_of_bumped hden hb⟩
  · exact .inl (add_zero _)

theorem Rounded.nonneg {den w part : Int} (h : Rounded total den w part) (hden : 0 < den) (ht : 0 ≤ total)
    (hw : 0 ≤ w) : 0 ≤ part := by
  have hfloor : 0 ≤ total * w / den := Int.ediv_nonneg (mul_nonneg ht hw) hden.le
  rcases h with rfl | ⟨rfl, -⟩ <;> omega

end TokenBill.General
