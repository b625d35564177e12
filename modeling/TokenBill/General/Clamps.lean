import Mathlib.Algebra.Order.BigOperators.Group.List
import Mathlib.Algebra.Order.Group.Defs

/-!
# Sums of clamped amounts

Amounts clamped at zero one by one add up to no less than their sum clamped at zero. The two are the
same exactly when no amount is negative beside a positive one.
-/

namespace TokenBill.General

open List

variable {α M : Type} [AddCommGroup M] [LinearOrder M] [IsOrderedAddMonoid M]

/-- Sums of amounts below one another are equal when the amounts are. -/
theorem sum_eq_iff_of_le {f g : α → M} {xs : List α} (h : ∀ x ∈ xs, f x ≤ g x) :
    (xs.map f).sum = (xs.map g).sum ↔ ∀ x ∈ xs, f x = g x := by
  refine ⟨fun heq x hx => ?_, fun heq => by rw [map_congr_left heq]⟩
  by_contra hne
  exact (sum_lt_sum f g h ⟨x, hx, lt_of_le_of_ne (h x hx) hne⟩).ne heq

def Mixed (vs : List M) : Prop := (∃ v ∈ vs, v < 0) ∧ ∃ v ∈ vs, 0 < v

theorem clamp_sum_le (vs : List M) : max vs.sum 0 ≤ (vs.map fun v => max v 0).sum := by
  refine max_le ?_ (sum_nonneg fun v hv => ?_)
  · have h := sum_le_sum (l := vs) (f := id) (g := fun v => max v 0) fun v _ => le_max_left v 0
    rwa [map_id] at h
  · obtain ⟨w, -, rfl⟩ := mem_map.mp hv
    exact le_max_right w 0

/-- Clamping the sum is clamping the amounts, unless they are on both sides of zero. -/
theorem clamp_sum_eq_iff (vs : List M) : max vs.sum 0 = (vs.map fun v => max v 0).sum ↔ ¬ Mixed vs := by
  constructor
  · rintro heq ⟨⟨v, hv, hneg⟩, w, hw, hpos⟩
    -- the clamped amounts are above both of what the maximum is taken of
    have habove : vs.sum < (vs.map fun v => max v 0).sum := by
      have h := sum_lt_sum (l := vs) id (fun v => max v 0) (fun v _ => le_max_left v 0)
        ⟨v, hv, lt_max_of_lt_right hneg⟩
      rwa [map_id] at h
    have hzero : 0 < (vs.map fun v => max v 0).sum := by
      have h := sum_lt_sum (l := vs) (fun _ => 0) (fun v => max v 0) (fun v _ => le_max_right v 0)
        ⟨w, hw, lt_max_of_lt_left hpos⟩
      rwa [map_const', sum_replicate, nsmul_zero] at h
    exact (max_lt habove hzero).ne heq
  · intro h
    by_cases hneg : ∃ v ∈ vs, v < 0
    · have hle : ∀ v ∈ vs, v ≤ 0 := fun v hv => not_lt.mp fun hpos => h ⟨hneg, v, hv, hpos⟩
      have hsum : vs.sum ≤ 0 := by
        have h := sum_le_sum (l := vs) (f := id) (g := fun _ => (0 : M)) hle
        rwa [map_id, map_const', sum_replicate, nsmul_zero] at h
      rw [max_eq_right hsum, map_congr_left fun v hv => max_eq_right (hle v hv), map_const',
        sum_replicate, nsmul_zero]
    · have hge : ∀ v ∈ vs, 0 ≤ v := fun v hv => not_lt.mp fun hlt => hneg ⟨v, hv, hlt⟩
      rw [max_eq_left (sum_nonneg hge), map_congr_left fun v hv => max_eq_left (hge v hv), map_id']

end TokenBill.General
