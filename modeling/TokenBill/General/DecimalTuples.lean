import TokenBill.General.Decimals
import Mathlib.Algebra.Order.Field.Power

/-!
# Decimal numbers with an exponent

A sign, an integer coefficient and a power of ten. Many of them have one value (`1.50` and
`1.5`), and arithmetic on them is bounded by the digits of the coefficient, so they are told apart.
-/

namespace TokenBill.General

/-- The number `± coeff × 10 ^ exp`. -/
structure DecimalTuple where
  neg : Bool
  coeff : Nat
  exp : Int
  deriving DecidableEq

namespace DecimalTuple

def signedCoeff (d : DecimalTuple) : Int := Decimal.signed d.neg d.coeff

def toRat (d : DecimalTuple) : ℚ := d.signedCoeff * 10 ^ d.exp

def width (d : DecimalTuple) : Nat := (Decimal.digits d.coeff).length

def adjusted (d : DecimalTuple) : Int := d.exp + d.width - 1

def shift (d : DecimalTuple) (places : Int) : DecimalTuple := { d with exp := d.exp + places }

def ofSigned (mant exp : Int) : DecimalTuple := ⟨decide (mant < 0), mant.natAbs, exp⟩

@[simp] theorem coeff_shift (d : DecimalTuple) (places : Int) : (d.shift places).coeff = d.coeff := rfl
@[simp] theorem exp_shift (d : DecimalTuple) (places : Int) : (d.shift places).exp = d.exp + places := rfl
@[simp] theorem signedCoeff_shift (d : DecimalTuple) (places : Int) :
    (d.shift places).signedCoeff = d.signedCoeff := rfl

theorem toRat_shift (d : DecimalTuple) (places : Int) : (d.shift places).toRat = d.toRat * 10 ^ places := by
  unfold toRat
  rw [signedCoeff_shift, exp_shift, zpow_add₀ (by norm_num), mul_assoc]

theorem adjusted_shift (d : DecimalTuple) (places : Int) : (d.shift places).adjusted = d.adjusted + places := by
  unfold adjusted width
  rw [exp_shift, coeff_shift]
  ring

theorem signedCoeff_ofSigned (mant exp : Int) : (ofSigned mant exp).signedCoeff = mant := by
  unfold signedCoeff ofSigned Decimal.signed
  dsimp only
  split
  · rename_i h
    have hneg := of_decide_eq_true h
    omega
  · rename_i h
    have hneg := of_decide_eq_false (Bool.not_eq_true _ ▸ h)
    omega

theorem toRat_ofSigned (mant exp : Int) : (ofSigned mant exp).toRat = mant * 10 ^ exp := by
  unfold toRat
  rw [signedCoeff_ofSigned]
  rfl

theorem abs_signedCoeff (d : DecimalTuple) : |d.signedCoeff| = d.coeff := by
  unfold signedCoeff Decimal.signed
  split <;> simp

theorem abs_toRat (d : DecimalTuple) : |d.toRat| = d.coeff * 10 ^ d.exp := by
  unfold toRat
  rw [abs_mul, abs_of_pos (zpow_pos (by norm_num : (0 : ℚ) < 10) _), ← Int.cast_abs, abs_signedCoeff]
  rfl

theorem toRat_eq_zero {d : DecimalTuple} : d.toRat = 0 ↔ d.coeff = 0 := by
  rw [← abs_eq_zero, abs_toRat, mul_eq_zero, Nat.cast_eq_zero, or_iff_left (zpow_ne_zero _ (by norm_num))]

theorem width_pos (d : DecimalTuple) : 0 < d.width := List.length_pos_iff.mpr (Decimal.digits_ne_nil d.coeff)

theorem coeff_lt (d : DecimalTuple) : d.coeff < 10 ^ d.width :=
  (Nat.length_toDigits_le_iff (by omega) d.width_pos).mp (le_refl _)

theorem le_coeff {d : DecimalTuple} (h : d.coeff ≠ 0) : 10 ^ (d.width - 1) ≤ d.coeff := by
  rcases Nat.eq_zero_or_pos (d.width - 1) with hw | hw
  · rw [hw]
    exact Nat.one_le_iff_ne_zero.mpr h
  · by_contra hlt
    have hle : d.width ≤ d.width - 1 := Decimal.length_digits_le hw (not_le.mp hlt)
    omega

/-- A number lies below the power of ten after its first digit. -/
theorem abs_toRat_lt (d : DecimalTuple) : |d.toRat| < 10 ^ (d.adjusted + 1) := by
  have hexp : d.adjusted + 1 = d.width + d.exp := by
    unfold adjusted
    ring
  rw [abs_toRat, hexp, zpow_add₀ (by norm_num), zpow_natCast]
  exact mul_lt_mul_of_pos_right (by exact_mod_cast d.coeff_lt) (zpow_pos (by norm_num) _)

/-- A number other than zero is at least the power of ten of its first digit. -/
theorem le_abs_toRat {d : DecimalTuple} (h : d.coeff ≠ 0) : (10 : ℚ) ^ d.adjusted ≤ |d.toRat| := by
  have hw := d.width_pos
  have hexp : d.adjusted = (d.width - 1 : Nat) + d.exp := by
    unfold adjusted
    omega
  rw [abs_toRat, hexp, zpow_add₀ (by norm_num), zpow_natCast]
  exact mul_le_mul_of_nonneg_right (by exact_mod_cast le_coeff h) (zpow_pos (by norm_num) _).le

/-- Numbers of one value other than zero have their first digit in one place. -/
theorem adjusted_lt_iff {d : DecimalTuple} (h : d.coeff ≠ 0) (k : Int) :
    d.adjusted < k ↔ |d.toRat| < 10 ^ k := by
  constructor
  · intro hlt
    exact d.abs_toRat_lt.trans_le (zpow_le_zpow_right₀ (by norm_num) hlt)
  · intro hlt
    exact (zpow_lt_zpow_iff_right₀ (by norm_num)).mp ((le_abs_toRat h).trans_lt hlt)

end DecimalTuple

end TokenBill.General
