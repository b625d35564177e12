import TokenBill.General.Decimals
import Mathlib.Algebra.Order.BigOperators.Group.List
import Mathlib.Algebra.Order.Field.Power

/-!
# Exact arithmetic of decimal fractions

Sums, differences and products of decimal fractions are decimal fractions. The fractions are
ordered by their values.
-/

namespace TokenBill.General.Decimal

theorem toRat_rescale {d : Decimal} {scale : ℕ} (h : d.scale ≤ scale) :
    d.toRat = (d.mant * 10 ^ (scale - d.scale) : ℤ) / 10 ^ scale := by
  obtain ⟨t, rfl⟩ := Nat.exists_eq_add_of_le h
  unfold toRat
  rw [Nat.add_sub_cancel_left, pow_add]
  push_cast
  field_simp

instance : Zero Decimal := ⟨ofInt 0⟩

instance : Add Decimal := ⟨fun a b =>
  let scale := max a.scale b.scale
  ofScaled (a.mant * 10 ^ (scale - a.scale) + b.mant * 10 ^ (scale - b.scale)) scale⟩

instance : Neg Decimal := ⟨fun a => ofScaled (-a.mant) a.scale⟩

instance : Mul Decimal := ⟨fun a b => ofScaled (a.mant * b.mant) (a.scale + b.scale)⟩

theorem toRat_ofInt (n : ℤ) : (ofInt n).toRat = n := by
  show ((n : ℚ) / 10 ^ 0) = n
  rw [pow_zero, div_one]

@[simp] theorem toRat_zero : (0 : Decimal).toRat = 0 := by
  show (ofInt 0).toRat = 0
  rw [toRat_ofInt, Int.cast_zero]

@[simp] theorem toRat_add (a b : Decimal) : (a + b).toRat = a.toRat + b.toRat := by
  show (ofScaled _ _).toRat = _
  rw [toRat_ofScaled, toRat_rescale (le_max_left a.scale b.scale), toRat_rescale (le_max_right a.scale b.scale),
    ← add_div, Int.cast_add]

@[simp] theorem toRat_neg (a : Decimal) : (-a).toRat = -a.toRat := by
  show (ofScaled _ _).toRat = _
  rw [toRat_ofScaled, Int.cast_neg, neg_div]
  rfl

@[simp] theorem toRat_mul (a b : Decimal) : (a * b).toRat = a.toRat * b.toRat := by
  show (ofScaled _ _).toRat = _
  rw [toRat_ofScaled, Int.cast_mul, pow_add, mul_div_mul_comm]
  rfl

instance : AddCommGroup Decimal where
  add_assoc a b c := toRat_injective (by rw [toRat_add, toRat_add, toRat_add, toRat_add, add_assoc])
  zero_add a := toRat_injective (by rw [toRat_add, toRat_zero, zero_add])
  add_zero a := toRat_injective (by rw [toRat_add, toRat_zero, add_zero])
  add_comm a b := toRat_injective (by rw [toRat_add, toRat_add, add_comm])
  neg_add_cancel a := toRat_injective (by rw [toRat_add, toRat_neg, toRat_zero, neg_add_cancel])
  nsmul := nsmulRec
  zsmul := zsmulRec

/-- Fractions are ordered by their values. -/
instance : LinearOrder Decimal := LinearOrder.lift' toRat toRat_injective

theorem le_iff {a b : Decimal} : a ≤ b ↔ a.toRat ≤ b.toRat := Iff.rfl

instance : IsOrderedAddMonoid Decimal where
  add_le_add_left a b h c := by
    rw [le_iff, toRat_add, toRat_add]
    exact add_le_add_left (le_iff.mp h) _

end TokenBill.General.Decimal

/-!
## Decimal arithmetic of a bounded precision

A context has a number of significant digits and a rounding. A sum is rounded to the digits of
the context, so it is exact when it fits: when it is a number of so many digits times a power of
ten. A running sum is exact when every partial sum fits.
-/

namespace TokenBill.General.Decimal

/-- A precision, and a rounding of quotients that leaves those that are integers. -/
structure Context where
  precision : ℕ
  pos : 0 < precision
  round : ℤ → ℤ → ℤ
  exact : ∀ k d, 0 < d → round (k * d) d = k

variable (c : Context)

/-- The fraction `mant / 10 ^ scale`, rounded to the digits of the context. -/
def Context.fix (mant : ℤ) (scale : ℕ) : Decimal :=
  let extra := (digits mant.natAbs).length - c.precision
  let q := c.round mant (10 ^ extra)
  if extra ≤ scale then ofScaled q (scale - extra) else ofInt (q * 10 ^ (extra - scale))

def Context.add (a b : Decimal) : Decimal :=
  let scale := max a.scale b.scale
  c.fix (a.mant * 10 ^ (scale - a.scale) + b.mant * 10 ^ (scale - b.scale)) scale

/-- A number of at most so many digits, times a power of ten. -/
def Fits (precision : ℕ) (q : ℚ) : Prop := ∃ m e : ℤ, m.natAbs < 10 ^ precision ∧ q = m * 10 ^ e

def SumsFit (precision : ℕ) (start : ℚ) : List ℚ → Prop
  | [] => True
  | x :: xs => Fits precision (start + x) ∧ SumsFit precision (start + x) xs

/-- The digits that are dropped of a fraction that fits are zeros. -/
theorem pow_dvd_of_fits {precision : ℕ} (hpos : 0 < precision) {mant : ℤ} {scale : ℕ}
    (h : Fits precision (mant / 10 ^ scale)) :
    (10 : ℤ) ^ ((digits mant.natAbs).length - precision) ∣ mant := by
  obtain ⟨m, e, hm, he⟩ := h
  generalize hextra : (digits mant.natAbs).length - precision = extra
  rcases Nat.eq_zero_or_pos extra with rfl | hext
  · rw [pow_zero]
    exact one_dvd mant
  have hmant : (mant : ℚ) = m * 10 ^ (e + scale) := by
    rw [zpow_add₀ (by norm_num), zpow_natCast, ← mul_assoc, ← he]
    field_simp
  by_cases hj : (extra : ℤ) ≤ e + scale
  · refine ⟨m * 10 ^ (e + scale - extra).toNat, ?_⟩
    have hcast : (mant : ℚ) = ((10 ^ extra * (m * 10 ^ (e + scale - extra).toNat) : ℤ) : ℚ) := by
      push_cast
      rw [hmant, ← zpow_natCast (10 : ℚ) (e + scale - extra).toNat, Int.toNat_of_nonneg (by omega),
        zpow_sub₀ (by norm_num), zpow_natCast]
      field_simp
    exact_mod_cast hcast
  · -- otherwise the number has too few digits
    exfalso
    have hlarge : 10 ^ (precision + extra - 1) ≤ mant.natAbs := by
      by_contra hlt
      have hle : (digits mant.natAbs).length ≤ precision + extra - 1 := length_digits_le (by omega) (not_le.mp hlt)
      omega
    have hsmall : |(mant : ℚ)| < 10 ^ (precision + extra - 1) := by
      have hpow : (10 : ℚ) ^ (e + scale) ≤ 10 ^ (extra - 1 : ℤ) := zpow_le_zpow_right₀ (by norm_num) (by omega)
      have hmQ : |(m : ℚ)| < 10 ^ precision := by
        rw [← Int.cast_abs, Int.abs_eq_natAbs]
        exact_mod_cast hm
      calc |(mant : ℚ)| = |(m : ℚ)| * 10 ^ (e + scale) := by
            rw [hmant, abs_mul, abs_of_pos (zpow_pos (by norm_num : (0 : ℚ) < 10) _)]
        _ < 10 ^ precision * 10 ^ (e + scale) := by
            exact mul_lt_mul_of_pos_right hmQ (zpow_pos (by norm_num) _)
        _ ≤ 10 ^ precision * 10 ^ (extra - 1 : ℤ) := mul_le_mul_of_nonneg_left hpow (by positivity)
        _ = 10 ^ (precision + extra - 1) := by
            rw [← zpow_natCast, ← zpow_natCast, ← zpow_add₀ (by norm_num)]
            congr 1
            omega
    have hcast : |(mant : ℚ)| = (mant.natAbs : ℚ) := by
      rw [← Int.cast_abs, Int.abs_eq_natAbs]
      rfl
    rw [hcast] at hsmall
    exact absurd (show mant.natAbs < 10 ^ (precision + extra - 1) by exact_mod_cast hsmall) (not_lt.mpr hlarge)

/-- A fraction that fits is not changed. -/
theorem Context.toRat_fix {mant : ℤ} {scale : ℕ} (h : Fits c.precision (mant / 10 ^ scale)) :
    (c.fix mant scale).toRat = mant / 10 ^ scale := by
  unfold Context.fix
  obtain ⟨q, hq⟩ := pow_dvd_of_fits c.pos h
  generalize (digits mant.natAbs).length - c.precision = extra at hq
  dsimp only
  rw [hq, mul_comm, c.exact q _ (by positivity)]
  split
  · rename_i hle
    rw [toRat_ofScaled]
    obtain ⟨d, rfl⟩ := Nat.exists_eq_add_of_le hle
    rw [Nat.add_sub_cancel_left, pow_add]
    push_cast
    field_simp
  · rename_i hlt
    obtain ⟨d, rfl⟩ := Nat.exists_eq_add_of_le (Nat.le_of_not_le hlt)
    show ((q * 10 ^ (scale + d - scale) : ℤ) : ℚ) / 10 ^ 0 = _
    rw [Nat.add_sub_cancel_left, pow_add]
    push_cast
    field_simp

theorem Context.toRat_add {a b : Decimal} (h : Fits c.precision (a.toRat + b.toRat)) :
    (c.add a b).toRat = a.toRat + b.toRat := by
  have hscaled : ∀ {d : Decimal} {scale : ℕ}, d.scale ≤ scale →
      d.toRat = (d.mant * 10 ^ (scale - d.scale) : ℤ) / 10 ^ scale := by
    intro d scale hle
    obtain ⟨t, rfl⟩ := Nat.exists_eq_add_of_le hle
    unfold toRat
    rw [Nat.add_sub_cancel_left, pow_add]
    push_cast
    field_simp
  have hsum : a.toRat + b.toRat = ((a.mant * 10 ^ (max a.scale b.scale - a.scale) +
      b.mant * 10 ^ (max a.scale b.scale - b.scale) : ℤ) : ℚ) / 10 ^ max a.scale b.scale := by
    rw [hscaled (le_max_left a.scale b.scale), hscaled (le_max_right a.scale b.scale), ← add_div, Int.cast_add]
  rw [hsum] at h ⊢
  exact c.toRat_fix h

/-- A running sum whose partial sums fit is exact. -/
theorem Context.toRat_foldl {start : Decimal} {xs : List Decimal}
    (h : SumsFit c.precision start.toRat (xs.map toRat)) :
    (xs.foldl c.add start).toRat = start.toRat + (xs.map toRat).sum := by
  induction xs generalizing start with
  | nil => simp
  | cons x xs ih =>
    obtain ⟨hx, hxs⟩ := h
    have hadd := c.toRat_add hx
    rw [List.foldl_cons, ih (by rw [hadd]; exact hxs), hadd, List.map_cons, List.sum_cons, add_assoc]

end TokenBill.General.Decimal
