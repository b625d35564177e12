import Mathlib.Data.Rat.Floor

/-!
# Money arithmetic

`core/money.py`: amounts are integers of nano-USD, a rounding is half to even, and a
display form has two places and separators of thousands.
-/

namespace TokenBill

/-- `NANO_PER_USD`. -/
def nanoPerUsd : Int := 10 ^ 9

/-- `_div_half_even`: `n / d` rounded half to even, for positive `d`. -/
def divHalfEven (n d : Int) : Int :=
  let q := n / d
  let twice := 2 * (n % d)
  if twice > d ∨ twice = d ∧ q % 2 = 1 then q + 1 else q

example : [5, 15, 25, -5, -15, 26].map (divHalfEven · 10) = [0, 2, 2, 0, -2, 3] := by decide

/-- The rounding of `n / d` is the integer nearest to it, the even one of two. -/
theorem divHalfEven_eq_iff {n d k : Int} (hd : 0 < d) :
    divHalfEven n d = k ↔ 2 * |n - k * d| < d ∨ 2 * |n - k * d| = d ∧ k % 2 = 0 := by
  have hsplit : n = d * (n / d) + n % d := (Int.mul_ediv_add_emod n d).symm
  have hr0 := Int.emod_nonneg n (ne_of_gt hd)
  have hrd := Int.emod_lt_of_pos n hd
  unfold divHalfEven
  dsimp only
  generalize n / d = q at hsplit ⊢
  generalize n % d = r at hsplit hr0 hrd ⊢
  -- `k` is `q`, or `q + 1`, or too far away
  rcases lt_trichotomy k q with hk | rfl | hk
  · have hfar : d ≤ n - k * d := by nlinarith
    rw [abs_of_nonneg (by omega)]
    split <;> omega
  · have hdist : n - k * d = r := by rw [hsplit]; ring
    rw [hdist, abs_of_nonneg hr0]
    split <;> omega
  · rcases (Int.add_one_le_of_lt hk).eq_or_lt with rfl | hk
    · have hdist : n - (q + 1) * d = r - d := by rw [hsplit]; ring
      rw [hdist, abs_of_nonpos (by omega)]
      split <;> omega
    · have hfar : d < k * d - n := by nlinarith
      rw [abs_of_nonpos (by omega)]
      split <;> omega

/-- A quotient that is an integer is not rounded. -/
theorem divHalfEven_mul {n d : Int} (hd : 0 < d) : divHalfEven (n * d) d = n :=
  (divHalfEven_eq_iff hd).mpr (Or.inl (by simpa using hd))

/-- It is not below an integer that `n / d` is not below. -/
theorem le_divHalfEven {n d k : Int} (hd : 0 < d) (h : k * d ≤ n) : k ≤ divHalfEven n d := by
  have hk := (Int.le_ediv_iff_mul_le hd).mpr h
  unfold divHalfEven
  dsimp only
  split <;> omega

theorem divHalfEven_mono {n m d : Int} (hd : 0 < d) (h : n ≤ m) : divHalfEven n d ≤ divHalfEven m d := by
  have hn := (divHalfEven_eq_iff hd).mp (rfl : divHalfEven n d = _)
  have hm := (divHalfEven_eq_iff hd).mp (rfl : divHalfEven m d = _)
  by_contra hlt
  have hk : divHalfEven m d + 1 ≤ divHalfEven n d := by omega
  have hkd : (divHalfEven m d + 1) * d ≤ divHalfEven n d * d := Int.mul_le_mul_of_nonneg_right hk hd.le
  rw [Int.add_mul, Int.one_mul] at hkd
  have h1 := neg_abs_le (n - divHalfEven n d * d)
  have h2 := le_abs_self (m - divHalfEven m d * d)
  -- both lie half way between the same two multiples of `d`
  have heq : n = m := by omega
  rw [heq] at hk
  omega

/-! ### Display -/

/-- `f"{n:,}"`: the digits of `n` in groups of three. -/
def withCommas (n : Nat) : String :=
  let digits := (Nat.toDigits 10 n).reverse
  let grouped := digits.zipIdx.flatMap fun (d, i) => if i % 3 = 0 ∧ i ≠ 0 then [',', d] else [d]
  String.ofList grouped.reverse

/-- `fmt_usd`, with the two places of its default. -/
def fmtUsd (nano : Int) : String :=
  let units := divHalfEven nano (10 ^ 7)
  let cents := Nat.toDigits 10 (units.natAbs % 100)
  (if units < 0 then "-" else "") ++ "$" ++ withCommas (units.natAbs / 100) ++ "." ++
    String.ofList (List.replicate (2 - cents.length) '0' ++ cents)

example : [1234567890000, -500000000].map fmtUsd = ["$1,234.57", "-$0.50"] := by decide

/-- The ceiling of `n / d` as the source writes it: `-(-n // d)`. -/
def ceilDiv (n d : Int) : Int := -((-n) / d)

theorem le_ceilDiv_mul (n : Int) {d : Int} (hd : 0 < d) : n ≤ ceilDiv n d * d := by
  have h := Int.ediv_mul_le (-n) (ne_of_gt hd)
  unfold ceilDiv
  rw [Int.neg_mul]
  omega

end TokenBill
