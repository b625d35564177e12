import TokenBill.Core.Amounts
import TokenBill.Core.DecimalText

/-!
# Amounts from text

`core/money.py`: a decimal string in dollars, cents or credits is rounded once, half to even, to
nano-USD, and the remainder is returned beside it, exactly. The rounding of a computed line is
written a second time, in integers (`scaled_to_nano`, and `_line_nano` of `rates/engine.py`).

Both are the rounding of a rational number: `HalfEven q k` says that `k` is the integer nearest to
`q`, the even one of two.
-/

namespace TokenBill

open General

/-! ### Rounding a rational number -/

/-- `k` is the integer nearest to `q`, the even one of two. -/
def HalfEven (q : ℚ) (k : Int) : Prop := 2 * |q - k| < 1 ∨ 2 * |q - k| = 1 ∧ k % 2 = 0

/-- `_div_half_even` rounds the quotient. -/
theorem halfEven_divHalfEven (n : Int) {d : Int} (hd : 0 < d) : HalfEven (n / d) (divHalfEven n d) := by
  have h := (divHalfEven_eq_iff hd).mp (rfl : divHalfEven n d = _)
  generalize divHalfEven n d = k at h
  have hdQ : (0 : ℚ) < d := by exact_mod_cast hd
  have habs : |(n : ℚ) / d - k| = (|n - k * d| : Int) / d := by
    rw [show (n : ℚ) / d - k = (n - k * d) / d by field_simp, abs_div, abs_of_pos hdQ]
    push_cast
    rfl
  unfold HalfEven
  rw [habs, mul_div_assoc', div_lt_one hdQ, div_eq_one_iff_eq (ne_of_gt hdQ)]
  exact_mod_cast h

theorem HalfEven.unique {q : ℚ} {k l : Int} (hk : HalfEven q k) (hl : HalfEven q l) : k = l := by
  have hk' : 2 * |q - k| ≤ 1 := hk.elim le_of_lt fun h => h.1.le
  have hl' : 2 * |q - l| ≤ 1 := hl.elim le_of_lt fun h => h.1.le
  have htri : |(k : ℚ) - l| ≤ |q - l| + |q - k| := by
    rw [show (k : ℚ) - l = (q - l) - (q - k) by ring]
    exact abs_sub _ _
  have hle : |k - l| ≤ 1 := by
    have : |(k : ℚ) - l| ≤ 1 := by linarith
    exact_mod_cast this
  rcases hk with hk | ⟨hk, hke⟩
  · have : |(k : ℚ) - l| < 1 := by linarith
    have hlt : |k - l| < 1 := by exact_mod_cast this
    exact sub_eq_zero.mp (Int.abs_lt_one_iff.mp hlt)
  rcases hl with hl | ⟨hl, hle'⟩
  · have : |(k : ℚ) - l| < 1 := by linarith
    have hlt : |k - l| < 1 := by exact_mod_cast this
    exact sub_eq_zero.mp (Int.abs_lt_one_iff.mp hlt)
  · -- two even neighbours are one
    rw [abs_le] at hle
    omega

theorem halfEven_int (k : Int) : HalfEven k k := .inl (by simp)

theorem HalfEven.neg {q : ℚ} {k : Int} (h : HalfEven q k) : HalfEven (-q) (-k) := by
  have habs : |-q - ((-k : Int) : ℚ)| = |q - k| := by
    rw [← abs_neg]
    congr 1
    push_cast
    ring
  unfold HalfEven at h ⊢
  rw [habs]
  exact h.imp_right fun ⟨h1, h2⟩ => ⟨h1, by omega⟩

/-! ### Reading amounts -/

/-- What a conversion raises: a `ValueError` with its message, or an error of the decimal type. -/
inductive MoneyError where
  | value (message : String)
  | invalidOperation
  | inexact
  deriving DecidableEq

/-- An amount as it comes: a decimal string, or an integer. -/
inductive MoneyInput where
  | text (s : String)
  | int (n : Int)

/-- `_parse`. -/
def parseMoney (what : String) : MoneyInput → Except MoneyError DecimalTuple
  | .int n => .ok (.ofSigned n 0)
  | .text s =>
    match decimalOf (String.ofList (stripSpace s.toList)) with
    | none => .error (.value (what ++ ": not a decimal string"))
    | some .special => .error (.value (what ++ ": NaN and infinity are not money"))
    | some (.finite d) => .ok d

def keep (d : DecimalTuple) : Except MoneyError DecimalTuple :=
  if Representable d then .ok d else .error .invalidOperation

/-- `_shift`. -/
def shiftMoney (d : DecimalTuple) (places : Int) : Except MoneyError DecimalTuple := keep (d.shift places)

/-- `_MAX_NANO_EXP`. -/
def maxNanoExp : Int := 4000

/-- The coefficient of `x.quantize(1)`, half to even. -/
def quantized (x : DecimalTuple) : Nat :=
  if 0 ≤ x.exp then x.coeff * 10 ^ x.exp.toNat else (divHalfEven x.coeff (10 ^ (-x.exp).toNat)).toNat

/-- `int(x.quantize(1))` in a context of this precision. -/
def quantizeOne (precision : Int) (x : DecimalTuple) : Except MoneyError Int :=
  if ((Decimal.digits (quantized x)).length : Int) ≤ precision then .ok (Decimal.signed x.neg (quantized x))
  else .error .invalidOperation

/-- `_decimal_to_int_half_even`. -/
def decimalToIntHalfEven (d : DecimalTuple) (shift : Int) : Except MoneyError Int :=
  if d.coeff = 0 then .ok 0
  else do
    let x ← shiftMoney d shift
    if maxNanoExp ≤ x.adjusted then .error (.value "amount out of range")
    else if x.adjusted < -1 then .ok 0
    else quantizeOne (x.adjusted + 2) x

/-- `ctx.subtract(x, n)` in a context of this precision where an inexact result is an error. -/
def subtractExact (precision : Int) (x : DecimalTuple) (n : Int) : Except MoneyError DecimalTuple :=
  let exp := min x.exp 0
  let mant := x.signedCoeff * 10 ^ (x.exp - exp).toNat - n * 10 ^ (-exp).toNat
  let extra := ((Decimal.digits mant.natAbs).length - precision).toNat
  if mant % 10 ^ extra = 0 then keep (.ofSigned (mant / 10 ^ extra) (exp + extra)) else .error .inexact

/-- `_to_nano_with_remainder`. -/
def toNanoWithRemainder (amountUsd : DecimalTuple) : Except MoneyError (Int × DecimalTuple) := do
  let nano ← decimalToIntHalfEven amountUsd 9
  if nano = 0 then .ok (0, amountUsd)
  else
    let scaled ← shiftMoney amountUsd 9
    let precision := scaled.width + |scaled.exp| + (DecimalTuple.ofSigned nano 0).adjusted + 3
    if maxPrec < precision then .error (.value "valid range for prec is [1, MAX_PREC]")
    else do
      let remainderScaled ← subtractExact precision scaled nano
      let remainder ← shiftMoney remainderScaled (-9)
      .ok (nano, remainder)

/-- `from_cents`. -/
def fromCents (value : MoneyInput) : Except MoneyError DecimalTuple := do
  shiftMoney (← parseMoney "from_cents" value) (-2)

/-- `cents_to_nano`. -/
def centsToNano (value : MoneyInput) : Except MoneyError (Int × DecimalTuple) := do
  toNanoWithRemainder (← fromCents value)

/-- `usd_str_to_nano`. -/
def usdStrToNano (value : String) : Except MoneyError (Int × DecimalTuple) := do
  toNanoWithRemainder (← parseMoney "usd" (.text value))

/-- `credits_str_to_nano`. -/
def creditsStrToNano (value : String) : Except MoneyError (Int × DecimalTuple) := do
  toNanoWithRemainder (← shiftMoney (← parseMoney "credits_str_to_nano" (.text value)) (-2))

/-- `decimal_to_nano` of a finite number. -/
def decimalToNano (amountUsd : DecimalTuple) : Except MoneyError Int := decimalToIntHalfEven amountUsd 9

/-- `nano_to_credits_str`. -/
def nanoToCreditsStr (nano : Int) : String :=
  let sign := if nano < 0 then "-" else ""
  let whole := nano.natAbs / 10 ^ 7
  let frac := nano.natAbs % 10 ^ 7
  if frac = 0 then sign ++ toString whole
  else sign ++ toString whole ++ "." ++ String.ofList (stripZerosRight (Decimal.padded 7 frac))

/-- `scaled_to_nano`. -/
def scaledToNano (amountScaled scaleExp : Int) : Int :=
  let shift := 9 - scaleExp
  if 0 ≤ shift then amountScaled * 10 ^ shift.toNat else divHalfEven amountScaled (10 ^ (-shift).toNat)

/-- `_line_nano`: the rate is `n × 10^e`, so the line is `tokens × n` at scale `6 − e`. -/
def lineNano (tokens : Int) (usdPerMtok : DecimalTuple) : Int :=
  scaledToNano (tokens * usdPerMtok.signedCoeff) (6 - usdPerMtok.exp)

example : (usdStrToNano "-0.0000000125", centsToNano (.int 3), nanoToCreditsStr (-427262130),
    lineNano 1001 ⟨false, 25, -2⟩) =
    (.ok (-12, ⟨true, 5, -10⟩), .ok (30000000, ⟨false, 0, -9⟩), "-42.726213", 250250) := by
  decide

end TokenBill
