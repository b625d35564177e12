import TokenBill.Core.Money
import TokenBill.General.Decimals
import Mathlib.Data.Nat.Log

/-!
# Amounts as text

The exact text of an amount, `nano_to_usd_str` of `core/money.py`, and the decimal texts a
quotient is shown with: `ratio` has 28 significant digits, `quantize` a number of places, and
`normalize` drops the zeros at the end. A decimal number is an integer times a power of ten.
-/

namespace TokenBill

open General

/-! ### The exact text of an amount -/

/-- `str.rstrip("0")`. -/
def stripZerosRight (cs : List Char) : List Char := (cs.reverse.dropWhile (· = '0')).reverse

/-- `nano_to_usd_str`. -/
def nanoToUsdStr (nano : Int) : String :=
  let sign := if nano < 0 then "-" else ""
  let whole := nano.natAbs / 10 ^ 9
  let frac := nano.natAbs % 10 ^ 9
  if frac = 0 then sign ++ toString whole
  else sign ++ toString whole ++ "." ++ String.ofList (stripZerosRight (Decimal.padded 9 frac))

example : [1500000, 2000000000, -500000000, 0].map nanoToUsdStr = ["0.0015", "2", "-0.5", "0"] := by decide

/-- The amount a text shows: nothing shows none. -/
def amountOfText (text : String) : ℚ :=
  match Decimal.read text.toList with
  | some (d, []) => d.toRat
  | _ => 0

theorem amountOfText_text (d : Decimal) : amountOfText (String.ofList d.text) = d.toRat := by
  have hstops : Decimal.Stops [] := fun _ h => by cases h
  have hread := Decimal.read_text d hstops
  rw [List.append_nil] at hread
  unfold amountOfText
  rw [String.toList_ofList, hread]

theorem stripZerosRight_zero (cs : List Char) : stripZerosRight (cs ++ ['0']) = stripZerosRight cs := by
  simp [stripZerosRight]

theorem stripZerosRight_other {cs : List Char} {c : Char} (hc : c ≠ '0') :
    stripZerosRight (cs ++ [c]) = cs ++ [c] := by
  simp [stripZerosRight, hc]

theorem padded_succ {width n : Nat} (hw : 0 < width) :
    Decimal.padded (width + 1) n = Decimal.padded width (n / 10) ++ [(n % 10).digitChar] := by
  unfold Decimal.padded Decimal.digits
  by_cases hn : n < 10
  · have hdiv : n / 10 = 0 := Nat.div_eq_of_lt hn
    rw [Nat.toDigits_of_lt_base hn, hdiv, Nat.mod_eq_of_lt hn]
    obtain ⟨w, rfl⟩ := Nat.exists_eq_succ_of_ne_zero (by omega : width ≠ 0)
    have hzero : Nat.toDigits 10 0 = ['0'] := rfl
    simp [hzero, List.replicate_succ']
  · have hwidth : ∀ m, width + 1 - (m + 1) = width - m := by omega
    rw [Nat.toDigits_of_base_le (by omega) (by omega), List.length_append, List.length_singleton, hwidth,
      List.append_assoc]

theorem padded_last (width n : Nat) : ∃ cs, Decimal.padded width n = cs ++ [(n % 10).digitChar] := by
  unfold Decimal.padded Decimal.digits
  by_cases hn : n < 10
  · rw [Nat.toDigits_of_lt_base hn, Nat.mod_eq_of_lt hn]
    exact ⟨_, rfl⟩
  · rw [Nat.toDigits_of_base_le (by omega) (by omega)]
    exact ⟨_, (List.append_assoc _ _ _).symm⟩

/-- The text of a fraction whose zeros at the end are dropped. -/
theorem text_ofScaled (mant : Int) (scale : Nat) :
    (Decimal.ofScaled mant scale).text = (if mant < 0 then ['-'] else []) ++
      Decimal.digits (mant.natAbs / 10 ^ scale) ++
      if mant.natAbs % 10 ^ scale = 0 then []
      else '.' :: stripZerosRight (Decimal.padded scale (mant.natAbs % 10 ^ scale)) := by
  induction scale generalizing mant with
  | zero =>
    rw [Nat.pow_zero, Nat.mod_one, if_pos rfl]
    rfl
  | succ scale ih =>
    unfold Decimal.ofScaled
    have hpow : 10 ^ (scale + 1) = 10 * 10 ^ scale := pow_succ' 10 scale
    split
    · -- a zero at the end is dropped
      rename_i hzero
      have habs : mant.natAbs = 10 * (mant / 10).natAbs := by omega
      have hsign : (if mant / 10 < 0 then ['-'] else []) = if mant < 0 then ['-'] else [] :=
        if_congr (by omega) rfl rfl
      have hdiv : mant.natAbs / 10 ^ (scale + 1) = (mant / 10).natAbs / 10 ^ scale := by
        rw [habs, hpow, Nat.mul_div_mul_left _ _ (by omega)]
      have hmod : mant.natAbs % 10 ^ (scale + 1) = 10 * ((mant / 10).natAbs % 10 ^ scale) := by
        rw [habs, hpow, Nat.mul_mod_mul_left]
      have hlt : (mant / 10).natAbs % 10 ^ scale < 10 ^ scale := Nat.mod_lt _ (by positivity)
      rw [ih, hdiv, hmod, hsign]
      congr 1
      generalize (mant / 10).natAbs % 10 ^ scale = f at hlt
      rcases Nat.eq_zero_or_pos f with rfl | hf
      · rfl
      · have hscale : 0 < scale := by
          rcases Nat.eq_zero_or_pos scale with rfl | h
          · omega
          · exact h
        rw [if_neg (by omega), if_neg (by omega), padded_succ hscale, Nat.mul_div_cancel_left _ (by omega),
          Nat.mul_mod_right]
        exact congrArg _ (stripZerosRight_zero _).symm
    · rename_i hlast
      have hfrac : mant.natAbs % 10 ^ (scale + 1) % 10 = mant.natAbs % 10 := by
        rw [hpow, Nat.mod_mul_right_mod]
      have hne : (mant.natAbs % 10 ^ (scale + 1)) % 10 ≠ 0 := by omega
      unfold Decimal.text
      dsimp only
      congr 1
      generalize mant.natAbs % 10 ^ (scale + 1) = f at hne
      have hlast : (f % 10).digitChar ≠ '0' :=
        (by decide : ∀ d < 10, d ≠ 0 → d.digitChar ≠ '0') _ (Nat.mod_lt _ (by omega)) hne
      obtain ⟨cs, hcs⟩ := padded_last (scale + 1) f
      rw [if_neg (by omega), if_neg (fun h => hne (by rw [h])), hcs, stripZerosRight_other hlast]

theorem scaledStr_eq (nano : Int) (scale : Nat) :
    (if nano.natAbs % 10 ^ scale = 0 then (if nano < 0 then "-" else "") ++ toString (nano.natAbs / 10 ^ scale)
      else (if nano < 0 then "-" else "") ++ toString (nano.natAbs / 10 ^ scale) ++ "." ++
        String.ofList (stripZerosRight (Decimal.padded scale (nano.natAbs % 10 ^ scale)))) =
      String.ofList (Decimal.ofScaled nano scale).text := by
  rw [text_ofScaled]
  have hwhole : toString (nano.natAbs / 10 ^ scale) = String.ofList (Decimal.digits (nano.natAbs / 10 ^ scale)) := rfl
  have hsign : (if nano < 0 then "-" else "") = String.ofList (if nano < 0 then ['-'] else []) := by
    split <;> rfl
  rw [hwhole, hsign, ← String.ofList_append]
  split
  · rw [List.append_nil]
  · rw [show "." = String.ofList ['.'] from rfl, ← String.ofList_append, ← String.ofList_append,
      List.append_assoc, List.singleton_append]

theorem nanoToUsdStr_eq (nano : Int) : nanoToUsdStr nano = String.ofList (Decimal.ofScaled nano 9).text :=
  scaledStr_eq nano 9

theorem toString_int_eq (n : Int) : toString n = String.ofList (Decimal.ofInt n).text := by
  have htext : (Decimal.ofInt n).text = (if n < 0 then ['-'] else []) ++ Decimal.digits n.natAbs := by
    unfold Decimal.text
    rw [show (Decimal.ofInt n).scale = 0 from rfl]
    dsimp only
    rw [if_pos rfl, List.append_nil, pow_zero, Nat.div_one]
    rfl
  rw [htext]
  cases n with
  | ofNat n =>
    rw [if_neg (by simp)]
    rfl
  | negSucc n =>
    rw [if_pos (Int.negSucc_lt_zero n), String.ofList_append]
    rfl

/-! ### Quotients -/

/-- The digits before the point of `n / d`, less one: negative where there are none. -/
def leadingPlace (n d : Nat) : Int :=
  if d ≤ n then Nat.log 10 (n / d)
  else -(((List.range (Nat.log 10 d + 2)).find? fun t => decide (d ≤ n * 10 ^ t)).getD 0 : Nat)

/-- `n / d` to 28 significant digits, half to even: an integer and a power of ten. -/
def toPrecision (n : Int) (d : Nat) : Int × Int :=
  if n = 0 then (0, 0)
  else
    let exp := leadingPlace n.natAbs d - 27
    if 0 ≤ exp then (divHalfEven n (d * 10 ^ exp.toNat), exp)
    else (divHalfEven (n * 10 ^ (-exp).toNat) d, exp)

/-- `value.quantize` to a number of places, half to even: the digits must fit the precision. -/
def quantize (value : Int × Int) (places : Nat) : Option Int :=
  let q := if 0 ≤ value.2 + places then value.1 * 10 ^ (value.2 + places).toNat
    else divHalfEven value.1 (10 ^ (-(value.2 + places)).toNat)
  if q.natAbs < 10 ^ 28 then some q else none

/-- `_dec`: the text of `mant × 10 ^ -places`, without zeros at the end. -/
def dec (mant : Int) (places : Nat) : String := String.ofList (Decimal.ofScaled mant places).text

/-- An integer to 28 significant digits. -/
def fixInt (n : Int) : Int :=
  if n.natAbs < 10 ^ 28 then n
  else
    let value := toPrecision n 1
    value.1 * 10 ^ value.2.toNat

example : (quantize (toPrecision 2 3) 12).map (dec · 12) = some "0.666666666667" ∧
    (quantize (toPrecision (-1) 800) 4).map (dec · 4) = some "-0.0012" ∧ dec (fixInt 2500) 6 = "0.0025" := by
  decide

end TokenBill
