import TokenBill.Core.MoneyText
import Mathlib.Data.List.DropRight

/-!
# Money parsing and printing are exact

What a conversion returns is the rounding of its amount and the exact remainder, and a printed
amount is read back.
-/

namespace TokenBill

open General List DecimalTuple Decimal

/-! ### One rounding -/

theorem bind_ok {ε α β : Type} {x : Except ε α} {f : α → Except ε β} {b : β} (h : x >>= f = .ok b) :
    ∃ a, x = .ok a ∧ f a = .ok b := by
  cases x with
  | error e => cases h
  | ok a => exact ⟨a, rfl, h⟩

variable {d x : DecimalTuple} {places k nano : Int} {q : ℚ} {m : Nat}

theorem shiftMoney_eq_ok {e : DecimalTuple} (h : shiftMoney d places = .ok e) : e = d.shift places := by
  unfold shiftMoney keep at h
  split at h
  · exact (Except.ok.inj h).symm
  · cases h

theorem halfEven_signed {neg : Bool} {k : Nat} (h : HalfEven q k) :
    HalfEven (if neg then -q else q) (Decimal.signed neg k) := by
  cases neg with
  | false => exact h
  | true => exact h.neg

theorem toRat_eq (d : DecimalTuple) :
    d.toRat = if d.neg then -(d.coeff * 10 ^ d.exp : ℚ) else d.coeff * 10 ^ d.exp := by
  unfold DecimalTuple.toRat DecimalTuple.signedCoeff Decimal.signed
  split <;> simp

/-- The integer of the quantized digits rounds the number without its sign. -/
theorem halfEven_quantized (x : DecimalTuple) : HalfEven (x.coeff * 10 ^ x.exp) (quantized x) := by
  unfold quantized
  split
  · rename_i h
    have hexp : (10 : ℚ) ^ x.exp = 10 ^ x.exp.toNat := by
      rw [← zpow_natCast, Int.toNat_of_nonneg h]
    rw [hexp]
    have hint := halfEven_int ((x.coeff * 10 ^ x.exp.toNat : Nat) : Int)
    push_cast at hint ⊢
    exact hint
  · rename_i h
    have hpos : (0 : Int) < 10 ^ (-x.exp).toNat := by positivity
    have hle : 0 ≤ divHalfEven x.coeff (10 ^ (-x.exp).toNat) := le_divHalfEven hpos (by simp)
    have hexp : (x.coeff : ℚ) * 10 ^ x.exp = ((x.coeff : Int) : ℚ) / ((10 ^ (-x.exp).toNat : Int) : ℚ) := by
      rw [show x.exp = -((-x.exp).toNat : Int) by omega, zpow_neg, zpow_natCast]
      push_cast
      rw [neg_neg, Int.toNat_natCast, div_eq_mul_inv]
    rw [Int.toNat_of_nonneg hle, hexp]
    exact halfEven_divHalfEven _ hpos

theorem halfEven_of_quantizeOne {precision : Int} (h : quantizeOne precision x = .ok k) : HalfEven x.toRat k := by
  unfold quantizeOne at h
  split at h
  · rw [← Except.ok.inj h, toRat_eq]
    exact halfEven_signed (halfEven_quantized x)
  · cases h

/-- `_decimal_to_int_half_even` rounds the shifted amount half to even. -/
theorem halfEven_of_decimalToInt {shift : Int}
    (h : decimalToIntHalfEven d shift = .ok k) : HalfEven (d.toRat * 10 ^ shift) k := by
  unfold decimalToIntHalfEven at h
  split at h
  · rename_i hzero
    rw [← Except.ok.inj h, toRat_eq_zero.mpr hzero, zero_mul]
    exact halfEven_int 0
  obtain ⟨x, hx, h⟩ := bind_ok h
  rw [← toRat_shift, ← shiftMoney_eq_ok hx]
  split at h
  · cases h
  split at h
  · rename_i hsmall
    rw [← Except.ok.inj h]
    have hlt := x.abs_toRat_lt
    have hpow : (10 : ℚ) ^ (x.adjusted + 1) ≤ 10 ^ (-1 : Int) := zpow_le_zpow_right₀ (by norm_num) (by omega)
    rw [show (10 : ℚ) ^ (-1 : Int) = 1 / 10 by norm_num] at hpow
    left
    rw [Int.cast_zero, sub_zero]
    linarith
  · exact halfEven_of_quantizeOne h

/-! ### The remainder -/

/-- A subtraction that is not refused is exact. -/
theorem toRat_subtractExact {precision : Int} {r : DecimalTuple} {n : Int}
    (h : subtractExact precision x n = .ok r) : r.toRat = x.toRat - n := by
  unfold subtractExact at h
  dsimp only at h
  generalize hexp : min x.exp 0 = exp at h
  generalize hmant : x.signedCoeff * 10 ^ (x.exp - exp).toNat - n * 10 ^ (-exp).toNat = mant at h
  generalize ((Decimal.digits mant.natAbs).length - precision).toNat = extra at h
  have hvalue : (mant : ℚ) * 10 ^ exp = x.toRat - n := by
    have h1 : (10 : ℚ) ^ x.exp = 10 ^ (x.exp - exp).toNat * 10 ^ exp := by
      rw [← zpow_natCast, ← zpow_add₀ (by norm_num)]
      congr 1
      omega
    have h2 : (10 : ℚ) ^ (-exp).toNat * 10 ^ exp = 1 := by
      rw [← zpow_natCast, ← zpow_add₀ (by norm_num), show ((-exp).toNat : Int) + exp = 0 by omega, zpow_zero]
    rw [← hmant, DecimalTuple.toRat, h1]
    push_cast
    rw [sub_mul, mul_assoc, mul_assoc, h2, mul_one]
  split at h
  · rename_i hdvd
    unfold keep at h
    split at h
    · rw [← Except.ok.inj h, toRat_ofSigned, ← hvalue, zpow_add₀ (by norm_num), zpow_natCast]
      have hm : (mant : ℚ) = (mant / 10 ^ extra : Int) * 10 ^ extra := by
        exact_mod_cast (Int.ediv_mul_cancel (Int.dvd_of_emod_eq_zero hdvd)).symm
      rw [hm]
      ring
    · cases h
  · cases h

/-- The nano-USD and the remainder of an amount: they add up to it, and the remainder is at most
half a nano. -/
structure Exact (amount : ℚ) (nano : Int) (remainder : DecimalTuple) : Prop where
  sum : nano / 10 ^ 9 + remainder.toRat = amount
  half : 2 * |remainder.toRat| ≤ 1 / 10 ^ 9
  rounded : HalfEven (amount * 10 ^ 9) nano

/-- A rounding with what it leaves is exact. -/
theorem exact_of_halfEven {amount : ℚ} {remainder : DecimalTuple}
    (h : HalfEven (amount * 10 ^ 9) nano) (hr : remainder.toRat = amount - nano / 10 ^ 9) :
    Exact amount nano remainder where
  sum := by rw [hr]; ring
  half := by
    have hle : 2 * |amount * 10 ^ 9 - nano| ≤ 1 := h.elim le_of_lt fun h => h.1.le
    have hscale : amount * 10 ^ 9 - nano = remainder.toRat * 10 ^ 9 := by rw [hr]; ring
    rw [hscale, abs_mul, abs_of_pos (by norm_num : (0 : ℚ) < 10 ^ 9)] at hle
    rw [le_div_iff₀ (by norm_num)]
    linarith
  rounded := h

/-- `_to_nano_with_remainder` is exact. -/
theorem exact_of_toNano {r : DecimalTuple} (h : toNanoWithRemainder d = .ok (nano, r)) : Exact d.toRat nano r := by
  obtain ⟨k, hk, h⟩ := bind_ok h
  have hround : HalfEven (d.toRat * 10 ^ 9) k := by exact_mod_cast halfEven_of_decimalToInt hk
  split at h
  · rename_i hzero
    obtain ⟨rfl, rfl⟩ := h
    exact exact_of_halfEven (hzero ▸ hround) (by simp)
  · obtain ⟨scaled, hs, h⟩ := bind_ok h
    dsimp only at h
    split at h
    · cases h
    obtain ⟨rs, hrs, h⟩ := bind_ok h
    obtain ⟨r', hr', h⟩ := bind_ok h
    obtain ⟨rfl, rfl⟩ := h
    refine exact_of_halfEven hround ?_
    have hscaled : scaled.toRat = d.toRat * 10 ^ (9 : Int) := by
      rw [shiftMoney_eq_ok hs, toRat_shift]
    rw [shiftMoney_eq_ok hr', toRat_shift, toRat_subtractExact hrs, hscaled, sub_mul, mul_assoc,
      ← zpow_add₀ (by norm_num), show (9 : Int) + -9 = 0 by norm_num, zpow_zero, mul_one]
    norm_num [div_eq_mul_inv]

/-! ### Amounts that are returned -/

/-- A number whose digits and exponent are far inside what the host keeps. -/
def Ample (d : DecimalTuple) : Prop := d.width ≤ 10 ^ 17 ∧ |d.exp| ≤ 10 ^ 17

theorem representable_shift (h : Ample d) (places : Int) (hp : |places| ≤ 10 ^ 16) :
    Representable (d.shift places) := by
  obtain ⟨hw, he⟩ := h
  rw [abs_le] at he hp
  have hwidth : (d.shift places).width = d.width := rfl
  have hadj := d.adjusted_shift places
  unfold Representable maxPrec minEtiny
  rw [exp_shift, hwidth]
  refine ⟨by omega, by omega, ?_⟩
  split
  · omega
  · unfold DecimalTuple.adjusted
    rw [exp_shift, hwidth]
    omega

theorem shiftMoney_ok (h : Ample d) (hp : |places| ≤ 10 ^ 16) :
    shiftMoney d places = .ok (d.shift places) := if_pos (representable_shift h places hp)

/-- A rounding does not pass an integer that the number does not pass. -/
theorem HalfEven.le {m : Int} (h : HalfEven q k) (hq : q < m) : k ≤ m := by
  have hle : 2 * |q - k| ≤ 1 := h.elim le_of_lt fun h => h.1.le
  by_contra hlt
  have hk : (m : ℚ) + 1 ≤ k := by exact_mod_cast Int.lt_iff_add_one_le.mp (not_le.mp hlt)
  have habs := neg_abs_le (q - k)
  linarith

/-- The digits of an amount that is not too small fit the context of its conversion. -/
theorem quantizeOne_ok (h : -1 ≤ x.adjusted) : ∃ k, quantizeOne (x.adjusted + 2) x = .ok k := by
  obtain ⟨m, hm⟩ := Int.eq_ofNat_of_zero_le (show 0 ≤ x.adjusted + 1 by omega)
  have hlt := x.abs_toRat_lt
  rw [x.abs_toRat, hm, zpow_natCast] at hlt
  have hle : ((quantized x : Nat) : Int) ≤ (10 ^ m : Int) := (halfEven_quantized x).le (by exact_mod_cast hlt)
  have hpow : quantized x < 10 ^ (m + 1) := by
    have : quantized x ≤ 10 ^ m := by exact_mod_cast hle
    exact this.trans_lt (Nat.pow_lt_pow_right (by omega) (by omega))
  have hlen := length_digits_le (by omega) hpow
  exact ⟨_, if_pos (by omega)⟩

/-- An amount below `10 ^ 4000` nano is rounded. -/
theorem decimalToInt_ok (h : Ample d) (hsmall : |d.toRat| * 10 ^ 9 < 10 ^ 4000) :
    ∃ k, decimalToIntHalfEven d 9 = .ok k := by
  unfold decimalToIntHalfEven
  split
  · exact ⟨0, rfl⟩
  rename_i hne
  rw [shiftMoney_ok h (by norm_num)]
  have hadj : (d.shift 9).adjusted < maxNanoExp := by
    rw [adjusted_lt_iff (by exact hne), toRat_shift, abs_mul]
    unfold maxNanoExp
    exact_mod_cast hsmall
  show ∃ k, (if maxNanoExp ≤ (d.shift 9).adjusted then _ else _) = Except.ok k
  rw [if_neg (by omega)]
  split
  · exact ⟨0, rfl⟩
  · exact quantizeOne_ok (by omega)

/-- The difference of an amount and its rounding fits the context it is computed in. -/
theorem subtractExact_ok (h : Ample x) {n : Int} (hn : HalfEven x.toRat n)
    (precision : Int) (hp : x.width + |x.exp| + 3 ≤ precision) :
    ∃ r, subtractExact precision x n = .ok r ∧ Ample r := by
  obtain ⟨hw, he⟩ := h
  generalize hexp : min x.exp 0 = exp
  generalize hmant : x.signedCoeff * 10 ^ (x.exp - exp).toNat - n * 10 ^ (-exp).toNat = mant
  have habs := neg_abs_le x.exp
  have hvalue : (mant : ℚ) = (x.toRat - n) * 10 ^ (-exp).toNat := by
    have h1 : x.toRat * 10 ^ (-exp).toNat = x.signedCoeff * 10 ^ (x.exp - exp).toNat := by
      unfold DecimalTuple.toRat
      rw [mul_assoc, ← zpow_natCast, ← zpow_natCast, ← zpow_add₀ (by norm_num)]
      congr 2
      omega
    rw [sub_mul, h1, ← hmant]
    push_cast
    rfl
  have hsmall : mant.natAbs < 10 ^ max 1 (-exp).toNat := by
    rcases le_or_gt 0 x.exp with hpos | hneg
    · -- an integer is its own rounding
      have hint : x.toRat = ((x.signedCoeff * 10 ^ x.exp.toNat : Int) : ℚ) := by
        unfold DecimalTuple.toRat
        rw [show (10 : ℚ) ^ x.exp = 10 ^ x.exp.toNat by rw [← zpow_natCast, Int.toNat_of_nonneg hpos]]
        push_cast
        rfl
      rw [hint] at hn hvalue
      rw [hn.unique (halfEven_int _), sub_self, zero_mul, Int.cast_eq_zero] at hvalue
      rw [hvalue]
      positivity
    · have hle : 2 * |x.toRat - n| ≤ 1 := hn.elim le_of_lt fun h => h.1.le
      have hpow : (0 : ℚ) < 10 ^ (-exp).toNat := by positivity
      have hm : |(mant : ℚ)| < 10 ^ (-exp).toNat := by
        rw [hvalue, abs_mul, abs_of_pos hpow]
        exact mul_lt_of_lt_one_left hpow (by linarith)
      rw [← Int.cast_abs, Int.abs_eq_natAbs] at hm
      have hm : mant.natAbs < 10 ^ (-exp).toNat := by exact_mod_cast hm
      exact hm.trans_le (Nat.pow_le_pow_right (by omega) (le_max_right _ _))
  have hlen := length_digits_le (by omega) hsmall
  have hwidth := x.width_pos
  have hample : Ample (.ofSigned mant exp) := by
    refine ⟨?_, ?_⟩
    · show (Decimal.digits mant.natAbs).length ≤ _
      rw [abs_le] at he
      omega
    · show |exp| ≤ _
      rw [abs_le] at he ⊢
      omega
  have hnonneg := abs_nonneg x.exp
  have hextra : ((Decimal.digits mant.natAbs).length - precision).toNat = 0 := by omega
  refine ⟨.ofSigned mant exp, ?_, hample⟩
  unfold subtractExact
  dsimp only
  rw [hexp, hmant, hextra, pow_zero, Int.emod_one, if_pos rfl, Int.ediv_one, Nat.cast_zero, add_zero]
  have hkeep := representable_shift hample 0 (by norm_num)
  have hzero : (ofSigned mant exp).shift 0 = .ofSigned mant exp := by
    unfold DecimalTuple.shift
    rw [add_zero]
  rw [hzero] at hkeep
  exact if_pos hkeep

theorem width_of_halfEven (h : HalfEven (q * 10 ^ (9 : Int)) nano)
    (hsmall : |q| * 10 ^ 9 < 10 ^ m) : (ofSigned nano 0).width ≤ m + 1 := by
  have hbound : |q * 10 ^ (9 : Int)| < ((10 ^ m : Int) : ℚ) := by
    rw [abs_mul]
    exact_mod_cast hsmall
  obtain ⟨hlow, hhigh⟩ := abs_lt.mp hbound
  have h1 : nano ≤ 10 ^ m := h.le hhigh
  have h2 : -nano ≤ 10 ^ m := h.neg.le (by push_cast at hlow ⊢; linarith)
  have hle : |nano| ≤ 10 ^ m := abs_le.mpr ⟨neg_le.mp h2, h1⟩
  rw [Int.abs_eq_natAbs] at hle
  have hle : nano.natAbs ≤ 10 ^ m := by exact_mod_cast hle
  exact length_digits_le (Nat.succ_pos m)
    (hle.trans_lt (Nat.pow_lt_pow_right (by omega) (by omega)))

/-- An amount below `10 ^ 4000` nano is converted. -/
theorem toNano_ok (hw : d.width ≤ 10 ^ 16) (he : |d.exp| ≤ 10 ^ 16)
    (hsmall : |d.toRat| * 10 ^ 9 < 10 ^ 4000) : ∃ nano r, toNanoWithRemainder d = .ok (nano, r) := by
  have hample : Ample d := ⟨by omega, by omega⟩
  obtain ⟨nano, hnano⟩ := decimalToInt_ok hample hsmall
  unfold toNanoWithRemainder
  rw [hnano]
  show ∃ nano' r, (if nano = 0 then _ else _) = Except.ok (nano', r)
  split
  · exact ⟨0, d, rfl⟩
  rw [shiftMoney_ok hample (by norm_num)]
  have hround : HalfEven (d.shift 9).toRat nano := by
    rw [toRat_shift]
    exact halfEven_of_decimalToInt hnano
  have hexp : |(d.shift 9).exp| ≤ |d.exp| + 9 := by
    rw [exp_shift]
    exact (abs_add_le _ _).trans (by norm_num)
  have hwidth : (d.shift 9).width = d.width := rfl
  have hadj : 0 ≤ (ofSigned nano 0).adjusted ∧
      (ofSigned nano 0).adjusted ≤ 4001 := by
    have hpos := (ofSigned nano 0).width_pos
    have hle : (ofSigned nano 0).width ≤ 4001 :=
      width_of_halfEven (halfEven_of_decimalToInt hnano) hsmall
    show 0 ≤ (0 : Int) + _ - 1 ∧ (0 : Int) + _ - 1 ≤ 4001
    omega
  obtain ⟨rs, hrs, hrsa⟩ := subtractExact_ok ⟨by rw [hwidth]; omega, by omega⟩ hround
    ((d.shift 9).width + |(d.shift 9).exp| + (ofSigned nano 0).adjusted + 3) (by omega)
  show ∃ nano' r, (if (maxPrec : Int) < _ then _ else _) = Except.ok (nano', r)
  rw [if_neg (by rw [hwidth]; unfold maxPrec; omega), hrs]
  show ∃ nano' r, (do
    let remainder ← shiftMoney rs (-9)
    Except.ok (nano, remainder)) = Except.ok (nano', r)
  rw [shiftMoney_ok hrsa (by norm_num)]
  exact ⟨nano, _, rfl⟩

/-! ### Printed amounts -/

def Printed (c : Char) : Prop := c.isDigit ∨ c = '-' ∨ c = '.'

theorem Printed.plain {c : Char} (h : Printed c) : Plain c := by
  rcases h with h | rfl | rfl
  · exact plain_digit h
  · decide
  · decide

theorem numericChars_printed {cs : List Char} (h : ∀ c ∈ cs, Printed c) : numericChars cs = cs :=
  numericChars_plain fun c hc => (h c hc).plain

/-- A printed number is read back, digit by digit. -/
theorem readFinite_text (neg : Bool) (n scale : Nat) :
    readFinite neg (Decimal.digits (n / 10 ^ scale) ++
      (if scale = 0 then [] else '.' :: Decimal.padded scale (n % 10 ^ scale))) = some ⟨neg, n, -scale⟩ := by
  have hwhole := fun c (hc : c ∈ Decimal.digits (n / 10 ^ scale)) => isDigit_of_mem_digits hc
  unfold readFinite
  by_cases hscale : scale = 0
  · subst hscale
    rw [if_pos rfl]
    obtain ⟨h1, h2⟩ := takeWhile_digits _ [] hwhole (fun _ h => by cases h)
    rw [h1, h2]
    simp [takePoint, readExponent, digits_ne_nil, ofDigits_digits]
  · rw [if_neg hscale]
    have hmod : n % 10 ^ scale < 10 ^ scale := Nat.mod_lt _ (by positivity)
    have hlen := length_padded (Nat.pos_of_ne_zero hscale) hmod
    obtain ⟨h1, h2⟩ := takeWhile_digits _ ('.' :: Decimal.padded scale (n % 10 ^ scale)) hwhole
      (by rintro c ⟨⟩; rfl)
    obtain ⟨h3, h4⟩ := takeWhile_digits (Decimal.padded scale (n % 10 ^ scale)) []
      (fun c hc => isDigit_of_mem_padded hc) (fun _ h => by cases h)
    rw [append_nil] at h3 h4
    rw [h1, h2]
    simp only [takePoint, h3, h4, readExponent]
    rw [if_neg (by simp [digits_ne_nil]), Option.map_some, hlen,
      ofDigits_append_padded (Nat.pos_of_ne_zero hscale) hmod, mul_comm, Nat.div_add_mod, zero_sub]

def tupleOf (d : Decimal) : DecimalTuple := ⟨decide (d.mant < 0), d.mant.natAbs, -d.scale⟩

theorem toRat_tupleOf (d : Decimal) : (tupleOf d).toRat = d.toRat := by
  show (ofSigned d.mant (-d.scale)).toRat = _
  rw [toRat_ofSigned, zpow_neg, zpow_natCast]
  rfl

theorem decimalOf_text {d : Decimal} (h : Representable (tupleOf d)) :
    decimalOf (String.ofList d.text) = some (.finite (tupleOf d)) := by
  unfold decimalOf
  rw [String.toList_ofList, numericChars_printed fun _ => mem_text]
  have hread := readFinite_text (decide (d.mant < 0)) d.mant.natAbs d.scale
  have hwhole : ∃ c cs, Decimal.digits (d.mant.natAbs / 10 ^ d.scale) = c :: cs ∧ c.isDigit := by
    obtain ⟨c, cs, hcs⟩ := exists_cons_of_ne_nil (digits_ne_nil (d.mant.natAbs / 10 ^ d.scale))
    exact ⟨c, cs, hcs, isDigit_of_mem_digits (hcs ▸ mem_cons_self)⟩
  obtain ⟨c, cs, hcs, hc⟩ := hwhole
  have hsign : takeAnySign d.text = (decide (d.mant < 0), Decimal.digits (d.mant.natAbs / 10 ^ d.scale) ++
      if d.scale = 0 then [] else '.' :: Decimal.padded d.scale (d.mant.natAbs % 10 ^ d.scale)) := by
    have htake := takeAnySign_digit (decide (d.mant < 0)) (cs ++
      if d.scale = 0 then [] else '.' :: Decimal.padded d.scale (d.mant.natAbs % 10 ^ d.scale)) hc
    unfold Decimal.text
    dsimp only
    rw [hcs, append_assoc, cons_append]
    by_cases hneg : d.mant < 0 <;> simpa only [hneg, decide_true, decide_false, if_true, if_false,
      Bool.false_eq_true] using htake
  rw [hsign]
  dsimp only
  rw [hread]
  rw [hcs, cons_append, isSpecial_digit hc, if_neg Bool.false_ne_true]
  exact if_pos h

theorem stripSpace_stripSpace (cs : List Char) : stripSpace (stripSpace cs) = stripSpace cs := by
  have hfront : (stripSpace cs).dropWhile isPySpace = stripSpace cs := by
    have hpre : stripSpace cs <+: cs.dropWhile isPySpace := by
      rw [← reverse_suffix]
      unfold stripSpace
      rw [reverse_reverse]
      exact dropWhile_suffix _
    cases hstrip : stripSpace cs with
    | nil => rfl
    | cons c rest =>
      rw [hstrip] at hpre
      obtain ⟨more, hmore⟩ := hpre
      have hc := head?_dropWhile_not isPySpace cs
      rw [← hmore] at hc
      exact dropWhile_cons_of_neg (by simpa using hc)
  show ((List.dropWhile isPySpace (stripSpace cs)).reverse.dropWhile isPySpace).reverse = _
  rw [hfront]
  unfold stripSpace
  rw [reverse_reverse, dropWhile_idempotent]

theorem decimalOf_strip (text : String) :
    decimalOf (String.ofList (stripSpace text.toList)) = decimalOf text := by
  unfold decimalOf numericChars
  rw [String.toList_ofList, stripSpace_stripSpace]

/-- What a text is read to, whatever function reads it. -/
theorem parseMoney_eq_ok {what text : String} :
    parseMoney what (.text text) = .ok d ↔ decimalOf text = some (.finite d) := by
  unfold parseMoney
  dsimp only
  rw [decimalOf_strip]
  cases decimalOf text with
  | none => simp
  | some v => cases v <;> simp

/-- `nano_to_credits_str` prints the amount in credits. -/
theorem nanoToCreditsStr_eq (nano : Int) : nanoToCreditsStr nano = String.ofList (ofScaled nano 7).text :=
  scaledStr_eq nano 7

/-! ### Lines -/

/-- `scaled_to_nano` rounds the amount half to even. -/
theorem halfEven_scaledToNano (amountScaled scaleExp : Int) :
    HalfEven (amountScaled * 10 ^ (-scaleExp) * 10 ^ 9) (scaledToNano amountScaled scaleExp) := by
  have hvalue : (amountScaled : ℚ) * 10 ^ (-scaleExp) * 10 ^ 9 = amountScaled * 10 ^ (9 - scaleExp) := by
    rw [mul_assoc, ← zpow_natCast (10 : ℚ) 9, ← zpow_add₀ (by norm_num)]
    congr 2
    push_cast
    ring
  rw [hvalue]
  unfold scaledToNano
  dsimp only
  split
  · rename_i h
    have hint := halfEven_int (amountScaled * 10 ^ (9 - scaleExp).toNat)
    rw [show (10 : ℚ) ^ (9 - scaleExp) = 10 ^ (9 - scaleExp).toNat by rw [← zpow_natCast, Int.toNat_of_nonneg h]]
    push_cast at hint ⊢
    exact hint
  · rename_i h
    have hdiv := halfEven_divHalfEven amountScaled (d := 10 ^ (-(9 - scaleExp)).toNat) (by positivity)
    rw [show 9 - scaleExp = -((-(9 - scaleExp)).toNat : Int) by omega, zpow_neg, zpow_natCast]
    rw [neg_neg, Int.toNat_natCast]
    push_cast at hdiv
    rw [← div_eq_mul_inv]
    exact hdiv

/-- `_line_nano` rounds the tokens times the rate for a million of them half to even. -/
theorem halfEven_lineNano (tokens : Int) (rate : DecimalTuple) :
    HalfEven (tokens * rate.toRat / 10 ^ 6 * 10 ^ 9) (lineNano tokens rate) := by
  have h := halfEven_scaledToNano (tokens * rate.signedCoeff) (6 - rate.exp)
  have hvalue : (tokens : ℚ) * rate.toRat / 10 ^ 6 = (tokens * rate.signedCoeff : Int) * 10 ^ (-(6 - rate.exp)) := by
    unfold DecimalTuple.toRat
    rw [show -(6 - rate.exp) = rate.exp + (-6) by ring, zpow_add₀ (by norm_num)]
    push_cast
    rw [show (10 : ℚ) ^ (-6 : Int) = 1 / 10 ^ 6 by norm_num]
    ring
  rw [hvalue]
  exact h

/-! ### The claim -/

/-- The exact conversions of a decimal string in units of `10 ^ places` dollars. -/
def ReadsExactly (read : String → Except MoneyError (Int × DecimalTuple)) (places : Int) : Prop :=
  (∀ {text : String} {nano : Int} {r : DecimalTuple}, read text = .ok (nano, r) →
    ∃ d, decimalOf text = some (.finite d) ∧ Exact (d.toRat * 10 ^ places) nano r) ∧
  ∀ {text : String} {d : DecimalTuple}, decimalOf text = some (.finite d) → d.width ≤ 10 ^ 15 →
    |d.exp| ≤ 10 ^ 15 → |d.toRat * 10 ^ places| * 10 ^ 9 < 10 ^ 4000 → ∃ nano r, read text = .ok (nano, r)

theorem readsExactly_shift {read : String → Except MoneyError (Int × DecimalTuple)} {what : String}
    (hplaces : |places| ≤ 10 ^ 15) (hread : ∀ text, read text = do
      toNanoWithRemainder (← shiftMoney (← parseMoney what (.text text)) places)) : ReadsExactly read places := by
  refine ⟨fun {text nano r} h => ?_, fun {text d} hd hw he hsmall => ?_⟩
  · rw [hread] at h
    obtain ⟨d, hd, h⟩ := bind_ok h
    obtain ⟨e, he, h⟩ := bind_ok h
    have hexact := exact_of_toNano h
    rw [shiftMoney_eq_ok he, toRat_shift] at hexact
    exact ⟨d, parseMoney_eq_ok.mp hd, hexact⟩
  · have hexp : |(d.shift places).exp| ≤ |d.exp| + |places| := abs_add_le _ _
    rw [hread, parseMoney_eq_ok.mpr hd]
    show ∃ nano r, (do toNanoWithRemainder (← shiftMoney d places)) = Except.ok (nano, r)
    rw [shiftMoney_ok ⟨by omega, by omega⟩ (by omega)]
    exact toNano_ok (by show d.width ≤ _; omega) (by omega) (by rw [toRat_shift]; exact hsmall)

/-- `usd` keeps the number as it is. -/
theorem usdStrToNano_eq (text : String) : usdStrToNano text = (do
    toNanoWithRemainder (← shiftMoney (← parseMoney "usd" (.text text)) 0)) := by
  unfold usdStrToNano
  cases h : parseMoney "usd" (.text text) with
  | error e => rfl
  | ok d =>
    have hd := parseMoney_eq_ok.mp h
    have hkept : Representable d := by
      unfold decimalOf at hd
      dsimp only at hd
      split at hd
      · cases hd
      split at hd
      · split at hd
        · rename_i hrep
          cases hd
          exact hrep
        · cases hd
      · cases hd
    have hshift : shiftMoney d 0 = .ok d := by
      have hzero : d.shift 0 = d := by
        unfold DecimalTuple.shift
        rw [add_zero]
      unfold shiftMoney keep
      rw [hzero, if_pos hkept]
    show _ = (do toNanoWithRemainder (← shiftMoney d 0))
    rw [hshift]

theorem centsToNano_eq (text : String) : centsToNano (.text text) = (do
    toNanoWithRemainder (← shiftMoney (← parseMoney "from_cents" (.text text)) (-2))) := by
  unfold centsToNano fromCents
  cases parseMoney "from_cents" (.text text) <;> rfl

/-- A printed amount has few digits, and the value of the amount. -/
theorem tupleOf_printed (nano : Int) {scale : Nat} (hscale : scale ≤ 9) (hm : 0 < m) (hsize : |nano| < 10 ^ m) :
    (tupleOf (ofScaled nano scale)).width ≤ m ∧ |(tupleOf (ofScaled nano scale)).exp| ≤ 9 ∧
      (tupleOf (ofScaled nano scale)).toRat = nano / 10 ^ scale := by
  obtain ⟨hle, hmant⟩ := ofScaled_le nano scale
  have hsize : nano.natAbs < 10 ^ m := by
    rw [Int.abs_eq_natAbs] at hsize
    exact_mod_cast hsize
  refine ⟨length_digits_le hm (hmant.trans_lt hsize), ?_, ?_⟩
  · show |-((ofScaled nano scale).scale : Int)| ≤ _
    rw [abs_neg, abs_of_nonneg (Int.natCast_nonneg _)]
    omega
  · rw [toRat_tupleOf, toRat_ofScaled]

/-- A number of few digits is one the host keeps. -/
theorem representable_of_ample (h : Ample d) : Representable d := by
  have hrep := representable_shift h 0 (by norm_num)
  rw [DecimalTuple.shift, add_zero] at hrep
  exact hrep

/-- A printed amount of at most 4000 digits is read back, without a remainder. -/
theorem reads_printed {read : String → Except MoneyError (Int × DecimalTuple)}
    (hread : ReadsExactly read places) {scale : Nat} (hscale : scale ≤ 9)
    (hplaces : places = scale - 9) (hm : 0 < m ∧ m ≤ 4000) (hnano : |nano| < 10 ^ m) :
    ∃ r, read (String.ofList (ofScaled nano scale).text) = .ok (nano, r) ∧ r.toRat = 0 := by
  obtain ⟨hwidth, hexp, htuple⟩ := tupleOf_printed nano hscale hm.1 hnano
  generalize ofScaled nano scale = d at hwidth hexp htuple ⊢
  have hvalue : (tupleOf d).toRat * 10 ^ places * 10 ^ 9 = nano := by
    rw [htuple, hplaces, zpow_sub₀ (by norm_num), zpow_natCast]
    norm_num
    field_simp
  have hbound : |(tupleOf d).toRat * 10 ^ places| * 10 ^ 9 < 10 ^ 4000 := by
    have hnanoQ := (Int.cast_lt (R := ℚ)).mpr hnano
    rw [Int.cast_abs, Int.cast_pow, Int.cast_ofNat] at hnanoQ
    rw [← abs_of_pos (by norm_num : (0 : ℚ) < 10 ^ 9), ← abs_mul, hvalue]
    exact hnanoQ.trans_le (pow_le_pow_right₀ (by norm_num) hm.2)
  have htext := decimalOf_text (representable_of_ample (d := tupleOf d) ⟨by omega, by omega⟩)
  obtain ⟨n, r, hok⟩ := hread.2 htext (by omega) (by omega) hbound
  obtain ⟨e, he, hexact⟩ := hread.1 hok
  rw [htext] at he
  cases he
  have hround := hexact.rounded
  rw [hvalue] at hround
  obtain rfl := hround.unique (halfEven_int nano)
  refine ⟨r, hok, ?_⟩
  have hsum := hexact.sum
  have hdollars : (tupleOf d).toRat * 10 ^ places = n / 10 ^ 9 := by
    rw [← hvalue]
    norm_num
  rw [hdollars] at hsum
  linarith

/-- An amount of `10 ^ 4000` nano or more is out of range. -/
theorem toNano_outOfRange (h : Ample d) (hlarge : 10 ^ 4000 ≤ |d.toRat * 10 ^ (9 : Int)|) :
    toNanoWithRemainder d = .error (.value "amount out of range") := by
  have hne : d.coeff ≠ 0 := by
    intro hzero
    rw [toRat_eq_zero.mpr hzero, zero_mul, abs_zero] at hlarge
    exact absurd hlarge (not_le.mpr (by positivity))
  have hadj : maxNanoExp ≤ (d.shift 9).adjusted := by
    rw [← not_lt, adjusted_lt_iff (by exact hne), toRat_shift, not_lt]
    exact hlarge
  unfold toNanoWithRemainder decimalToIntHalfEven
  rw [if_neg hne, shiftMoney_ok h (by norm_num)]
  show (do
    let nano ← (if maxNanoExp ≤ (d.shift 9).adjusted then _ else _)
    _) = Except.error (MoneyError.value "amount out of range")
  rw [if_pos hadj]
  rfl

theorem usdStrToNano_large (hlarge : 10 ^ 4000 ≤ |nano|) (hm : 0 < m ∧ m ≤ 10 ^ 15) (hsize : |nano| < 10 ^ m) :
    usdStrToNano (nanoToUsdStr nano) = .error (.value "amount out of range") := by
  obtain ⟨hwidth, hexp, htuple⟩ := tupleOf_printed nano (le_refl 9) hm.1 hsize
  have hvalue : (tupleOf (ofScaled nano 9)).toRat * 10 ^ (9 : Int) = nano := by
    rw [htuple]
    norm_num
  have hlargeQ := (Int.cast_le (R := ℚ)).mpr hlarge
  rw [Int.cast_abs, Int.cast_pow, Int.cast_ofNat, ← hvalue] at hlargeQ
  clear hlarge hsize
  generalize hd : ofScaled nano 9 = d at hwidth hexp hlargeQ
  have hample : Ample (tupleOf d) := ⟨by omega, by omega⟩
  have hparse : parseMoney "usd" (.text (String.ofList d.text)) = .ok (tupleOf d) :=
    parseMoney_eq_ok.mpr (decimalOf_text (representable_of_ample hample))
  rw [nanoToUsdStr_eq, hd]
  unfold usdStrToNano
  rw [hparse]
  exact toNano_outOfRange hample hlargeQ

/-- Parsing and printing of money are exact: a decimal string in dollars, credits or cents becomes
its rounding and the exact remainder; a printed amount below `10 ^ 4000` nano, of either sign, is
read back; and the integer roundings of an amount and of a line are those of the exact product. -/
theorem money_exact :
    (ReadsExactly usdStrToNano 0 ∧ ReadsExactly creditsStrToNano (-2) ∧
      ReadsExactly (fun text => centsToNano (.text text)) (-2)) ∧
    (∀ nano : Int, |nano| < 10 ^ 4000 →
      (∃ r, usdStrToNano (nanoToUsdStr nano) = .ok (nano, r) ∧ r.toRat = 0) ∧
      ∃ r, creditsStrToNano (nanoToCreditsStr nano) = .ok (nano, r) ∧ r.toRat = 0) ∧
    (∀ amountScaled scaleExp : Int,
      HalfEven (amountScaled * 10 ^ (-scaleExp) * 10 ^ 9) (scaledToNano amountScaled scaleExp)) ∧
    ∀ (tokens : Int) (rate : DecimalTuple),
      HalfEven (tokens * rate.toRat / 10 ^ 6 * 10 ^ 9) (lineNano tokens rate) := by
  have husd : ReadsExactly usdStrToNano 0 := readsExactly_shift (by norm_num) usdStrToNano_eq
  have hcredits : ReadsExactly creditsStrToNano (-2) := readsExactly_shift (by norm_num) fun _ => rfl
  have hcents : ReadsExactly (fun text => centsToNano (.text text)) (-2) :=
    readsExactly_shift (by norm_num) centsToNano_eq
  refine ⟨⟨husd, hcredits, hcents⟩, fun nano hnano => ⟨?_, ?_⟩, halfEven_scaledToNano, halfEven_lineNano⟩
  · rw [nanoToUsdStr_eq]
    exact reads_printed husd (le_refl 9) (by norm_num) ⟨Nat.succ_pos 3999, le_refl 4000⟩ hnano
  · rw [nanoToCreditsStr_eq]
    exact reads_printed hcredits (by norm_num) (by norm_num) ⟨Nat.succ_pos 3999, le_refl 4000⟩ hnano

/-- One dollar and a cent, one nano of each sign, and a line. -/
theorem money_exact_one :
    (∃ d, decimalOf "1.000000000" = some (.finite d) ∧ Exact (d.toRat * 10 ^ (0 : Int)) 1000000000 ⟨false, 0, -9⟩) ∧
    (∃ r, usdStrToNano (nanoToUsdStr (-1)) = .ok (-1, r) ∧ r.toRat = 0) ∧
    HalfEven ((1001 : Int) * (⟨false, 25, -2⟩ : DecimalTuple).toRat / 10 ^ 6 * 10 ^ 9) 250250 :=
  ⟨money_exact.1.1.1 (by decide), (money_exact.2.1 (-1) (by
      rw [abs_neg, abs_one]
      exact one_lt_pow₀ (by norm_num) (by norm_num))).1,
    money_exact.2.2.2 1001 ⟨false, 25, -2⟩⟩

/-- `10 ^ 4000` nano are printed, and the text is out of range. -/
theorem printed_outOfRange :
    usdStrToNano (nanoToUsdStr (10 ^ 4000)) = .error (.value "amount out of range") := by
  have habs : |(10 : Int) ^ 4000| = 10 ^ 4000 := abs_of_nonneg (pow_nonneg (by norm_num) 4000)
  refine usdStrToNano_large habs.ge ⟨Nat.succ_pos 4000, by norm_num⟩ ?_
  rw [habs]
  exact pow_lt_pow_right₀ (by norm_num) (Nat.lt_succ_self 4000)

end TokenBill
