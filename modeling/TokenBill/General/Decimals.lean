import Mathlib.Tactic.FieldSimp
import Mathlib.Tactic.Linarith
import Mathlib.Tactic.Ring

/-!
# Decimal fractions and their text

A decimal fraction is an integer over a power of ten, in lowest terms, so that two of
them are equal when their values are. Its text has the digits before the point and as many
after it as the scale, and reading the text gives the fraction back.
-/

namespace TokenBill.General

open List

/-- The fraction `mant / 10 ^ scale`, in lowest terms. -/
structure Decimal where
  mant : Int
  scale : Nat
  lowest : scale = 0 ∨ mant % 10 ≠ 0
  deriving DecidableEq

namespace Decimal

/-! ### Values -/

def ofInt (n : Int) : Decimal := ⟨n, 0, .inl rfl⟩

/-- The fraction `mant / 10 ^ scale`. -/
def ofScaled (mant : Int) : Nat → Decimal
  | 0 => ofInt mant
  | scale + 1 => if h : mant % 10 = 0 then ofScaled (mant / 10) scale else ⟨mant, scale + 1, .inr h⟩

def toRat (d : Decimal) : ℚ := d.mant / 10 ^ d.scale

theorem toRat_ofScaled (mant : Int) (scale : Nat) : (ofScaled mant scale).toRat = mant / 10 ^ scale := by
  induction scale generalizing mant with
  | zero => rfl
  | succ scale ih =>
    unfold ofScaled
    split
    · rename_i h
      have hmant : (mant : ℚ) = (mant / 10 : Int) * 10 := by
        exact_mod_cast (Int.ediv_mul_cancel (Int.dvd_of_emod_eq_zero h)).symm
      rw [ih, hmant, pow_succ]
      field_simp
    · rfl

/-- Lowest terms are not larger. -/
theorem ofScaled_le (mant : Int) (scale : Nat) :
    (ofScaled mant scale).scale ≤ scale ∧ (ofScaled mant scale).mant.natAbs ≤ mant.natAbs := by
  induction scale generalizing mant with
  | zero => exact ⟨le_refl 0, le_refl _⟩
  | succ scale ih =>
    unfold ofScaled
    split
    · obtain ⟨h1, h2⟩ := ih (mant / 10)
      exact ⟨by omega, by omega⟩
    · exact ⟨le_refl _, le_refl _⟩

theorem ofScaled_self (d : Decimal) : ofScaled d.mant d.scale = d := by
  obtain ⟨mant, scale, h⟩ := d
  cases scale with
  | zero => rfl
  | succ scale => exact dif_neg (h.resolve_left (Nat.succ_ne_zero _))

theorem toRat_injective : Function.Injective toRat := by
  have key : ∀ a b : Decimal, a.scale ≤ b.scale → a.toRat = b.toRat → a = b := fun a b hle h => by
    obtain ⟨k, hk⟩ := Nat.exists_eq_add_of_le hle
    have hmant : b.mant = a.mant * 10 ^ k := by
      have hpos : ∀ n : Nat, (10 : ℚ) ^ n ≠ 0 := fun n => pow_ne_zero n (by norm_num)
      unfold toRat at h
      rw [div_eq_div_iff (hpos _) (hpos _), hk, pow_add] at h
      have hmul : (b.mant : ℚ) = a.mant * 10 ^ k :=
        mul_right_cancel₀ (hpos a.scale) (by rw [← h]; ring)
      exact_mod_cast hmul
    cases k with
    | zero =>
      obtain ⟨am, as, ha⟩ := a
      obtain ⟨bm, bs, hb⟩ := b
      simp only [add_zero, pow_zero, mul_one] at hk hmant
      subst hk hmant
      rfl
    | succ k =>
      refine absurd ?_ (b.lowest.resolve_left (by omega))
      rw [hmant, pow_succ, ← mul_assoc, Int.mul_emod_left]
  intro a b h
  rcases le_total a.scale b.scale with hle | hle
  · exact key a b hle h
  · exact (key b a hle h.symm).symm

/-! ### Text -/

def digits (n : Nat) : List Char := Nat.toDigits 10 n

/-- The digits of a number below `10 ^ width`, with zeros in front. -/
def padded (width n : Nat) : List Char := List.replicate (width - (digits n).length) '0' ++ digits n

def ofDigits (cs : List Char) : Nat := Nat.ofDigitChars 10 cs 0

theorem ofDigits_digits (n : Nat) : ofDigits (digits n) = n := Nat.ofDigitChars_ten_toDigits

variable {c : Char} {n width : Nat} {rest : List Char}

theorem isDigit_of_mem_digits (h : c ∈ digits n) : c.isDigit :=
  Nat.isDigit_of_mem_toDigits (by omega) (by omega) h

theorem digits_ne_nil (n : Nat) : digits n ≠ [] := Nat.toDigits_ne_nil

theorem length_digits_le (hw : 0 < width) (h : n < 10 ^ width) :
    (digits n).length ≤ width := (Nat.length_toDigits_le_iff (by omega) hw).mpr h

/-- The first digit is a zero of the number zero only. -/
theorem head_digits (h : 0 < n) : ∃ c cs, digits n = c :: cs ∧ c ≠ '0' := by
  induction n using Nat.strong_induction_on with
  | _ n ih =>
    unfold digits
    by_cases hn : n < 10
    · rw [Nat.toDigits_of_lt_base hn]
      exact ⟨_, [], rfl, (by decide : ∀ n < 10, 0 < n → n.digitChar ≠ '0') n hn h⟩
    · rw [Nat.toDigits_of_base_le (by omega) (by omega)]
      obtain ⟨c, cs, hcs, hc⟩ := ih (n / 10) (by omega) (by omega)
      exact ⟨c, cs ++ [(n % 10).digitChar], by rw [show Nat.toDigits 10 (n / 10) = _ from hcs]; rfl, hc⟩

theorem length_padded (hw : 0 < width) (h : n < 10 ^ width) : (padded width n).length = width := by
  have hlen := length_digits_le hw h
  unfold padded
  rw [length_append, length_replicate]
  omega

theorem isDigit_of_mem_padded (h : c ∈ padded width n) : c.isDigit := by
  rcases mem_append.mp h with h | h
  · obtain ⟨-, rfl⟩ := mem_replicate.mp h
    rfl
  · exact isDigit_of_mem_digits h

/-- The digits before and after the point are those of the integer without the point. -/
theorem ofDigits_append_padded {a : Nat} (hw : 0 < width) (h : n < 10 ^ width) :
    ofDigits (digits a ++ padded width n) = a * 10 ^ width + n := by
  have hlen := length_digits_le hw h
  have hpow : 10 ^ (digits n).length * 10 ^ (width - (digits n).length) = 10 ^ width := by
    rw [← pow_add]
    congr 1
    omega
  unfold padded ofDigits
  rw [Nat.ofDigitChars_append, Nat.ofDigitChars_append, Nat.ofDigitChars_replicate_zero,
    Nat.ofDigitChars_eq_ofDigitChars_zero, show Nat.ofDigitChars 10 (digits n) 0 = n from ofDigits_digits n,
    show Nat.ofDigitChars 10 (digits a) 0 = a from ofDigits_digits a, ← hpow]
  ring

/-- The text of a fraction. -/
def text (d : Decimal) : List Char :=
  let n := d.mant.natAbs
  (if d.mant < 0 then ['-'] else []) ++ digits (n / 10 ^ d.scale) ++
    if d.scale = 0 then [] else '.' :: padded d.scale (n % 10 ^ d.scale)

theorem text_head (d : Decimal) : ∃ c cs, d.text = c :: cs ∧ (c = '-' ∨ c.isDigit) := by
  unfold text
  dsimp only
  by_cases hneg : d.mant < 0
  · rw [if_pos hneg]
    exact ⟨'-', _, rfl, .inl rfl⟩
  · obtain ⟨c, cs, hcs⟩ := exists_cons_of_ne_nil (digits_ne_nil (d.mant.natAbs / 10 ^ d.scale))
    rw [if_neg hneg, hcs]
    exact ⟨c, _, rfl, .inr (isDigit_of_mem_digits (hcs ▸ mem_cons_self))⟩

theorem mem_text {d : Decimal} (h : c ∈ d.text) : c.isDigit ∨ c = '-' ∨ c = '.' := by
  unfold text at h
  rw [mem_append, mem_append] at h
  rcases h with (h | h) | h
  · split at h
    · exact .inr (.inl (mem_singleton.mp h))
    · cases h
  · exact .inl (isDigit_of_mem_digits h)
  · split at h
    · cases h
    · rcases mem_cons.mp h with rfl | h
      · exact .inr (.inr rfl)
      · exact .inl (isDigit_of_mem_padded h)

/-! ### Reading -/

/-- The fraction `mant * 10 ^ exp`. -/
def ofExp (mant exp : Int) : Decimal :=
  if 0 ≤ exp then ofInt (mant * 10 ^ exp.toNat) else ofScaled mant (-exp).toNat

def takeDigits (cs : List Char) : Option (List Char × List Char) :=
  if cs.takeWhile Char.isDigit = [] then none
  else some (cs.takeWhile Char.isDigit, cs.dropWhile Char.isDigit)

/-- The digits before a point: a zero, or digits that do not start with one. -/
def takeInt : List Char → Option (List Char × List Char)
  | '0' :: cs => some (['0'], cs)
  | cs => takeDigits cs

def takeFraction : List Char → List Char × List Char
  | '.' :: cs => (takeDigits cs).getD ([], '.' :: cs)
  | cs => ([], cs)

def takeSign : List Char → Bool × List Char
  | '-' :: cs => (true, cs)
  | cs => (false, cs)

def signed (neg : Bool) (n : Int) : Int := if neg then -n else n

def takeExpSign : List Char → Bool × List Char
  | '+' :: cs => (false, cs)
  | cs => takeSign cs

/-- An exponent. -/
def takeExponent : List Char → Int × List Char
  | [] => (0, [])
  | c :: cs =>
    match takeDigits (takeExpSign cs).2 with
    | none => (0, c :: cs)
    | some (ds, rest) =>
      if c = 'e' ∨ c = 'E' then (signed (takeExpSign cs).1 (ofDigits ds), rest) else (0, c :: cs)

/-- A number after its sign. -/
def readUnsigned (neg : Bool) (cs : List Char) : Option (Decimal × List Char) := do
  let (whole, cs) ← takeInt cs
  let (fraction, cs) := takeFraction cs
  let (exp, cs) := takeExponent cs
  some (ofExp (signed neg (ofDigits (whole ++ fraction))) (exp - fraction.length), cs)

def read (cs : List Char) : Option (Decimal × List Char) := readUnsigned (takeSign cs).1 (takeSign cs).2

def Stops (rest : List Char) : Prop :=
  ∀ c ∈ rest.head?, c.isDigit = false ∧ c ≠ '.' ∧ c ≠ 'e' ∧ c ≠ 'E'

/-- The digits in front of a text that goes on with something else. -/
theorem takeWhile_digits (ds rest : List Char) (hds : ∀ c ∈ ds, c.isDigit)
    (hrest : ∀ c ∈ rest.head?, c.isDigit = false) :
    (ds ++ rest).takeWhile Char.isDigit = ds ∧ (ds ++ rest).dropWhile Char.isDigit = rest := by
  induction ds with
  | nil =>
    cases rest with
    | nil => exact ⟨rfl, rfl⟩
    | cons c rest =>
      have hc := hrest c rfl
      simp [hc]
  | cons c ds ih =>
    obtain ⟨htake, hdrop⟩ := ih fun c hc => hds c (mem_cons_of_mem _ hc)
    have hc := hds c mem_cons_self
    simp [hc, htake, hdrop]

theorem takeDigits_append {ds : List Char} (hds : ∀ c ∈ ds, c.isDigit) (hne : ds ≠ [])
    (hrest : ∀ c ∈ rest.head?, c.isDigit = false) : takeDigits (ds ++ rest) = some (ds, rest) := by
  obtain ⟨htake, hdrop⟩ := takeWhile_digits ds rest hds hrest
  unfold takeDigits
  rw [htake, hdrop, if_neg hne]

theorem takeInt_digits (n : Nat) (hrest : ∀ c ∈ rest.head?, c.isDigit = false) :
    takeInt (digits n ++ rest) = some (digits n, rest) := by
  rcases Nat.eq_zero_or_pos n with rfl | hn
  · rfl
  · obtain ⟨c, cs, hcs, hc⟩ := head_digits hn
    have hread := takeDigits_append (fun _ => isDigit_of_mem_digits) (digits_ne_nil n) hrest
    rw [hcs] at hread ⊢
    unfold takeInt
    split
    · rename_i heq
      exact absurd (List.cons.inj heq).1 hc
    · exact hread

theorem takeExponent_stops (h : Stops rest) : takeExponent rest = (0, rest) := by
  cases rest with
  | nil => rfl
  | cons c cs =>
    obtain ⟨-, -, he, hE⟩ := h c rfl
    show (match takeDigits (takeExpSign cs).2 with
      | none => (0, c :: cs)
      | some (ds, rest) =>
        if c = 'e' ∨ c = 'E' then (signed (takeExpSign cs).1 (ofDigits ds), rest) else (0, c :: cs)) = _
    split
    · rfl
    · exact if_neg (not_or.mpr ⟨he, hE⟩)

theorem takeFraction_stops (h : Stops rest) : takeFraction rest = ([], rest) := by
  unfold takeFraction
  split
  · exact absurd rfl (h '.' rfl).2.1
  · rfl

theorem readUnsigned_text (neg : Bool) {scale : Nat} (hrest : Stops rest) :
    readUnsigned neg (digits (n / 10 ^ scale) ++
      (if scale = 0 then [] else '.' :: padded scale (n % 10 ^ scale)) ++ rest) =
      some (ofExp (signed neg n) (-scale), rest) := by
  have hdigit : ∀ c ∈ rest.head?, c.isDigit = false := fun c hc => (hrest c hc).1
  unfold readUnsigned
  by_cases hscale : scale = 0
  · subst hscale
    rw [if_pos rfl, append_nil, pow_zero, Nat.div_one, takeInt_digits n hdigit]
    simp [takeFraction_stops hrest, takeExponent_stops hrest, ofDigits_digits]
  · have hmod : n % 10 ^ scale < 10 ^ scale := Nat.mod_lt _ (by positivity)
    have hlen := length_padded (Nat.pos_of_ne_zero hscale) hmod
    have hpoint : ∀ c ∈ ('.' :: (padded scale (n % 10 ^ scale) ++ rest)).head?, c.isDigit = false := by
      rintro c ⟨⟩
      rfl
    have hfraction : takeFraction ('.' :: (padded scale (n % 10 ^ scale) ++ rest)) =
        (padded scale (n % 10 ^ scale), rest) := by
      have hne : padded scale (n % 10 ^ scale) ≠ [] := fun h => by
        rw [h] at hlen
        exact hscale hlen.symm
      show (takeDigits _).getD _ = _
      rw [takeDigits_append (fun _ => isDigit_of_mem_padded) hne hdigit]
      rfl
    rw [if_neg hscale, append_assoc, cons_append, takeInt_digits _ hpoint]
    simp only [Option.bind_eq_bind, Option.bind_some, hfraction, takeExponent_stops hrest, zero_sub, hlen]
    rw [ofDigits_append_padded (Nat.pos_of_ne_zero hscale) hmod, mul_comm, Nat.div_add_mod]

theorem read_text (d : Decimal) (hrest : Stops rest) : read (d.text ++ rest) = some (d, rest) := by
  have hself : ofExp d.mant (-d.scale) = d := by
    unfold ofExp
    split
    · rename_i h
      have hscale : d.scale = 0 := by omega
      conv_rhs => rw [← ofScaled_self d, hscale]
      simp [hscale, ofScaled]
    · rw [neg_neg, Int.toNat_natCast, ofScaled_self]
  have hsign : ∀ cs : List Char, takeSign (digits (d.mant.natAbs / 10 ^ d.scale) ++ cs) =
      (false, digits (d.mant.natAbs / 10 ^ d.scale) ++ cs) := fun cs => by
    obtain ⟨c, ds, hds⟩ := exists_cons_of_ne_nil (digits_ne_nil (d.mant.natAbs / 10 ^ d.scale))
    have hc : c.isDigit := isDigit_of_mem_digits (hds ▸ mem_cons_self)
    rw [hds, cons_append]
    unfold takeSign
    split
    · rename_i heq
      rw [(List.cons.inj heq).1] at hc
      cases hc
    · rfl
  unfold read text
  dsimp only
  by_cases hneg : d.mant < 0
  · have hmant : signed true d.mant.natAbs = d.mant := by
      unfold signed
      rw [if_pos rfl]
      omega
    rw [if_pos hneg, append_assoc, append_assoc, singleton_append]
    refine (congrArg _ (append_assoc _ _ _).symm).trans ((readUnsigned_text true hrest).trans ?_)
    rw [hmant, hself]
  · have hmant : signed false d.mant.natAbs = d.mant := by
      unfold signed
      rw [if_neg (by decide)]
      omega
    rw [if_neg hneg, nil_append, append_assoc, hsign]
    refine (congrArg _ (append_assoc _ _ _).symm).trans ((readUnsigned_text false hrest).trans ?_)
    rw [hmant, hself]

example : (read "-12.50e1,".toList).map (fun r => (r.1.mant, r.1.scale, r.2)) = some (-125, 0, [',']) := by
  decide

end Decimal

end TokenBill.General
