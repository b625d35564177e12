import TokenBill.Core.DecimalText

/-!
# The text of a decimal number

`str(Decimal)` writes a finite number with a point where its exponent is not positive and it is not
too small, and with one digit before the point and an exponent elsewhere. `Decimal` reads every such
text back to the same sign, coefficient and exponent (`decimalOf_decimalStr`).
-/

namespace TokenBill

open General List

/-! ### Writing -/

/-- `"%+d"` of an exponent. -/
def signedText (e : Int) : List Char := (if e < 0 then '-' else '+') :: Decimal.digits e.natAbs

def dotPlace (d : DecimalTuple) : Int :=
  if d.exp ≤ 0 ∧ -6 < d.exp + d.width then d.exp + d.width else 1

/-- The digits before the point. -/
def intPart (d : DecimalTuple) : List Char :=
  let int := Decimal.digits d.coeff
  if dotPlace d ≤ 0 then ['0']
  else if (d.width : Int) ≤ dotPlace d then int ++ List.replicate (dotPlace d - d.width).toNat '0'
  else int.take (dotPlace d).toNat

/-- The digits after the point, none where there is no point. -/
def fracPart (d : DecimalTuple) : List Char :=
  let int := Decimal.digits d.coeff
  if dotPlace d ≤ 0 then List.replicate (-dotPlace d).toNat '0' ++ int
  else if (d.width : Int) ≤ dotPlace d then []
  else int.drop (dotPlace d).toNat

def expPart (d : DecimalTuple) : List Char :=
  if d.exp + d.width = dotPlace d then [] else 'E' :: signedText (d.exp + d.width - dotPlace d)

/-- `str(Decimal)` of a finite number. -/
def decimalStr (d : DecimalTuple) : String :=
  String.ofList ((if d.neg then ['-'] else []) ++ intPart d ++
    (if fracPart d = [] then [] else '.' :: fracPart d) ++ expPart d)

example : [(⟨false, 1250, -2⟩ : DecimalTuple), ⟨true, 5, -7⟩, ⟨false, 0, -4⟩, ⟨false, 12, 3⟩].map decimalStr =
    ["12.50", "-5E-7", "0.0000", "1.2E+4"] := by
  decide

/-! ### Reading back -/

theorem signedText_cases (e : Int) :
    (e < 0 ∧ signedText e = '-' :: Decimal.digits e.natAbs) ∨
      (0 ≤ e ∧ signedText e = '+' :: Decimal.digits e.natAbs) := by
  unfold signedText
  rcases lt_or_ge e 0 with h | h
  · exact .inl ⟨h, by rw [if_pos h]⟩
  · exact .inr ⟨h, by rw [if_neg (not_lt.mpr h)]⟩

/-- The exponent that is written is read back, and so is none. -/
theorem readExponent_expPart (d : DecimalTuple) :
    readExponent (expPart d) = some (d.exp + d.width - dotPlace d) := by
  unfold expPart
  by_cases h : d.exp + d.width = dotPlace d
  · rw [if_pos h, h, sub_self]
    rfl
  · rw [if_neg h]
    generalize d.exp + d.width - dotPlace d = e
    have hdigits : (Decimal.digits e.natAbs).all Char.isDigit = true :=
      all_eq_true.mpr fun c hc => Decimal.isDigit_of_mem_digits hc
    rcases signedText_cases e with ⟨he, heq⟩ | ⟨he, heq⟩
    · rw [heq]
      simp only [readExponent, takeAnySign, hdigits, Decimal.digits_ne_nil, Decimal.ofDigits_digits,
        Decimal.signed, ne_eq, not_false_eq_true, and_self, or_true, if_true]
      exact congrArg some (by omega)
    · rw [heq]
      simp only [readExponent, takeAnySign, hdigits, Decimal.digits_ne_nil, Decimal.ofDigits_digits,
        Decimal.signed, ne_eq, not_false_eq_true, and_self, or_true, if_true]
      exact congrArg some (by simp only [Bool.false_eq_true, if_false]; omega)

/-- A number in parts: digits, a point with digits or none, and what its exponent reads. -/
theorem readFinite_parts (neg : Bool) {whole frac rest : List Char} {e : Int} (hwhole : ∀ c ∈ whole, c.isDigit)
    (hne : whole ≠ []) (hfrac : ∀ c ∈ frac, c.isDigit) (hrest : ∀ c ∈ rest.head?, c = 'E')
    (he : readExponent rest = some e) :
    readFinite neg (whole ++ ((if frac = [] then [] else '.' :: frac) ++ rest)) =
      some ⟨neg, Decimal.ofDigits (whole ++ frac), e - frac.length⟩ := by
  have hstop : ∀ c ∈ rest.head?, c.isDigit = false := fun c hc => by
    rw [hrest c hc]
    rfl
  unfold readFinite
  by_cases h : frac = []
  · subst h
    obtain ⟨h1, h2⟩ := Decimal.takeWhile_digits whole rest hwhole hstop
    have hpoint : takePoint rest = ([], rest) := by
      cases rest with
      | nil => rfl
      | cons c rest =>
        rw [hrest c rfl]
        rfl
    simp only [if_true, nil_append, h1, h2, hpoint, he, append_nil, hne, if_false, Option.map_some]
  · obtain ⟨h1, h2⟩ := Decimal.takeWhile_digits whole ('.' :: frac ++ rest) hwhole (by rintro c ⟨⟩; rfl)
    obtain ⟨h3, h4⟩ := Decimal.takeWhile_digits frac rest hfrac hstop
    rw [if_neg h]
    simp only [h1, h2]
    simp only [cons_append, takePoint, h3, h4, he, Option.map_some]
    rw [if_neg (by simp [hne])]

theorem digit_of_mem {n : Nat} {c : Char} {zeros : Nat} (h : c ∈ List.replicate zeros '0' ∨ c ∈ Decimal.digits n) :
    c.isDigit := by
  rcases h with h | h
  · rw [(mem_replicate.mp h).2]
    rfl
  · exact Decimal.isDigit_of_mem_digits h

theorem isDigit_intPart (d : DecimalTuple) : ∀ c ∈ intPart d, c.isDigit := by
  intro c hc
  unfold intPart at hc
  split_ifs at hc
  · rw [mem_singleton.mp hc]
    rfl
  · exact digit_of_mem (mem_append.mp hc).symm
  · exact Decimal.isDigit_of_mem_digits (mem_of_mem_take hc)

theorem isDigit_fracPart (d : DecimalTuple) : ∀ c ∈ fracPart d, c.isDigit := by
  intro c hc
  unfold fracPart at hc
  split_ifs at hc
  · exact digit_of_mem (mem_append.mp hc)
  · cases hc
  · exact Decimal.isDigit_of_mem_digits (mem_of_mem_drop hc)

theorem intPart_ne_nil (d : DecimalTuple) : intPart d ≠ [] := by
  unfold intPart
  split_ifs with h1 h2
  · exact cons_ne_nil _ _
  · simp [Decimal.digits_ne_nil]
  · intro h
    rcases take_eq_nil_iff.mp h with h | h
    · omega
    · exact Decimal.digits_ne_nil _ h

theorem dotPlace_le (d : DecimalTuple) : dotPlace d ≤ d.width := by
  have hw := d.width_pos
  unfold dotPlace
  split_ifs with h <;> omega

/-- The digits written are those of the coefficient, with zeros in front or none. -/
theorem ofDigits_parts (d : DecimalTuple) : Decimal.ofDigits (intPart d ++ fracPart d) = d.coeff := by
  have hle := dotPlace_le d
  unfold intPart fracPart
  generalize dotPlace d = p at hle
  split_ifs with h1 h2
  · have hzeros : ['0'] ++ (List.replicate (-p).toNat '0' ++ Decimal.digits d.coeff) =
        List.replicate ((-p).toNat + 1) '0' ++ Decimal.digits d.coeff := by
      rw [replicate_succ]
      rfl
    rw [hzeros]
    unfold Decimal.ofDigits
    rw [Nat.ofDigitChars_append, Nat.ofDigitChars_replicate_zero, Nat.mul_zero]
    exact Decimal.ofDigits_digits d.coeff
  · rw [append_nil, show (p - d.width).toNat = 0 by omega, replicate_zero, append_nil]
    exact Decimal.ofDigits_digits d.coeff
  · rw [take_append_drop]
    exact Decimal.ofDigits_digits d.coeff

theorem length_fracPart (d : DecimalTuple) : ((fracPart d).length : Int) = d.width - dotPlace d := by
  have hle := dotPlace_le d
  have hlen : (Decimal.digits d.coeff).length = d.width := rfl
  unfold fracPart
  generalize dotPlace d = p at hle
  split_ifs with h1 h2
  · rw [length_append, length_replicate, hlen]
    omega
  · rw [length_nil]
    omega
  · rw [length_drop, hlen]
    omega

theorem plain_decimalStr (d : DecimalTuple) {c : Char} (h : c ∈ (if d.neg then ['-'] else []) ++ intPart d ++
    (if fracPart d = [] then [] else '.' :: fracPart d) ++ expPart d) : Plain c := by
  rcases mem_append.mp h with h | h
  · rcases mem_append.mp h with h | h
    · rcases mem_append.mp h with h | h
      · split_ifs at h
        · rw [mem_singleton.mp h]
          decide
        · cases h
      · exact plain_digit (isDigit_intPart d c h)
    · split_ifs at h
      · cases h
      · rcases mem_cons.mp h with rfl | h
        · decide
        · exact plain_digit (isDigit_fracPart d c h)
  · unfold expPart at h
    split_ifs at h
    · cases h
    · rcases mem_cons.mp h with rfl | h
      · decide
      · rcases signedText_cases (d.exp + d.width - dotPlace d) with ⟨-, heq⟩ | ⟨-, heq⟩
        all_goals
          rw [heq] at h
          rcases mem_cons.mp h with rfl | h
          · decide
          · exact plain_digit (Decimal.isDigit_of_mem_digits h)

/-- A number is read back from its text with its sign, its coefficient and its exponent. -/
theorem decimalOf_decimalStr {d : DecimalTuple} (h : Representable d) :
    decimalOf (decimalStr d) = some (.finite d) := by
  obtain ⟨c, cs, hcs⟩ := exists_cons_of_ne_nil (intPart_ne_nil d)
  have hc : c.isDigit := isDigit_intPart d c (hcs ▸ mem_cons_self)
  have hread := readFinite_parts d.neg (isDigit_intPart d) (intPart_ne_nil d) (isDigit_fracPart d)
    (fun c hc => by
      unfold expPart at hc
      split_ifs at hc
      · cases hc
      · exact (Option.some.inj hc).symm) (readExponent_expPart d)
  have hexp : d.exp + d.width - dotPlace d - ((fracPart d).length : Int) = d.exp := by
    rw [length_fracPart]
    omega
  rw [ofDigits_parts, hexp] at hread
  have hsign := takeAnySign_digit d.neg (cs ++
    ((if fracPart d = [] then [] else '.' :: fracPart d) ++ expPart d)) hc
  unfold decimalOf decimalStr
  rw [String.toList_ofList, numericChars_plain fun _ => plain_decimalStr d, append_assoc, append_assoc]
  rw [hcs, cons_append] at hread ⊢
  rw [hsign]
  dsimp only
  rw [hread, isSpecial_digit hc, if_neg Bool.false_ne_true]
  exact if_pos h

end TokenBill
