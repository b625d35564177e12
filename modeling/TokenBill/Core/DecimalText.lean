import TokenBill.Core.Textsafe
import TokenBill.General.DecimalTuples
import Mathlib.Tactic.IntervalCases

/-!
# Decimal numbers of the host, from text

`decimal.Decimal(text)`: white space around the text and underscores in it do not count, digits
may be of any script, and what is left is a number by the numeric grammar of the host, an infinity
or a NaN. A number is kept exactly or refused: its digits and its exponent have a range.
-/

namespace TokenBill

open General

/-! ### Characters -/

/-- The code points of the zeros of the decimal digits; the nine others follow each. -/
def decimalZeros : List Nat :=
  [48, 1632, 1776, 1984, 2406, 2534, 2662, 2790, 2918, 3046, 3174, 3302, 3430, 3558, 3664, 3792, 3872,
    4160, 4240, 6112, 6160, 6470, 6608, 6784, 6800, 6992, 7088, 7232, 7248, 42528, 43216, 43264, 43472,
    43504, 43600, 44016, 65296, 66720, 68912, 69734, 69872, 69942, 70096, 70384, 70736, 70864, 71248,
    71360, 71472, 71904, 72016, 72784, 73040, 73120, 92768, 92864, 93008, 120782, 120792, 120802, 120812,
    120822, 123200, 123632, 125264, 130032]

/-- A decimal digit of any script as that of ASCII, any other character as it is. -/
def asciiDigit (c : Char) : Char :=
  match decimalZeros.find? fun z => decide (z ≤ c.toNat) && decide (c.toNat < z + 10) with
  | some z => (c.toNat - z).digitChar
  | none => c

/-- `str.strip()` on the characters. -/
def stripSpace (cs : List Char) : List Char := ((cs.dropWhile isPySpace).reverse.dropWhile isPySpace).reverse

def numericChars (cs : List Char) : List Char := ((stripSpace cs).filter (· ≠ '_')).map asciiDigit

/-! ### The numeric grammar -/

/-- A sign in front. -/
def takeAnySign : List Char → Bool × List Char
  | '-' :: cs => (true, cs)
  | '+' :: cs => (false, cs)
  | cs => (false, cs)

/-- The exponent at the end: nothing, or `e` and an integer. -/
def readExponent : List Char → Option Int
  | [] => some 0
  | c :: cs =>
    let (neg, ds) := takeAnySign cs
    if (c = 'e' ∨ c = 'E') ∧ ds ≠ [] ∧ ds.all Char.isDigit then some (Decimal.signed neg (Decimal.ofDigits ds))
    else none

def takePoint : List Char → List Char × List Char
  | '.' :: cs => (cs.takeWhile Char.isDigit, cs.dropWhile Char.isDigit)
  | cs => ([], cs)

/-- A finite number after its sign. -/
def readFinite (neg : Bool) (cs : List Char) : Option DecimalTuple :=
  let whole := cs.takeWhile Char.isDigit
  let (fraction, rest) := takePoint (cs.dropWhile Char.isDigit)
  if whole ++ fraction = [] then none
  else (readExponent rest).map fun e => ⟨neg, Decimal.ofDigits (whole ++ fraction), e - fraction.length⟩

/-- An infinity or a NaN, with its digits, in any case. -/
def isSpecial (cs : List Char) : Bool :=
  let lower := cs.map Char.toLower
  lower == "inf".toList || lower == "infinity".toList ||
    ["nan".toList, "snan".toList].any fun name =>
      name.isPrefixOf lower && (lower.drop name.length).all Char.isDigit

/-! ### The numbers of the host -/

/-- `MAX_PREC` and `MAX_EMAX`. -/
def maxPrec : Nat := 999999999999999999

/-- `MIN_ETINY`. -/
def minEtiny : Int := -1999999999999999997

/-- Whether a number is kept exactly. -/
def Representable (d : DecimalTuple) : Prop :=
  d.width ≤ maxPrec ∧ minEtiny ≤ d.exp ∧ (if d.coeff = 0 then d.exp else d.adjusted) ≤ maxPrec

instance (d : DecimalTuple) : Decidable (Representable d) := inferInstanceAs (Decidable (_ ∧ _ ∧ _))

/-- A `Decimal`: a finite number, or an infinity or a NaN. -/
inductive Numeric where
  | finite (d : DecimalTuple)
  | special
  deriving DecidableEq

/-- `Decimal(text)`, or `none` where it raises `InvalidOperation`. -/
def decimalOf (text : String) : Option Numeric :=
  let (neg, cs) := takeAnySign (numericChars text.toList)
  if isSpecial cs then some .special
  else match readFinite neg cs with
    | some d => if Representable d then some (.finite d) else none
    | none => none

example : ["12.50", " -1_0E+3 ", ".5e-1", "٣.٥", "sNaN7", "1.2.3", "e5"].map decimalOf =
    [some (.finite ⟨false, 1250, -2⟩), some (.finite ⟨true, 10, 3⟩), some (.finite ⟨false, 5, -2⟩),
      some (.finite ⟨false, 35, -1⟩), some .special, none, none] := by
  decide

/-! ### Characters that count as they are -/

theorem eq_digitChar {c : Char} (h : c.isDigit) : ∃ n < 10, c = n.digitChar := by
  obtain ⟨h1, h2⟩ := Char.isDigit_iff_toNat.mp h
  have hc := Char.ofNat_toNat c
  generalize c.toNat = n at h1 h2 hc
  change 48 ≤ n at h1
  change n ≤ 57 at h2
  refine ⟨n - 48, by omega, ?_⟩
  rw [← hc]
  interval_cases n <;> rfl

/-- A character that counts for a number as it is. -/
def Plain (c : Char) : Prop := isPySpace c = false ∧ c ≠ '_' ∧ asciiDigit c = c

instance (c : Char) : Decidable (Plain c) := inferInstanceAs (Decidable (_ ∧ _ ∧ _))

theorem plain_digit {c : Char} (h : c.isDigit) : Plain c := by
  obtain ⟨n, hn, rfl⟩ := eq_digitChar h
  exact (by decide : ∀ n < 10, Plain n.digitChar) n hn

theorem stripSpace_plain {cs : List Char} (h : ∀ c ∈ cs, Plain c) : stripSpace cs = cs := by
  have hdrop : ∀ l : List Char, (∀ c ∈ l, Plain c) → l.dropWhile isPySpace = l := fun l hl => by
    cases l with
    | nil => rfl
    | cons c l =>
      rw [List.dropWhile_cons_of_neg]
      rw [(hl c List.mem_cons_self).1]
      exact Bool.false_ne_true
  unfold stripSpace
  rw [hdrop cs h, hdrop cs.reverse fun c hc => h c (List.mem_reverse.mp hc), List.reverse_reverse]

theorem numericChars_plain {cs : List Char} (h : ∀ c ∈ cs, Plain c) : numericChars cs = cs := by
  unfold numericChars
  rw [stripSpace_plain h, List.filter_eq_self.mpr fun c hc => by simpa using (h c hc).2.1]
  exact (List.map_congr_left fun c hc => (h c hc).2.2).trans (List.map_id cs)

/-- What starts with a digit after its sign is no infinity or NaN. -/
theorem isSpecial_digit {c : Char} {cs : List Char} (h : c.isDigit) : isSpecial (c :: cs) = false := by
  obtain ⟨n, hn, rfl⟩ := eq_digitChar h
  have hc : n.digitChar.toLower ≠ 'i' ∧ n.digitChar.toLower ≠ 'n' ∧ n.digitChar.toLower ≠ 's' :=
    (by decide : ∀ n < 10, n.digitChar.toLower ≠ 'i' ∧ n.digitChar.toLower ≠ 'n' ∧ n.digitChar.toLower ≠ 's') n hn
  unfold isSpecial
  simp [hc.1, Ne.symm hc.2.1, Ne.symm hc.2.2]

theorem takeAnySign_digit (neg : Bool) {c : Char} (cs : List Char) (h : c.isDigit) :
    takeAnySign ((if neg then ['-'] else []) ++ c :: cs) = (neg, c :: cs) := by
  obtain ⟨n, hn, rfl⟩ := eq_digitChar h
  have hdigit := (by decide : ∀ n < 10, n.digitChar ≠ '-' ∧ n.digitChar ≠ '+') n hn
  cases neg with
  | true => rfl
  | false => simp [takeAnySign, hdigit.1, hdigit.2]

end TokenBill
