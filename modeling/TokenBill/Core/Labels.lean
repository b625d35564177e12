import TokenBill.Core.Records
import Mathlib.Algebra.Order.Group.Int
import Mathlib.Algebra.Group.Prod
import Mathlib.Algebra.Order.Monoid.Unbundled.WithTop
import Mathlib.Data.List.Sort

/-!
# Figures and the honesty rules

`core/labels.py`: every money value is a `Figure` with evidence, basis, finality
and calibration. `FigureFields.check` is `Figure.__post_init__`, in its order; a
`Figure` carries the proof that it passes, so a figure that breaks an honesty
rule cannot be built. `add` combines figures without ever upgrading evidence.

`Figure.amounts` reads a figure as a point with its range, in a monoid where an
unpriced figure absorbs: addition of figures is addition there
(`amounts_add`), which is what every conservation result rests on.
-/

namespace TokenBill

open List

/-- `Evidence`. -/
inductive Evidence where
  | exact | estimated | measured | verified
  deriving DecidableEq

/-- `STRENGTH`. -/
def Evidence.strength : Evidence → Nat
  | exact => 3 | verified => 2 | measured => 1 | estimated => 0

/-- `Basis`. -/
inductive Basis where
  | list | contract | invoice | providerEstimate | listEquivalent
  deriving DecidableEq

/-- `Finality`. -/
inductive Finality where
  | provisional | final | na
  deriving DecidableEq

/-- `Calibration`. -/
inductive Calibration where
  | calibrated | uncalibrated | na
  deriving DecidableEq

/-- The fields of `Figure`. -/
structure FigureFields where
  nano : Option Int
  evidence : Evidence
  basis : Basis
  finality : Finality := .na
  lowNano : Option Int := none
  highNano : Option Int := none
  ciLevelPct : Option Int := none
  calibration : Calibration := .na
  upperBound : Bool := false
  provenance : List String := []
  note : String := ""
  deriving DecidableEq

/-- The range rules of `Figure.__post_init__`. -/
def FigureFields.checkRange (f : FigureFields) : Option Error :=
  match f.lowNano, f.highNano with
  | none, none => none
  | some low, some high =>
    if high < low then some (.contract "Figure: low_nano > high_nano")
    else if f.nano.any fun n => !(decide (low ≤ n) && decide (n ≤ high)) then
      some (.contract "Figure: nano outside [low_nano, high_nano]")
    else none
  | _, _ => some (.contract "Figure: low_nano and high_nano are both set or both None")

/-- The evidence rules of `Figure.__post_init__`. -/
def FigureFields.checkEvidence (f : FigureFields) : Option Error :=
  match f.evidence with
  | .exact =>
    if f.lowNano ≠ none then some (.contract "Figure: EXACT figures carry no range")
    else if f.calibration ≠ .na then
      some (.contract "Figure: EXACT figures have calibration n/a")
    else if f.upperBound then some (.contract "Figure: EXACT figures are never upper bounds")
    else none
  | .estimated =>
    if f.calibration = .na ∧ f.note = "" then
      some (.contract
        "Figure: ESTIMATED figures declare calibration or name their assumption in note")
    else none
  | _ =>
    if f.lowNano = none ∨ f.ciLevelPct = none then
      some (.contract "Figure: MEASURED/VERIFIED figures need a range and ci_level_pct")
    else none

/-- The check `Figure.__post_init__` fails first, if any. -/
def FigureFields.check (f : FigureFields) : Option Error :=
  if f.ciLevelPct.any fun c => !(decide (0 < c) && decide (c < 100)) then
    some (.contract "Figure.ci_level_pct: must be in (0, 100)")
  else if f.nano = none ∧ !startsWith f.note "unpriced:" then
    some (.contract "Figure: an unpriced figure's note must start with 'unpriced:'")
  else
    f.checkRange.or <| f.checkEvidence.or <|
      if f.basis = .invoice ∧ f.evidence ≠ .exact then
        some (.contract "Figure: basis invoice requires evidence exact")
      else none

/-- A money value that keeps the honesty rules. -/
structure Figure extends FigureFields where
  valid : toFigureFields.check = none
  deriving DecidableEq

/-- The constructor `Figure(...)`: it raises on a broken rule. -/
def FigureFields.build (f : FigureFields) : Except Error Figure :=
  match h : f.check with
  | some e => .error e
  | none => .ok ⟨f, h⟩

theorem FigureFields.build_eq_ok {f : FigureFields} {g : Figure} :
    f.build = .ok g ↔ g.toFigureFields = f := by
  unfold build
  split
  · rename_i e h
    constructor
    · intro hg; cases hg
    · rintro rfl
      rw [g.valid] at h
      cases h
  · rename_i h
    constructor
    · intro hg; cases hg; rfl
    · rintro rfl; rfl

theorem FigureFields.build_of_check {f : FigureFields} (h : f.check = none) :
    f.build = .ok ⟨f, h⟩ := build_eq_ok.mpr rfl

/-- `exact(nano, basis)`. -/
def exactFigure (nano : Int) (basis : Basis) : Figure :=
  ⟨{ nano := some nano, evidence := .exact, basis := basis }, by
    cases basis <;> rfl⟩

/-! ### Combining -/

/-- `_weaker`. -/
def weaker (a b : Evidence) : Evidence := if a.strength ≤ b.strength then a else b

/-- `str.split("; ")` on the characters: the pieces between the separators. -/
def splitNotes : List Char → List (List Char)
  | [] => [[]]
  | ';' :: ' ' :: cs => [] :: splitNotes cs
  | c :: cs =>
    match splitNotes cs with
    | [] => [[c]]
    | piece :: rest => (c :: piece) :: rest

theorem mem_splitNotes {cs : List Char} {c : Char} (hc : c ∈ cs) (h1 : c ≠ ';') (h2 : c ≠ ' ') :
    ∃ piece ∈ splitNotes cs, c ∈ piece := by
  fun_induction splitNotes cs with
  | case1 => cases hc
  | case2 cs ih =>
    have hc : c ∈ cs := by simpa [h1, h2] using hc
    obtain ⟨piece, hp, hcp⟩ := ih hc
    exact ⟨piece, mem_cons_of_mem _ hp, hcp⟩
  | case3 d cs _ heq ih =>
    rcases mem_cons.mp hc with rfl | hc
    · exact ⟨[c], mem_cons_self, mem_cons_self⟩
    · obtain ⟨piece, hp, -⟩ := ih hc
      rw [heq] at hp
      cases hp
  | case4 d cs _ piece rest heq ih =>
    rcases mem_cons.mp hc with rfl | hc
    · exact ⟨c :: piece, mem_cons_self, mem_cons_self⟩
    · obtain ⟨p, hp, hcp⟩ := ih hc
      rw [heq] at hp
      rcases mem_cons.mp hp with rfl | hp
      · exact ⟨d :: p, mem_cons_self, mem_cons_of_mem _ hcp⟩
      · exact ⟨p, mem_cons_of_mem _ hp, hcp⟩

/-- A separator starts where a `;` meets a space. -/
theorem splitNotes_cons {c : Char} {cs : List Char} (h : ¬[';', ' '] <+: c :: cs) :
    ∃ piece rest, splitNotes cs = piece :: rest ∧ splitNotes (c :: cs) = (c :: piece) :: rest := by
  have hne : splitNotes cs ≠ [] := by
    fun_cases splitNotes cs <;> simp
  obtain ⟨piece, rest, heq⟩ := exists_cons_of_ne_nil hne
  refine ⟨piece, rest, heq, ?_⟩
  rw [splitNotes, heq]
  rintro cs' rfl rfl
  exact h (by simp)

def noteParts (note : String) : List String :=
  ((splitNotes note.toList).map String.ofList).filter (· ≠ "")

/-- `_combine_notes`. -/
def combineNotes (a b : String) : String :=
  if b = "" ∨ a = b then a
  else if a = "" then b
  else
    "; ".intercalate <|
      (noteParts b).foldl (fun parts p => if p ∈ parts then parts else parts ++ [p]) (noteParts a)

/-- `_combine_calibration`. -/
def combineCalibration (a b : Calibration) : Calibration :=
  if a = .uncalibrated ∨ b = .uncalibrated then .uncalibrated
  else if a = .calibrated ∨ b = .calibrated then .calibrated
  else .na

/-- `_combine_finality`. -/
def combineFinality (a b : Finality) : Finality :=
  if a = b then a else if a = .provisional ∨ b = .provisional then .provisional else .na

/-- `_combine_ci`. -/
def combineCi (a b : Option Int) : Option Int :=
  match a, b with
  | none, b => b
  | a, none => a
  | some x, some y => some (min x y)

/-- `_bounds` of a priced figure: its range, or its point. -/
def Figure.bounds (f : Figure) (nano : Int) : Int × Int :=
  match f.lowNano, f.highNano with
  | some low, some high => (low, high)
  | _, _ => (nano, nano)

/-- `sorted(set(a) | set(b))`. -/
def sortedUnion (a b : List String) : List String := (a ++ b).dedup.insertionSort (· ≤ ·)

/-- The calibration of a combination: an exact figure has none. -/
def combinedCalibration (a b : Figure) : Calibration :=
  if weaker a.evidence b.evidence = .exact then .na
  else combineCalibration a.calibration b.calibration

/-- Whether a combination is an upper bound: an exact figure never is. -/
def combinedUpper (a b : Figure) : Bool :=
  if weaker a.evidence b.evidence = .exact then false else a.upperBound || b.upperBound

def combinedCi (a b : Figure) : Option Int :=
  if weaker a.evidence b.evidence = .measured ∨ weaker a.evidence b.evidence = .verified
  then combineCi a.ciLevelPct b.ciLevelPct else none

/-- The fields `_combine` gives two priced figures. -/
def combinePriced (a b : Figure) (x y : Int) (subtract : Bool) : FigureFields :=
  let (aLo, aHi) := a.bounds x
  let (bLo, bHi) := b.bounds y
  let nano := if subtract then x - y else x + y
  let low := if subtract then aLo - bHi else aLo + bLo
  let high := if subtract then aHi - bLo else aHi + bHi
  let hasRange := a.lowNano.isSome || b.lowNano.isSome
  { nano := some nano
    evidence := weaker a.evidence b.evidence
    basis := a.basis
    finality := combineFinality a.finality b.finality
    lowNano := if hasRange then some low else none
    highNano := if hasRange then some high else none
    ciLevelPct := combinedCi a b
    calibration := combinedCalibration a b
    upperBound := combinedUpper a b
    provenance := sortedUnion a.provenance b.provenance
    note := combineNotes a.note b.note }

/-- The fields `_combine` gives a combination with an unpriced figure: it cannot carry a
confidence interval. -/
def combineUnpriced (a b : Figure) : FigureFields where
  nano := none
  evidence :=
    let evidence := weaker a.evidence b.evidence
    if evidence = .measured ∨ evidence = .verified then .estimated else evidence
  basis := a.basis
  finality := combineFinality a.finality b.finality
  calibration := combinedCalibration a b
  upperBound := combinedUpper a b
  provenance := sortedUnion a.provenance b.provenance
  note := if a.nano = none then a.note else b.note

/-- The fields `_combine` gives its result. -/
def combineFields (a b : Figure) (subtract : Bool) : FigureFields :=
  match a.nano, b.nano with
  | some x, some y => combinePriced a b x y subtract
  | _, _ => combineUnpriced a b

/-- `_combine`. -/
def combine (a b : Figure) (subtract : Bool) : Except Error Figure :=
  if a.basis ≠ b.basis then .error (.contract "add/sub: basis mismatch")
  else (combineFields a b subtract).build

/-- `add`: same basis, weaker evidence, ranges add. -/
def add (a b : Figure) : Except Error Figure := combine a b false

/-! ### Amounts -/

/-- A point with its range, `⊤` for an unpriced figure. -/
abbrev Amounts : Type := WithTop (ℤ × ℤ × ℤ)

/-- The point and the range of a figure (a point is its own range). -/
def Figure.amounts (f : Figure) : Amounts :=
  match f.nano with
  | none => ⊤
  | some n => ((n, f.bounds n) : ℤ × ℤ × ℤ)

def optAmounts : Option Figure → Amounts
  | none => 0
  | some f => f.amounts

/-- What passing every check says, rule by rule. -/
theorem FigureFields.check_eq_none (f : FigureFields) :
    f.check = none ↔ (f.ciLevelPct.any fun c => !(decide (0 < c) && decide (c < 100))) = false ∧
      (f.nano = none → startsWith f.note "unpriced:") ∧ f.checkRange = none ∧
      f.checkEvidence = none ∧ (f.basis = .invoice → f.evidence = .exact) := by
  unfold check
  split_ifs with h1 h2 h3 <;> simp_all [Option.or_eq_none_iff]

/-- A range is set at both ends or at neither. -/
theorem Figure.lowNano_isSome (f : Figure) : f.lowNano.isSome = f.highNano.isSome := by
  have h := ((FigureFields.check_eq_none _).mp f.valid).2.2.1
  unfold FigureFields.checkRange at h
  cases hl : f.lowNano <;> cases hh : f.highNano <;> simp_all

theorem Figure.bounds_of_some (f : Figure) {n low high : ℤ} (hl : f.lowNano = some low)
    (hh : f.highNano = some high) : f.bounds n = (low, high) := by
  simp [Figure.bounds, hl, hh]

theorem Figure.bounds_of_none (f : Figure) {n : ℤ} (hl : f.lowNano = none) :
    f.bounds n = (n, n) := by
  simp [Figure.bounds, hl]

theorem amounts_add {a b c : Figure} (h : add a b = .ok c) : c.amounts = a.amounts + b.amounts := by
  unfold add combine at h
  split at h
  · cases h
  rw [FigureFields.build_eq_ok] at h
  have hn : c.nano = (combineFields a b false).nano := by rw [h]
  have hl : c.lowNano = (combineFields a b false).lowNano := by rw [h]
  have hh : c.highNano = (combineFields a b false).highNano := by rw [h]
  cases ha : a.nano with
  | none => simp [Figure.amounts, hn, combineFields, combineUnpriced, ha]
  | some x =>
    cases hb : b.nano with
    | none => simp [Figure.amounts, hn, combineFields, combineUnpriced, ha, hb]
    | some y =>
      simp only [combineFields, combinePriced, ha, hb, Bool.false_eq_true, if_false] at hn hl hh
      simp only [Figure.amounts, hn, ha, hb]
      rw [← WithTop.coe_add]
      congr 1
      by_cases hr : (a.lowNano.isSome || b.lowNano.isSome) = true
      · rw [if_pos hr] at hl hh
        rw [Figure.bounds_of_some c hl hh]
        rfl
      · rw [if_neg hr] at hl
        rw [Bool.not_eq_true, Bool.or_eq_false_iff] at hr
        rw [Figure.bounds_of_none c hl, Figure.bounds_of_none a (by simpa using hr.1),
          Figure.bounds_of_none b (by simpa using hr.2)]
        rfl

theorem add_basis {a b c : Figure} (h : add a b = .ok c) : a.basis = b.basis ∧ c.basis = a.basis := by
  unfold add combine at h
  split at h
  · cases h
  · rename_i hb
    rw [FigureFields.build_eq_ok] at h
    refine ⟨by simpa using hb, ?_⟩
    rw [h]
    unfold combineFields
    split <;> rfl

end TokenBill
