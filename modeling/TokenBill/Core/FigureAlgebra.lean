import TokenBill.Core.FigureRules
import TokenBill.Core.Money
import TokenBill.General.Bracketing

/-!
# The algebra of figures

`core/labels.py`, the operations on figures: `add` and `sub` for figures of one basis, `scale` by
a fraction, and `combine_weakest`, which sums figures over the dollar bases and keeps the weakest
label.

A figure stands for a label (`Label`) and an amount. Both are commutative semigroups and `add`
multiplies them, so a sum of many figures depends neither on their order nor on the brackets; the
level of the interval is a third such measure where exact figures carry no level (`Level`).
-/

namespace TokenBill

open General List

/-- `Basis.value`. -/
def Basis.value : Basis → String
  | list => "list" | contract => "contract" | invoice => "invoice"
  | providerEstimate => "provider_estimate" | listEquivalent => "list_equivalent"

/-- `Evidence.value`. -/
def Evidence.value : Evidence → String
  | exact => "exact" | estimated => "estimated" | measured => "measured" | verified => "verified"

/-- `sub`: like `add`, ranges subtract crosswise. -/
def sub (a b : Figure) : Except Error Figure := combine a b true

/-- `_scale_int`. -/
def scaleInt (value num den : Int) : Int := divHalfEven (value * num) den

/-- The range of a figure, if it has one. -/
def Figure.range (f : Figure) : Option (Int × Int) :=
  match f.lowNano, f.highNano with
  | some low, some high => some (low, high)
  | _, _ => none

/-- The fields `scale` gives a priced figure. -/
def scaleFields (a : Figure) (n num den : Int) : FigureFields :=
  let ends := a.range.map fun r => (scaleInt r.1 num den, scaleInt r.2 num den)
  { a.toFigureFields with
    nano := some (scaleInt n num den)
    lowNano := ends.map fun r => min r.1 r.2
    highNano := ends.map fun r => max r.1 r.2 }

/-- `scale`: `a × num / den`, rounded half-even per bound. -/
def scale (a : Figure) (num den : Int) : Except Error Figure :=
  if den ≤ 0 then .error (.contract "scale: den must be > 0")
  else match a.nano with
    | none => .ok a
    | some n => (scaleFields a n num den).build

/-! ### Sums over the dollar bases -/

/-- The check of one input of `combine_weakest`. -/
def dollarError (f : Figure) : Option Error :=
  match f.basis with
  | .listEquivalent => some (.contract "combine_weakest: list-equivalent credits are never dollars")
  | .providerEstimate => some (.contract "combine_weakest: provider estimates are never billed")
  | _ => none

/-- `_combined_finality`. -/
def combinedFinality (figs : List Figure) : Finality :=
  if figs.any fun f => f.finality = .provisional then .provisional
  else if figs ≠ [] ∧ figs.all fun f => f.finality = .final then .final
  else .na

/-- The inputs of a total that are not invoiced, by position. -/
def nonInvoice (figs : List Figure) : List String :=
  figs.zipIdx.filterMap fun p =>
    if p.1.basis = .invoice then none
    else some ("input " ++ toString p.2 ++ " (" ++ p.1.basis.value ++ ", " ++ p.1.evidence.value ++ ")")

/-- The note of a total: the caller's, and its non-invoice inputs. -/
def weakestNote (figs : List Figure) (note : String) : String :=
  if nonInvoice figs = [] then note
  else combineNotes note ("non-invoice: " ++ ", ".intercalate (nonInvoice figs))

def unpricedReason (note : String) : String :=
  let reason := if note = "" then "component unpriced" else note
  if startsWith reason "unpriced:" then reason else "unpriced: " ++ reason

def allExact (figs : List Figure) : Bool :=
  figs.all fun f => f.evidence = .exact ∧ f.lowNano = none

/-- The fields of a total. -/
def weakestFields (figs : List Figure) (note : String) : FigureFields :=
  let basis := if figs.all fun f => f.basis = .invoice then Basis.invoice else .list
  let fullNote := weakestNote figs note
  let provenance := (figs.flatMap (·.provenance)).dedup.insertionSort (· ≤ ·)
  let finality := combinedFinality figs
  let upper := figs.any (·.upperBound)
  let calibration := (figs.map (·.calibration)).foldl combineCalibration .na
  if figs.any fun f => f.nano = none then
    if allExact figs then
      { nano := none, evidence := .exact, basis, finality, provenance, note := unpricedReason fullNote }
    else
      { nano := none, evidence := .estimated, basis := .list, finality, calibration,
        upperBound := upper, provenance, note := unpricedReason fullNote }
  else
    let total := (figs.map fun f => f.nano.getD 0).sum
    if allExact figs then
      { nano := some total, evidence := .exact, basis, finality, provenance, note := fullNote }
    else
      { nano := some total, evidence := .estimated, basis := .list, finality
        lowNano := some (figs.map fun f => (f.bounds (f.nano.getD 0)).1).sum
        highNano := some (figs.map fun f => (f.bounds (f.nano.getD 0)).2).sum
        calibration, upperBound := upper, provenance
        note := if fullNote = "" then "combined estimate" else fullNote }

/-- `combine_weakest`. -/
def combineWeakest (figs : List Figure) (note : String) : Except Error Figure :=
  if figs = [] then .error (.contract "combine_weakest: no figures")
  else match figs.findSome? dollarError with
    | some e => .error e
    | none => (weakestFields figs note).build

/-! ### Every operation returns a figure -/

/-- An estimate without calibration names what it assumes: its note has a part. -/
def Figure.Named (f : Figure) : Prop :=
  f.evidence = .estimated → f.calibration = .na → noteParts f.note ≠ []

/-- A result whose range holds its point and whose evidence is that of its weakest operand, or
weaker. -/
structure Figure.Sound (operands : List Figure) (c : Figure) : Prop where
  paired : c.lowNano.isSome = c.highNano.isSome
  inRange : ∀ {n low high}, c.nano = some n → c.lowNano = some low → c.highNano = some high →
    low ≤ n ∧ n ≤ high
  noStronger : ∀ f ∈ operands, c.evidence.strength ≤ f.evidence.strength

/-- Every figure keeps its range; what is left to show is the evidence. -/
theorem Figure.sound {operands : List Figure} {c : Figure}
    (h : ∀ f ∈ operands, c.evidence.strength ≤ f.evidence.strength) : c.Sound operands where
  paired := c.lowNano_isSome
  inRange hn hl hh := by
    have hb := c.bounds_le hn
    rw [c.bounds_of_some hl hh] at hb
    exact hb
  noStronger := h

variable {note : String} {den : Int} {figs xs ys : List Figure} {d : Figure}

theorem noteParts_unpriced (h : startsWith note "unpriced:") : noteParts note ≠ [] := by
  have hu : 'u' ∈ note.toList := by
    have hpre : "unpriced:".toList <+: note.toList := isPrefixOf_iff_prefix.mp h
    exact hpre.subset (by decide)
  obtain ⟨part, hp, -⟩ := mem_noteParts hu (by decide) (by decide)
  exact ne_nil_of_mem hp

theorem weaker_strength (a b : Evidence) :
    (weaker a b).strength ≤ a.strength ∧ (weaker a b).strength ≤ b.strength := by
  cases a <;> cases b <;> decide

section Combine

variable {a b c : Figure} {subtract : Bool}

theorem declares_of_named (ha : a.Named) (hb : b.Named) : Declares a b := by
  intro hw hna hnote
  have hsub := noteParts_combineNotes a.note b.note
  have hnil : noteParts "" = [] := by decide
  rw [hnote, hnil, subset_nil, append_eq_nil_iff] at hsub
  obtain ⟨hc1, hc2⟩ := combineCalibration_eq_na hna
  rcases weaker_estimated.mp hw with h | h
  · exact ha h hc1 hsub.1
  · exact hb h hc2 hsub.2

/-- What a combination is, if it is one. -/
theorem combine_eq_ok (h : combine a b subtract = .ok c) :
    a.basis = b.basis ∧ c.toFigureFields = combineFields a b subtract := by
  unfold combine at h
  split at h
  · cases h
  · rename_i hb
    exact ⟨not_not.mp hb, FigureFields.build_eq_ok.mp h⟩

/-- The evidence of a sum that may be unpriced: it then has no interval. -/
def settled (isUnpriced : Bool) (e : Evidence) : Evidence :=
  if isUnpriced ∧ (e = .measured ∨ e = .verified) then .estimated else e

theorem combineFields_evidence (a b : Figure) (subtract : Bool) :
    (combineFields a b subtract).evidence =
      settled (a.nano.isNone || b.nano.isNone) (weaker a.evidence b.evidence) := by
  unfold combineFields settled
  cases a.nano <;> cases b.nano <;> simp [combineUnpriced, combinePriced]

theorem settled_strength (u : Bool) (e : Evidence) : (settled u e).strength ≤ e.strength := by
  cases u <;> cases e <;> decide

theorem named_combine (ha : a.Named) (hb : b.Named) (h : combine a b subtract = .ok c) : c.Named := by
  obtain ⟨-, hc⟩ := combine_eq_ok h
  intro he hna
  have hnote : c.note = (combineFields a b subtract).note := by rw [hc]
  rw [hnote]
  cases hn : c.nano with
  | none =>
    have hun := c.unpriced_note hn
    rw [hnote] at hun
    exact noteParts_unpriced hun
  | some n =>
    rw [hc] at he hna hn
    revert he hna hn
    unfold combineFields
    split
    · rename_i x y hx hy
      intro he hna hn
      have hw : weaker a.evidence b.evidence = .estimated := he
      have hcal : combineCalibration a.calibration b.calibration = .na := by
        simpa [combinePriced, combinedCalibration, hw] using hna
      have hsub := noteParts_combineNotes a.note b.note
      intro hnil
      have hnil : noteParts (combineNotes a.note b.note) = [] := hnil
      rw [hnil, subset_nil, append_eq_nil_iff] at hsub
      obtain ⟨hc1, hc2⟩ := combineCalibration_eq_na hcal
      rcases weaker_estimated.mp hw with h | h
      · exact ha h hc1 hsub.1
      · exact hb h hc2 hsub.2
    · intro _ _ hn
      cases hn

/-- `add` and `sub` return a figure for named figures of one basis. -/
theorem combine_sound (hbasis : a.basis = b.basis) (ha : a.Named) (hb : b.Named) (subtract : Bool) :
    ∃ c, combine a b subtract = .ok c ∧ c.Sound [a, b] ∧ c.Named ∧ c.basis = a.basis := by
  obtain ⟨c, hc, hf⟩ := combine_ok subtract hbasis (declares_of_named ha hb)
  refine ⟨c, hc, Figure.sound fun f hf' => ?_, named_combine ha hb hc, ?_⟩
  · have he : c.evidence = settled (a.nano.isNone || b.nano.isNone) (weaker a.evidence b.evidence) := by
      rw [hf, combineFields_evidence]
    have hw := weaker_strength a.evidence b.evidence
    have hs := settled_strength (a.nano.isNone || b.nano.isNone) (weaker a.evidence b.evidence)
    rw [← he] at hs
    simp only [mem_cons, not_mem_nil, or_false] at hf'
    rcases hf' with rfl | rfl
    · exact hs.trans hw.1
    · exact hs.trans hw.2
  · rw [hf]
    unfold combineFields
    split <;> rfl

end Combine

/-! ### Scaling -/

/-- Scaling keeps a point between two ends, whichever way it turns them. -/
theorem scaleInt_between (num : Int) {low n high : Int} (hd : 0 < den) (hl : low ≤ n) (hh : n ≤ high) :
    min (scaleInt low num den) (scaleInt high num den) ≤ scaleInt n num den ∧
      scaleInt n num den ≤ max (scaleInt low num den) (scaleInt high num den) := by
  rcases le_total 0 num with hn | hn
  · have h1 := divHalfEven_mono hd (mul_le_mul_of_nonneg_right hl hn)
    have h2 := divHalfEven_mono hd (mul_le_mul_of_nonneg_right hh hn)
    exact ⟨min_le_of_left_le h1, le_max_of_le_right h2⟩
  · have h1 := divHalfEven_mono hd (mul_le_mul_of_nonpos_right hl hn)
    have h2 := divHalfEven_mono hd (mul_le_mul_of_nonpos_right hh hn)
    exact ⟨min_le_of_right_le h2, le_max_of_le_left h1⟩

theorem Figure.range_eq_none (f : Figure) : f.range = none ↔ f.lowNano = none := by
  have h := f.lowNano_isSome
  unfold Figure.range
  cases hl : f.lowNano <;> cases hh : f.highNano <;> simp_all

theorem check_scaleFields (a : Figure) {n num : Int} (hd : 0 < den) (hn : a.nano = some n) :
    (scaleFields a n num den).check = none := by
  have hv := (FigureFields.check_eq_none _).mp a.valid
  have he := a.evidenceRules
  rw [FigureFields.check_eq_none, checkEvidence_eq_none]
  refine ⟨hv.1, fun h => (nomatch h), ?_, ⟨fun h => ?_, he.estimated, fun h => ?_⟩, hv.2.2.2.2⟩
  · unfold FigureFields.checkRange scaleFields
    cases hr : a.range with
    | none => rfl
    | some r =>
      have hb := a.bounds_le hn
      have hbounds : a.bounds n = r := by
        unfold Figure.range at hr
        split at hr
        · rename_i hl hh
          exact (a.bounds_of_some hl hh).trans (Option.some.inj hr)
        · cases hr
      rw [hbounds] at hb
      have hs := scaleInt_between num hd hb.1 hb.2
      simp only [Option.map_some, Option.any_some]
      rw [if_neg (by omega), if_neg]
      simp only [Bool.not_eq_true', Bool.and_eq_false_iff, decide_eq_false_iff_not]
      omega
  · obtain ⟨h1, h2⟩ := he.exact h
    refine ⟨?_, h2⟩
    simp [scaleFields, a.range_eq_none.mpr h1]
  · obtain ⟨h1, h2⟩ := he.interval h
    refine ⟨?_, h2⟩
    simpa [scaleFields, a.range_eq_none] using h1

/-- `scale` returns a figure for a positive denominator. -/
theorem scale_sound (a : Figure) (num : Int) (hd : 0 < den) : ∃ c, scale a num den = .ok c ∧ c.Sound [a] := by
  have hsame : ∀ {c : Figure}, c.evidence = a.evidence → c.Sound [a] := fun he =>
    Figure.sound fun f hf => by
      rw [mem_singleton.mp hf, he]
  unfold scale
  rw [if_neg (by omega)]
  split
  · exact ⟨a, rfl, hsame rfl⟩
  · rename_i n hn
    exact ⟨_, FigureFields.build_of_check (check_scaleFields a hd hn), hsame rfl⟩

/-! ### Totals over the dollar bases -/

/-- `_BILLED_BASES`. -/
def Basis.Billed (b : Basis) : Prop := b = .list ∨ b = .contract ∨ b = .invoice

theorem dollarError_eq_none {f : Figure} : dollarError f = none ↔ f.basis.Billed := by
  unfold dollarError Basis.Billed
  cases f.basis <;> simp

theorem unpricedReason_starts (note : String) : startsWith (unpricedReason note) "unpriced:" := by
  unfold unpricedReason
  dsimp only
  generalize (if note = "" then "component unpriced" else note) = reason
  split
  · assumption
  · unfold startsWith
    rw [String.toList_append, isPrefixOf_iff_prefix]
    exact ⟨' ' :: reason.toList, rfl⟩

theorem allExact_eq_true : allExact figs = true ↔ ∀ f ∈ figs, f.evidence = .exact := by
  unfold allExact
  rw [all_eq_true]
  constructor
  · intro h f hf
    exact (by simpa using h f hf : _ ∧ _).1
  · intro h f hf
    simpa using ⟨h f hf, (f.evidenceRules.exact (h f hf)).1⟩

/-- The summed ends lie around the summed point. -/
theorem sum_bounds_le (figs : List Figure) (h : ∀ f ∈ figs, f.nano ≠ none) :
    (figs.map fun f => (f.bounds (f.nano.getD 0)).1).sum ≤ (figs.map fun f => f.nano.getD 0).sum ∧
      (figs.map fun f => f.nano.getD 0).sum ≤ (figs.map fun f => (f.bounds (f.nano.getD 0)).2).sum := by
  induction figs with
  | nil => exact ⟨le_refl _, le_refl _⟩
  | cons f figs ih =>
    obtain ⟨n, hn⟩ := Option.ne_none_iff_exists'.mp (h f mem_cons_self)
    have hb := f.bounds_le hn
    have ih := ih fun g hg => h g (mem_cons_of_mem f hg)
    simp only [map_cons, sum_cons, hn, Option.getD_some]
    omega

theorem check_weakestFields (figs : List Figure) (note : String) :
    (weakestFields figs note).check = none := by
  rw [FigureFields.check_eq_none, checkEvidence_eq_none]
  unfold weakestFields
  dsimp only
  split
  · have hnote := unpricedReason_starts (weakestNote figs note)
    split
    · exact ⟨rfl, fun _ => hnote, rfl, ⟨fun _ => ⟨rfl, rfl, rfl⟩, nofun, by rintro (h | h) <;> cases h⟩,
        fun _ => rfl⟩
    · exact ⟨rfl, fun _ => hnote, rfl, ⟨nofun, fun _ _ => ne_empty_of_unpriced hnote,
        by rintro (h | h) <;> cases h⟩, nofun⟩
  · rename_i hpriced
    split
    · exact ⟨rfl, nofun, rfl, ⟨fun _ => ⟨rfl, rfl, rfl⟩, nofun, by rintro (h | h) <;> cases h⟩,
        fun _ => rfl⟩
    · refine ⟨rfl, nofun, ?_, ⟨nofun, fun _ _ => ?_, by rintro (h | h) <;> cases h⟩, nofun⟩
      · have hsum := sum_bounds_le figs fun f hf hnone =>
          hpriced (any_eq_true.mpr ⟨f, hf, by simpa using hnone⟩)
        unfold FigureFields.checkRange
        simp only [Option.any_some]
        rw [if_neg (by omega), if_neg]
        simp only [Bool.not_eq_true', Bool.and_eq_false_iff, decide_eq_false_iff_not]
        omega
      · dsimp only
        split
        · decide
        · assumption

theorem weakestFields_evidence (figs : List Figure) (note : String) :
    (weakestFields figs note).evidence = if allExact figs then .exact else .estimated := by
  unfold weakestFields
  dsimp only
  split <;> split <;> rfl

/-- What `combine_weakest` returns. -/
theorem combineWeakest_eq_ok {c : Figure}
    (h : combineWeakest figs note = .ok c) : c.toFigureFields = weakestFields figs note := by
  unfold combineWeakest at h
  split at h
  · cases h
  split at h
  · cases h
  · exact FigureFields.build_eq_ok.mp h

/-- `combine_weakest` returns a figure for every non-empty list of billed figures. -/
theorem combineWeakest_sound (note : String) (hne : figs ≠ []) (hbilled : ∀ f ∈ figs, f.basis.Billed) :
    ∃ c, combineWeakest figs note = .ok c ∧ c.Sound figs := by
  have hnone : figs.findSome? dollarError = none :=
    findSome?_eq_none_iff.mpr fun f hf => dollarError_eq_none.mpr (hbilled f hf)
  refine ⟨⟨_, check_weakestFields figs note⟩, ?_, Figure.sound fun f hf => ?_⟩
  · unfold combineWeakest
    rw [if_neg hne, hnone]
    exact FigureFields.build_of_check (check_weakestFields figs note)
  · rw [weakestFields_evidence]
    split
    · rename_i h
      rw [allExact_eq_true.mp h f hf]
    · exact Nat.zero_le _

/-! ### Sums of many figures -/

/-- What a sum keeps of a figure beside its amounts: whether it is priced and has a range, its
evidence and its calibration. -/
@[ext] structure Label where
  isUnpriced : Bool
  ranged : Bool
  evidence : Evidence
  calibration : Calibration

/-- The label of a figure. -/
def Figure.label (f : Figure) : Label where
  isUnpriced := f.nano.isNone
  ranged := f.lowNano.isSome
  evidence := f.evidence
  calibration := f.calibration

theorem settled_comm (u v : Bool) (x y : Evidence) :
    settled (u || v) (weaker x y) = settled (v || u) (weaker y x) := by
  cases u <;> cases v <;> cases x <;> cases y <;> rfl

theorem settled_assoc (u v w : Bool) (x y z : Evidence) :
    settled ((u || v) || w) (weaker (settled (u || v) (weaker x y)) z) =
      settled (u || (v || w)) (weaker x (settled (v || w) (weaker y z))) := by
  cases u <;> cases v <;> cases w <;> cases x <;> cases y <;> cases z <;> rfl

/-- Labels multiply as figures add. -/
instance : CommSemigroup Label where
  mul a b :=
    { isUnpriced := a.isUnpriced || b.isUnpriced
      ranged := !(a.isUnpriced || b.isUnpriced) && (a.ranged || b.ranged)
      evidence := settled (a.isUnpriced || b.isUnpriced) (weaker a.evidence b.evidence)
      calibration := combineCalibration a.calibration b.calibration }
  mul_comm a b := by
    apply Label.ext
    · exact Bool.or_comm _ _
    · show (!(a.isUnpriced || b.isUnpriced) && (a.ranged || b.ranged)) =
        (!(b.isUnpriced || a.isUnpriced) && (b.ranged || a.ranged))
      rw [Bool.or_comm a.isUnpriced, Bool.or_comm a.ranged]
    · exact settled_comm _ _ _ _
    · show combineCalibration a.calibration b.calibration = combineCalibration b.calibration a.calibration
      cases a.calibration <;> cases b.calibration <;> rfl
  mul_assoc a b c := by
    obtain ⟨u, r, x, k⟩ := a
    obtain ⟨v, s, y, l⟩ := b
    obtain ⟨w, t, z, m⟩ := c
    apply Label.ext
    · exact Bool.or_assoc u v w
    · show (!((u || v) || w) && ((!(u || v) && (r || s)) || t)) =
        (!(u || (v || w)) && (r || (!(v || w) && (s || t))))
      cases u <;> cases v <;> cases w <;> simp [Bool.or_assoc]
    · exact settled_assoc u v w x y z
    · show combineCalibration (combineCalibration k l) m = combineCalibration k (combineCalibration l m)
      cases k <;> cases l <;> cases m <;> rfl

/-- The calibration of a combination: exact figures have none. -/
theorem combinedCalibration_eq (a b : Figure) :
    combinedCalibration a b = combineCalibration a.calibration b.calibration := by
  unfold combinedCalibration
  split
  · rename_i h
    obtain ⟨ha, hb⟩ := weaker_exact.mp h
    rw [(a.evidenceRules.exact ha).2.1, (b.evidenceRules.exact hb).2.1]
    rfl
  · rfl

theorem label_add {a b c : Figure} (h : add a b = .ok c) : c.label = a.label * b.label := by
  obtain ⟨-, hc⟩ := combine_eq_ok h
  apply Label.ext
  · show c.nano.isNone = (a.nano.isNone || b.nano.isNone)
    rw [hc]
    unfold combineFields
    cases a.nano <;> cases b.nano <;> rfl
  · show c.lowNano.isSome = (!(a.nano.isNone || b.nano.isNone) && (a.lowNano.isSome || b.lowNano.isSome))
    rw [hc]
    unfold combineFields
    cases a.nano <;> cases b.nano <;> try rfl
    simp only [combinePriced, Option.isNone_some, Bool.or_false, Bool.not_false, Bool.true_and]
    split <;> simp_all
  · show c.evidence = _
    rw [hc, combineFields_evidence]
    rfl
  · show c.calibration = combineCalibration a.calibration b.calibration
    rw [hc, ← combinedCalibration_eq]
    unfold combineFields
    cases a.nano <;> cases b.nano <;> rfl

/-- Figures with the same point, bounds, evidence and calibration. -/
structure SameSum (c d : Figure) : Prop where
  nano : c.nano = d.nano
  lowNano : c.lowNano = d.lowNano
  highNano : c.highNano = d.highNano
  evidence : c.evidence = d.evidence
  calibration : c.calibration = d.calibration

/-- Amounts and labels make out a figure whose range is that of a priced one. -/
theorem sameSum_of_amounts {c : Figure} (hamounts : c.amounts = d.amounts) (hlabel : c.label = d.label)
    (hpriced : c.lowNano ≠ none → c.nano ≠ none) : SameSum c d := by
  have hrange : c.lowNano.isSome = d.lowNano.isSome := congrArg Label.ranged hlabel
  have hnano : c.nano = d.nano := by
    unfold Figure.amounts at hamounts
    cases hc : c.nano <;> cases hd : d.nano <;> simp_all
  have hends : c.lowNano = d.lowNano ∧ c.highNano = d.highNano := by
    have hpc := c.lowNano_isSome
    have hpd := d.lowNano_isSome
    cases hcl : c.lowNano with
    | none =>
      rw [hcl] at hrange hpc
      rw [← hrange] at hpd
      simp_all
    | some low =>
      obtain ⟨n, hn⟩ := Option.ne_none_iff_exists'.mp (hpriced (by rw [hcl]; exact Option.some_ne_none low))
      rw [hcl] at hpc hrange
      obtain ⟨high, hch⟩ := Option.isSome_iff_exists.mp hpc.symm
      obtain ⟨low', hdl⟩ := Option.isSome_iff_exists.mp hrange.symm
      obtain ⟨high', hdh⟩ := Option.isSome_iff_exists.mp (hpd.symm.trans hrange.symm)
      unfold Figure.amounts at hamounts
      rw [← hnano, hn] at hamounts
      simp only [c.bounds_of_some hcl hch, d.bounds_of_some hdl hdh, WithTop.coe_inj, Prod.mk.injEq] at hamounts
      rw [hdl, hch, hdh, hamounts.2.1, hamounts.2.2]
      exact ⟨rfl, rfl⟩
  exact ⟨hnano, hends.1, hends.2, congrArg Label.evidence hlabel, congrArg Label.calibration hlabel⟩

theorem priced_of_range {a b c : Figure} (h : add a b = .ok c) (hc : c.lowNano ≠ none) : c.nano ≠ none := by
  rw [(combine_eq_ok h).2] at hc ⊢
  revert hc
  unfold combineFields
  split
  · intro _ hn
    cases hn
  · intro hc
    exact absurd rfl hc

/-- The point, the bounds, the evidence and the calibration of a sum depend neither on the order
nor on the brackets. -/
theorem sameSum_of_perm {c : Figure} (hperm : xs.Perm ys)
    (hc : Bracketing add xs c) (hd : Bracketing add ys d) : SameSum c d := by
  rcases eq_or_ne xs.length 1 with hone | hmany
  · obtain ⟨x, rfl⟩ := length_eq_one_iff.mp hone
    obtain rfl := singleton_perm.mp hperm
    rw [hc.of_singleton, hd.of_singleton]
    exact ⟨rfl, rfl, rfl, rfl, rfl⟩
  · obtain ⟨a, b, _, _, -, -, -, hadd⟩ := hc.last hmany
    have hamounts : c.amounts = d.amounts := Multiplicative.ofAdd.injective <|
      hc.measure_eq (P := fun _ => True) (m := fun f => Multiplicative.ofAdd f.amounts)
        (fun _ _ _ => trivial) (fun _ _ h => by rw [amounts_add h, ofAdd_add]) hd hperm fun _ _ => trivial
    have hlabel : c.label = d.label :=
      hc.measure_eq (P := fun _ => True) (fun _ _ _ => trivial) (fun _ _ h => label_add h) hd hperm
        fun _ _ => trivial
    exact sameSum_of_amounts hamounts hlabel (priced_of_range hadd)

/-! ### The level of a sum -/

/-- A figure that carries a level only where it may have an interval to go with it. -/
def Figure.Levelled (f : Figure) : Prop := f.evidence = .exact → f.ciLevelPct = none

def leastCi (figs : List Figure) : Option Int := (figs.map (·.ciLevelPct)).foldr combineCi none

theorem combineCi_assoc (x y z : Option Int) :
    combineCi (combineCi x y) z = combineCi x (combineCi y z) := by
  cases x <;> cases y <;> cases z <;> simp [combineCi, min_assoc]

theorem combineCi_left_comm (x y z : Option Int) :
    combineCi x (combineCi y z) = combineCi y (combineCi x z) := by
  cases x <;> cases y <;> cases z <;> simp [combineCi, min_comm, min_left_comm]

theorem leastCi_append (xs ys : List Figure) :
    leastCi (xs ++ ys) = combineCi (leastCi xs) (leastCi ys) := by
  induction xs with
  | nil => rfl
  | cons x xs ih =>
    show combineCi x.ciLevelPct (leastCi (xs ++ ys)) = combineCi (combineCi x.ciLevelPct (leastCi xs)) _
    rw [ih, combineCi_assoc]

theorem leastCi_perm (h : xs.Perm ys) : leastCi xs = leastCi ys := by
  exact (h.map fun f => f.ciLevelPct).foldr_eq' (fun x _ y _ z => combineCi_left_comm y x z) none

/-- The level a sum carries. -/
theorem ci_add {a b c : Figure} (h : add a b = .ok c) :
    c.ciLevelPct = if c.evidence = .measured ∨ c.evidence = .verified
      then combineCi a.ciLevelPct b.ciLevelPct else none := by
  have hc := (combine_eq_ok h).2
  rw [hc, combineFields_evidence]
  unfold combineFields settled
  by_cases hw : weaker a.evidence b.evidence = .measured ∨ weaker a.evidence b.evidence = .verified <;>
    cases a.nano <;> cases b.nano <;> simp [combineUnpriced, combinePriced, combinedCi, hw]

theorem evidence_add {a b c : Figure} (h : add a b = .ok c) (he : c.evidence ≠ .estimated) :
    c.evidence = weaker a.evidence b.evidence ∧ a.evidence ≠ .estimated ∧ b.evidence ≠ .estimated := by
  have hw : c.evidence = settled (a.nano.isNone || b.nano.isNone) (weaker a.evidence b.evidence) := by
    rw [(combine_eq_ok h).2, combineFields_evidence]
  rw [hw] at he ⊢
  revert he
  generalize (a.nano.isNone || b.nano.isNone) = u
  cases u <;> cases a.evidence <;> cases b.evidence <;> decide

theorem levelled_add {a b c : Figure} (h : add a b = .ok c) : c.Levelled := by
  intro he
  rw [ci_add h, he]
  rfl

/-- The level of a sum that is no estimate is the least of its figures. -/
theorem ci_of_bracketing {c : Figure} (h : Bracketing add xs c)
    (hlev : ∀ x ∈ xs, x.Levelled) (he : c.evidence ≠ .estimated) : c.ciLevelPct = leastCi xs := by
  induction h with
  | leaf a => cases hci : a.ciLevelPct <;> simp [leastCi, combineCi, hci]
  | @node xs ys a b c ha hb hadd iha ihb =>
    have hla := fun x hx => hlev x (mem_append_left _ hx)
    have hlb := fun x hx => hlev x (mem_append_right _ hx)
    obtain ⟨hw, hea, heb⟩ := evidence_add hadd he
    rw [leastCi_append, ← iha hla hea, ← ihb hlb heb, ci_add hadd]
    split
    · rfl
    · rename_i hi
      -- the sum is exact, and so are the figures, which carry no level
      have hexact : weaker a.evidence b.evidence = .exact := by
        rw [← hw]
        cases hc : c.evidence <;> simp_all
      obtain ⟨hxa, hxb⟩ := weaker_exact.mp hexact
      have hka := ha.keeps (P := Figure.Levelled) (fun _ _ h => levelled_add h) hla hxa
      have hkb := hb.keeps (P := Figure.Levelled) (fun _ _ h => levelled_add h) hlb hxb
      rw [hka, hkb]
      rfl

/-- Nor does its level, where exact figures carry none. -/
theorem ci_of_perm {c : Figure} (hperm : xs.Perm ys)
    (hc : Bracketing add xs c) (hd : Bracketing add ys d) (hlev : ∀ x ∈ xs, x.Levelled) :
    c.ciLevelPct = d.ciLevelPct := by
  have hlev' : ∀ y ∈ ys, y.Levelled := fun y hy => hlev y (hperm.mem_iff.mpr hy)
  have hevidence := (sameSum_of_perm hperm hc hd).evidence
  by_cases he : c.evidence = .estimated
  · rcases eq_or_ne xs.length 1 with hone | hmany
    · obtain ⟨x, rfl⟩ := length_eq_one_iff.mp hone
      obtain rfl := singleton_perm.mp hperm
      rw [hc.of_singleton, hd.of_singleton]
    · obtain ⟨_, _, _, _, -, -, -, hadd⟩ := hc.last hmany
      obtain ⟨_, _, _, _, -, -, -, hadd'⟩ := hd.last (hperm.length_eq ▸ hmany)
      rw [ci_add hadd, ci_add hadd', ← hevidence, he]
      rfl
  · rw [ci_of_bracketing hc hlev he, ci_of_bracketing hd hlev' (hevidence ▸ he), leastCi_perm hperm]

/-! ### The order of a total -/

theorem combineCalibration_right_comm (x y z : Calibration) :
    combineCalibration (combineCalibration x y) z = combineCalibration (combineCalibration x z) y := by
  cases x <;> cases y <;> cases z <;> rfl

/-- The order of its figures leaves a total the same. -/
theorem combineWeakest_perm {figs' : List Figure} {c : Figure}
    (hperm : figs.Perm figs') (hc : combineWeakest figs note = .ok c)
    (hd : combineWeakest figs' note = .ok d) : SameSum c d ∧ c.ciLevelPct = d.ciLevelPct := by
  have hc := combineWeakest_eq_ok hc
  have hd := combineWeakest_eq_ok hd
  have hcal := (hperm.map (·.calibration)).foldl_eq'
    (fun _ _ _ _ _ => combineCalibration_right_comm _ _ _) Calibration.na
  have hexact : allExact figs = allExact figs' := hperm.all_eq
  have hnone := hperm.any_eq (f := fun f => decide (f.nano = none))
  have htotal := (hperm.map fun f => f.nano.getD 0).sum_eq
  have hlow := (hperm.map fun f => (f.bounds (f.nano.getD 0)).1).sum_eq
  have hhigh := (hperm.map fun f => (f.bounds (f.nano.getD 0)).2).sum_eq
  have hfields : ∀ {α : Type} (g : FigureFields → α),
      g (weakestFields figs note) = g (weakestFields figs' note) → g c.toFigureFields = g d.toFigureFields :=
    fun g h => by rw [hc, hd, h]
  refine ⟨⟨hfields (·.nano) ?_, hfields (·.lowNano) ?_, hfields (·.highNano) ?_, hfields (·.evidence) ?_,
    hfields (·.calibration) ?_⟩, hfields (·.ciLevelPct) ?_⟩ <;>
    simp only [weakestFields, hcal, hexact, hnone, htotal, hlow, hhigh] <;> split <;> split <;> rfl

/-! ### The claim -/

/-- Figures of one basis combine to sound figures, and a sum depends neither on the order nor on
the brackets: `add` and `sub` where every estimate without calibration names its assumption, `scale`
by a positive denominator, `combine_weakest` on figures of the dollar bases. The level of a sum is
its own too where exact figures carry none. -/
theorem figure_algebra :
    (∀ a b : Figure, a.basis = b.basis → a.Named → b.Named →
      (∃ c, add a b = .ok c ∧ c.Sound [a, b] ∧ c.Named ∧ c.basis = a.basis) ∧
      ∃ c, sub a b = .ok c ∧ c.Sound [a, b] ∧ c.Named ∧ c.basis = a.basis) ∧
    (∀ (a : Figure) (num den : Int), 0 < den → ∃ c, scale a num den = .ok c ∧ c.Sound [a]) ∧
    (∀ (figs : List Figure) (note : String), figs ≠ [] → (∀ f ∈ figs, f.basis.Billed) →
      ∃ c, combineWeakest figs note = .ok c ∧ c.Sound figs) ∧
    (∀ (xs ys : List Figure) (c d : Figure), xs.Perm ys → Bracketing add xs c → Bracketing add ys d →
      SameSum c d ∧ ((∀ f ∈ xs, f.Levelled) → c.ciLevelPct = d.ciLevelPct)) ∧
    ∀ (xs ys : List Figure) (note : String) (c d : Figure), xs.Perm ys →
      combineWeakest xs note = .ok c → combineWeakest ys note = .ok d →
      SameSum c d ∧ c.ciLevelPct = d.ciLevelPct := by
  refine ⟨fun a b hb ha' hb' => ⟨combine_sound hb ha' hb' false, combine_sound hb ha' hb' true⟩,
    fun a num den hd => scale_sound a num hd, fun figs note hne hb => combineWeakest_sound note hne hb,
    fun xs ys c d hp hc hd => ⟨sameSum_of_perm hp hc hd, ci_of_perm hp hc hd⟩,
    fun xs ys note c d hp hc hd => combineWeakest_perm hp hc hd⟩

/-- One and two nano-dollars, in a sum, scaled and totalled. -/
theorem figure_algebra_pair :
    (∃ c, add (exactFigure 1 .list) (exactFigure 2 .list) = .ok c ∧
      c.Sound [exactFigure 1 .list, exactFigure 2 .list] ∧ c.Named ∧ c.basis = .list) ∧
    (∃ c, scale (exactFigure 1 .list) 1 2 = .ok c ∧ c.Sound [exactFigure 1 .list]) ∧
    ∃ c, combineWeakest [exactFigure 1 .list] "" = .ok c ∧ c.Sound [exactFigure 1 .list] :=
  ⟨(figure_algebra.1 (exactFigure 1 .list) (exactFigure 2 .list) rfl nofun nofun).1,
    figure_algebra.2.1 (exactFigure 1 .list) 1 2 (by decide),
    figure_algebra.2.2.1 [exactFigure 1 .list] "" (by decide) (by simp [exactFigure, Basis.Billed])⟩

/-- Credits of the pool are never dollars: a total of them is refused. -/
theorem credits_refused :
    combineWeakest [exactFigure 1 .listEquivalent, exactFigure 2 .listEquivalent] "" =
      .error (.contract "combine_weakest: list-equivalent credits are never dollars") := rfl

end TokenBill
