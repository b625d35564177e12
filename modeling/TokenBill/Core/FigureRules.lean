import TokenBill.Core.Labels

/-!
# What keeps figures combinable

The rules of `Figure` read one by one, and the only thing a combination of two figures of one
basis can lack: a note that says what an estimate without calibration assumes.
-/

namespace TokenBill

open List

/-! ### Notes -/

/-- An empty note, or one that holds more than separators. -/
def Spoken (note : String) : Prop := note = "" ∨ ∃ c ∈ note.toList, c ≠ ';' ∧ c ≠ ' '

variable {c : Char} {note : String} {piece : List Char}

theorem mem_noteParts (hc : c ∈ note.toList) (h1 : c ≠ ';') (h2 : c ≠ ' ') : ∃ part ∈ noteParts note, c ∈ part.toList := by
  obtain ⟨piece, hp, hcp⟩ := mem_splitNotes hc h1 h2
  refine ⟨String.ofList piece, mem_filter.mpr ⟨mem_map_of_mem hp, ?_⟩, by simpa using hcp⟩
  rw [decide_eq_true_eq]
  intro he
  rw [← String.toList_inj, String.toList_ofList] at he
  rw [he] at hcp
  cases hcp

/-- A piece without a separator is split off whole. -/
theorem splitNotes_append {rest : List Char} (h : ¬[';', ' '] <:+: piece) :
    splitNotes (piece ++ ';' :: ' ' :: rest) = piece :: splitNotes rest := by
  induction piece with
  | nil => rfl
  | cons c piece ih =>
    have hpre : ¬[';', ' '] <+: c :: (piece ++ ';' :: ' ' :: rest) := by
      intro hpre
      cases piece with
      | nil => simp at hpre
      | cons d piece => exact h ⟨[], piece, by simpa [eq_comm] using hpre⟩
    obtain ⟨p, ps, h1, h2⟩ := splitNotes_cons hpre
    rw [ih fun hin => h (hin.trans (suffix_cons c piece).isInfix)] at h1
    cases h1
    exact h2

theorem splitNotes_whole (h : ¬[';', ' '] <:+: piece) : splitNotes piece = [piece] := by
  induction piece with
  | nil => rfl
  | cons c piece ih =>
    obtain ⟨p, ps, h1, h2⟩ := splitNotes_cons fun hpre => h hpre.isInfix
    rw [ih fun hin => h (hin.trans (suffix_cons c piece).isInfix)] at h1
    cases h1
    exact h2

theorem splitNotes_head {cs : List Char} {rest : List (List Char)}
    (h : splitNotes cs = (c :: piece) :: rest) : ∃ cs', cs = c :: cs' := by
  fun_cases splitNotes cs with
  | case1 => simp [splitNotes] at h
  | case2 cs => simp [splitNotes] at h
  | case3 d cs hsep heq =>
    rw [splitNotes, heq] at h
    · simp only [List.cons.injEq] at h
      exact ⟨cs, by rw [h.1.1]⟩
    · exact hsep
  | case4 d cs hsep p ps heq =>
    rw [splitNotes, heq] at h
    · simp only [List.cons.injEq] at h
      exact ⟨cs, by rw [h.1.1]⟩
    · exact hsep

/-- The pieces hold no separator. -/
theorem not_infix_of_mem_splitNotes {cs : List Char} (h : piece ∈ splitNotes cs) : ¬[';', ' '] <:+: piece := by
  fun_induction splitNotes cs generalizing piece with
  | case1 =>
    obtain rfl := mem_singleton.mp h
    simp
  | case2 cs ih =>
    rcases mem_cons.mp h with rfl | h
    · simp
    · exact ih h
  | case3 d cs hsep heq ih =>
    obtain rfl := mem_singleton.mp h
    exact fun hin => absurd hin.length_le (by simp)
  | case4 d cs hsep p ps heq ih =>
    rw [heq] at ih
    rcases mem_cons.mp h with rfl | h
    · rw [infix_cons_iff]
      rintro (⟨t, ht⟩ | hin)
      · obtain ⟨rfl, rfl⟩ := ht
        obtain ⟨cs', rfl⟩ := splitNotes_head heq
        exact hsep cs' rfl rfl
      · exact ih mem_cons_self hin
    · exact ih (mem_cons_of_mem _ h)

theorem splitNotes_intercalate {parts : List (List Char)} (hne : parts ≠ [])
    (h : ∀ part ∈ parts, ¬[';', ' '] <:+: part) : splitNotes ([';', ' '].intercalate parts) = parts := by
  induction parts with
  | nil => exact absurd rfl hne
  | cons part parts ih =>
    cases parts with
    | nil =>
      rw [intercalate_singleton]
      exact splitNotes_whole (h part mem_cons_self)
    | cons q parts =>
      have hjoin : [';', ' '].intercalate (part :: q :: parts) =
          part ++ ';' :: ' ' :: [';', ' '].intercalate (q :: parts) := by
        simp [intercalate_cons_cons]
      rw [hjoin, splitNotes_append (h part mem_cons_self),
        ih (cons_ne_nil q parts) fun p hp => h p (mem_cons_of_mem _ hp)]

theorem noteParts_intercalate {parts : List String}
    (h : ∀ part ∈ parts, part ≠ "" ∧ ¬[';', ' '] <:+: part.toList) :
    noteParts ("; ".intercalate parts) = parts := by
  rcases eq_or_ne parts [] with rfl | hne
  · rfl
  have hsplit : splitNotes ("; ".intercalate parts).toList = parts.map String.toList := by
    rw [String.toList_intercalate]
    exact splitNotes_intercalate (by simpa using hne)
      fun p hp => by
        obtain ⟨part, hpart, rfl⟩ := mem_map.mp hp
        exact (h part hpart).2
  have hback : (parts.map String.toList).map String.ofList = parts := by simp
  rw [noteParts, hsplit, hback, filter_eq_self]
  exact fun part hp => by simpa using (h part hp).1

theorem of_mem_noteParts {part : String} (h : part ∈ noteParts note) : part ≠ "" ∧ ¬[';', ' '] <:+: part.toList := by
  obtain ⟨hmem, hne⟩ := mem_filter.mp h
  obtain ⟨piece, hp, rfl⟩ := mem_map.mp hmem
  exact ⟨by simpa using hne, by simpa using not_infix_of_mem_splitNotes hp⟩

theorem mem_foldl_parts (more : List String) {parts : List String} {p : String} :
    p ∈ more.foldl (fun parts p => if p ∈ parts then parts else parts ++ [p]) parts ↔
      p ∈ parts ∨ p ∈ more := by
  induction more generalizing parts with
  | nil => simp
  | cons q more ih =>
    rw [foldl_cons, ih]
    by_cases hq : q ∈ parts
    · rw [if_pos hq, mem_cons]
      constructor
      · rintro (h | h)
        · exact .inl h
        · exact .inr (.inr h)
      · rintro (h | rfl | h)
        · exact .inl h
        · exact .inl hq
        · exact .inr h
    · rw [if_neg hq, mem_append, mem_singleton, mem_cons, or_assoc]

/-- Combining notes loses no part. -/
theorem noteParts_combineNotes (a b : String) :
    noteParts a ++ noteParts b ⊆ noteParts (combineNotes a b) := by
  have hempty : noteParts "" = [] := by decide
  unfold combineNotes
  split
  · rename_i h
    rcases h with rfl | rfl
    · simp [hempty]
    · simp
  split
  · rename_i _ h
    subst h
    simp [hempty]
  · rw [noteParts_intercalate]
    · intro p hp
      exact (mem_foldl_parts _).mpr (mem_append.mp hp)
    · intro p hp
      rcases (mem_foldl_parts _).mp hp with hp | hp <;> exact of_mem_noteParts hp

theorem mem_intercalate_of_mem (sep : List Char) {parts : List (List Char)} {part : List Char}
    (hp : part ∈ parts) (hc : c ∈ part) : c ∈ sep.intercalate parts := by
  induction parts with
  | nil => cases hp
  | cons q parts ih =>
    cases parts with
    | nil =>
      obtain rfl := mem_singleton.mp hp
      simpa using hc
    | cons r parts =>
      rw [intercalate_cons_cons]
      rcases mem_cons.mp hp with rfl | hp
      · simp [hc]
      · simp [ih hp]

/-- Combined notes say something where one of them does. -/
theorem spoken_combineNotes {a b : String} (ha : Spoken a) (hb : Spoken b) :
    Spoken (combineNotes a b) ∧ (combineNotes a b = "" → a = "" ∧ b = "") := by
  unfold combineNotes
  split
  · rename_i h
    refine ⟨ha, fun he => ⟨he, ?_⟩⟩
    rcases h with h | h
    · exact h
    · exact h ▸ he
  split
  · rename_i h'
    exact ⟨hb, fun he => ⟨h', he⟩⟩
  · rename_i h h'
    rcases ha with ha | ⟨c, hc, h1, h2⟩
    · exact absurd ha h'
    obtain ⟨part, hp, hcp⟩ := mem_noteParts hc h1 h2
    have hmem := mem_intercalate_of_mem "; ".toList
      (mem_map_of_mem (f := String.toList) ((mem_foldl_parts (noteParts b)).mpr (.inl hp))) hcp
    rw [← String.toList_intercalate] at hmem
    refine ⟨.inr ⟨c, hmem, h1, h2⟩, fun he => ?_⟩
    rw [he] at hmem
    cases hmem

/-! ### Figures -/

theorem Figure.bounds_le (f : Figure) {n : ℤ} (h : f.nano = some n) :
    (f.bounds n).1 ≤ n ∧ n ≤ (f.bounds n).2 := by
  have hr := ((FigureFields.check_eq_none _).mp f.valid).2.2.1
  unfold FigureFields.checkRange at hr
  unfold Figure.bounds
  rw [h] at hr
  split at hr
  · rename_i hl hh
    simp [hl]
  · rename_i low high hl hh
    split_ifs at hr with h1 h2
    simp only [hl, hh]
    simpa using h2
  · cases hr

/-- What the evidence rules say of fields. -/
structure EvidenceRules (f : FigureFields) : Prop where
  exact : f.evidence = .exact → f.lowNano = none ∧ f.calibration = .na ∧ f.upperBound = false
  estimated : f.evidence = .estimated → f.calibration = .na → f.note ≠ ""
  interval : f.evidence = .measured ∨ f.evidence = .verified →
    f.lowNano ≠ none ∧ f.ciLevelPct ≠ none

theorem checkEvidence_eq_none (f : FigureFields) : f.checkEvidence = none ↔ EvidenceRules f := by
  unfold FigureFields.checkEvidence
  constructor
  · intro h
    cases hev : f.evidence <;> simp only [hev] at h <;> split_ifs at h <;>
      constructor <;> simp_all
  · rintro ⟨h1, h2, h3⟩
    cases hev : f.evidence <;> simp_all

theorem Figure.evidenceRules (f : Figure) : EvidenceRules f.toFigureFields :=
  (checkEvidence_eq_none _).mp ((FigureFields.check_eq_none _).mp f.valid).2.2.2.1

theorem Figure.invoice_exact (f : Figure) (h : f.basis = .invoice) : f.evidence = .exact :=
  ((FigureFields.check_eq_none _).mp f.valid).2.2.2.2 h

theorem Figure.unpriced_note (f : Figure) (h : f.nano = none) : startsWith f.note "unpriced:" :=
  ((FigureFields.check_eq_none _).mp f.valid).2.1 h

theorem ne_empty_of_unpriced (h : startsWith note "unpriced:") : note ≠ "" := by
  rintro rfl
  revert h
  decide

/-- The calibration is left open only where both leave it open. -/
theorem combineCalibration_eq_na {a b : Calibration} (h : combineCalibration a b = .na) :
    a = .na ∧ b = .na := by
  revert h
  cases a <;> cases b <;> decide

theorem weaker_exact {a b : Evidence} : weaker a b = .exact ↔ a = .exact ∧ b = .exact := by
  cases a <;> cases b <;> decide

theorem weaker_estimated {a b : Evidence} :
    weaker a b = .estimated ↔ a = .estimated ∨ b = .estimated := by
  cases a <;> cases b <;> decide

theorem weaker_interval {a b : Evidence} (h : weaker a b = .measured ∨ weaker a b = .verified) :
    (a = .measured ∨ a = .verified) ∨ b = .measured ∨ b = .verified := by
  revert h
  cases a <;> cases b <;> decide

theorem combineCi_any {a b : Option Int} {p : Int → Bool} (ha : a.any p = false)
    (hb : b.any p = false) : (combineCi a b).any p = false := by
  unfold combineCi
  cases a <;> cases b <;> simp_all
  rename_i x y
  rcases min_choice x y with h | h <;> simp_all

section Combine

variable {a b : Figure}

theorem check_combineUnpriced (hb : a.basis = b.basis) (hn : a.nano = none ∨ b.nano = none) :
    (combineUnpriced a b).check = none := by
  have hnote : startsWith (combineUnpriced a b).note "unpriced:" := by
    show startsWith (if a.nano = none then a.note else b.note) "unpriced:"
    split
    · exact a.unpriced_note ‹_›
    · exact b.unpriced_note (hn.resolve_left ‹_›)
  rw [FigureFields.check_eq_none, checkEvidence_eq_none]
  refine ⟨rfl, fun _ => hnote, rfl, ⟨fun h => ?_, fun _ _ => ne_empty_of_unpriced hnote, fun h => ?_⟩,
    fun hi => ?_⟩
  · have hw : weaker a.evidence b.evidence = .exact := by
      simp only [combineUnpriced] at h
      split at h
      · cases h
      · exact h
    simp [combineUnpriced, combinedCalibration, combinedUpper, hw]
  · simp only [combineUnpriced] at h
    split at h <;> simp_all
  · simp [combineUnpriced, weaker_exact.mpr ⟨a.invoice_exact hi, b.invoice_exact (hb ▸ hi)⟩]

/-- The interval of a sum comes from either figure. -/
theorem combinedCi_ne_none (hw : weaker a.evidence b.evidence = .measured ∨
    weaker a.evidence b.evidence = .verified) :
    (a.lowNano.isSome || b.lowNano.isSome) = true ∧ combinedCi a b ≠ none := by
  unfold combinedCi
  rw [if_pos hw]
  rcases weaker_interval hw with h | h
  · obtain ⟨hl, hc⟩ := a.evidenceRules.interval h
    refine ⟨by simp [Option.isSome_iff_ne_none.mpr hl], ?_⟩
    cases hca : a.ciLevelPct <;> cases hcb : b.ciLevelPct <;> simp_all [combineCi]
  · obtain ⟨hl, hc⟩ := b.evidenceRules.interval h
    refine ⟨by simp [Option.isSome_iff_ne_none.mpr hl], ?_⟩
    cases hca : a.ciLevelPct <;> cases hcb : b.ciLevelPct <;> simp_all [combineCi]

/-- The combination says what it assumes where it must. -/
def Declares (a b : Figure) : Prop :=
  weaker a.evidence b.evidence = .estimated → combineCalibration a.calibration b.calibration = .na →
    combineNotes a.note b.note ≠ ""

theorem check_combinePriced {x y : ℤ} {subtract : Bool} (hb : a.basis = b.basis) (hnote : Declares a b)
    (hx : a.nano = some x) (hy : b.nano = some y) : (combinePriced a b x y subtract).check = none := by
  have hea := a.evidenceRules
  have heb := b.evidenceRules
  rw [FigureFields.check_eq_none, checkEvidence_eq_none]
  refine ⟨?_, fun h => (nomatch h), ?_, ⟨fun h => ?_, fun h hna => ?_, fun h => ?_⟩,
    fun hi => weaker_exact.mpr ⟨a.invoice_exact hi, b.invoice_exact (hb ▸ hi)⟩⟩
  · show (combinedCi a b).any _ = false
    unfold combinedCi
    split
    · exact combineCi_any ((FigureFields.check_eq_none _).mp a.valid).1
        ((FigureFields.check_eq_none _).mp b.valid).1
    · rfl
  · have h1 := a.bounds_le hx
    have h2 := b.bounds_le hy
    unfold FigureFields.checkRange combinePriced
    by_cases hr : (a.lowNano.isSome || b.lowNano.isSome) = true
    · cases subtract <;>
        simp only [hr, Bool.false_eq_true, if_false, if_true, Option.any_some] <;>
        rw [if_neg (by omega), if_neg] <;>
        simp only [Bool.not_eq_true', Bool.and_eq_false_iff, decide_eq_false_iff_not] <;>
        omega
    · simp [hr]
  · obtain ⟨h1, h2⟩ := weaker_exact.mp h
    have hw : weaker a.evidence b.evidence = .exact := h
    simp [combinePriced, combinedCalibration, combinedUpper, hw, (hea.exact h1).1, (heb.exact h2).1]
  · have hw : weaker a.evidence b.evidence = .estimated := h
    have hna : combinedCalibration a b = .na := hna
    rw [combinedCalibration, if_neg (by simp [hw])] at hna
    exact hnote hw hna
  · obtain ⟨hr, hc⟩ := combinedCi_ne_none h
    exact ⟨by simp [combinePriced, hr], hc⟩

/-- Figures of one basis can be combined where the combination says what it assumes. -/
theorem combine_ok (subtract : Bool) (hb : a.basis = b.basis) (hnote : Declares a b) :
    ∃ c, combine a b subtract = .ok c ∧ c.toFigureFields = combineFields a b subtract := by
  have hcheck : (combineFields a b subtract).check = none := by
    unfold combineFields
    split
    · exact check_combinePriced hb hnote ‹_› ‹_›
    · rename_i hne
      refine check_combineUnpriced hb ?_
      cases hx : a.nano with
      | none => exact .inl rfl
      | some x =>
        cases hy : b.nano with
        | none => exact .inr rfl
        | some y => exact absurd hy (hne x y hx)
  refine ⟨⟨_, hcheck⟩, ?_, rfl⟩
  unfold combine
  rw [if_neg (by simpa using hb), FigureFields.build_of_check hcheck]

theorem declares_of_spoken (ha : Spoken a.note) (hb : Spoken b.note) : Declares a b := by
  intro hw hna hnote
  obtain ⟨hn1, hn2⟩ := (spoken_combineNotes ha hb).2 hnote
  obtain ⟨hc1, hc2⟩ := combineCalibration_eq_na hna
  rcases weaker_estimated.mp hw with h | h
  · exact a.evidenceRules.estimated h hc1 hn1
  · exact b.evidenceRules.estimated h hc2 hn2

/-- Figures of one basis whose notes are spoken can be added, and so can their sum. -/
theorem add_ok (hb : a.basis = b.basis) (ha' : Spoken a.note) (hb' : Spoken b.note) :
    ∃ c, add a b = .ok c ∧ c.basis = a.basis ∧ Spoken c.note := by
  obtain ⟨c, hadd, hc⟩ : ∃ c, add a b = .ok c ∧ _ := combine_ok false hb (declares_of_spoken ha' hb')
  refine ⟨c, hadd, (add_basis hadd).2, ?_⟩
  rw [hc]
  unfold combineFields
  split
  · exact (spoken_combineNotes ha' hb').1
  · show Spoken (if a.nano = none then a.note else b.note)
    split
    · exact ha'
    · exact hb'

end Combine

end TokenBill
