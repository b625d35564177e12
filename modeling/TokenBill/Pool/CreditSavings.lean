import TokenBill.Pool.Conversions
import TokenBill.Pool.PoolMonthsSpec

/-!
# How a credit saving is realized

A credit saving is split into an invoice part and headroom. The split is consistent where the overage
it is realized against is not negative: the parts add up, the invoice part of a saving lies between
nothing and the saving, and a larger saving has no smaller invoice part. The observed overage of a
closed month is the net of its pooled rows and can be negative, after refunds; there the invoice part of
a saving is negative, and that of a cost increase may exceed it, so that no figure can be built.
-/

namespace TokenBill.Pool

open General

/-! ### The conversion at one level -/

section Realize

variable {saving saving' overage slack : Int}

/-- A larger saving realizes no less. -/
theorem realize_mono (ho : 0 ≤ overage) (h : saving ≤ saving') :
    realize saving overage slack ≤ realize saving' overage slack := by
  unfold realize
  split_ifs <;> omega

/-- A larger saving leaves no less headroom. -/
theorem headroom_mono (ho : 0 ≤ overage) (hs : 0 ≤ slack) (h : saving ≤ saving') :
    saving - realize saving overage slack ≤ saving' - realize saving' overage slack := by
  unfold realize
  split_ifs <;> omega

/-- What is realized of a saving lies between nothing and the saving. -/
theorem realize_between (ho : 0 ≤ overage) (h : 0 ≤ saving) :
    0 ≤ realize saving overage slack ∧ realize saving overage slack ≤ saving := by
  unfold realize
  rw [if_pos h]
  omega

/-- A negative overage makes the invoice part of nothing saved negative. -/
theorem realize_zero (slack : Int) (ho : overage < 0) : realize 0 overage slack < 0 := by
  unfold realize
  rw [if_pos le_rfl]
  omega

end Realize

/-! ### Figures -/

theorem figureLevels_ordered (f : Figure) {nano : Int} (h : f.nano = some nano) : (figureLevels f nano).Ordered := by
  have hb := f.bounds_le h
  have hsome := f.lowNano_isSome
  unfold Figure.bounds at hb
  unfold figureLevels
  cases hlow : f.lowNano with
  | none =>
    rw [hlow, eq_comm, Option.isSome_none, Option.isSome_eq_false_iff, Option.isNone_iff_eq_none] at hsome
    rw [hsome]
    exact ⟨le_rfl, le_rfl⟩
  | some low =>
    rw [hlow, Option.isSome_some, eq_comm, Option.isSome_iff_exists] at hsome
    obtain ⟨high, hhigh⟩ := hsome
    rw [hlow, hhigh] at hb
    rw [hhigh]
    exact ⟨hb.1, hb.2⟩

section Parts

variable {saving : Figure} {l : Levels} {basis : Basis} {upper : Bool} {note : String}

theorem partFields_ok (hl : l.Ordered) (hb : basis ≠ .invoice) (saving : Figure) (upper : Bool) (note : String) :
    ∃ f, (partFields saving l basis upper note).build = .ok f := by
  refine ⟨_, FigureFields.build_of_check ?_⟩
  have h1 := hl.low_le
  have h2 := hl.le_high
  have hrange : ¬l.high < l.low := by omega
  have hcal : (if saving.calibration = .na then Calibration.uncalibrated else saving.calibration) ≠ .na := by
    split_ifs with h
    · decide
    · exact h
  cases hsome : saving.lowNano.isSome <;>
    simp [partFields, FigureFields.check, FigureFields.checkRange, FigureFields.checkEvidence, hsome, hrange, h1, h2,
      hb, hcal]

theorem shownLevels_part {f : Figure} (h : (partFields saving l basis upper note).build = .ok f)
    (hpoint : saving.lowNano = none → l.low = l.point ∧ l.high = l.point) : shownLevels f = some l := by
  have hf := FigureFields.build_eq_ok.mp h
  unfold shownLevels figureLevels
  rw [hf]
  cases hlow : saving.lowNano with
  | none =>
    obtain ⟨h1, h2⟩ := hpoint hlow
    obtain ⟨low, point, high⟩ := l
    simp only at h1 h2
    simp [partFields, hlow, h1, h2]
  | some low => simp [partFields, hlow]

end Parts

theorem figureLevels_point {f : Figure} {nano : Int} (h : f.lowNano = none) :
    (figureLevels f nano).low = nano ∧ (figureLevels f nano).high = nano := by
  have hsome := f.lowNano_isSome
  rw [h, eq_comm, Option.isSome_none, Option.isSome_eq_false_iff, Option.isNone_iff_eq_none] at hsome
  unfold figureLevels
  rw [h, hsome]
  exact ⟨rfl, rfl⟩

/-! ### What a consistent split is -/

def Levels.AtMost (a b : Levels) : Prop := a.low ≤ b.low ∧ a.point ≤ b.point ∧ a.high ≤ b.high

/-- At every level where something is saved, the part lies between nothing and the saving. -/
def PartOf (part saving : Levels) : Prop :=
  (0 ≤ saving.low → 0 ≤ part.low ∧ part.low ≤ saving.low) ∧
    (0 ≤ saving.point → 0 ≤ part.point ∧ part.point ≤ saving.point) ∧
    (0 ≤ saving.high → 0 ≤ part.high ∧ part.high ≤ saving.high)

/-- A saving is split into what is invoiced and headroom. -/
structure Split (saving : Figure) (pm : PoolMonth) (invoice headroom : Figure) : Prop where
  invoice_priced : (shownLevels invoice).isSome = (saving.nano.isSome && pm.regime ≠ .unknown)
  headroom_priced : (shownLevels headroom).isSome = (saving.nano.isSome && pm.regime ≠ .unknown)
  adds : ∀ s ∈ shownLevels saving, ∀ i ∈ shownLevels invoice, ∀ h ∈ shownLevels headroom, i + h = s
  part : ∀ s ∈ shownLevels saving, ∀ i ∈ shownLevels invoice, PartOf i s

/-- The savings that are converted: credit savings, at list prices. -/
def CreditBasis (f : Figure) : Prop := f.basis = .listEquivalent ∨ f.basis = .list

/-- Every credit saving is split in a pool month, and a larger one has no smaller invoice part. -/
structure Consistent (pm : PoolMonth) : Prop where
  splits : ∀ saving, CreditBasis saving →
    ∃ invoice headroom, realizeCreditSaving saving pm = .ok (invoice, headroom) ∧ Split saving pm invoice headroom
  mono : ∀ saving invoice headroom saving' invoice' headroom',
    realizeCreditSaving saving pm = .ok (invoice, headroom) → realizeCreditSaving saving' pm = .ok (invoice', headroom') →
      ∀ s ∈ shownLevels saving, ∀ s' ∈ shownLevels saving', s.AtMost s' →
        ∀ i ∈ shownLevels invoice, ∀ i' ∈ shownLevels invoice', i.AtMost i'

/-! ### The conversion in a pool month -/

variable {pm : PoolMonth} {saving invoice headroom : Figure}

theorem poolSlack_nonneg (pm : PoolMonth) : 0 ≤ poolSlack pm := le_max_left _ _

theorem invoice_add_headroom (pm : PoolMonth) (s : Levels) : invoiceLevels pm s + headroomLevels pm s = s := by
  show Levels.mk _ _ _ = s
  simp [headroomLevels]

/-- Of a priced saving, in a month with a known regime, the figures show the parts. -/
theorem realized_shown {nano : Int} (h : realizePriced saving nano pm = .ok (invoice, headroom)) :
    shownLevels invoice = some (invoiceLevels pm (figureLevels saving nano)) ∧
      shownLevels headroom = some (headroomLevels pm (figureLevels saving nano)) := by
  obtain ⟨inv, hinv, h⟩ := bind_eq_ok.mp h
  obtain ⟨head, hhead, h⟩ := bind_eq_ok.mp h
  obtain ⟨rfl, rfl⟩ := Prod.mk.inj (pure_eq_ok.mp h)
  have hpoint : saving.lowNano = none → (figureLevels saving nano).low = (figureLevels saving nano).point ∧
      (figureLevels saving nano).high = (figureLevels saving nano).point := figureLevels_point
  refine ⟨shownLevels_part hinv fun hnone => ?_, shownLevels_part hhead fun hnone => ?_⟩
  · obtain ⟨h1, h2⟩ := hpoint hnone
    simp only [invoiceLevels, h1, h2, and_self]
  · obtain ⟨h1, h2⟩ := hpoint hnone
    simp only [headroomLevels, invoiceLevels, h1, h2, and_self]

theorem realizePriced_ok {nano : Int} (hn : saving.nano = some nano) (ho : 0 ≤ (usedOverage pm).nano) :
    ∃ invoice headroom, realizePriced saving nano pm = .ok (invoice, headroom) := by
  have hl := figureLevels_ordered saving hn
  have hs := poolSlack_nonneg pm
  have hinvoice : (invoiceLevels pm (figureLevels saving nano)).Ordered :=
    ⟨realize_mono ho hl.low_le, realize_mono ho hl.le_high⟩
  have hheadroom : (headroomLevels pm (figureLevels saving nano)).Ordered :=
    ⟨headroom_mono ho hs hl.low_le, headroom_mono ho hs hl.le_high⟩
  obtain ⟨invoice, hinv⟩ := partFields_ok hinvoice (show Basis.list ≠ .invoice by decide) saving
    (pm.seatsSource = .reportUsers || (usedOverage pm).upper || saving.upperBound) (realizeNote pm)
  obtain ⟨headroom, hhead⟩ := partFields_ok hheadroom (show Basis.listEquivalent ≠ .invoice by decide) saving
    saving.upperBound (realizeNote pm ++ "; headroom: list-equivalent pool credits, not invoice dollars")
  exact ⟨invoice, headroom, bind_eq_ok.mpr ⟨_, hinv, bind_eq_ok.mpr ⟨_, hhead, rfl⟩⟩⟩

theorem realizeCreditSaving_eq_ok (h : realizeCreditSaving saving pm = .ok (invoice, headroom)) :
    (shownLevels invoice = none ∧ shownLevels headroom = none ∧ (saving.nano = none ∨ pm.regime = .unknown)) ∨
      ∃ nano, saving.nano = some nano ∧ pm.regime ≠ .unknown ∧ realizePriced saving nano pm = .ok (invoice, headroom) := by
  unfold realizeCreditSaving at h
  split at h
  · cases h
  split at h
  · rename_i hnone
    obtain ⟨rfl, rfl⟩ := Prod.mk.inj (Except.ok.inj h)
    exact .inl ⟨rfl, rfl, .inl hnone⟩
  · rename_i nano hnano
    split at h
    · rename_i hunknown
      obtain ⟨rfl, rfl⟩ := Prod.mk.inj (Except.ok.inj h)
      exact .inl ⟨rfl, rfl, .inr hunknown⟩
    · rename_i hknown
      exact .inr ⟨nano, hnano, hknown, h⟩

theorem split_unpriced (hi : shownLevels invoice = none) (hh : shownLevels headroom = none)
    (h : saving.nano = none ∨ pm.regime = .unknown) : Split saving pm invoice headroom := by
  have hnone : (saving.nano.isSome && decide (pm.regime ≠ .unknown)) = false := by
    rcases h with h | h
    · rw [h]
      rfl
    · rw [h]
      exact Bool.and_false _
  refine ⟨by rw [hi, hnone]; rfl, by rw [hh, hnone]; rfl, fun s _ i hi' => ?_, fun s _ i hi' => ?_⟩
  · rw [hi] at hi'
    cases hi'
  · rw [hi] at hi'
    cases hi'

/-- In a month without a regime both parts of every credit saving are unpriced. -/
theorem consistent_of_unknown (h : pm.regime = .unknown) : Consistent pm where
  splits saving hbasis := by
    have hguard : ¬(saving.basis ≠ .listEquivalent ∧ saving.basis ≠ .list) := fun hb => hbasis.elim hb.1 hb.2
    unfold realizeCreditSaving
    rw [if_neg hguard]
    cases hn : saving.nano with
    | none => exact ⟨_, _, rfl, split_unpriced rfl rfl (.inl hn)⟩
    | some nano => exact ⟨_, _, if_pos h, split_unpriced rfl rfl (.inr h)⟩
  mono saving invoice headroom saving' invoice' headroom' h1 h2 s hs s' hs' hle i hi i' hi' := by
    rcases realizeCreditSaving_eq_ok h1 with ⟨hnone, -, -⟩ | ⟨nano, -, hknown, -⟩
    · rw [hnone] at hi
      cases hi
    · exact absurd h hknown

theorem consistent_of_nonneg (ho : 0 ≤ (usedOverage pm).nano) (hknown : pm.regime ≠ .unknown) : Consistent pm where
  splits saving hbasis := by
    have hguard : ¬(saving.basis ≠ .listEquivalent ∧ saving.basis ≠ .list) := fun hb => hbasis.elim hb.1 hb.2
    unfold realizeCreditSaving
    rw [if_neg hguard]
    cases hn : saving.nano with
    | none => exact ⟨_, _, rfl, split_unpriced rfl rfl (.inl hn)⟩
    | some nano =>
      obtain ⟨invoice, headroom, hok⟩ := realizePriced_ok hn ho
      obtain ⟨hinv, hhead⟩ := realized_shown hok
      refine ⟨invoice, headroom, (if_neg hknown).trans hok, ⟨?_, ?_, fun s hs i hi k hk => ?_, fun s hs i hi => ?_⟩⟩
      · simp [hinv, hn, hknown]
      · simp [hhead, hn, hknown]
      all_goals
        obtain rfl : figureLevels saving nano = s := by simpa [shownLevels, hn] using hs
        obtain rfl : invoiceLevels pm (figureLevels saving nano) = i := by simpa [hinv] using hi
      · obtain rfl : headroomLevels pm (figureLevels saving nano) = k := by simpa [hhead] using hk
        exact invoice_add_headroom pm _
      · exact ⟨realize_between ho, realize_between ho, realize_between ho⟩
  mono saving invoice headroom saving' invoice' headroom' h1 h2 s hs s' hs' hle i hi i' hi' := by
    rcases realizeCreditSaving_eq_ok h1 with ⟨hnone, -, -⟩ | ⟨nano, hn, -, hok⟩
    · rw [hnone] at hi
      cases hi
    rcases realizeCreditSaving_eq_ok h2 with ⟨hnone, -, -⟩ | ⟨nano', hn', -, hok'⟩
    · rw [hnone] at hi'
      cases hi'
    obtain rfl : figureLevels saving nano = s := by simpa [shownLevels, hn] using hs
    obtain rfl : figureLevels saving' nano' = s' := by simpa [shownLevels, hn'] using hs'
    obtain rfl : invoiceLevels pm (figureLevels saving nano) = i := by simpa [(realized_shown hok).1] using hi
    obtain rfl : invoiceLevels pm (figureLevels saving' nano') = i' := by simpa [(realized_shown hok').1] using hi'
    exact ⟨realize_mono ho hle.1, realize_mono ho hle.2.1, realize_mono ho hle.2.2⟩

/-- The conversion is consistent just where the regime is unknown or the overage is not negative: of
nothing saved the invoice part is else negative. -/
theorem consistent_iff (pm : PoolMonth) : Consistent pm ↔ pm.regime = .unknown ∨ 0 ≤ (usedOverage pm).nano := by
  constructor
  · intro hc
    by_contra hneg
    obtain ⟨hknown, hover⟩ := not_or.mp hneg
    obtain ⟨invoice, headroom, hok, hsplit⟩ := hc.splits (exactFigure 0 .list) (.inr rfl)
    rcases realizeCreditSaving_eq_ok hok with ⟨-, -, hn | hunknown⟩ | ⟨nano, hn, -, hpriced⟩
    · cases hn
    · exact hknown hunknown
    · obtain rfl : (0 : Int) = nano := Option.some.inj hn
      obtain ⟨hinv, -⟩ := realized_shown hpriced
      have hpart := (hsplit.part _ rfl _ hinv).2.1 le_rfl
      exact absurd hpart.1 (not_le.mpr (realize_zero (poolSlack pm) (not_le.mp hover)))
  · rintro (hunknown | hover)
    · exact consistent_of_unknown hunknown
    · by_cases hknown : pm.regime = .unknown
      · exact consistent_of_unknown hknown
      · exact consistent_of_nonneg hover hknown

/-! ### The pool months of a run -/

section Run

variable {facts : Facts} {i : EntityInputs} {seats : Seats} {source : SeatSource} {scenario : Option KnownPlan}
  {allowance : Decimal}

theorem overageForecast_nonneg {fc : Forecast} {pools : Levels} {policy : Option CapPolicy} {lower : Bool} {f : Figure}
    (h : overageForecast fc pools policy lower = .ok f) : ∃ n, f.nano = some n ∧ 0 ≤ n := by
  unfold overageForecast at h
  split at h
  · exact ⟨0, (figureRange_eq_ok h).1, le_rfl⟩
  · exact ⟨_, (figureRange_eq_ok h).1, le_max_left _ _⟩
  · exact ⟨_, (figureRange_eq_ok h).1, le_max_left _ _⟩

theorem usedOverage_opened (hm : IsMonth facts i seats source scenario allowance pm) (hopen : pm.finality = .opened)
    (hknown : pm.regime ≠ .unknown) : 0 ≤ (usedOverage pm).nano := by
  have hfin : i.cm.finality = .opened := hm.finality.symm.trans hopen
  have hreg := hm.regime
  have hover := hm.overage
  unfold EntityInputs.regimeOf at hreg
  unfold EntityInputs.overageFigure at hover
  cases hpool : i.cap.isSome || !seats.isEmpty with
  | false =>
    rw [hpool] at hreg
    exact absurd (Except.ok.inj hreg).symm hknown
  | true =>
    rw [hpool, hfin] at hreg hover
    cases hfc : i.cm.fc with
    | none =>
      rw [hfc] at hreg
      exact absurd (Except.ok.inj hreg).symm hknown
    | some fc =>
      rw [hfc] at hover
      obtain ⟨f, hf, hsome⟩ := map_eq_ok.mp hover
      obtain ⟨n, hn, hnonneg⟩ := overageForecast_nonneg hf
      unfold usedOverage
      rw [hopen, ← hsome, Option.bind_some, hn]
      exact hnonneg

end Run

theorem usedOverage_closed (h : pm.finality = .closed) : (usedOverage pm).nano = pm.overageObservedNano := by
  unfold usedOverage
  rw [h]

/-- Credit savings are realized consistently in a pool month of a run just where the month is open, its
regime is unknown, or its observed overage is not negative. -/
theorem credit_savings_consistent {facts : Facts} {inp : PoolInputs} {months : List PoolMonth}
    (h : poolMonths facts inp = .ok months) {pm : PoolMonth} (hpm : pm ∈ months) :
    Consistent pm ↔ pm.finality = .opened ∨ pm.regime = .unknown ∨ 0 ≤ pm.overageObservedNano := by
  obtain ⟨todayDay, evidence, commons, r⟩ := ran_of_poolMonths h
  obtain ⟨c, -, seats, source, scenario, allowance, -, -, hm⟩ := r.months pm hpm
  rw [consistent_iff]
  cases hfin : pm.finality with
  | closed => simp [usedOverage_closed hfin]
  | opened =>
    refine iff_of_true ?_ (.inl rfl)
    by_cases hknown : pm.regime = .unknown
    · exact .inl hknown
    · exact .inr (usedOverage_opened hm hfin hknown)

/-! ### A refunded month -/

def refundFields : CellFields :=
  { dayFields "enterprise" "2026-10-05" 0 with discountNano := 5000000000, netNano := -5000000000 }

theorem refundFields_valid : refundFields.check = none := by decide

def refundInputs : PoolInputs where
  cells := [⟨refundFields, refundFields_valid⟩]
  today := "2026-12-01"
  plans := [{ entityId := "enterprise", month := "2026-10", source := .orgSettings, seats := [(some .business, 10)] }]

def wideSaving : Figure :=
  ⟨{ nano := some 0, evidence := .estimated, basis := .listEquivalent, lowNano := some (-1), highNano := some 1
     calibration := .uncalibrated }, by decide⟩

def shownParts (pm : PoolMonth) : Option Int × Option Int :=
  match realizeCreditSaving (exactFigure 1000000000 .list) pm with
  | .ok (invoice, headroom) => (invoice.nano, headroom.nano)
  | .error _ => (none, none)

def wideRaised (pm : PoolMonth) : Option Error :=
  match realizeCreditSaving wideSaving pm with
  | .ok _ => none
  | .error e => some e

/-- Of a saving of $1 the invoice part is -$5 and the headroom $6, and a saving of about nothing raises: its
invoice part is greater at the low end than at the point. -/
theorem refund_not_consistent : ∃ pm, poolMonths packagedFacts refundInputs = .ok [pm] ∧
    shownParts pm = (some (-5000000000), some 6000000000) ∧
    wideRaised pm = some (.contract "Figure: low_nano > high_nano") ∧ ¬Consistent pm := by
  have hrun : (poolMonths packagedFacts refundInputs).toOption.map (List.map fun pm => (shownParts pm, wideRaised pm)) =
      some [((some (-5000000000), some 6000000000), some (.contract "Figure: low_nano > high_nano"))] := by
    decide +kernel
  obtain ⟨months, hmonths, hparts⟩ := Option.map_eq_some_iff.mp hrun
  obtain ⟨pm, rfl, hpm⟩ := List.map_eq_singleton_iff.mp hparts
  obtain ⟨hone, hraised⟩ := Prod.mk.inj hpm
  refine ⟨pm, toOption_eq_some.mp hmonths, hone, hraised, fun hc => ?_⟩
  obtain ⟨invoice, headroom, hok, -⟩ := hc.splits wideSaving (.inl rfl)
  unfold wideRaised at hraised
  rw [hok] at hraised
  cases hraised

/-- The months of the refund. -/
theorem refund_months : ∃ months pm, poolMonths packagedFacts refundInputs = .ok months ∧ pm ∈ months ∧
    (Consistent pm ↔ pm.finality = .opened ∨ pm.regime = .unknown ∨ 0 ≤ pm.overageObservedNano) := by
  have hrun : (poolMonths packagedFacts refundInputs).toOption.map (List.map (·.finality)) = some [.closed] := by
    decide +kernel
  obtain ⟨months, hmonths, hparts⟩ := Option.map_eq_some_iff.mp hrun
  obtain ⟨pm, rfl, -⟩ := List.map_eq_singleton_iff.mp hparts
  have hok := toOption_eq_some.mp hmonths
  exact ⟨[pm], pm, hok, List.mem_singleton_self pm, credit_savings_consistent hok (List.mem_singleton_self pm)⟩

end TokenBill.Pool
