import TokenBill.Pool.CreditSavings

/-!
# What a seat change saves

The saving of a seat change is the reduction of the fees less the increase of the overage, where the
overage is that of the pool alone. The caps that other entities leave unused also count toward the pool,
and the saving leaves them out: of removed seats it then claims less than the invoice falls by, but seats
that are added it credits with an overage that the unused caps had already covered.
-/

namespace TokenBill.Pool

open General

/-! ### The overage at one consumption -/

/-- What the overage of a consumption falls by when the pool changes. -/
def overageCut (pool0 pool1 consumed : Int) : Int := max 0 (consumed - pool0) - max 0 (consumed - pool1)

section OverageCut

variable {pool0 pool1 consumed consumed' unused : Int}

theorem overageCut_mono (hp : pool0 ≤ pool1) (h : consumed ≤ consumed') :
    overageCut pool0 pool1 consumed ≤ overageCut pool0 pool1 consumed' := by
  unfold overageCut
  omega

/-- A smaller pool adds more to a larger consumption. -/
theorem overageCut_anti (hp : pool1 ≤ pool0) (h : consumed ≤ consumed') :
    overageCut pool0 pool1 consumed' ≤ overageCut pool0 pool1 consumed := by
  unfold overageCut
  omega

theorem overageCut_nonneg (hp : pool0 ≤ pool1) : 0 ≤ overageCut pool0 pool1 consumed := by
  unfold overageCut
  omega

/-- The unused caps spare nothing of a cut: there are none, the old pool held the consumption, or what exceeds
the caps exceeds the new pool too. -/
def Spared (pool0 pool1 consumed unused : Int) : Prop :=
  pool1 ≤ pool0 ∨ unused = 0 ∨ consumed ≤ pool0 ∨ pool1 + unused ≤ consumed

/-- Against the pool with the unused caps the cut is no smaller just where these spare nothing. -/
theorem overageCut_le_iff (hu : 0 ≤ unused) :
    overageCut pool0 pool1 consumed ≤ overageCut pool0 pool1 (consumed - unused) ↔
      Spared pool0 pool1 consumed unused := by
  unfold overageCut Spared
  omega

end OverageCut

/-! ### The saving at the three levels -/

/-- The saving at a consumption with the overage of the pool and the unused caps. -/
def recomputedRow (pm : PoolMonth) (fees pool1 unused consumed : Int) : List Int :=
  (openPolicies pm).map fun policy => -fees - overageChange (pm.poolNano + unused) (pool1 + unused) consumed policy

/-- The reduction of the fees less the increase of the overage, recomputed from the pool with the changed seats
and the unused caps. -/
def recomputedSavings (pm : PoolMonth) (fees pool1 : Int) (states unused : Levels) : Levels :=
  let row := recomputedRow pm fees pool1
  rowsRange (row unused.low states.low) (row unused.point states.point) (row unused.high states.high)

/-- What the unused caps spare nothing of, at the levels that the policy leaves open. -/
def SparedLevels (pm : PoolMonth) (pool1 : Int) (states unused : Levels) : Prop :=
  pm.cappedPolicy = some .block ∨
    Spared pm.poolNano pool1 states.point unused.point ∧ Spared pm.poolNano pool1 states.high unused.high ∧
      (pm.cappedPolicy = some .unknown ∨ Spared pm.poolNano pool1 states.low unused.low)

theorem recomputedSavings_of_rows {pm : PoolMonth} {fees pool1 : Int} {row : Int → Int → List Int}
    (hrow : ∀ u c, recomputedRow pm fees pool1 u c = row u c) (states unused : Levels) :
    recomputedSavings pm fees pool1 states unused =
      rowsRange (row unused.low states.low) (row unused.point states.point) (row unused.high states.high) := by
  show rowsRange (recomputedRow pm fees pool1 _ _) (recomputedRow pm fees pool1 _ _) (recomputedRow pm fees pool1 _ _) = _
  rw [hrow, hrow, hrow]

theorem recomputedSavings_zero (pm : PoolMonth) (fees pool1 : Int) (states : Levels) :
    recomputedSavings pm fees pool1 states 0 = seatSavings pm fees pool1 states := by
  have hrow : ∀ consumed, recomputedRow pm fees pool1 0 consumed = seatRow pm fees pool1 consumed := fun consumed => by
    unfold recomputedRow seatRow
    simp only [add_zero]
  show rowsRange (recomputedRow pm fees pool1 0 _) (recomputedRow pm fees pool1 0 _) (recomputedRow pm fees pool1 0 _) = _
  rw [hrow, hrow, hrow]
  rfl

theorem saving_eq {pool0 pool1 unused consumed : Int} {policy : Option CapPolicy} (h : policy ≠ some .block) (fees : Int) :
    -fees - overageChange (pool0 + unused) (pool1 + unused) consumed policy =
      -fees + overageCut pool0 pool1 (consumed - unused) := by
  unfold overageChange overageCut
  split
  · exact absurd rfl h
  · omega

section Levels

variable {pm : PoolMonth} {fees pool1 : Int} {states unused : Levels}

def cuts (pm : PoolMonth) (pool1 : Int) (states : Levels) : Levels :=
  let cut := overageCut pm.poolNano pool1
  ⟨cut states.low, cut states.point, cut states.high⟩

def beyond (states unused : Levels) : Levels :=
  ⟨states.low - unused.low, states.point - unused.point, states.high - unused.high⟩

def oneRange (fees : Int) (l : Levels) : Levels :=
  ⟨-fees + min l.low (min l.point l.high), -fees + l.point, -fees + max l.low (max l.point l.high)⟩

/-- The range of the savings at the cuts of a policy that blocks or continues. -/
def bothRange (fees : Int) (l : Levels) : Levels :=
  ⟨-fees + min 0 (min l.low (min l.point l.high)), -fees + l.point, -fees + max 0 (max l.low (max l.point l.high))⟩

theorem rowsRange_one (fees : Int) (l : Levels) :
    rowsRange [-fees + l.low] [-fees + l.point] [-fees + l.high] = oneRange fees l := by
  refine (Levels.mk.injEq _ _ _ _ _ _).mpr ⟨?_, rfl, ?_⟩
  · show min (min (min _ _) _) _ = -fees + min _ (min _ _)
    simp only [List.getLastD, List.getLast]
    omega
  · show max (max (max _ _) _) _ = -fees + max _ (max _ _)
    simp only [List.getLastD, List.getLast]
    omega

theorem rowsRange_both (fees : Int) (l : Levels) :
    rowsRange [-fees, -fees + l.low] [-fees, -fees + l.point] [-fees, -fees + l.high] = bothRange fees l := by
  refine (Levels.mk.injEq _ _ _ _ _ _).mpr ⟨?_, rfl, ?_⟩
  · show min (min (min (min (min (min _ _) _) _) _) _) _ = -fees + min 0 (min _ (min _ _))
    simp only [List.getLastD, List.getLast]
    omega
  · show max (max (max (max (max (max _ _) _) _) _) _) _ = -fees + max 0 (max _ (max _ _))
    simp only [List.getLastD, List.getLast]
    omega

theorem recomputedSavings_block (h : pm.cappedPolicy = some .block) (states unused : Levels) :
    recomputedSavings pm fees pool1 states unused = oneRange fees 0 := by
  have hrow : ∀ u c, recomputedRow pm fees pool1 u c = [-fees + 0] := by
    intro u c
    unfold recomputedRow openPolicies
    rw [if_neg (by rw [h]; decide), List.map_singleton, h, overageChange, sub_zero, add_zero]
  exact (recomputedSavings_of_rows hrow states unused).trans (rowsRange_one fees 0)

/-- Under an unknown policy the range spans block and continue. -/
theorem recomputedSavings_unknown (h : pm.cappedPolicy = some .unknown) (states unused : Levels) :
    recomputedSavings pm fees pool1 states unused = bothRange fees (cuts pm pool1 (beyond states unused)) := by
  have hrow : ∀ u c, recomputedRow pm fees pool1 u c = [-fees, -fees + overageCut pm.poolNano pool1 (c - u)] := by
    intro u c
    unfold recomputedRow openPolicies
    rw [if_pos h, List.map_cons, List.map_singleton, overageChange, sub_zero,
      saving_eq (show some CapPolicy.continues ≠ some .block by decide)]
  exact (recomputedSavings_of_rows hrow states unused).trans
    (rowsRange_both fees (cuts pm pool1 (beyond states unused)))

/-- Else the overage counts. -/
theorem recomputedSavings_other (hblock : pm.cappedPolicy ≠ some .block) (hunknown : pm.cappedPolicy ≠ some .unknown)
    (states unused : Levels) :
    recomputedSavings pm fees pool1 states unused = oneRange fees (cuts pm pool1 (beyond states unused)) := by
  have hrow : ∀ u c, recomputedRow pm fees pool1 u c = [-fees + overageCut pm.poolNano pool1 (c - u)] := by
    intro u c
    unfold recomputedRow openPolicies
    rw [if_neg hunknown, List.map_singleton, saving_eq hblock]
  exact (recomputedSavings_of_rows hrow states unused).trans
    (rowsRange_one fees (cuts pm pool1 (beyond states unused)))

theorem beyond_zero (states : Levels) : beyond states 0 = states := by
  show Levels.mk (states.low - 0) (states.point - 0) (states.high - 0) = states
  rw [sub_zero, sub_zero, sub_zero]

theorem beyond_ordered (hs : states.Ordered) (hu : Unused unused) : (beyond states unused).Ordered :=
  ⟨Int.sub_le_sub hs.low_le hu.le_low, Int.sub_le_sub hs.le_high hu.high_le⟩

/-- The cuts of a smaller pool are in the reverse order. -/
theorem cuts_of_le (hp : pool1 ≤ pm.poolNano) (hu : Unused unused) :
    (cuts pm pool1 states).AtMost (cuts pm pool1 (beyond states unused)) := by
  have hlow : 0 ≤ unused.low := hu.nonneg.trans (hu.high_le.trans hu.le_low)
  have hpoint : 0 ≤ unused.point := hu.nonneg.trans hu.high_le
  exact ⟨overageCut_anti hp (Int.sub_le_self _ hlow), overageCut_anti hp (Int.sub_le_self _ hpoint),
    overageCut_anti hp (Int.sub_le_self _ hu.nonneg)⟩

theorem cuts_ordered (hp : pm.poolNano ≤ pool1) (hs : states.Ordered) :
    (cuts pm pool1 states).Ordered ∧ 0 ≤ (cuts pm pool1 states).low :=
  ⟨⟨overageCut_mono hp hs.low_le, overageCut_mono hp hs.le_high⟩, overageCut_nonneg hp⟩

theorem oneRange_atMost {l l' : Levels} (h : l.AtMost l') : (oneRange fees l).AtMost (oneRange fees l') := by
  obtain ⟨h1, h2, h3⟩ := h
  simp only [Levels.AtMost, oneRange]
  omega

theorem bothRange_atMost {l l' : Levels} (h : l.AtMost l') : (bothRange fees l).AtMost (bothRange fees l') := by
  obtain ⟨h1, h2, h3⟩ := h
  simp only [Levels.AtMost, bothRange]
  omega

theorem oneRange_atMost_iff {l l' : Levels} (h : l.Ordered) (h' : l'.Ordered) :
    (oneRange fees l).AtMost (oneRange fees l') ↔ l.AtMost l' := by
  have h1 := h.low_le
  have h2 := h.le_high
  have h3 := h'.low_le
  have h4 := h'.le_high
  simp only [Levels.AtMost, oneRange]
  omega

theorem bothRange_atMost_iff {l l' : Levels} (h : l.Ordered ∧ 0 ≤ l.low) (h' : l'.Ordered ∧ 0 ≤ l'.low) :
    (bothRange fees l).AtMost (bothRange fees l') ↔ l.point ≤ l'.point ∧ l.high ≤ l'.high := by
  have h1 := h.1.low_le
  have h2 := h.1.le_high
  have h3 := h'.1.low_le
  have h4 := h'.1.le_high
  have h5 := h.2
  have h6 := h'.2
  simp only [Levels.AtMost, bothRange]
  omega

theorem seatSavings_atMost_iff (hs : states.Ordered) (hu : Unused unused) :
    (seatSavings pm fees pool1 states).AtMost (recomputedSavings pm fees pool1 states unused) ↔
      SparedLevels pm pool1 states unused := by
  have hlow : 0 ≤ unused.low := hu.nonneg.trans (hu.high_le.trans hu.le_low)
  have hpoint : 0 ≤ unused.point := hu.nonneg.trans hu.high_le
  have h1 : (cuts pm pool1 states).low ≤ _ ↔ _ := overageCut_le_iff hlow
  have h2 : (cuts pm pool1 states).point ≤ _ ↔ _ := overageCut_le_iff hpoint
  have h3 : (cuts pm pool1 states).high ≤ _ ↔ _ := overageCut_le_iff hu.nonneg
  rw [← recomputedSavings_zero]
  unfold SparedLevels
  by_cases hblock : pm.cappedPolicy = some .block
  · rw [recomputedSavings_block hblock, recomputedSavings_block hblock]
    exact iff_of_true ⟨le_rfl, le_rfl, le_rfl⟩ (.inl hblock)
  by_cases hp : pool1 ≤ pm.poolNano
  · refine iff_of_true ?_ (.inr ⟨.inl hp, .inl hp, .inr (.inl hp)⟩)
    by_cases hunknown : pm.cappedPolicy = some .unknown
    · rw [recomputedSavings_unknown hunknown, recomputedSavings_unknown hunknown, beyond_zero]
      exact bothRange_atMost (cuts_of_le hp hu)
    · rw [recomputedSavings_other hblock hunknown, recomputedSavings_other hblock hunknown, beyond_zero]
      exact oneRange_atMost (cuts_of_le hp hu)
  · have hcuts := cuts_ordered (not_le.mp hp).le hs
    have hcuts' := cuts_ordered (not_le.mp hp).le (beyond_ordered hs hu)
    by_cases hunknown : pm.cappedPolicy = some .unknown
    · rw [recomputedSavings_unknown hunknown, recomputedSavings_unknown hunknown, beyond_zero,
        bothRange_atMost_iff hcuts hcuts']
      rw [← h2, ← h3]
      exact ⟨fun h => .inr ⟨h.1, h.2, .inl hunknown⟩, fun h => h.elim (fun hb => absurd hb hblock) fun h => ⟨h.1, h.2.1⟩⟩
    · rw [recomputedSavings_other hblock hunknown, recomputedSavings_other hblock hunknown, beyond_zero,
        oneRange_atMost_iff hcuts.1 hcuts'.1, ← h1, ← h2, ← h3]
      constructor
      · rintro ⟨hl, hpt, hh⟩
        exact .inr ⟨hpt, hh, .inr hl⟩
      · rintro (hb | ⟨hpt, hh, hun | hl⟩)
        · exact absurd hb hblock
        · exact absurd hun hunknown
        · exact ⟨hl, hpt, hh⟩

theorem oneRange_ordered (fees : Int) (l : Levels) : (oneRange fees l).Ordered :=
  ⟨by simp only [oneRange]; omega, by simp only [oneRange]; omega⟩

theorem bothRange_ordered (fees : Int) (l : Levels) : (bothRange fees l).Ordered :=
  ⟨by simp only [bothRange]; omega, by simp only [bothRange]; omega⟩

theorem seatSavings_ordered (pm : PoolMonth) (fees pool1 : Int) (states : Levels) :
    (seatSavings pm fees pool1 states).Ordered := by
  rw [← recomputedSavings_zero]
  by_cases hblock : pm.cappedPolicy = some .block
  · rw [recomputedSavings_block hblock]
    exact oneRange_ordered _ _
  by_cases hunknown : pm.cappedPolicy = some .unknown
  · rw [recomputedSavings_unknown hunknown]
    exact bothRange_ordered _ _
  · rw [recomputedSavings_other hblock hunknown]
    exact oneRange_ordered _ _

end Levels

/-! ### The saving that is reported -/

theorem consumptionStates_ordered (pm : PoolMonth) : (consumptionStates pm).Ordered := by
  unfold consumptionStates
  split
  · rename_i levels _ hshown
    obtain ⟨f, -, hf⟩ := Option.bind_eq_some_iff.mp hshown
    obtain ⟨nano, hn, rfl⟩ := Option.map_eq_some_iff.mp hf
    exact figureLevels_ordered f hn
  · exact ⟨le_rfl, le_rfl⟩

theorem figureLevels_seatFigure {l : Levels} (hl : l.Ordered) {note : String} {f : Figure}
    (h : seatFigure l note = .ok f) {n : Int} (hn : f.nano = some n) : figureLevels f n = l := by
  have hf := FigureFields.build_eq_ok.mp (lift_eq_ok.mp h)
  rw [hf] at hn
  obtain rfl : l.point = n := Option.some.inj hn
  unfold figureLevels
  rw [hf]
  have h1 := hl.low_le
  have h2 := hl.le_high
  refine (Levels.mk.injEq _ _ _ _ _ _).mpr ⟨?_, rfl, ?_⟩
  · split_ifs with hne
    · rfl
    · show l.point = l.low
      omega
  · split_ifs with hne
    · rfl
    · show l.point = l.high
      omega

variable {facts : Facts} {pm : PoolMonth} {delta : List (String × Int)} {monthFee : MonthFee} {fig : Figure} {n : Int}
  {usd credits : Decimal} {unused : Levels}

theorem realizeSeatChange_shown (h : realizeSeatChange facts pm delta monthFee = .ok (some fig)) (hn : fig.nano = some n)
    (hd : seatDelta facts pm delta monthFee = .ok (usd, credits)) :
    figureLevels fig n = seatSavings pm (usdToNano usd) (changedPool pm credits) (consumptionStates pm) := by
  unfold realizeSeatChange at h
  split at h
  · cases h
  rw [hd] at h
  obtain ⟨d, hpure, h⟩ := bind_eq_ok.mp h
  obtain rfl := Except.ok.inj hpure
  dsimp only at h
  split at h
  · obtain rfl := Option.some.inj (pure_eq_ok.mp h)
    cases hn
  · obtain ⟨f, hf, hsome⟩ := map_eq_ok.mp h
    obtain rfl := Option.some.inj hsome
    exact figureLevels_seatFigure (seatSavings_ordered _ _ _ _) hf hn

/-- The saving that is reported of a seat change is at its low end, its point and its high end at most the
reduction of the fees less the increase of the overage, against the pool with the changed seats and the unused
caps, just where these caps spare nothing. -/
theorem seat_change_covered (h : realizeSeatChange facts pm delta monthFee = .ok (some fig)) (hn : fig.nano = some n)
    (hd : seatDelta facts pm delta monthFee = .ok (usd, credits)) (hu : Unused unused) :
    (figureLevels fig n).AtMost
        (recomputedSavings pm (usdToNano usd) (changedPool pm credits) (consumptionStates pm) unused) ↔
      SparedLevels pm (changedPool pm credits) (consumptionStates pm) unused := by
  rw [realizeSeatChange_shown h hn hd]
  exact seatSavings_atMost_iff (consumptionStates_ordered pm) hu

/-! ### A seat that is added -/

theorem sharedCells_valid :
    (dayFields "enterprise" "2026-10-05" (.ofInt 1900)).check = none ∧ (dayFields "cc:A" "2026-10-05" 0).check = none := by
  decide

def sharedInputs : PoolInputs where
  cells := [⟨_, sharedCells_valid.1⟩, ⟨_, sharedCells_valid.2⟩]
  today := "2026-12-01"
  capped := [("A", .ofInt 500)]
  plans := [{ entityId := "enterprise", month := "2026-10", source := .orgSettings, seats := [(some .business, 1)] }]
  layers := fun _ source => if source = .licenses then [("enterprise", [(some .business, .ofInt 1)])] else []

def sharedUnused : Levels := ⟨5000000000, 5000000000, 5000000000⟩

def addedSeat (pm : PoolMonth) : Option Int × Int :=
  let reported := match realizeSeatChange packagedFacts pm [("business", 1)] [] with
    | .ok (some f) => f.nano
    | _ => none
  (reported, (recomputedSavings pm (usdToNano (.ofInt 19)) (changedPool pm (.ofInt 1900)) (consumptionStates pm)
    sharedUnused).point)

def notesUnused (pm : PoolMonth) : Bool := pm.notes.any fun note =>
  "shared pool: unused caps of capped cost centers (500 credits at the point)".toList.isPrefixOf note.toList

/-- The months of the two, with the seat added and with one removed. -/
theorem shared_run :
    (poolMonths packagedFacts sharedInputs).toOption.map (List.map fun pm => (notesUnused pm, addedSeat pm)) =
      some [(false, some (-19000000000), -19000000000), (true, some (-14000000000), -19000000000)] ∧
    (poolMonths packagedFacts sharedInputs).toOption.map (List.map fun pm => (pm.poolNano,
      ((realizeSeatChange packagedFacts pm [("business", -1)] []).toOption.bind fun f => f.bind (·.nano)).isSome,
      (seatDelta packagedFacts pm [("business", -1)] []).toOption)) =
      some [(5000000000, true, some (.ofInt (-19), .ofInt (-1900))),
        (14000000000, true, some (.ofInt (-19), .ofInt (-1900)))] := by
  decide +kernel

/-- The enterprise, the second of the two, has no overage with or without the seat, which costs $19; the saving
that is reported is -$14. -/
theorem added_seat_credited : (poolMonths packagedFacts sharedInputs).toOption.map (List.map fun pm =>
    (notesUnused pm, addedSeat pm)) =
      some [(false, some (-19000000000), -19000000000), (true, some (-14000000000), -19000000000)] :=
  shared_run.1

/-- The seat removed again. -/
theorem removed_seat_covered : ∃ pm fig n, realizeSeatChange packagedFacts pm [("business", -1)] [] = .ok (some fig) ∧
    fig.nano = some n ∧ pm.poolNano = 14000000000 ∧ ((figureLevels fig n).AtMost
      (recomputedSavings pm (usdToNano (.ofInt (-19))) (changedPool pm (.ofInt (-1900))) (consumptionStates pm)
        sharedUnused) ↔ SparedLevels pm (changedPool pm (.ofInt (-1900))) (consumptionStates pm) sharedUnused) := by
  obtain ⟨months, -, hparts⟩ := Option.map_eq_some_iff.mp shared_run.2
  obtain ⟨cc, rest, rfl, -, hrest⟩ := List.map_eq_cons_iff.mp hparts
  obtain ⟨pm, rfl, hpm⟩ := List.map_eq_singleton_iff.mp hrest
  obtain ⟨hpool, hpriced⟩ := Prod.mk.inj hpm
  obtain ⟨hpriced, hdelta⟩ := Prod.mk.inj hpriced
  obtain ⟨n, hn⟩ := Option.isSome_iff_exists.mp hpriced
  obtain ⟨f, hf, hbind⟩ := Option.bind_eq_some_iff.mp hn
  obtain ⟨fig, rfl, hfig⟩ := Option.bind_eq_some_iff.mp hbind
  exact ⟨pm, fig, n, toOption_eq_some.mp hf, hfig, hpool, seat_change_covered (toOption_eq_some.mp hf) hfig
    (toOption_eq_some.mp hdelta) ⟨by decide, le_rfl, le_rfl⟩⟩

end TokenBill.Pool
