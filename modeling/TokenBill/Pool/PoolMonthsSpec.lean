import TokenBill.Pool.ForecastBounds
import TokenBill.Pool.PoolMonths

/-!
# What a pool month is

The pool month of an entity, a month and a scenario is determined by the plan-independent part, the
seats and the share in the caps; every field that the later results use is read off here, once.
-/

namespace TokenBill.Pool

open General List

/-! ### Figures -/

theorem figureRange_eq_ok {l : Levels} {basis : Basis} {note : String} {upper : Bool} {f : Figure}
    (h : figureRange l basis note upper = .ok f) :
    f.nano = some l.point ∧ f.lowNano = some l.low ∧ f.highNano = some l.high ∧ f.upperBound = upper := by
  have hf := FigureFields.build_eq_ok.mp (lift_eq_ok.mp h)
  rw [hf]
  exact ⟨rfl, rfl, rfl, rfl⟩

theorem figureRange_ok {l : Levels} (hl : l.Ordered) {basis : Basis} (hb : basis ≠ .invoice) (note : String)
    (upper : Bool) : ∃ f, figureRange l basis note upper = .ok f := by
  refine ⟨_, lift_eq_ok.mpr (FigureFields.build_of_check ?_)⟩
  have h1 := hl.low_le
  have h2 := hl.le_high
  have hrange : ¬l.high < l.low := by omega
  simp [FigureFields.check, FigureFields.checkRange, FigureFields.checkEvidence, hrange, h1, h2, hb]

/-! ### The fields of a pool month -/

/-- What the pool month of a scenario is, given the included credits of its seats. -/
structure IsMonth (facts : Facts) (i : EntityInputs) (seats : Seats) (source : SeatSource)
    (scenario : Option KnownPlan) (allowance : Decimal) (pm : PoolMonth) : Prop where
  credits : ∃ promo, poolCredits facts (scenarioSeats seats scenario) i.month i.eligible = .ok (allowance, promo)
  entityId : pm.entityId = i.entity
  month : pm.month = i.month
  seatsSource : pm.seatsSource = source
  policy : pm.cappedPolicy = i.policy
  planScenario : pm.planScenario = scenario
  finality : pm.finality = i.cm.finality
  consumed : pm.consumedReportNano = i.cm.consumed
  poolNano : pm.poolNano = creditsToNano (i.pool seats allowance)
  regime : i.regimeOf (i.cap.isSome || !seats.isEmpty) pm.poolNano (((i.share seats).map (·.unused)).getD 0) =
    .ok pm.regime
  observed : pm.overageObservedNano = if scenario.isNone || i.cap.isSome then i.cm.observedNet
    else max 0 (i.cm.consumed - (availOf pm.poolNano (((i.share seats).map (·.unused)).getD 0)).point)
  forecast : i.forecastFigure = .ok pm.forecast
  overage : i.overageFigure (i.cap.isSome || !seats.isEmpty)
    (availOf pm.poolNano (((i.share seats).map (·.unused)).getD 0)) source = .ok pm.overageForecast

variable {facts : Facts} {i : EntityInputs} {seats : Seats} {source : SeatSource} {scenario : Option KnownPlan}
  {pm : PoolMonth}

theorem isMonth_of_poolMonth (h : i.poolMonth facts seats source scenario = .ok pm) :
    ∃ allowance, IsMonth facts i seats source scenario allowance pm := by
  obtain ⟨⟨allowance, promo⟩, hcredits, h⟩ := bind_eq_ok.mp h
  obtain ⟨reg, hreg, h⟩ := bind_eq_ok.mp h
  obtain ⟨fcFig, hfc, h⟩ := bind_eq_ok.mp h
  obtain ⟨overFig, hover, h⟩ := bind_eq_ok.mp h
  obtain rfl := pure_eq_ok.mp h
  exact ⟨allowance, ⟨promo, hcredits⟩, rfl, rfl, rfl, rfl, rfl, rfl, rfl, rfl, hreg, rfl, hfc, hover⟩

theorem forecastFigure_eq_some {f : Figure} (h : i.forecastFigure = .ok (some f)) :
    ∃ fc, i.cm.finality = .opened ∧ i.cm.fc = some fc ∧ f.nano = some fc.point ∧ f.lowNano = some fc.low ∧
      f.highNano = some fc.high := by
  unfold EntityInputs.forecastFigure at h
  split at h
  · rename_i fc hopen hfc
    obtain ⟨g, hg, hsome⟩ := map_eq_ok.mp h
    obtain rfl := Option.some.inj hsome
    obtain ⟨h1, h2, h3, -⟩ := figureRange_eq_ok hg
    exact ⟨fc, hopen, hfc, h1, h2, h3⟩
  · cases h

/-! ### The plan-independent part -/

/-- The final pooled cell of an entity and a day, without money. -/
def dayFields (entity date : String) (credits : Decimal) : CellFields where
  month := takeText 7 date
  dateUtc := some date
  entityId := entity
  costType := .aiCreditUser
  credits := credits
  grossNano := 0
  discountNano := 0
  netNano := 0
  final := true

def monthGrain (cells : List Cell) : Bool := cells.any (·.dateUtc.isNone)

variable {lag todayDay : Int} {month today : String} {estimates : List ((String × String) × Int)} {inp : PoolInputs}

theorem openForecast_eq_some {finality : PoolFinality} {grain : Bool} {pooled : List Cell}
    {f : Forecast} (h : openForecast finality grain pooled month today lag = .ok (some f)) :
    finality = .opened ∧ grain = false ∧ forecast (dailySeries pooled) month today lag = .ok (some f) := by
  unfold openForecast at h
  split at h
  · rename_i hopen
    exact ⟨hopen.1, by simpa using hopen.2, h⟩
  · cases h

theorem common_eq {entity : String} {cells : List Cell} {cm : Common}
    (h : common entity month today cells todayDay lag estimates = .ok cm) :
    cm.consumed = creditsToNano ((pooledCells cells).map (·.credits)).sum ∧
      cm.observedNet = ((pooledCells cells).map (·.netNano)).sum ∧
      ∀ fc, cm.fc = some fc → cm.finality = .opened ∧ monthGrain cells = false ∧
        forecast (dailySeries (pooledCells cells)) month today lag = .ok (some fc) := by
  obtain ⟨⟨first, last⟩, -, h⟩ := bind_eq_ok.mp h
  obtain ⟨cutoff, -, h⟩ := bind_eq_ok.mp h
  obtain ⟨fc, hfc, h⟩ := bind_eq_ok.mp h
  obtain rfl := pure_eq_ok.mp h
  refine ⟨rfl, rfl, ?_⟩
  rintro f rfl
  exact openForecast_eq_some hfc

theorem levels_ordered {entity : String} {cells : List Cell} {cm : Common}
    (h : common entity month today cells todayDay lag estimates = .ok cm) : cm.levels.Ordered := by
  unfold Common.levels
  split
  · rename_i fc _ hfc
    obtain ⟨_, _, hforecast⟩ := (common_eq h).2.2 fc hfc
    obtain ⟨first, last, cutoff, rows, -, hs⟩ := forecast_sound hforecast
    exact hs.ordered
  · exact ⟨le_rfl, le_rfl⟩

/-! ### Shared caps -/

/-- The caps that are left unused at each level of the consumption: a higher one leaves no more. -/
structure Unused (l : Levels) : Prop where
  nonneg : 0 ≤ l.high
  high_le : l.high ≤ l.point
  le_low : l.point ≤ l.low

theorem Unused.zero : Unused 0 := ⟨le_rfl, le_rfl, le_rfl⟩

theorem Unused.add {a b : Levels} (ha : Unused a) (hb : Unused b) : Unused (a + b) :=
  ⟨Int.add_nonneg ha.nonneg hb.nonneg, Int.add_le_add ha.high_le hb.high_le, Int.add_le_add ha.le_low hb.le_low⟩

theorem unused_unusedOf (cap : Int) {use : Levels} (h : use.Ordered) : Unused (unusedOf cap use) :=
  ⟨le_max_left _ _, max_le_max_left 0 (Int.sub_le_sub_left h.le_high cap),
    max_le_max_left 0 (Int.sub_le_sub_left h.low_le cap)⟩

theorem Unused.foldl {ls : List Levels} {start : Levels} (h0 : Unused start) (h : ∀ l ∈ ls, Unused l) :
    Unused (ls.foldl (· + ·) start) := by
  induction ls generalizing start with
  | nil => exact h0
  | cons l ls ih =>
    exact ih (h0.add (h l mem_cons_self)) fun l' hl' => h l' (mem_cons_of_mem l hl')

theorem sharedOf_unused {ccs : List (String × Decimal × Levels)} {layers : Layers} {parent : Option Census}
    {share : Shared} (h : sharedOf ccs layers parent = some share) (hccs : ∀ cc ∈ ccs, cc.2.2.Ordered) :
    Unused share.unused := by
  unfold sharedOf at h
  split at h
  · obtain rfl := Option.some.inj h
    refine Unused.zero.foldl fun l hl => ?_
    obtain ⟨cc, hcc, rfl⟩ := mem_map.mp hl
    exact unused_unusedOf _ (hccs cc hcc)
  · cases h

/-! ### All pool months -/

/-- The plan-independent parts of a run are those of its cells. -/
def CommonsOf (facts : Facts) (inp : PoolInputs) (todayDay : Int) (commons : List ((String × String) × Common)) :
    Prop :=
  ∀ c ∈ commons, ∃ estimates, Pool.common c.1.1 c.1.2 inp.today (cellsOfKey inp.cells c.1) todayDay
    facts.reportLagDays estimates = .ok c.2

theorem commonsOf_spec {keys : List (String × String)} {commons : List ((String × String) × Common)}
    (h : commonsOf facts inp todayDay estimates keys = .ok commons) :
    commons.map (·.1) = keys ∧ CommonsOf facts inp todayDay commons := by
  have hall := mapM_eq_ok.mp h
  constructor
  · have hkeys := map_eq_of_forall₂ (f := id) (g := fun c : (String × String) × Common => c.1) (hall.imp fun key c hc => by
      obtain ⟨cm, -, hpure⟩ := bind_eq_ok.mp hc
      exact congrArg Prod.fst (pure_eq_ok.mp hpure))
    rw [map_id] at hkeys
    exact hkeys.symm
  · intro c hc
    obtain ⟨key, -, hkey⟩ := exists_of_mem_right hall hc
    obtain ⟨cm, hcm, hpure⟩ := bind_eq_ok.mp hkey
    obtain rfl := pure_eq_ok.mp hpure
    exact ⟨_, hcm⟩

/-- Where the pool months of a run come from. -/
structure Ran (facts : Facts) (inp : PoolInputs) (todayDay : Int) (evidence : List ((String × String) × PlanEvidence))
    (commons : List ((String × String) × Common)) (months : List PoolMonth) : Prop where
  today : parseDate inp.today "today" = .ok todayDay
  keys : commons.map (·.1) = poolKeys inp.cells evidence
  common : CommonsOf facts inp todayDay commons
  covers : ∀ c ∈ commons, ∃ pm ∈ months, ∃ seats source scenario allowance,
    IsMonth facts (entityInputs inp evidence commons c) seats source scenario allowance pm
  months : ∀ pm ∈ months, ∃ c ∈ commons, ∃ seats source scenario allowance,
    resolveSeats (evidence.lookup c.1) (census (inp.layers c.1.2) c.1.1) = .ok (seats, source) ∧
      (scenario.isSome ↔ 0 < (seats.lookup none).getD 0) ∧
      IsMonth facts (entityInputs inp evidence commons c) seats source scenario allowance pm

/-- What an entity shares of the caps is left unused. -/
theorem share_unused {commons : List ((String × String) × Common)}
    (hcommons : CommonsOf facts inp todayDay commons) (evidence : List ((String × String) × PlanEvidence))
    (c : (String × String) × Common) (seats : Seats) :
    Unused ((((entityInputs inp evidence commons c).share seats).map (·.unused)).getD 0) := by
  cases hshare : (entityInputs inp evidence commons c).share seats with
  | none => exact Unused.zero
  | some share =>
    have hshared : (entityInputs inp evidence commons c).shared = some share := (Option.filter_eq_some_iff.mp hshare).1
    unfold entityInputs at hshared
    split at hshared
    · refine sharedOf_unused hshared fun cc hcc => ?_
      obtain ⟨e, he, hmap⟩ := mem_filterMap.mp ((mem_insertionSort _).mp hcc)
      obtain ⟨cap, -, rfl⟩ := Option.map_eq_some_iff.mp hmap
      obtain ⟨estimates, hcommon⟩ := hcommons e (mem_filter.mp he).1
      exact levels_ordered hcommon
    · cases hshared

theorem mem_scenarios {unknown : Decimal} {scenario : Option KnownPlan}
    (h : scenario ∈ if 0 < unknown then [some KnownPlan.business, some .enterprise] else [none]) :
    scenario.isSome ↔ 0 < unknown := by
  split at h
  · rename_i hpos
    refine iff_of_true ?_ hpos
    rcases mem_cons.mp h with rfl | h
    · rfl
    · obtain rfl := mem_singleton.mp h
      rfl
  · rename_i hpos
    obtain rfl := mem_singleton.mp h
    exact iff_of_false (by decide) hpos

theorem ran_of_poolMonths {months : List PoolMonth} (h : poolMonths facts inp = .ok months) :
    ∃ todayDay evidence commons, Ran facts inp todayDay evidence commons months := by
  obtain ⟨todayDay, htoday, h⟩ := bind_eq_ok.mp h
  obtain ⟨evidence, -, h⟩ := bind_eq_ok.mp h
  obtain ⟨estimates, -, h⟩ := bind_eq_ok.mp h
  obtain ⟨commons, hcommons, h⟩ := bind_eq_ok.mp h
  obtain ⟨lists, hlists, h⟩ := bind_eq_ok.mp h
  obtain rfl := pure_eq_ok.mp h
  obtain ⟨hkeys, hspec⟩ := commonsOf_spec hcommons
  refine ⟨todayDay, evidence, commons, htoday, hkeys, hspec, fun c hc => ?_, fun pm hpm => ?_⟩
  · obtain ⟨l, hl, hcl⟩ := exists_of_mem_left (mapM_eq_ok.mp hlists) hc
    obtain ⟨⟨seats, source⟩, hseats, hcl⟩ := bind_eq_ok.mp hcl
    have hall := mapM_eq_ok.mp hcl
    obtain ⟨scenario, hscen⟩ : ∃ scenario, scenario ∈
        if 0 < (seats.lookup none).getD 0 then [some KnownPlan.business, some .enterprise] else [none] := by
      split
      · exact ⟨_, mem_cons_self⟩
      · exact ⟨_, mem_cons_self⟩
    obtain ⟨pm, hpm, hmonth⟩ := exists_of_mem_left hall hscen
    obtain ⟨allowance, hm⟩ := isMonth_of_poolMonth hmonth
    exact ⟨pm, mem_flatten.mpr ⟨l, hl, hpm⟩, seats, source, scenario, allowance, hm⟩
  · obtain ⟨l, hl, hpm⟩ := mem_flatten.mp hpm
    obtain ⟨c, hc, hcl⟩ := exists_of_mem_right (mapM_eq_ok.mp hlists) hl
    obtain ⟨⟨seats, source⟩, hseats, hcl⟩ := bind_eq_ok.mp hcl
    obtain ⟨scenario, hscen, hmonth⟩ := exists_of_mem_right (mapM_eq_ok.mp hcl) hpm
    obtain ⟨allowance, hm⟩ := isMonth_of_poolMonth hmonth
    exact ⟨c, hc, seats, source, scenario, allowance, hseats, mem_scenarios hscen, hm⟩

end TokenBill.Pool
