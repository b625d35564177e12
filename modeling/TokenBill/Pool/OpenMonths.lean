import TokenBill.Pool.PoolMonthsSpec

/-!
# The forecast of an open month and its report

The forecast counts the days up to the report lag as observed and rounds the credits of each day to
nano-USD, so its low end is not below the sum of these. The report counts every cell of the month and
rounds once: a cell after the lag, or the rounding of the days, can put it above the forecast.
-/

namespace TokenBill.Pool

open General List

/-! ### Dates of a month -/

theorem mem_month {text month what : String} {day first last : Int} (hm : monthBounds month what = .ok (first, last))
    (hd : Verify.parseDate text = some day) (h7 : takeText 7 text = month) : first ≤ day ∧ day ≤ last := by
  unfold Verify.parseDate at hd
  split at hd
  swap
  · cases hd
  rename_i y1 y2 y3 y4 m1 m2 d1 d2 htext
  split at hd
  swap
  · cases hd
  rename_i hdigits
  dsimp only at hd
  split at hd
  swap
  · cases hd
  rename_i hvalid
  obtain rfl := Option.some.inj hd
  have hmonth : month.toList = [y1, y2, y3, y4, '-', m1, m2] := by
    rw [← h7, takeText, htext, String.toList_ofList]
    rfl
  have hplain : [y1, y2, y3, y4].map asciiDigit = [y1, y2, y3, y4] := by
    refine (map_congr_left fun c hc => ?_).trans (map_id _)
    exact (plain_digit (all_eq_true.mp hdigits c (mem_append_left [m1, m2, d1, d2] hc))).2.2
  unfold monthBounds at hm
  split at hm
  swap
  · cases hm
  rw [hmonth] at hm
  simp only [List.take, List.drop, hplain] at hm
  split at hm
  · cases hm
  obtain ⟨rfl, rfl⟩ := Prod.mk.inj (Except.ok.inj hm)
  unfold Verify.dayNumber
  have h1 := hvalid.2.2.2.1
  have h2 := hvalid.2.2.2.2
  omega

/-! ### What is reported -/

theorem creditsToNano_nonneg {d : Decimal} (h : 0 ≤ d) : 0 ≤ creditsToNano d := by
  have hmant : 0 ≤ d.mant := by
    by_contra hneg
    have hq := Decimal.le_iff.mp h
    rw [Decimal.toRat_zero] at hq
    exact absurd hq (not_le.mpr (div_neg_of_neg_of_pos (by exact_mod_cast not_le.mp hneg) (by positivity)))
  refine le_divHalfEven (by positivity) ?_
  rw [zero_mul]
  positivity

theorem mem_dailySeries {pooled : List Cell} {e : String × Int} (h : e ∈ dailySeries pooled) :
    (∃ c ∈ pooled, c.dateUtc.getD "" = e.1) ∧ ((∀ c ∈ pooled, 0 ≤ c.credits) → 0 ≤ e.2) := by
  obtain ⟨⟨date, credits⟩, hmem, rfl⟩ := mem_map.mp h
  have hamount := mem_tally.mp ((mem_insertionSort _).mp hmem)
  unfold amountOf at hamount
  split at hamount
  · rename_i hkey
    obtain ⟨⟨date', amount⟩, hin, rfl⟩ := mem_map.mp hkey
    obtain ⟨c, hc, hpair⟩ := mem_map.mp hin
    refine ⟨⟨c, hc, (Prod.mk.inj hpair).1⟩, fun hnonneg => creditsToNano_nonneg ?_⟩
    rw [← Option.some.inj hamount]
    refine sum_nonneg fun d hd => ?_
    obtain ⟨f, hf, rfl⟩ := mem_map.mp hd
    obtain ⟨c', hc', rfl⟩ := mem_map.mp (mem_filter.mp hf).1
    exact hnonneg c' hc'
  · cases hamount

/-- What the pooled cells report for the days up to a day, each day rounded to nano-USD. -/
def reportedUntil (cells : List Cell) (day : Int) : Int :=
  (((dailySeries (pooledCells cells)).filter fun e => (Verify.parseDate e.1).any (· ≤ day)).map (·.2)).sum

theorem takeText_date {c : Cell} {d : String} (hd : c.dateUtc = some d) : takeText 7 d = c.month := by
  have hvalid := c.valid
  unfold CellFields.check at hvalid
  rw [hd] at hvalid
  split at hvalid
  · cases hvalid
  split at hvalid
  · cases hvalid
  · rename_i hok
    have hboth : isDateText d = true ∧ takeText 7 d = c.month := by simpa using hok
    exact hboth.2

/-- The rows of a forecast of cells of a month lie in it. -/
theorem mem_rows {cells : List Cell} {month today : String} {lag first last cutoff : Int} {rows : List (Int × Int)}
    (h : Reads (dailySeries (pooledCells cells)) month today lag first last cutoff rows)
    (hgrain : monthGrain cells = false) (hmonth : ∀ c ∈ cells, c.month = month) :
    List.Forall₂ (fun e r => Verify.parseDate e.1 = some r.1 ∧ r.2 = e.2 ∧ first ≤ r.1 ∧ r.1 ≤ last)
      (dailySeries (pooledCells cells)) rows := by
  refine forall₂_imp_of_mem (mapM_eq_ok.mp h.rows_eq) fun e he r _ hr => ?_
  obtain ⟨day, hday, hpure⟩ := bind_eq_ok.mp hr
  obtain rfl := pure_eq_ok.mp hpure
  have hparse : Verify.parseDate e.1 = some day := by
    unfold parseDate at hday
    split at hday
    · split at hday
      · rename_i d hd
        rw [hd, Except.ok.inj hday]
      · cases hday
    · cases hday
  obtain ⟨⟨c, hc, hdate⟩, -⟩ := mem_dailySeries he
  have hc' : c ∈ cells := (mem_filter.mp hc).1
  have hseven : takeText 7 e.1 = month := by
    have hsome : ¬c.dateUtc.isNone := any_eq_false.mp hgrain c hc'
    obtain ⟨d, hd⟩ := Option.ne_none_iff_exists'.mp fun hnone => hsome (Option.isNone_iff_eq_none.mpr hnone)
    rw [← hdate, hd, ← hmonth c hc']
    exact takeText_date hd
  exact ⟨hparse, rfl, mem_month h.bounds hparse hseven⟩

theorem observed_eq_reported {cells : List Cell} {month today : String} {lag first last cutoff : Int}
    {rows : List (Int × Int)} {f : Forecast} (h : Reads (dailySeries (pooledCells cells)) month today lag first last cutoff rows)
    (hs : Sound (monthAmount rows first last) first last cutoff f) (hgrain : monthGrain cells = false)
    (hmonth : ∀ c ∈ cells, c.month = month) : f.observed = reportedUntil cells cutoff := by
  rw [observed_eq hs, reportedUntil]
  have hrows := mem_rows h hgrain hmonth
  clear hs h
  generalize dailySeries (pooledCells cells) = series at hrows
  induction hrows with
  | nil => rfl
  | @cons e r series rows hr _ ih =>
    obtain ⟨hday, hamount, h1, h2⟩ := hr
    rw [filter_cons, filter_cons, hday]
    by_cases hcut : r.1 ≤ cutoff
    · rw [if_pos (by simp [h1, h2, hcut]), if_pos (by simp [hcut]), map_cons, map_cons, sum_cons,
        sum_cons, ih, hamount]
    · rw [if_neg (by simp [h1, h2, hcut]), if_neg (by simp [hcut]), ih]

/-! ### The forecast and the report -/

variable {facts : Facts} {inp : PoolInputs} {months : List PoolMonth}

/-- The forecast of an open month is at its low end, and so at its point, not below what the days up to the
report lag report, each of them rounded to nano-USD. -/
theorem forecast_covers_reported (h : poolMonths facts inp = .ok months) (hcells : ∀ c ∈ inp.cells, 0 ≤ c.credits)
    {pm : PoolMonth} (hpm : pm ∈ months) {f : Figure} (hf : pm.forecast = some f) :
    ∃ today low point, parseDate inp.today "today" = .ok today ∧ f.lowNano = some low ∧ f.nano = some point ∧
      reportedUntil (cellsOfKey inp.cells (pm.entityId, pm.month)) (today - facts.reportLagDays) ≤ low ∧
      low ≤ point := by
  obtain ⟨todayDay, evidence, commons, r⟩ := ran_of_poolMonths h
  obtain ⟨c, hc, seats, source, scenario, allowance, -, -, hm⟩ := r.months pm hpm
  have hfig := hm.forecast
  rw [hf] at hfig
  obtain ⟨fc, -, hfc, hpoint, hlow, -⟩ := forecastFigure_eq_some hfig
  obtain ⟨estimates, hcommon⟩ := r.common c hc
  obtain ⟨-, hgrain, hforecast⟩ := (common_eq hcommon).2.2 fc hfc
  obtain ⟨first, last, cutoff, rows, hreads, hs⟩ := forecast_sound hforecast
  have hcutoff : todayDay = cutoff + facts.reportLagDays := Except.ok.inj (r.today.symm.trans hreads.today_eq)
  have hmonth : ∀ cell ∈ cellsOfKey inp.cells c.1, cell.month = c.1.2 := fun cell hcell =>
    congrArg Prod.snd (of_decide_eq_true (mem_filter.mp hcell).2)
  have hkey : (pm.entityId, pm.month) = c.1 := Prod.ext hm.entityId hm.month
  have hnonneg : ∀ e ∈ dailySeries (pooledCells (cellsOfKey inp.cells c.1)), 0 ≤ e.2 := fun e he =>
    (mem_dailySeries he).2 fun cell hcell =>
      hcells cell (mem_filter.mp (mem_filter.mp hcell).1).1
  refine ⟨todayDay, fc.low, fc.point, r.today, hlow, hpoint, ?_, hs.ordered.low_le⟩
  rw [hkey, show todayDay - facts.reportLagDays = cutoff by omega,
    ← observed_eq_reported hreads hs hgrain hmonth]
  exact hs.observed_le (monthAmount_nonneg (nonneg_of_readDaily hreads.rows_eq hnonneg) first last)

def shownForecasts (months : List PoolMonth) : List (Int × Option (Option Int × Option Int)) :=
  months.map fun pm => (pm.consumedReportNano, pm.forecast.map fun f => (f.lowNano, f.nano))

theorem lateCells_valid :
    (dayFields "enterprise" "2026-10-05" (.ofInt 1)).check = none ∧ (dayFields "enterprise" "2026-10-09" (.ofInt 2)).check = none := by
  decide +kernel

def lateInputs : PoolInputs where
  cells := [⟨_, lateCells_valid.1⟩, ⟨_, lateCells_valid.2⟩]
  today := "2026-10-10"

theorem tinyCells_valid :
    (dayFields "enterprise" "2026-10-05" (.ofScaled 5 8)).check = none ∧
      (dayFields "enterprise" "2026-10-06" (.ofScaled 5 8)).check = none := by
  decide

def tinyInputs : PoolInputs where
  cells := [⟨_, tinyCells_valid.1⟩, ⟨_, tinyCells_valid.2⟩]
  today := "2026-10-12"

/-- The two credits of the 9th are reported and not forecast; of the two halves the report makes one nano-USD
and the forecast none. -/
theorem forecast_below_report :
    (poolMonths packagedFacts lateInputs).toOption.map shownForecasts =
        some [(30000000, some (some 10000000, some 10000000))] ∧
      (poolMonths packagedFacts tinyInputs).toOption.map shownForecasts = some [(1, some (some 0, some 0))] :=
  ⟨by decide +kernel, by decide +kernel⟩

/-- What is reported of the 5th is forecast. -/
theorem forecast_covers_fifth : ∃ months pm f, poolMonths packagedFacts lateInputs = .ok months ∧ pm ∈ months ∧
    pm.forecast = some f ∧ ∃ today low point, parseDate lateInputs.today "today" = .ok today ∧
      f.lowNano = some low ∧ f.nano = some point ∧
      reportedUntil (cellsOfKey lateInputs.cells (pm.entityId, pm.month)) (today - packagedFacts.reportLagDays) ≤ low ∧
      low ≤ point := by
  have hrun : (poolMonths packagedFacts lateInputs).toOption.map (·.map (·.forecast.isSome)) = some [true] := by
    decide +kernel
  have hcells : ∀ c ∈ lateInputs.cells, 0 ≤ c.credits := by decide +kernel
  obtain ⟨months, hmonths, hsome⟩ := Option.map_eq_some_iff.mp hrun
  obtain ⟨pm, rfl, hpm⟩ := map_eq_singleton_iff.mp hsome
  obtain ⟨f, hf⟩ := Option.isSome_iff_exists.mp hpm
  have hok := toOption_eq_some.mp hmonths
  exact ⟨[pm], pm, f, hok, mem_singleton_self pm, hf,
    forecast_covers_reported hok hcells (mem_singleton_self pm) hf⟩

end TokenBill.Pool
