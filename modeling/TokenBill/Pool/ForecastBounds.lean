import TokenBill.Pool.Forecast
import Mathlib.Data.List.Perm.Lattice
import Mathlib.Algebra.Order.BigOperators.Group.List

/-!
# The bounds of the forecast

A forecast adds ordered levels to what is observed, one for each remaining day, so its ends are in
order; the samples it takes its percentiles from are never empty, since a class of days without a
value takes the other one's.
-/

namespace TokenBill.Pool

open General List

section Month

variable {byDay : Int → Int} {first last cutoff : Int}

/-! ### The samples -/

theorem lastOf_eq_nil {α : Type} {n : Nat} (hn : 0 < n) {xs : List α} : lastOf n xs = [] ↔ xs = [] := by
  unfold lastOf
  rw [drop_eq_nil_iff, ← length_eq_zero_iff]
  omega

variable {business : Bool} {observed : List Int}

theorem sample_eq_nil : sample byDay observed business = [] ↔ ∀ d ∈ observed, isBusiness d ≠ business := by
  unfold sample
  rw [lastOf_eq_nil (by split <;> decide), map_eq_nil_iff, filter_eq_nil_iff]
  simp

theorem mem_sample {v : Int} (h : v ∈ sample byDay observed business) : ∃ d ∈ observed, byDay d = v := by
  obtain ⟨d, hd, hv⟩ := mem_map.mp (mem_of_mem_drop h)
  exact ⟨d, (mem_filter.mp hd).1, hv⟩

/-- A class without a value takes the values of the other class. -/
theorem orList_sample_ne_nil (byDay : Int → Int) (h : observed ≠ []) (business : Bool) :
    orList (sample byDay observed business) (sample byDay observed !business) ≠ [] := by
  unfold orList
  split
  · rename_i hempty
    obtain ⟨d, hd⟩ := exists_mem_of_ne_nil _ h
    have hclass := sample_eq_nil.mp (List.isEmpty_iff.mp hempty) d hd
    rw [ne_eq, sample_eq_nil]
    intro hother
    have := hother d hd
    revert hclass this
    cases isBusiness d <;> cases business <;> decide
  · rename_i hempty
    exact fun hnil => hempty (List.isEmpty_iff.mpr hnil)

theorem mem_orList_sample {v : Int}
    (h : v ∈ orList (sample byDay observed business) (sample byDay observed !business)) :
    ∃ d ∈ observed, byDay d = v := by
  unfold orList at h
  split at h <;> exact mem_sample h

/-! ### The forecast of a month -/

/-- What a forecast of a month says. -/
structure Sound (byDay : Int → Int) (first last cutoff : Int) (f : Forecast) : Prop where
  ordered : f.Ordered
  observed_eq : f.observed = (((daysOf first last).filter (· ≤ cutoff)).map byDay).sum
  observed_le : (∀ day, 0 ≤ byDay day) → f.observed ≤ f.low
  settled : last ≤ cutoff → f.toLevels = ⟨f.observed, f.observed, f.observed⟩

theorem forecastOf_sound (byDay : Int → Int) (first last cutoff : Int) :
    ∃ r, forecastOf byDay first last cutoff = .ok r ∧ ∀ f ∈ r, Sound byDay first last cutoff f := by
  unfold forecastOf
  dsimp only
  generalize hobs : (daysOf first last).filter (· ≤ cutoff) = observed
  split
  · exact ⟨none, rfl, by simp⟩
  rename_i hne
  obtain ⟨b, hb, hbo, hbm⟩ := stats_eq (orList_sample_ne_nil byDay hne true)
  obtain ⟨w, hw, hwo, hwm⟩ := stats_eq (orList_sample_ne_nil byDay hne false)
  rw [Bool.not_true] at hb
  rw [Bool.not_false] at hw
  rw [hb, hw]
  refine ⟨_, rfl, ?_⟩
  intro f hf
  obtain rfl := Option.some.inj hf
  generalize hrem : ((daysOf first last).filter (cutoff < ·)).map (fun d => if isBusiness d then b else w) = adds
  have hadds : ∀ l ∈ adds, l = b ∨ l = w := by
    intro l hl
    rw [← hrem] at hl
    obtain ⟨d, -, rfl⟩ := mem_map.mp hl
    split
    · exact .inl rfl
    · exact .inr rfl
  constructor
  · have hadd : (adds.foldl (· + ·) 0).Ordered := by
      refine Levels.Ordered.foldl ⟨le_refl _, le_refl _⟩ fun l hl => ?_
      rcases hadds l hl with rfl | rfl
      · exact hbo
      · exact hwo
    exact ⟨Int.add_le_add_left hadd.low_le _, Int.add_le_add_left hadd.le_high _⟩
  · rw [hobs]
  · intro hnonneg
    have hlow : 0 ≤ (adds.foldl (· + ·) 0).low := by
      refine Levels.low_foldl (le_refl _) fun l hl => ?_
      rcases hadds l hl with rfl | rfl
      · obtain ⟨d, -, hd⟩ := mem_orList_sample hbm
        exact hd ▸ hnonneg d
      · obtain ⟨d, -, hd⟩ := mem_orList_sample hwm
        exact hd ▸ hnonneg d
    exact Int.le_add_of_nonneg_right hlow
  · intro hlast
    have hnone : (daysOf first last).filter (cutoff < ·) = [] := by
      rw [filter_eq_nil_iff]
      intro d hd
      have := (mem_daysOf.mp hd).2
      simp only [decide_eq_true_eq]
      omega
    rw [hnone] at hrem
    subst hrem
    show (⟨_ + 0, _ + 0, _ + 0⟩ : Levels) = _
    simp only [add_zero]

end Month

/-! ### The rows of a series -/

variable {rows : List (Int × Int)}

theorem amountOn_perm {rows' : List (Int × Int)} (h : rows'.Perm rows) : amountOn rows' = amountOn rows := by
  funext day
  exact ((h.filter _).map _).sum_eq

theorem readDaily_perm {daily daily' : List (String × Int)} (h : daily'.Perm daily)
    (hr : readDaily daily = .ok rows) : ∃ rows', readDaily daily' = .ok rows' ∧ rows'.Perm rows := by
  obtain ⟨rows', hrows, hperm⟩ := perm_comp_forall₂ h (mapM_eq_ok.mp hr)
  exact ⟨rows', mapM_eq_ok.mpr hrows, hperm⟩

/-- The amounts that are read are those of the series. -/
theorem nonneg_of_readDaily {daily : List (String × Int)}
    (hr : readDaily daily = .ok rows) (h : ∀ r ∈ daily, 0 ≤ r.2) : ∀ r ∈ rows, 0 ≤ r.2 := by
  intro r hmem
  obtain ⟨s, hs, hsr⟩ := exists_of_mem_right (mapM_eq_ok.mp hr) hmem
  obtain ⟨day, -, hday⟩ := bind_eq_ok.mp hsr
  obtain rfl := pure_eq_ok.mp hday
  exact h s hs

theorem amountOn_nonneg (h : ∀ r ∈ rows, 0 ≤ r.2) (day : Int) : 0 ≤ amountOn rows day := by
  refine sum_nonneg fun v hv => ?_
  obtain ⟨r, hr, rfl⟩ := mem_map.mp hv
  exact h r (mem_filter.mp hr).1

theorem sum_amountOn {days : List Int} (hdays : days.Nodup) (rows : List (Int × Int)) :
    (days.map (amountOn rows)).sum = ((rows.filter fun r => r.1 ∈ days).map (·.2)).sum := by
  induction rows with
  | nil =>
    have hnil : amountOn [] = fun _ => 0 := rfl
    rw [hnil, sum_map_zero]
    rfl
  | cons r rows ih =>
    have hsplit : amountOn (r :: rows) = fun day => (if day = r.1 then r.2 else 0) + amountOn rows day := by
      funext day
      unfold amountOn
      rw [filter_cons]
      by_cases hday : day = r.1
      · rw [if_pos hday, if_pos (decide_eq_true hday.symm), map_cons, sum_cons]
      · rw [if_neg hday, if_neg (by simpa using Ne.symm hday), zero_add]
    have hone : (days.map fun day => if day = r.1 then r.2 else 0).sum = if r.1 ∈ days then r.2 else 0 := by
      rw [sum_map_ite_eq, sum_map_zero, sub_zero, add_zero, nsmul_eq_mul]
      by_cases hr : r.1 ∈ days
      · rw [count_eq_one_of_mem hdays hr, if_pos hr, Nat.cast_one, one_mul]
      · rw [count_eq_zero_of_not_mem hr, if_neg hr, Nat.cast_zero, zero_mul]
    rw [hsplit, sum_map_add, hone, ih, filter_cons]
    by_cases hr : r.1 ∈ days
    · rw [if_pos hr, if_pos (decide_eq_true hr), map_cons, sum_cons]
    · rw [if_neg hr, if_neg (by simpa using hr), zero_add]

/-! ### The forecast of a series -/

/-- What a forecast reads: the month, the last day that is observed, and the rows. -/
structure Reads (daily : List (String × Int)) (month today : String) (lagDays first last cutoff : Int)
    (rows : List (Int × Int)) : Prop where
  bounds : monthBounds month "month" = .ok (first, last)
  today_eq : parseDate today "today" = .ok (cutoff + lagDays)
  lag_nonneg : 0 ≤ lagDays
  early : firstDate ≤ cutoff
  rows_eq : readDaily daily = .ok rows

def monthAmount (rows : List (Int × Int)) (first last : Int) : Int → Int :=
  amountOn (rows.filter fun r => first ≤ r.1 ∧ r.1 ≤ last)

theorem monthAmount_nonneg (h : ∀ r ∈ rows, 0 ≤ r.2) (first last day : Int) : 0 ≤ monthAmount rows first last day :=
  amountOn_nonneg (fun r hr => h r (mem_filter.mp hr).1) day

variable {daily : List (String × Int)} {month today : String} {lagDays : Int}

theorem forecast_of_reads {first last cutoff : Int} (h : Reads daily month today lagDays first last cutoff rows) :
    forecast daily month today lagDays = forecastOf (monthAmount rows first last) first last cutoff := by
  have hlag : checkLag lagDays = .ok lagDays := by rw [checkLag, if_neg (by have := h.lag_nonneg; omega)]
  have hcut : daysBefore (cutoff + lagDays) lagDays = .ok cutoff := by
    rw [daysBefore, Int.add_sub_cancel, if_neg (by have := h.early; omega)]
  simp only [forecast, h.bounds, h.today_eq, h.rows_eq, hlag, hcut, bind, Except.bind]
  rfl

/-- A value, or a `UsageError`. -/
def Answers {α : Type} (x : Except Stop α) : Prop := (∃ a, x = .ok a) ∨ ∃ msg, x = usage msg

theorem answers_monthBounds (month what : String) : Answers (monthBounds month what) := by
  unfold monthBounds
  split
  · dsimp only
    split
    · exact .inr ⟨_, rfl⟩
    · exact .inl ⟨_, rfl⟩
  · exact .inr ⟨_, rfl⟩

theorem answers_parseDate (value what : String) : Answers (parseDate value what) := by
  unfold parseDate
  split
  · split
    · exact .inl ⟨_, rfl⟩
    · exact .inr ⟨_, rfl⟩
  · exact .inr ⟨_, rfl⟩

theorem answers_readDaily (daily : List (String × Int)) : Answers (readDaily daily) := by
  induction daily with
  | nil => exact .inl ⟨[], rfl⟩
  | cons r daily ih =>
    unfold readDaily at ih ⊢
    rw [mapM_cons]
    rcases answers_parseDate r.1 "daily date" with ⟨d, hd⟩ | ⟨msg, hd⟩
    · rw [hd]
      rcases ih with ⟨rows, hrows⟩ | ⟨msg, hrows⟩
      · rw [hrows]
        exact .inl ⟨_, rfl⟩
      · rw [hrows]
        exact .inr ⟨msg, rfl⟩
    · rw [hd]
      exact .inr ⟨msg, rfl⟩

theorem reads_or_refuses (daily : List (String × Int)) (month today : String) (lagDays : Int) :
    (∃ first last cutoff rows, Reads daily month today lagDays first last cutoff rows) ∨
      ∃ msg, forecast daily month today lagDays = usage msg := by
  unfold forecast
  rcases answers_monthBounds month "month" with ⟨⟨first, last⟩, hm⟩ | ⟨msg, hm⟩
  swap
  · rw [hm]
    exact .inr ⟨msg, rfl⟩
  rcases answers_parseDate today "today" with ⟨t, ht⟩ | ⟨msg, ht⟩
  swap
  · rw [hm, ht]
    exact .inr ⟨msg, rfl⟩
  by_cases hlag : lagDays < 0
  · rw [hm, ht, checkLag, if_pos hlag]
    exact .inr ⟨_, rfl⟩
  by_cases hearly : t - lagDays < firstDate
  · rw [hm, ht, checkLag, if_neg hlag]
    refine .inr ⟨"today: too early for the report lag", ?_⟩
    show (daysBefore t lagDays >>= _) = _
    rw [daysBefore, if_pos hearly]
    rfl
  rcases answers_readDaily daily with ⟨rows, hr⟩ | ⟨msg, hr⟩
  · exact .inl ⟨first, last, t - lagDays, rows, hm, by rw [ht, Int.sub_add_cancel], by omega, by omega, hr⟩
  · rw [hm, ht, checkLag, if_neg hlag]
    refine .inr ⟨msg, ?_⟩
    show (daysBefore t lagDays >>= _) = _
    rw [daysBefore, if_neg hearly]
    rw [hr]
    rfl

theorem observed_eq {first last cutoff : Int} {f : Forecast}
    (h : Sound (monthAmount rows first last) first last cutoff f) :
    f.observed = ((rows.filter fun r => first ≤ r.1 ∧ r.1 ≤ last ∧ r.1 ≤ cutoff).map (·.2)).sum := by
  rw [h.observed_eq, monthAmount, sum_amountOn ((nodup_daysOf first last).filter _), filter_filter]
  congr 2
  refine filter_congr fun r _ => ?_
  simp only [mem_filter, mem_daysOf, decide_eq_true_eq, ← Bool.decide_and]
  congr 1
  exact propext ⟨by tauto, by tauto⟩

theorem forecast_sound {f : Forecast} (h : forecast daily month today lagDays = .ok (some f)) :
    ∃ first last cutoff rows, Reads daily month today lagDays first last cutoff rows ∧
      Sound (monthAmount rows first last) first last cutoff f := by
  rcases reads_or_refuses daily month today lagDays with ⟨first, last, cutoff, rows, hr⟩ | ⟨msg, hr⟩
  · obtain ⟨r, hres, hsound⟩ := forecastOf_sound (monthAmount rows first last) first last cutoff
    rw [forecast_of_reads hr, hres] at h
    exact ⟨first, last, cutoff, rows, hr, hsound f (Except.ok.inj h)⟩
  · rw [hr] at h
    cases h

end TokenBill.Pool
