import TokenBill.General.Post
import TokenBill.Verify.Washout

/-!
# What the washout excludes

A stepped wedge excludes the washout of each cluster from the estimate, and from the quality bound as long as the
outcome data shows the adoption. A cluster trial cuts the estimate at the first adoption of all, and the quality bound
nowhere. A time series excludes nothing.
-/

namespace TokenBill.Washout

open General List

/-! ### Cluster-days -/

def Worked (panel : List Row) (day : ClusterDay) : Prop := ∃ r ∈ panel, r.day = day ∧ 0 < r.activeDevDays

/-- A cluster adopts on a date: on that of its first treated row. -/
def Adopts (panel : List Row) (cluster : String) (date : Int) : Prop :=
  (∃ r ∈ panel, r.clusterId = cluster ∧ r.treated = true ∧ r.dateUtc = date) ∧
    ∀ r ∈ panel, r.clusterId = cluster → r.treated = true → date ≤ r.dateUtc

/-- A cluster-day is within the washout days after the adoption of its cluster. -/
def Contaminated (panel : List Row) (washoutDays : Int) (day : ClusterDay) : Prop :=
  ∃ start, Adopts panel day.1 start ∧ start ≤ day.2 ∧ day.2 < start + washoutDays

variable {cluster : String} {panel : List Row} {first w preUntil : Int} {c : ClusterDay × Cell} {metric : Metric}
  {day : ClusterDay} {p : Place} {plan : Plan} {days bound taken : List ClusterDay}

theorem Adopts.unique {a b : Int} (ha : Adopts panel cluster a) (hb : Adopts panel cluster b) : a = b := by
  obtain ⟨⟨r, hr, hcluster, htreated, rfl⟩, hfirst⟩ := ha
  obtain ⟨⟨r', hr', hcluster', htreated', rfl⟩, hfirst'⟩ := hb
  exact Int.le_antisymm (hfirst r' hr' hcluster' htreated') (hfirst' r hr hcluster htreated)

/-- A part of a panel shows no adoption before the panel does. -/
theorem Adopts.le_of_subset {part : List Row} (hpart : part ⊆ panel) {a b : Int}
    (ha : Adopts panel cluster a) (hb : Adopts part cluster b) : a ≤ b := by
  obtain ⟨⟨r, hr, hcluster, htreated, rfl⟩, -⟩ := hb
  exact ha.2 r (hpart hr) hcluster htreated

theorem Adopts.first_le {start : Int} (h : Adopts panel cluster start)
    (hfirst : firstTreatedDate panel = some first) : first ≤ start := by
  obtain ⟨⟨r, hr, -, htreated, rfl⟩, -⟩ := h
  exact (min?_eq_some_iff.mp hfirst).2 _ (mem_map_of_mem (mem_filter.mpr ⟨hr, htreated⟩))

theorem exists_adopts {r : Row} (hr : r ∈ panel) (htreated : r.treated = true) :
    ∃ start, Adopts panel r.clusterId start := by
  cases hmin : ((panel.filter fun x => decide (x.clusterId = r.clusterId) && x.treated).map (·.dateUtc)).min? with
  | none =>
    have hempty := map_eq_nil_iff.mp (min?_eq_none_iff.mp hmin)
    have hmem : r ∈ panel.filter fun x => decide (x.clusterId = r.clusterId) && x.treated :=
      mem_filter.mpr ⟨hr, by simp [htreated]⟩
    rw [hempty] at hmem
    cases hmem
  | some start =>
    obtain ⟨hstart, hle⟩ := min?_eq_some_iff.mp hmin
    obtain ⟨x, hx, rfl⟩ := mem_map.mp hstart
    obtain ⟨hx, hkeep⟩ := mem_filter.mp hx
    obtain ⟨hcluster, hxtreated⟩ := Bool.and_eq_true_iff.mp hkeep
    refine ⟨x.dateUtc, ⟨x, hx, of_decide_eq_true hcluster, hxtreated, rfl⟩, fun y hy hycluster hytreated => ?_⟩
    exact hle _ (mem_map_of_mem (mem_filter.mpr ⟨hy, by simp [hycluster, hytreated]⟩))

/-! ### Cells -/

theorem mergeRow_run (rest : List Row) (cell : Cell) :
    (0 < (rest.foldl (fun held x => mergeRow (some held) x) cell).devDays ↔
        0 < cell.devDays ∨ ∃ r ∈ rest, 0 < r.activeDevDays) ∧
      ((rest.foldl (fun held x => mergeRow (some held) x) cell).treated = true ↔
        cell.treated = true ∨ ∃ r ∈ rest, r.treated = true) ∧
      ((rest.foldl (fun held x => mergeRow (some held) x) cell).prs.isSome = true ↔
        cell.prs.isSome = true ∨ ∃ r ∈ rest, r.outcomePrs.isSome = true) := by
  induction rest generalizing cell with
  | nil => simp
  | cons r rest ih =>
    obtain ⟨hdays, htreated, hprs⟩ := ih (mergeRow (some cell) r)
    rw [foldl_cons]
    refine ⟨hdays.trans ?_, htreated.trans ?_, hprs.trans ?_⟩
    · have hadd : 0 < (mergeRow (some cell) r).devDays ↔ 0 < cell.devDays ∨ 0 < r.activeDevDays := Nat.add_pos_iff_pos_or_pos
      rw [hadd, or_assoc, exists_mem_cons_iff]
    · have hor : (mergeRow (some cell) r).treated = true ↔ cell.treated = true ∨ r.treated = true := Bool.or_eq_true_iff
      rw [hor, or_assoc, exists_mem_cons_iff]
    · have hsome : (mergeRow (some cell) r).prs.isSome = true ↔ cell.prs.isSome = true ∨ r.outcomePrs.isSome = true := by
        unfold mergeRow
        cases r.outcomePrs <;> simp
      rw [hsome, or_assoc, exists_mem_cons_iff]

theorem mem_mergedRows_iff : c ∈ mergedRows panel ↔ c ∈ collect Row.day mergeRow panel :=
  (perm_insertionSort _ _).mem_iff

/-- A cell holds what the rows of its cluster-day hold together. -/
theorem mem_mergedRows (h : c ∈ mergedRows panel) :
    (0 < c.2.devDays ↔ Worked panel c.1) ∧
      (c.2.treated = true ↔ ∃ r ∈ panel, r.day = c.1 ∧ r.treated = true) ∧
      (c.2.prs.isSome = true ↔ ∃ r ∈ panel, r.day = c.1 ∧ r.outcomePrs.isSome = true) := by
  obtain ⟨x, rest, hrows, hcell⟩ := mem_collect (k := c.1) (s := c.2) (mem_mergedRows_iff.mp h)
  have hrun := mergeRow_run rest (mergeRow none x)
  rw [hcell] at hrun
  have hmem : ∀ P : Row → Prop, (∃ r ∈ panel, r.day = c.1 ∧ P r) ↔ P x ∨ ∃ r ∈ rest, P r := by
    intro P
    rw [← exists_mem_cons_iff (p := P), ← hrows]
    simp only [mem_filter, decide_eq_true_eq, and_assoc]
  exact ⟨hrun.1.trans (hmem fun r => 0 < r.activeDevDays).symm, hrun.2.1.trans (hmem fun r => r.treated = true).symm,
    hrun.2.2.trans (hmem fun r => r.outcomePrs.isSome = true).symm⟩

theorem exists_cell {panel : List Row} {r : Row} (h : r ∈ panel) : ∃ cell, (r.day, cell) ∈ mergedRows panel := by
  have hkey : r.day ∈ (collect Row.day mergeRow panel).map (·.1) := mem_keys_collect.mpr ⟨r, h, rfl⟩
  obtain ⟨⟨k, cell⟩, hmem, rfl⟩ := mem_map.mp hkey
  exact ⟨cell, mem_mergedRows_iff.mpr hmem⟩

theorem exists_row (h : c ∈ mergedRows panel) : ∃ r ∈ panel, r.day = c.1 :=
  mem_keys_collect.mp (mem_map_of_mem (mem_mergedRows_iff.mp h))

/-- A metric that every row of a panel has. -/
def Measures (panel : List Row) (metric : Metric) : Prop :=
  match metric with
  | .cost => True
  | .prs => ∀ r ∈ panel, r.outcomePrs.isSome = true

theorem measures_outcomeRows (panel : List Row) : Measures (outcomeRows panel) .prs :=
  fun _ hr => (mem_filter.mp hr).2

theorem outcomeRows_subset (panel : List Row) : outcomeRows panel ⊆ panel := filter_subset_self panel

/-- A cell has a value when its cluster-day has developer-days. -/
theorem value_isSome (hmetric : Measures panel metric)
    (h : c ∈ mergedRows panel) : (value c.2 metric).isSome = true ↔ Worked panel c.1 := by
  obtain ⟨hdays, -, hprs⟩ := mem_mergedRows h
  obtain ⟨r, hr, hday⟩ := exists_row h
  rw [← hdays]
  unfold value
  by_cases hzero : c.2.devDays = 0
  · simp [hzero]
  · rw [if_neg hzero]
    refine iff_of_true ?_ (Nat.pos_of_ne_zero hzero)
    cases metric with
    | cost => rfl
    | prs =>
      exact (Option.isSome_map ..).trans (hprs.mpr ⟨r, hr, hday, hmetric r hr⟩)

theorem worked_iff (hmetric : Measures panel metric) :
    Worked panel day ↔ ∃ cell, (day, cell) ∈ mergedRows panel ∧ (value cell metric).isSome = true := by
  constructor
  · intro hworked
    obtain ⟨r, hr, rfl, -⟩ := id hworked
    obtain ⟨cell, hcell⟩ := exists_cell hr
    exact ⟨cell, hcell, (value_isSome hmetric hcell).mpr hworked⟩
  · rintro ⟨cell, hcell, hvalue⟩
    exact (value_isSome hmetric hcell).mp hvalue

/-! ### Adoption dates -/

theorem startStep_run (cells : List (ClusterDay × Cell)) (held : Option (Option Int)) :
    match (cells.foldl (fun held c => some (startStep held c)) held).join with
    | some start => (held.join = some start ∨ ∃ c ∈ cells, c.2.treated = true ∧ c.1.2 = start) ∧
        (∀ prev, held.join = some prev → start ≤ prev) ∧ ∀ c ∈ cells, c.2.treated = true → start ≤ c.1.2
    | none => held.join = none ∧ ∀ c ∈ cells, c.2.treated = false := by
  induction cells generalizing held with
  | nil =>
    rw [foldl_nil]
    cases held.join with
    | none => simp
    | some start => simp
  | cons c cells ih =>
    have hrest := ih (some (startStep held c))
    rw [foldl_cons]
    cases hjoin : (cells.foldl (fun held c => some (startStep held c)) (some (startStep held c))).join with
    | none =>
      rw [hjoin] at hrest
      obtain ⟨hstep, hcells⟩ := hrest
      have hstep : startStep held c = none := hstep
      unfold startStep at hstep
      cases htreated : c.2.treated with
      | true =>
        rw [htreated, if_pos rfl] at hstep
        cases hheld : held.join <;> rw [hheld] at hstep <;> cases hstep
      | false =>
        rw [htreated, if_neg Bool.false_ne_true] at hstep
        refine ⟨?_, forall_mem_cons.mpr ⟨htreated, hcells⟩⟩
        cases held with
        | none => rfl
        | some h => exact hstep
    | some start =>
      rw [hjoin] at hrest
      obtain ⟨hfrom, hprev, hcells⟩ := hrest
      have hfrom : startStep held c = some start ∨ ∃ c ∈ cells, c.2.treated = true ∧ c.1.2 = start := hfrom
      have hprev : ∀ prev, startStep held c = some prev → start ≤ prev := hprev
      unfold startStep at hfrom hprev
      cases htreated : c.2.treated with
      | false =>
        rw [htreated, if_neg Bool.false_ne_true] at hfrom hprev
        have hheld : held.getD none = held.join := by cases held <;> rfl
        rw [hheld] at hfrom hprev
        refine ⟨?_, hprev, forall_mem_cons.mpr ⟨fun h => by simp [htreated] at h, hcells⟩⟩
        exact hfrom.imp_right fun ⟨c', hc', h⟩ => ⟨c', mem_cons_of_mem _ hc', h⟩
      | true =>
        rw [htreated, if_pos rfl] at hfrom hprev
        cases hheld : held.join with
        | none =>
          rw [hheld] at hfrom hprev
          refine ⟨Or.inr ?_, nofun, forall_mem_cons.mpr ⟨fun _ => hprev _ rfl, hcells⟩⟩
          obtain heq | ⟨c', hc', h⟩ := hfrom
          · exact ⟨c, mem_cons_self, htreated, Option.some.inj heq⟩
          · exact ⟨c', mem_cons_of_mem _ hc', h⟩
        | some prev =>
          rw [hheld] at hfrom hprev
          have hmin : start ≤ min prev c.1.2 := hprev _ rfl
          refine ⟨?_, ?_, forall_mem_cons.mpr ⟨fun _ => by omega, hcells⟩⟩
          · obtain heq | ⟨c', hc', h⟩ := hfrom
            · have heq : min prev c.1.2 = start := Option.some.inj heq
              by_cases hle : prev ≤ c.1.2
              · exact Or.inl (by rw [← heq, Int.min_eq_left hle])
              · exact Or.inr ⟨c, mem_cons_self, htreated, by omega⟩
            · exact Or.inr ⟨c', mem_cons_of_mem _ hc', h⟩
          · rintro _ ⟨⟩
            omega

theorem start_iff {start : Int} :
    ((clusterStarts (mergedRows panel)).lookup cluster).join = some start ↔ Adopts panel cluster start := by
  have htreated : ∀ r ∈ panel, r.clusterId = cluster → r.treated = true →
      ∃ c ∈ (mergedRows panel).filter (fun c => decide (c.1.1 = cluster)), c.2.treated = true ∧ c.1.2 = r.dateUtc := by
    intro r hr hcluster htreated
    obtain ⟨cell, hcell⟩ := exists_cell hr
    exact ⟨(r.day, cell), mem_filter.mpr ⟨hcell, decide_eq_true hcluster⟩,
      (mem_mergedRows hcell).2.1.mpr ⟨r, hr, rfl, htreated⟩, rfl⟩
  have hrow : ∀ c ∈ (mergedRows panel).filter (fun c => decide (c.1.1 = cluster)), c.2.treated = true →
      ∃ r ∈ panel, r.clusterId = cluster ∧ r.treated = true ∧ r.dateUtc = c.1.2 := by
    intro c hc hcell
    obtain ⟨hc, hcluster⟩ := mem_filter.mp hc
    obtain ⟨r, hr, hday, hr'⟩ := (mem_mergedRows hc).2.1.mp hcell
    have hcluster : c.1.1 = cluster := of_decide_eq_true hcluster
    rw [← hday] at hcluster ⊢
    exact ⟨r, hr, hcluster, hr', rfl⟩
  have hrun := startStep_run ((mergedRows panel).filter fun c => decide (c.1.1 = cluster)) none
  unfold clusterStarts
  rw [lookup_collect]
  cases hjoin : (((mergedRows panel).filter fun c => decide (c.1.1 = cluster)).foldl
      (fun held c => some (startStep held c)) none).join with
  | none =>
    rw [hjoin] at hrun
    refine iff_of_false (by simp) ?_
    rintro ⟨⟨r, hr, hcluster, htrue, -⟩, -⟩
    obtain ⟨c, hc, hcell, -⟩ := htreated r hr hcluster htrue
    exact Bool.false_ne_true ((hrun.2 c hc).symm.trans hcell)
  | some s =>
    rw [hjoin] at hrun
    obtain ⟨hfrom, -, hle⟩ := hrun
    have hadopts : Adopts panel cluster s := by
      obtain hnone | ⟨c, hc, hcell, rfl⟩ := hfrom
      · cases hnone
      · refine ⟨hrow c hc hcell, fun r hr hcluster htrue => ?_⟩
        obtain ⟨c', hc', hcell', hdate⟩ := htreated r hr hcluster htrue
        exact hdate ▸ hle c' hc' hcell'
    constructor
    · rintro ⟨⟩
      exact hadopts
    · exact fun h => congrArg some (hadopts.unique h)

/-! ### The stepped wedge -/

theorem mem_placedAt_of_forall₂ {f : ClusterDay × Cell → Except Failure Place} {cells : List (ClusterDay × Cell)}
    {places : List Place} (h : List.Forall₂ (fun c p => f c = .ok p) cells places) :
    c ∈ placedAt p cells places ↔ c ∈ cells ∧ f c = .ok p := by
  induction h with
  | nil => simp [placedAt]
  | @cons x y xs ys hxy _ ih =>
    unfold placedAt at ih ⊢
    rw [zip_cons_cons, filter_cons, mem_cons]
    by_cases hp : y = p
    · rw [if_pos (decide_eq_true hp), map_cons, mem_cons]
      subst hp
      constructor
      · rintro (rfl | hc)
        · exact ⟨Or.inl rfl, hxy⟩
        · exact ⟨Or.inr (ih.mp hc).1, (ih.mp hc).2⟩
      · rintro ⟨rfl | hc, hf⟩
        · exact Or.inl rfl
        · exact Or.inr (ih.mpr ⟨hc, hf⟩)
    · rw [if_neg (by simpa using hp)]
      constructor
      · exact fun hc => ⟨Or.inr (ih.mp hc).1, (ih.mp hc).2⟩
      · rintro ⟨rfl | hc, hf⟩
        · exact absurd (Except.ok.inj (hxy.symm.trans hf)) hp
        · exact ih.mpr ⟨hc, hf⟩

/-- The cells put in a place are those that the loop body puts there. -/
theorem mem_placedAt {f : ClusterDay × Cell → Except Failure Place} {cells : List (ClusterDay × Cell)}
    {places : List Place} (h : cells.mapM f = .ok places) : c ∈ placedAt p cells places ↔ c ∈ cells ∧ f c = .ok p :=
  mem_placedAt_of_forall₂ (mapM_eq_ok.mp h)

theorem place_error {starts : List (String × Option Int)}
    {e : Failure} (h : place starts metric w c = .error e) : e = .overflow := by
  unfold place addDays at h
  grind

theorem place_untreated :
    place (clusterStarts (mergedRows panel)) metric w c = .ok .untreated ↔
      (value c.2 metric).isSome = true ∧ ∀ start, Adopts panel c.1.1 start → c.1.2 < start := by
  simp only [← start_iff]
  unfold place
  cases hvalue : value c.2 metric with
  | none => simp
  | some v =>
    rw [if_neg (by simp)]
    cases hstart : ((clusterStarts (mergedRows panel)).lookup c.1.1).join with
    | none => simp
    | some start =>
      by_cases hle : start ≤ c.1.2
      · simp only [hle, if_true]
        refine iff_of_false ?_ fun h => absurd (h.2 start rfl) (Int.not_lt.mpr hle)
        split
        · split
          · simp
          · split <;> simp
        · simp
      · simp only [hle, if_false]
        refine iff_of_true trivial ⟨rfl, ?_⟩
        rintro _ ⟨⟩
        exact Int.not_le.mp hle

theorem place_treated (hw : 0 ≤ w) (h : place (clusterStarts (mergedRows panel)) metric w c = .ok p) :
    p = .treated ↔ (value c.2 metric).isSome = true ∧ ∃ start, Adopts panel c.1.1 start ∧ start + w ≤ c.1.2 := by
  simp only [← start_iff]
  unfold place at h
  cases hvalue : value c.2 metric with
  | none =>
    rw [hvalue] at h
    cases h
    simp
  | some v =>
    rw [hvalue, if_neg (by simp)] at h
    cases hstart : ((clusterStarts (mergedRows panel)).lookup c.1.1).join with
    | none =>
      rw [hstart] at h
      cases h
      simp
    | some start =>
      rw [hstart] at h
      simp only [Option.isSome_some, true_and, Option.some.injEq, exists_eq_left']
      by_cases hle : start ≤ c.1.2
      · simp only [hle, if_true] at h
        by_cases hpos : 0 < w
        · simp only [hpos, if_true] at h
          unfold addDays at h
          by_cases hover : start + w < firstDate ∨ lastDate < start + w
          · simp only [hover, if_true] at h
            cases h
          · simp only [hover, if_false] at h
            by_cases hcut : c.1.2 < start + w
            · rw [if_pos hcut] at h
              cases h
              exact iff_of_false (by simp) (Int.not_le.mpr hcut)
            · rw [if_neg hcut] at h
              cases h
              exact iff_of_true rfl (Int.not_lt.mp hcut)
        · simp only [hpos, if_false] at h
          cases h
          exact iff_of_true rfl (by omega)
      · simp only [hle, if_false] at h
        cases h
        exact iff_of_false (by simp) (by omega)

/-- A worked day before its cluster adopts on a panel. -/
def Before (panel : List Row) (day : ClusterDay) : Prop :=
  Worked panel day ∧ ∀ start, Adopts panel day.1 start → day.2 < start

/-- A worked day after the washout of its cluster on a panel. -/
def After (panel : List Row) (washoutDays : Int) (day : ClusterDay) : Prop :=
  Worked panel day ∧ ∃ start, Adopts panel day.1 start ∧ start + washoutDays ≤ day.2

/-- What imputation difference-in-differences takes: the worked days before the adoptions and after the washouts, if it
finds both. -/
theorem did_spec (hmetric : Measures panel metric) (hw : 0 ≤ w) (hover : did panel metric w ≠ .error .overflow) :
    (did panel metric w = .error .usage ∧ ¬((∃ day, Before panel day) ∧ ∃ day, After panel w day)) ∨
      ∃ days, did panel metric w = .ok days ∧ ((∃ day, Before panel day) ∧ ∃ day, After panel w day) ∧
        ∀ day, day ∈ days ↔ Before panel day ∨ After panel w day := by
  unfold did twoWay at *
  rw [if_neg (Int.not_lt.mpr hw)] at *
  cases hplaces : (mergedRows panel).mapM (place (clusterStarts (mergedRows panel)) metric w) with
  | error e =>
    rw [hplaces] at hover
    have hfail : Post (fun ps => ∀ p ∈ ps, True) (fun e => e = Failure.overflow) ((mergedRows panel).mapM
        (place (clusterStarts (mergedRows panel)) metric w)) := by
      refine Post.mapM fun c _ => ?_
      cases hplace : place (clusterStarts (mergedRows panel)) metric w c with
      | ok p => exact trivial
      | error e => exact place_error hplace
    exact absurd (congrArg Except.error (hfail.of_error hplaces)) hover
  | ok places =>
    have huntreated : ∀ day, (∃ cell, (day, cell) ∈ placedAt .untreated (mergedRows panel) places) ↔
        Before panel day := by
      intro day
      simp only [mem_placedAt hplaces, place_untreated]
      unfold Before
      rw [worked_iff hmetric]
      constructor
      · rintro ⟨cell, hcell, hvalue, hbefore⟩
        exact ⟨⟨cell, hcell, hvalue⟩, hbefore⟩
      · rintro ⟨⟨cell, hcell, hvalue⟩, hbefore⟩
        exact ⟨cell, hcell, hvalue, hbefore⟩
    have htreated : ∀ day, (∃ cell, (day, cell) ∈ placedAt .treated (mergedRows panel) places) ↔ After panel w day := by
      intro day
      simp only [mem_placedAt hplaces]
      unfold After
      rw [worked_iff hmetric]
      constructor
      · rintro ⟨cell, hcell, hplace⟩
        obtain ⟨hvalue, hafter⟩ := (place_treated hw hplace).mp rfl
        exact ⟨⟨cell, hcell, hvalue⟩, hafter⟩
      · rintro ⟨⟨cell, hcell, hvalue⟩, hafter⟩
        obtain ⟨p, -, hp⟩ := exists_of_mem_left (mapM_eq_ok.mp hplaces) hcell
        obtain rfl := (place_treated hw hp).mpr ⟨hvalue, hafter⟩
        exact ⟨cell, hcell, hp⟩
    have hsome : ∀ cells : List (ClusterDay × Cell), cells ≠ [] ↔ ∃ day cell, (day, cell) ∈ cells := by
      intro cells
      cases cells with
      | nil => simp
      | cons c cells => exact iff_of_true (cons_ne_nil _ _) ⟨c.1, c.2, mem_cons_self⟩
    have hboth : ¬(placedAt .treated (mergedRows panel) places = [] ∨
        placedAt .untreated (mergedRows panel) places = []) ↔ (∃ day, Before panel day) ∧ ∃ day, After panel w day := by
      rw [not_or, ← ne_eq, ← ne_eq, hsome, hsome, and_comm]
      simp only [huntreated, htreated]
    by_cases hempty : placedAt .treated (mergedRows panel) places = [] ∨ placedAt .untreated (mergedRows panel) places = []
    · exact Or.inl ⟨if_pos hempty, fun h => hboth.mpr h hempty⟩
    · refine Or.inr ⟨_, if_neg hempty, hboth.mp hempty, fun day => ?_⟩
      rw [map_append, mem_append, ← huntreated, ← htreated]
      simp [mem_map]

/-! ### The cluster trial -/

/-- A treated cluster has a worked day from a date on. -/
def TreatedArm (panel : List Row) (date : Int) : Prop :=
  ∃ day, Worked panel day ∧ date ≤ day.2 ∧ ∃ r ∈ panel, r.day = day ∧ r.treated = true

/-- A cluster without a treated day has a worked day from a date on. -/
def ControlArm (panel : List Row) (date : Int) : Prop :=
  ∃ day, Worked panel day ∧ date ≤ day.2 ∧
    ∀ r ∈ panel, r.clusterId = day.1 → Worked panel r.day → date ≤ r.dateUtc → r.treated = false

def postCells (panel : List Row) (preUntil : Int) (metric : Metric) : List (ClusterDay × Cell) :=
  ((mergedRows panel).filter fun c => (value c.2 metric).isSome).filter fun c => decide (preUntil ≤ c.1.2)

theorem mem_postCells (hmetric : Measures panel metric) :
    c ∈ postCells panel preUntil metric ↔ c ∈ mergedRows panel ∧ Worked panel c.1 ∧ preUntil ≤ c.1.2 := by
  unfold postCells
  rw [mem_filter, mem_filter, decide_eq_true_eq, and_assoc]
  exact and_congr_right fun hc => by rw [value_isSome hmetric hc]

theorem mem_cupedUnits {u : CupedUnit} :
    u ∈ cupedUnits panel preUntil metric →
      (∃ c ∈ postCells panel preUntil metric, c.1.1 = u.cluster) ∧
        u.post = (postCells panel preUntil metric).filter fun c => decide (c.1.1 = u.cluster) := by
  intro hu
  obtain ⟨cluster, hcluster, rfl⟩ := mem_map.mp hu
  obtain ⟨c, hc, rfl⟩ := mem_map.mp (mem_dedup.mp hcluster)
  exact ⟨⟨c, hc, rfl⟩, rfl⟩

theorem exists_unit (hc : c ∈ postCells panel preUntil metric) :
    ∃ u ∈ cupedUnits panel preUntil metric, u.cluster = c.1.1 ∧
      u.post = (postCells panel preUntil metric).filter fun c' => decide (c'.1.1 = c.1.1) :=
  ⟨_, mem_map_of_mem (mem_dedup.mpr (mem_map_of_mem hc)), rfl, rfl⟩

theorem any_treated_iff (hmetric : Measures panel metric) (preUntil : Int) :
    (cupedUnits panel preUntil metric).any (·.treated) = true ↔ TreatedArm panel preUntil := by
  rw [any_eq_true]
  constructor
  · rintro ⟨u, hu, htreated⟩
    obtain ⟨c, hc, hcell⟩ := any_eq_true.mp htreated
    rw [(mem_cupedUnits hu).2] at hc
    obtain ⟨hmem, hworked, hdate⟩ := (mem_postCells hmetric).mp (mem_filter.mp hc).1
    exact ⟨c.1, hworked, hdate, (mem_mergedRows hmem).2.1.mp hcell⟩
  · rintro ⟨day, hworked, hdate, hrow⟩
    obtain ⟨cell, hcell, -⟩ := (worked_iff hmetric).mp hworked
    have hpost : (day, cell) ∈ postCells panel preUntil metric := (mem_postCells hmetric).mpr ⟨hcell, hworked, hdate⟩
    obtain ⟨u, hu, -, hupost⟩ := exists_unit hpost
    refine ⟨u, hu, any_eq_true.mpr ⟨(day, cell), ?_, (mem_mergedRows hcell).2.1.mpr hrow⟩⟩
    rw [hupost]
    exact mem_filter.mpr ⟨hpost, decide_eq_true rfl⟩

theorem any_control_iff (hmetric : Measures panel metric) (preUntil : Int) :
    (cupedUnits panel preUntil metric).any (!·.treated) = true ↔ ControlArm panel preUntil := by
  rw [any_eq_true]
  constructor
  · rintro ⟨u, hu, hcontrol⟩
    obtain ⟨⟨c, hc, hcluster⟩, hupost⟩ := mem_cupedUnits hu
    obtain ⟨-, hworked, hdate⟩ := (mem_postCells hmetric).mp hc
    refine ⟨c.1, hworked, hdate, fun r hr hrow hrworked hrdate => Bool.eq_false_iff.mpr fun htreated => ?_⟩
    obtain ⟨cell, hcell, -⟩ := (worked_iff hmetric).mp hrworked
    have hpost : (r.day, cell) ∈ u.post := by
      rw [hupost]
      exact mem_filter.mpr ⟨(mem_postCells hmetric).mpr ⟨hcell, hrworked, hrdate⟩,
        decide_eq_true (hrow.trans hcluster)⟩
    have hany : u.treated = true :=
      any_eq_true.mpr ⟨_, hpost, (mem_mergedRows hcell).2.1.mpr ⟨r, hr, rfl, htreated⟩⟩
    rw [hany] at hcontrol
    cases hcontrol
  · rintro ⟨day, hworked, hdate, hrows⟩
    obtain ⟨cell, hcell, -⟩ := (worked_iff hmetric).mp hworked
    have hpost : (day, cell) ∈ postCells panel preUntil metric := (mem_postCells hmetric).mpr ⟨hcell, hworked, hdate⟩
    obtain ⟨u, hu, -, hupost⟩ := exists_unit hpost
    refine ⟨u, hu, (Bool.not_eq_true' _).mpr (Bool.eq_false_iff.mpr fun htreated => ?_)⟩
    obtain ⟨c, hc, hcellTreated⟩ := any_eq_true.mp htreated
    rw [hupost] at hc
    obtain ⟨hc, hcluster⟩ := mem_filter.mp hc
    obtain ⟨hmem, hcworked, hcdate⟩ := (mem_postCells hmetric).mp hc
    obtain ⟨r, hr, hday, hrtreated⟩ := (mem_mergedRows hmem).2.1.mp hcellTreated
    rw [← hday] at hcworked hcdate hcluster
    exact Bool.false_ne_true ((hrows r hr (of_decide_eq_true hcluster) hcworked hcdate).symm.trans hrtreated)

/-- What the difference in means takes from a date on: all worked days, if there are two arms. -/
theorem cuped_spec (hmetric : Measures panel metric) (preUntil : Int) :
    (cuped panel preUntil metric = .error .usage ∧ ¬(TreatedArm panel preUntil ∧ ControlArm panel preUntil)) ∨
      ∃ days, cuped panel preUntil metric = .ok days ∧ (TreatedArm panel preUntil ∧ ControlArm panel preUntil) ∧
        ∀ day : ClusterDay, preUntil ≤ day.2 → (day ∈ days ↔ Worked panel day) := by
  have harms := and_congr (any_treated_iff hmetric preUntil) (any_control_iff hmetric preUntil)
  by_cases hboth : (cupedUnits panel preUntil metric).any (·.treated) = true ∧
      (cupedUnits panel preUntil metric).any (!·.treated) = true
  · refine Or.inr ⟨_, if_pos hboth, harms.mp hboth, fun day hdate => ?_⟩
    simp only [mem_flatMap, map_append, mem_append]
    constructor
    · rintro ⟨u, hu, hday | hday⟩
      · obtain ⟨c, hc, rfl⟩ := mem_map.mp hday
        obtain ⟨cluster, -, rfl⟩ := mem_map.mp hu
        have hpre := (mem_filter.mp (mem_filter.mp hc).1).2
        exact absurd (of_decide_eq_true hpre) (Int.not_lt.mpr hdate)
      · obtain ⟨c, hc, rfl⟩ := mem_map.mp hday
        rw [(mem_cupedUnits hu).2] at hc
        exact ((mem_postCells hmetric).mp (mem_filter.mp hc).1).2.1
    · intro hworked
      obtain ⟨cell, hcell, -⟩ := (worked_iff hmetric).mp hworked
      have hpost : (day, cell) ∈ postCells panel preUntil metric := (mem_postCells hmetric).mpr ⟨hcell, hworked, hdate⟩
      obtain ⟨u, hu, -, hupost⟩ := exists_unit hpost
      refine ⟨u, hu, Or.inr (mem_map.mpr ⟨(day, cell), ?_, rfl⟩)⟩
      rw [hupost]
      exact mem_filter.mpr ⟨hpost, decide_eq_true rfl⟩
  · exact Or.inl ⟨if_neg hboth, fun h => hboth (harms.mpr h)⟩

/-- The rows that the cut of a cluster trial leaves. -/
theorem worked_cut {cut : Int} :
    Worked (panel.filter fun r => !decide (first ≤ r.dateUtc ∧ r.dateUtc < cut)) day ↔
      Worked panel day ∧ ¬(first ≤ day.2 ∧ day.2 < cut) := by
  unfold Worked
  simp only [mem_filter, Bool.not_eq_true', decide_eq_false_iff_not]
  constructor
  · rintro ⟨r, ⟨hr, hkept⟩, rfl, hdays⟩
    exact ⟨⟨r, hr, rfl, hdays⟩, hkept⟩
  · rintro ⟨⟨r, hr, rfl, hdays⟩, hkept⟩
    exact ⟨r, ⟨hr, hkept⟩, rfl, hdays⟩

/-! ### The time series -/

theorem mem_seriesDates {date : Int} :
    date ∈ seriesDates panel ↔ ∃ r ∈ panel, r.dateUtc = date ∧ 0 < r.activeDevDays := by
  unfold seriesDates panelDates
  rw [mem_filter, (perm_insertionSort _ _).mem_iff, mem_dedup, decide_eq_true_eq]
  rw [List.sum_pos_iff_exists_pos_nat]
  constructor
  · rintro ⟨-, n, hn, hpos⟩
    obtain ⟨r, hr, rfl⟩ := mem_map.mp hn
    obtain ⟨hr, hdate⟩ := mem_filter.mp hr
    exact ⟨r, hr, of_decide_eq_true hdate, hpos⟩
  · rintro ⟨r, hr, rfl, hdays⟩
    exact ⟨mem_map_of_mem hr, r.activeDevDays,
      mem_map_of_mem (mem_filter.mpr ⟨hr, decide_eq_true rfl⟩), hdays⟩

/-! ### The measurement -/

/-- When no contaminated day enters a measurement. -/
def WashoutKept (plan : Plan) (panel : List Row) (w : Int) : Prop :=
  match plan.design, firstTreatedDate panel with
  | .its, _ => ∀ r ∈ panel, Contaminated panel w r.day → ∀ r' ∈ panel, r'.dateUtc = r.dateUtc → r'.activeDevDays = 0
  | .steppedWedge, _ => (∃ day, After (outcomeRows panel) w day) → ∀ day, Worked (outcomeRows panel) day →
      Contaminated panel w day → ∃ r ∈ outcomeRows panel, r.clusterId = day.1 ∧ r.treated = true ∧ r.dateUtc ≤ day.2
  | .clusterRct, some first =>
      (∀ day, Worked panel day → Contaminated panel w day → day.2 < first + w) ∧
        (TreatedArm (outcomeRows panel) first → ControlArm (outcomeRows panel) first →
          ∀ day, Worked (outcomeRows panel) day → ¬Contaminated panel w day)
  | _, _ => True

theorem checkRows_ok {rows : List Row} (h : checkRows panel = .ok rows) : rows = panel := by
  unfold checkRows at h
  split at h
  · cases h
  · exact (Except.ok.inj h).symm

/-- What a measurement takes, by its parts. -/
theorem measure_ok {washoutDays : Option Int} {m : Measured} (h : measure plan panel washoutDays = .ok m) :
    estimate plan panel (plan.washoutUsed washoutDays) = .ok m.estimate ∧
      quality panel plan.design ((firstTreatedDate panel).getD 0) (plan.washoutUsed washoutDays) = .ok m.quality := by
  obtain ⟨rows, hrows, h⟩ := bind_eq_ok.mp h
  cases checkRows_ok hrows
  by_cases hempty : panel = []
  · rw [if_pos hempty] at h
    cases h
  · rw [if_neg hempty] at h
    obtain ⟨days, hestimate, h⟩ := bind_eq_ok.mp h
    obtain ⟨bound, hquality, h⟩ := bind_eq_ok.mp h
    obtain rfl := pure_eq_ok.mp h
    exact ⟨hestimate, hquality⟩

/-- A quality bound that cannot be computed takes nothing. -/
theorem quality_eq {bound : Except Failure (List ClusterDay)} (h : (match bound with
      | .error .usage => .ok []
      | bound => bound : Except Failure (List ClusterDay)) = .ok days) :
    bound ≠ .error .overflow ∧ (bound = .error .usage → days = []) ∧ ∀ taken, bound = .ok taken → taken = days := by
  match bound with
  | .error .usage => exact ⟨nofun, fun _ => (Except.ok.inj h).symm, nofun⟩
  | .error .overflow => cases h
  | .ok taken => exact ⟨nofun, nofun, fun _ htaken => Except.ok.inj (htaken.symm.trans h)⟩

theorem did_nonneg (h : did panel metric w = .ok days) : 0 ≤ w := by
  unfold did at h
  by_cases hw : w < 0
  · rw [if_pos hw] at h
    cases h
  · exact Int.not_lt.mp hw

theorem did_kept (h : did panel .cost w = .ok days) (hday : day ∈ days) : ¬Contaminated panel w day := by
  rintro ⟨start, hstart, hle, hlt⟩
  have hspec := did_spec (show Measures panel .cost from trivial) (did_nonneg h) (by rw [h]; nofun)
  rw [h] at hspec
  obtain ⟨hnot, -⟩ | ⟨taken, htaken, -, hmem⟩ := hspec
  · cases hnot
  · cases htaken
    obtain ⟨-, hbefore⟩ | ⟨-, start', hstart', hafter⟩ := (hmem day).mp hday
    · exact absurd (hbefore start hstart) (Int.not_lt.mpr hle)
    · rw [hstart'.unique hstart] at hafter
      exact absurd hafter (Int.not_le.mpr hlt)

theorem steppedWedge_iff (hdesign : plan.design = .steppedWedge) (hestimate : estimate plan panel w = .ok taken)
    (hbound : quality panel .steppedWedge first w = .ok bound) :
    (∀ day ∈ taken ++ bound, ¬Contaminated panel w day) ↔ WashoutKept plan panel w := by
  have hdid : did panel .cost w = .ok taken := by
    unfold estimate at hestimate
    rw [hdesign] at hestimate
    cases hfirst : firstTreatedDate panel <;> rw [hfirst] at hestimate
    · cases hestimate
    · exact hestimate
  obtain ⟨hover, hnone, hsome⟩ := quality_eq hbound
  have hkept : WashoutKept plan panel w ↔ ((∃ day, After (outcomeRows panel) w day) →
      ∀ day, Worked (outcomeRows panel) day → Contaminated panel w day →
        ∃ r ∈ outcomeRows panel, r.clusterId = day.1 ∧ r.treated = true ∧ r.dateUtc ≤ day.2) := by
    unfold WashoutKept
    rw [hdesign]
  have hstart : ∀ day : ClusterDay,
      (∃ r ∈ outcomeRows panel, r.clusterId = day.1 ∧ r.treated = true ∧ r.dateUtc ≤ day.2) ↔ ∃ start, Adopts (outcomeRows panel) day.1 start ∧ start ≤ day.2 := by
    intro day
    constructor
    · rintro ⟨r, hr, hcluster, htreated, hle⟩
      obtain ⟨start, hadopts⟩ := exists_adopts hr htreated
      rw [hcluster] at hadopts
      exact ⟨start, hadopts, Int.le_trans (hadopts.2 r hr hcluster htreated) hle⟩
    · rintro ⟨start, ⟨⟨r, hr, hcluster, htreated, rfl⟩, -⟩, hle⟩
      exact ⟨r, hr, hcluster, htreated, hle⟩
  have htaken : ∀ day ∈ taken, ¬Contaminated panel w day := fun _ hday => did_kept hdid hday
  rw [hkept, forall_mem_append, and_iff_right htaken]
  simp only [hstart]
  obtain ⟨hfail, hnot⟩ | ⟨days, hdays, ⟨-, hafter⟩, hmem⟩ :=
    did_spec (measures_outcomeRows panel) (did_nonneg hdid) hover
  · rw [hnone hfail]
    refine iff_of_true nofun fun hafter day hworked hcontaminated => ?_
    by_contra hshown
    exact hnot ⟨⟨day, hworked, fun start hadopts => Int.not_le.mp fun hle => hshown ⟨start, hadopts, hle⟩⟩, hafter⟩
  · rw [← hsome days hdays]
    constructor
    · intro hall _ day hworked hcontaminated
      by_contra hshown
      refine hall day ((hmem day).mpr (Or.inl ⟨hworked, fun start hadopts => ?_⟩)) hcontaminated
      exact Int.not_le.mp fun hle => hshown ⟨start, hadopts, hle⟩
    · intro hshown day hday hcontaminated
      obtain ⟨hworked, hbefore⟩ | ⟨-, start, hadopts, hlate⟩ := (hmem day).mp hday
      · obtain ⟨start, hadopts, hle⟩ := hshown hafter day hworked hcontaminated
        exact absurd (hbefore start hadopts) (Int.not_lt.mpr hle)
      · obtain ⟨start', hadopts', -, hlt⟩ := hcontaminated
        have hle := hadopts'.le_of_subset (outcomeRows_subset panel) hadopts
        omega

theorem clusterRct_iff (hdesign : plan.design = .clusterRct) (hestimate : estimate plan panel w = .ok taken)
    (hbound : quality panel .clusterRct ((firstTreatedDate panel).getD 0) w = .ok bound) :
    (∀ day ∈ taken ++ bound, ¬Contaminated panel w day) ↔ WashoutKept plan panel w := by
  unfold estimate at hestimate
  unfold WashoutKept
  rw [hdesign] at hestimate ⊢
  cases hfirst : firstTreatedDate panel with
  | none =>
    rw [hfirst] at hestimate
    cases hestimate
  | some first =>
    rw [hfirst] at hestimate hbound
    obtain ⟨cut, hcut, hcuped⟩ := bind_eq_ok.mp hestimate
    have hcut : cut = first + w := by
      unfold addDays at hcut
      split at hcut
      · cases hcut
      · exact (Except.ok.inj hcut).symm
    subst hcut
    have hdate : ∀ day, Contaminated panel w day → first ≤ day.2 := by
      rintro day ⟨start, hadopts, hle, -⟩
      exact Int.le_trans (hadopts.first_le hfirst) hle
    have htaken : (∀ day ∈ taken, ¬Contaminated panel w day) ↔
        ∀ day, Worked panel day → Contaminated panel w day → day.2 < first + w := by
      obtain ⟨hfail, -⟩ | ⟨days, hdays, -, hmem⟩ := cuped_spec
        (show Measures (panel.filter fun r => !decide (first ≤ r.dateUtc ∧ r.dateUtc < first + w)) .cost from trivial) first
      · rw [hfail] at hcuped
        cases hcuped
      · rw [hdays] at hcuped
        cases hcuped
        constructor
        · intro hall day hworked hcontaminated
          by_contra hlate
          refine hall day ((hmem day (hdate day hcontaminated)).mpr (worked_cut.mpr ⟨hworked, ?_⟩)) hcontaminated
          exact fun h => hlate h.2
        · intro hall day hday hcontaminated
          obtain ⟨hworked, hkept⟩ := worked_cut.mp ((hmem day (hdate day hcontaminated)).mp hday)
          exact hkept ⟨hdate day hcontaminated, hall day hworked hcontaminated⟩
    obtain ⟨-, hnone, hsome⟩ := quality_eq hbound
    rw [forall_mem_append, htaken]
    refine and_congr_right fun _ => ?_
    obtain ⟨hfail, hnot⟩ | ⟨days, hdays, harms, hmem⟩ := cuped_spec (measures_outcomeRows panel) first
    · rw [hnone hfail]
      exact iff_of_true nofun fun htreated hcontrol => absurd ⟨htreated, hcontrol⟩ hnot
    · rw [← hsome days hdays]
      constructor
      · intro hall _ _ day hworked hcontaminated
        exact hall day ((hmem day (hdate day hcontaminated)).mpr hworked) hcontaminated
      · intro hall day hday hcontaminated
        exact hall harms.1 harms.2 day ((hmem day (hdate day hcontaminated)).mp hday) hcontaminated

theorem its_iff (hdesign : plan.design = .its) (hestimate : estimate plan panel w = .ok taken)
    (hbound : quality panel .its first w = .ok bound) :
    (∀ day ∈ taken ++ bound, ¬Contaminated panel w day) ↔ WashoutKept plan panel w := by
  obtain rfl : bound = [] := (Except.ok.inj hbound).symm
  unfold estimate at hestimate
  unfold WashoutKept
  rw [hdesign] at hestimate ⊢
  obtain ⟨change, -, hestimate⟩ := bind_eq_ok.mp hestimate
  obtain ⟨placebo, -, hestimate⟩ := bind_eq_ok.mp hestimate
  unfold eventStudyIts at hestimate
  dsimp only at hestimate
  split at hestimate
  · cases hestimate
  · cases hestimate
    rw [append_nil, forall_mem_map]
    simp only [mem_filter, decide_eq_true_eq, mem_seriesDates]
    constructor
    · intro hall r hr hcontaminated r' hr' hdate
      by_contra hdays
      exact hall r ⟨hr, r', hr', hdate, Nat.pos_of_ne_zero hdays⟩ hcontaminated
    · rintro hall r ⟨hr, r', hr', hdate, hdays⟩ hcontaminated
      rw [hall r hr hcontaminated r' hr' hdate] at hdays
      exact Nat.lt_irrefl 0 hdays

/-- Of every design, no contaminated day enters the estimate or the quality bound exactly under the condition of the
design, whether the washout guard passes or not. -/
theorem washout_excludes_iff {plan : Plan} {panel : List Row} {washoutDays : Option Int} {m : Measured}
    (h : measure plan panel washoutDays = .ok m) :
    (∀ day ∈ m.estimate ++ m.quality, ¬Contaminated panel (plan.washoutUsed washoutDays) day) ↔
      WashoutKept plan panel (plan.washoutUsed washoutDays) := by
  obtain ⟨hestimate, hquality⟩ := measure_ok h
  cases hdesign : plan.design with
  | steppedWedge => exact steppedWedge_iff hdesign hestimate (hdesign ▸ hquality)
  | clusterRct => exact clusterRct_iff hdesign hestimate (hdesign ▸ hquality)
  | its => exact its_iff hdesign hestimate (hdesign ▸ hquality)
  | ab =>
    unfold estimate at hestimate
    rw [hdesign] at hestimate
    cases hestimate
  | other =>
    unfold estimate at hestimate
    rw [hdesign] at hestimate
    cases hestimate

def samplePanel (outcomePrs : Option Nat) : List Row :=
  [⟨"a", 100, 5, 1, false, outcomePrs⟩, ⟨"b", 100, 5, 1, false, outcomePrs⟩, ⟨"a", 110, 4, 1, true, outcomePrs⟩,
    ⟨"b", 110, 5, 1, false, outcomePrs⟩, ⟨"a", 111, 4, 1, true, outcomePrs⟩, ⟨"b", 111, 5, 1, false, outcomePrs⟩]

theorem sampleWedge_kept : ¬∃ day ∈ [("a", 100), ("b", 100), ("b", 110), ("b", 111), ("a", 111)],
    Contaminated (samplePanel none) 1 day := by
  have hmeasure : measure ⟨.steppedWedge, 24, none, none⟩ (samplePanel none) none =
      .ok ⟨true, [("a", 100), ("b", 100), ("b", 110), ("b", 111), ("a", 111)], []⟩ := by decide
  rintro ⟨day, hday, hcontaminated⟩
  refine (washout_excludes_iff hmeasure).mpr ?_ day hday hcontaminated
  exact fun ⟨_, ⟨_, hr, _⟩, _⟩ => absurd hr not_mem_nil

/-- The quality bound of a cluster trial takes the day of the adoption. -/
theorem sampleTrial_contaminated : ¬∀ (plan : Plan) (panel : List Row) (washoutDays : Option Int) (m : Measured),
    measure plan panel washoutDays = .ok m → m.washoutPassed = true →
    ∀ day ∈ m.estimate ++ m.quality, ¬Contaminated panel (plan.washoutUsed washoutDays) day := by
  intro hall
  exact hall ⟨.clusterRct, 24, none, none⟩ (samplePanel (some 1)) none
    ⟨true, [("a", 100), ("a", 111), ("b", 100), ("b", 111)],
      [("a", 100), ("a", 110), ("a", 111), ("b", 100), ("b", 110), ("b", 111)]⟩ (by decide) rfl
    ("a", 110) (by decide)
    ⟨110, ⟨⟨⟨"a", 110, 4, 1, true, some 1⟩, by simp [samplePanel], rfl, rfl, rfl⟩, by simp [samplePanel]⟩,
      by decide, by decide⟩

end TokenBill.Washout
