import TokenBill.Pool.CreditSavings

/-!
# Two views of the overage

`overage_total` takes the consumption and the pools of a whole billing entity, and a pool month of the
enterprise its own consumption against its pool with the unused caps. With all caps blocking both are the
same: what a cost center draws of its cap is its cap less the unused part of it. Where a plan is known the
observed overage of a month is not computed but read off the bill.
-/

namespace TokenBill.Pool

open General List

/-! ### The whole billing entity -/

section Total

variable {κ α : Type} [DecidableEq κ]

theorem ccName_eq {key : String} (h : "cc:".toList <+: key.toList) : "cc:" ++ ccName key = key := by
  obtain ⟨t, ht⟩ := h
  have hdrop : (String.ofList (key.toList.drop 3)).toList = key.toList.drop 3 := String.toList_ofList
  unfold ccName
  rw [if_pos ⟨t, ht⟩, ← String.toList_inj, String.toList_append, hdrop, ← ht]
  rfl

/-- A mapping by cost center whose keys are entities is its own. -/
theorem byEntity_eq {table : List (String × α)} (hn : (table.map (·.1)).Nodup)
    (hcc : ∀ e ∈ table, "cc:".toList <+: e.1.toList) : byEntity table = table := by
  have hfold : ∀ (rest acc : List (String × α)), ((acc ++ rest).map (·.1)).Nodup → (∀ e ∈ rest, "cc:".toList <+: e.1.toList) →
      rest.foldl (fun acc e => upsert (·.1) ("cc:" ++ ccName e.1, e.2) acc) acc = acc ++ rest := by
    intro rest
    induction rest with
    | nil => exact fun acc _ _ => (append_nil acc).symm
    | cons e es ih =>
      intro acc hnodup hpre
      have hname := ccName_eq (hpre e mem_cons_self)
      rw [map_append, map_cons, nodup_middle, nodup_cons] at hnodup
      have hnew : e.1 ∉ acc.map (·.1) := fun hmem => hnodup.1 (mem_append_left _ hmem)
      rw [foldl_cons, hname, upsert_append hnew]
      have happ := ih (acc ++ [e]) (by
        rw [append_assoc, map_append, singleton_append, map_cons, nodup_middle, nodup_cons]
        exact hnodup) fun e' he' => hpre e' (mem_cons_of_mem e he')
      rw [happ, append_assoc, singleton_append]
  exact hfold table [] hn hcc

end Total

/-- The capped pool months of a month, one of each cost center. -/
def cappedMonths (months : List PoolMonth) (month : String) : List PoolMonth :=
  firstOfKey (·.entityId) (months.filter fun m => decide (m.month = month) && m.cappedPolicy.isSome)

/-- What `overage_total` computes at a level of the consumption, for the pools of an entity and of its capped
cost centers in its month, with all caps blocking. -/
def blockedOverage (months : List PoolMonth) (pm : PoolMonth) (level : Levels → Int) : Except Stop (Int × Int) :=
  let ccs := cappedMonths months pm.month
  overageTotal ((pm :: ccs).map fun m => (m.entityId, level (consumptionStates m)))
    ((pm :: ccs).map fun m => (m.entityId, m.poolNano)) (ccs.map fun m => (m.entityId, m.poolNano))
    (ccs.map fun m => (m.entityId, .block))

section Blocked

variable {pm : PoolMonth} {ccs : List PoolMonth} {use : PoolMonth → Int}

theorem map_entity {β : Type} (f : PoolMonth → β) (l : List PoolMonth) :
    (l.map fun m => (m.entityId, f m)).map (·.1) = l.map (·.entityId) := by
  rw [map_map]
  rfl

theorem lookup_entity {β : Type} (f : PoolMonth → β) {l : List PoolMonth} (hn : (l.map (·.entityId)).Nodup)
    {m : PoolMonth} (hm : m ∈ l) : (l.map fun m => (m.entityId, f m)).lookup m.entityId = some (f m) := by
  have hmem : (m.entityId, f m) ∈ l.map fun m => (m.entityId, f m) := mem_map.mpr ⟨m, hm, rfl⟩
  exact lookup_of_mem (by rw [map_entity]; exact hn) hmem

/-- What is drawn of a pool is the pool less its unused part. -/
theorem sum_draws (ccs : List PoolMonth) (use : PoolMonth → Int) :
    (ccs.map fun m => min (use m) m.poolNano).sum + (ccs.map fun m => max 0 (m.poolNano - use m)).sum =
      (ccs.map (·.poolNano)).sum := by
  induction ccs with
  | nil => rfl
  | cons m ms ih =>
    simp only [map_cons, sum_cons]
    omega

/-- The entities outside the caps are the parent alone. -/
theorem uncapped_eq (hn : ((pm :: ccs).map (·.entityId)).Nodup) :
    (((pm :: ccs).map (·.entityId) ++ (pm :: ccs).map (·.entityId)).dedup.filter fun k =>
      decide (k ∉ ccs.map (·.entityId))) = [pm.entityId] := by
  have hpm : pm.entityId ∉ ccs.map (·.entityId) := (nodup_cons.mp hn).1
  refine perm_singleton.mp ((perm_ext_iff_of_nodup ((nodup_dedup _).filter _)
    (nodup_singleton _)).mpr fun k => ?_)
  rw [mem_filter, mem_dedup, mem_append, or_self, map_cons, mem_cons, mem_singleton]
  constructor
  · rintro ⟨rfl | hk, hnot⟩
    · rfl
    · exact absurd hk (of_decide_eq_true hnot)
  · rintro rfl
    exact ⟨.inl rfl, decide_eq_true hpm⟩

/-- With all caps blocking what is over is the consumption of the parent beyond its pool and the unused caps. -/
theorem overageTotal_blocked (use : PoolMonth → Int) (hn : ((pm :: ccs).map (·.entityId)).Nodup)
    (hcc : ∀ m ∈ ccs, "cc:".toList <+: m.entityId.toList) :
    overageTotal ((pm :: ccs).map fun m => (m.entityId, use m)) ((pm :: ccs).map fun m => (m.entityId, m.poolNano))
        (ccs.map fun m => (m.entityId, m.poolNano)) (ccs.map fun m => (m.entityId, .block)) =
      let excess := max 0 (use pm - (pm.poolNano + (ccs.map fun m => max 0 (m.poolNano - use m)).sum))
      .ok (excess, excess) := by
  have hccs : (ccs.map (·.entityId)).Nodup := (nodup_cons.mp hn).2
  have hcaps : byEntity (ccs.map fun m => (m.entityId, m.poolNano)) = ccs.map fun m => (m.entityId, m.poolNano) :=
    byEntity_eq (by rw [map_entity]; exact hccs) (by simpa using hcc)
  have hblock : byEntity (ccs.map fun m => (m.entityId, CapPolicy.block)) = ccs.map fun m => (m.entityId, .block) :=
    byEntity_eq (by rw [map_entity]; exact hccs) (by simpa using hcc)
  have huse : ∀ m ∈ pm :: ccs, (((pm :: ccs).map fun m => (m.entityId, use m)).lookup m.entityId).getD 0 = use m :=
    fun m hm => by rw [lookup_entity use hn hm, Option.getD_some]
  have hpolicy : ∀ m ∈ ccs, ((ccs.map fun m => (m.entityId, CapPolicy.block)).lookup m.entityId).getD .unknown = .block :=
    fun m hm => by rw [lookup_entity (fun _ => CapPolicy.block) hccs hm, Option.getD_some]
  have hdraws : (ccs.map fun m => min (((pm :: ccs).map fun m => (m.entityId, use m)).lookup m.entityId |>.getD 0)
      m.poolNano) = ccs.map fun m => min (use m) m.poolNano :=
    map_congr_left fun m hm => by rw [huse m (mem_cons_of_mem _ hm)]
  have hzero : ∀ excess : PoolMonth → Int, (ccs.map fun m => (capOverage
      (((ccs.map fun m => (m.entityId, CapPolicy.block)).lookup m.entityId).getD .unknown) (excess m)).1).sum = 0 ∧
      (ccs.map fun m => (capOverage
      (((ccs.map fun m => (m.entityId, CapPolicy.block)).lookup m.entityId).getD .unknown) (excess m)).2).sum = 0 :=
    fun excess => ⟨sum_eq_zero fun n hmem => by
      obtain ⟨m, hm, rfl⟩ := mem_map.mp hmem
      rw [hpolicy m hm]
      rfl, sum_eq_zero fun n hmem => by
      obtain ⟨m, hm, rfl⟩ := mem_map.mp hmem
      rw [hpolicy m hm]
      rfl⟩
  have hsum := sum_draws ccs use
  unfold overageTotal
  simp only [hcaps, hblock, map_map, Function.comp_def, map_append, uncapped_eq hn, length_singleton,
    lt_irrefl, false_and, if_false, hdraws, (hzero _).1, (hzero _).2, map_singleton, sum_singleton,
    huse pm mem_cons_self]
  rw [map_cons, sum_cons, ← hsum, zero_add]
  have hrest : ∀ draws free : Int, use pm + draws - (pm.poolNano + (draws + free)) = use pm - (pm.poolNano + free) :=
    fun draws free => by omega
  rw [hrest]

end Blocked

/-! ### The consumption and the cap of a pool month -/

section Month

variable {facts : Facts} {i : EntityInputs} {seats : Seats} {source : SeatSource} {scenario : Option KnownPlan}
  {allowance : Decimal} {pm : PoolMonth}

theorem consumptionStates_eq (hm : IsMonth facts i seats source scenario allowance pm) :
    consumptionStates pm = i.cm.levels := by
  have hforecast := hm.forecast
  unfold EntityInputs.forecastFigure at hforecast
  unfold consumptionStates Common.levels
  rw [hm.finality, hm.consumed]
  cases hfin : i.cm.finality with
  | closed => rfl
  | opened =>
    cases hfc : i.cm.fc with
    | none =>
      rw [hfin, hfc] at hforecast
      rw [← Except.ok.inj hforecast]
      rfl
    | some fc =>
      rw [hfin, hfc] at hforecast
      obtain ⟨f, hf, hsome⟩ := map_eq_ok.mp hforecast
      obtain ⟨hpoint, hlow, hhigh, -⟩ := figureRange_eq_ok hf
      rw [← hsome]
      unfold shownLevels figureLevels
      rw [Option.bind_some, hpoint, hlow, hhigh]
      rfl

theorem poolNano_capped (hm : IsMonth facts i seats source scenario allowance pm) {cap : Decimal}
    (hcap : i.cap = some cap) : pm.poolNano = creditsToNano cap := by
  rw [hm.poolNano]
  unfold EntityInputs.pool
  rw [hcap]

theorem policy_isSome (hm : IsMonth facts i seats source scenario allowance pm) :
    pm.cappedPolicy.isSome = i.cap.isSome := by
  rw [hm.policy]
  exact Option.isSome_map

end Month

/-! ### The capped cost centers of a month -/

section Run

variable {facts : Facts} {inp : PoolInputs} {months : List PoolMonth} {todayDay : Int}
  {evidence : List ((String × String) × PlanEvidence)} {commons : List ((String × String) × Common)}

theorem Ran.nodup (r : Ran facts inp todayDay evidence commons months) : (commons.map (·.1)).Nodup := by
  rw [r.keys]
  exact (perm_insertionSort _ _).nodup_iff.mpr (nodup_dedup _)

theorem exists_of_capped (r : Ran facts inp todayDay evidence commons months) {m : PoolMonth} (hm : m ∈ months)
    (hcapped : m.cappedPolicy.isSome) : ∃ c ∈ commons, ∃ cap, c.1 = (m.entityId, m.month) ∧
      capOf inp.capped c.1.1 = some cap ∧ m.poolNano = creditsToNano cap ∧ consumptionStates m = c.2.levels := by
  obtain ⟨c, hc, seats, source, scenario, allowance, -, -, hmonth⟩ := r.months m hm
  rw [policy_isSome hmonth] at hcapped
  obtain ⟨cap, hcap⟩ := Option.isSome_iff_exists.mp hcapped
  exact ⟨c, hc, cap, Prod.ext hmonth.entityId.symm hmonth.month.symm, hcap, poolNano_capped hmonth hcap,
    consumptionStates_eq hmonth⟩

variable {c : (String × String) × Common} {level : Levels → Int}

theorem exists_capped (r : Ran facts inp todayDay evidence commons months)
    (hc : c ∈ commons) (hcap : (capOf inp.capped c.1.1).isSome) :
    ∃ m ∈ months, c.1 = (m.entityId, m.month) ∧ m.cappedPolicy.isSome := by
  obtain ⟨m, hm, seats, source, scenario, allowance, hmonth⟩ := r.covers c hc
  refine ⟨m, hm, Prod.ext hmonth.entityId.symm hmonth.month.symm, ?_⟩
  rw [policy_isSome hmonth]
  exact hcap

/-- What a pool month says of a cap: the entity, the cap and the consumption. -/
def capOfMonth (m : PoolMonth) : String × Int × Levels := (m.entityId, m.poolNano, consumptionStates m)

def capOfShared (cc : String × Decimal × Levels) : String × Int × Levels := (cc.1, creditsToNano cc.2.1, cc.2.2)

theorem mem_cappedMonths {months : List PoolMonth} {month : String} {m : PoolMonth} (h : m ∈ cappedMonths months month) :
    m ∈ months ∧ m.month = month ∧ m.cappedPolicy.isSome := by
  have hmem := mem_filter.mp ((firstOfKey_sublist _ _).subset h)
  have hboth := Bool.and_eq_true_iff.mp hmem.2
  exact ⟨hmem.1, of_decide_eq_true hboth.1, hboth.2⟩

theorem mem_cappedOf {capped : List (String × Decimal)} {month : String} {cc : String × Decimal × Levels} :
    cc ∈ cappedOf commons capped month ↔
      ∃ c ∈ commons, c.1.2 = month ∧ ∃ cap, capOf capped c.1.1 = some cap ∧ cc = (c.1.1, cap, c.2.levels) := by
  unfold cappedOf
  rw [mem_insertionSort, mem_filterMap]
  constructor
  · rintro ⟨c, hc, hsome⟩
    obtain ⟨cap, hcap, hcc⟩ := Option.map_eq_some_iff.mp hsome
    obtain ⟨hc, hmonth⟩ := mem_filter.mp hc
    exact ⟨c, hc, of_decide_eq_true hmonth, cap, hcap, hcc.symm⟩
  · rintro ⟨c, hc, hmonth, cap, hcap, rfl⟩
    exact ⟨c, mem_filter.mpr ⟨hc, decide_eq_true hmonth⟩, by rw [hcap]; rfl⟩

/-- A cost center is capped once in a month. -/
theorem nodup_cappedOf (hn : (commons.map (·.1)).Nodup) (capped : List (String × Decimal)) (month : String) :
    ((cappedOf commons capped month).map (·.1)).Nodup := by
  refine ((perm_insertionSort _ _).map _).nodup_iff.mpr (pairwise_map.mpr (pairwise_filterMap.mpr ?_))
  have hkeys : commons.Pairwise fun c c' => c.1 ≠ c'.1 := pairwise_map.mp hn
  refine (hkeys.sublist filter_sublist).imp_of_mem fun {c c'} hc hc' hne cc hcc cc' hcc' heq => hne ?_
  obtain ⟨cap, -, rfl⟩ := Option.map_eq_some_iff.mp hcc
  obtain ⟨cap', -, rfl⟩ := Option.map_eq_some_iff.mp hcc'
  have hmonth := of_decide_eq_true (mem_filter.mp hc).2
  have hmonth' := of_decide_eq_true (mem_filter.mp hc').2
  exact Prod.ext heq (hmonth.trans hmonth'.symm)

/-- The capped pool months of a month are its capped cost centers. -/
theorem cappedMonths_perm (r : Ran facts inp todayDay evidence commons months) (month : String) :
    ((cappedMonths months month).map capOfMonth).Perm ((cappedOf commons inp.capped month).map capOfShared) := by
  have hsame : ∀ m ∈ cappedMonths months month, ∀ c ∈ commons, c.1 = (m.entityId, m.month) → ∀ cap,
      capOf inp.capped c.1.1 = some cap → capOfMonth m = capOfShared (c.1.1, cap, c.2.levels) := by
    intro m hm c hc hkey cap hcap
    obtain ⟨hmem, -, hpolicy⟩ := mem_cappedMonths hm
    obtain ⟨c', hc', cap', hkey', hcap', hpool, hstates⟩ := exists_of_capped r hmem hpolicy
    obtain rfl : c' = c := inj_on_of_nodup_map r.nodup hc' hc (hkey'.trans hkey.symm)
    obtain rfl : cap' = cap := Option.some.inj (hcap'.symm.trans hcap)
    unfold capOfMonth capOfShared
    rw [hpool, hstates, hkey']
  have hleft : ((cappedMonths months month).map capOfMonth).Nodup := by
    refine List.Nodup.of_map Prod.fst ?_
    rw [map_map]
    exact nodup_firstOfKey _ _
  have hright : ((cappedOf commons inp.capped month).map capOfShared).Nodup := by
    refine List.Nodup.of_map Prod.fst ?_
    rw [map_map]
    exact nodup_cappedOf r.nodup _ _
  refine (perm_ext_iff_of_nodup hleft hright).mpr fun row => ⟨fun h => ?_, fun h => ?_⟩
  · obtain ⟨m, hm, rfl⟩ := mem_map.mp h
    obtain ⟨hmem, hmonth, hpolicy⟩ := mem_cappedMonths hm
    obtain ⟨c, hc, cap, hkey, hcap, -, -⟩ := exists_of_capped r hmem hpolicy
    rw [hsame m hm c hc hkey cap hcap]
    exact mem_map.mpr ⟨_, mem_cappedOf.mpr ⟨c, hc, by rw [hkey]; exact hmonth, cap, hcap, rfl⟩, rfl⟩
  · obtain ⟨cc, hcc, rfl⟩ := mem_map.mp h
    obtain ⟨c, hc, hmonth, cap, hcap, rfl⟩ := mem_cappedOf.mp hcc
    obtain ⟨m, hm, hkey, hpolicy⟩ := exists_capped r hc (by rw [hcap]; rfl)
    have hin : m ∈ months.filter fun m => decide (m.month = month) && m.cappedPolicy.isSome := by
      refine mem_filter.mpr ⟨hm, Bool.and_eq_true_iff.mpr ⟨decide_eq_true ?_, hpolicy⟩⟩
      rw [← hmonth, hkey]
    obtain ⟨m', hm', hentity⟩ := exists_mem_firstOfKey (fun m : PoolMonth => m.entityId) hin
    have hkey' : c.1 = (m'.entityId, m'.month) := by
      rw [hkey, hentity, (mem_cappedMonths hm').2.1, ← hmonth, hkey]
    rw [← hsame m' hm' c hc hkey' cap hcap]
    exact mem_map.mpr ⟨m', hm', rfl⟩

/-! ### One level -/

/-- One of the three levels. -/
structure IsLevel (level : Levels → Int) : Prop where
  zero : level 0 = 0
  add : ∀ a b, level (a + b) = level a + level b
  unusedOf : ∀ cap use, level (unusedOf cap use) = max 0 (cap - level use)
  overAt : ∀ use pools, level (overAt use pools) = max 0 (level use - level pools)
  availOf : ∀ pool unused, level (availOf pool unused) = pool + level unused

theorem isLevel_low : IsLevel Levels.low :=
  ⟨rfl, fun _ _ => rfl, fun _ _ => rfl, fun _ _ => rfl, fun _ _ => rfl⟩

theorem isLevel_point : IsLevel Levels.point :=
  ⟨rfl, fun _ _ => rfl, fun _ _ => rfl, fun _ _ => rfl, fun _ _ => rfl⟩

theorem isLevel_high : IsLevel Levels.high :=
  ⟨rfl, fun _ _ => rfl, fun _ _ => rfl, fun _ _ => rfl, fun _ _ => rfl⟩

theorem IsLevel.foldl (hl : IsLevel level) (ls : List Levels) (start : Levels) :
    level (ls.foldl (· + ·) start) = level start + (ls.map level).sum := by
  induction ls generalizing start with
  | nil => exact (add_zero _).symm
  | cons l ls ih => rw [foldl_cons, ih, hl.add, map_cons, sum_cons, add_assoc]

theorem sharedOf_level (hl : IsLevel level) (ccs : List (String × Decimal × Levels))
    (layers : Layers) (parent : Census) :
    level (((sharedOf ccs layers (some parent)).map (·.unused)).getD 0) =
      ((ccs.map capOfShared).map fun cc => max 0 (cc.2.1 - level cc.2.2)).sum := by
  cases ccs with
  | nil => exact hl.zero
  | cons cc ccs =>
    show level (List.foldl _ _ _) = _
    rw [hl.foldl, hl.zero, zero_add, map_map, map_map]
    exact congrArg List.sum (map_congr_left fun c _ => hl.unusedOf _ _)

/-! ### The enterprise -/

theorem total_census {layers : Layers} {entity : String} {cen : Census} (h : census layers entity = some cen) :
    0 < cen.plans.total := by
  obtain ⟨source, -, hsome⟩ := exists_of_findSome?_eq_some h
  obtain ⟨plans, hplans, rfl⟩ := Option.map_eq_some_iff.mp hsome
  exact of_decide_eq_true (Option.filter_eq_some_iff.mp hplans).2

theorem resolveSeats_ne_nil {pe : Option PlanEvidence} {cen : Census} {seats : Seats} {source : SeatSource}
    (h : resolveSeats pe (some cen) = .ok (seats, source)) (htotal : 0 < cen.plans.total) : seats ≠ [] := by
  rintro rfl
  unfold resolveSeats at h
  dsimp only at h
  split at h
  · cases h
  split at h
  · obtain ⟨hplans, -⟩ := Prod.mk.inj (Except.ok.inj h)
    rw [hplans] at htotal
    exact lt_irrefl _ htotal
  · obtain ⟨hseats, -⟩ := Prod.mk.inj (Except.ok.inj h)
    split at hseats
    · exact append_ne_nil_of_right_ne_nil _ (cons_ne_nil _ _) hseats
    · rename_i hnone
      rw [hseats] at hnone
      refine hnone ?_
      show 0 < max cen.plans.total 0 - 0
      rw [sub_zero]
      exact lt_max_of_lt_left htotal

/-- The unused caps of the enterprise are those of all its capped cost centers. -/
theorem unused_level (r : Ran facts inp todayDay evidence commons months) (hmode : inp.mode = .enterprise)
    (hent : c.1.1 = "enterprise") {parent : Census}
    (hcensus : census (inp.layers c.1.2) "enterprise" = some parent) {seats : Seats} (hseats : seats ≠ [])
    (hl : IsLevel level) :
    level ((((entityInputs inp evidence commons c).share seats).map (·.unused)).getD 0) =
      ((cappedMonths months c.1.2).map fun m => max 0 (m.poolNano - level (consumptionStates m))).sum := by
  have hcap : (entityInputs inp evidence commons c).cap = none := by
    show capOf inp.capped c.1.1 = none
    unfold capOf
    rw [hent, if_neg (by decide)]
  have hshared : (entityInputs inp evidence commons c).shared =
      sharedOf (cappedOf commons inp.capped c.1.2) (inp.layers c.1.2) (some parent) := by
    show (if inp.mode = .enterprise ∧ c.1.1 = "enterprise" then _ else _) = _
    rw [if_pos ⟨hmode, hent⟩, hcensus]
  have hshare : (entityInputs inp evidence commons c).share seats = (entityInputs inp evidence commons c).shared := by
    have hempty : seats.isEmpty = false := isEmpty_eq_false_iff.mpr hseats
    unfold EntityInputs.share
    rw [hcap, hempty]
    cases (entityInputs inp evidence commons c).shared <;> rfl
  rw [hshare, hshared, sharedOf_level hl,
    ← ((cappedMonths_perm r c.1.2).map fun cc => max 0 (cc.2.1 - level cc.2.2)).sum_eq, map_map]
  rfl

/-- What `overage_total` computes is the consumption of the enterprise beyond what it can draw. -/
theorem blockedOverage_eq (r : Ran facts inp todayDay evidence commons months) (hmode : inp.mode = .enterprise)
    {pm : PoolMonth} (hent : c.1.1 = "enterprise") {parent : Census}
    (hcensus : census (inp.layers c.1.2) "enterprise" = some parent) {seats : Seats} (hseats : seats ≠ [])
    (hentity : pm.entityId = c.1.1) (hmonth : pm.month = c.1.2) (hl : IsLevel level) :
    let excess := max 0 (level (consumptionStates pm) - level (availOf pm.poolNano
      ((((entityInputs inp evidence commons c).share seats).map (·.unused)).getD 0)))
    blockedOverage months pm level = .ok (excess, excess) := by
  have hcc : ∀ m ∈ cappedMonths months pm.month, "cc:".toList <+: m.entityId.toList := by
    intro m hm
    obtain ⟨hmem, -, hpolicy⟩ := mem_cappedMonths hm
    obtain ⟨c', -, cap, hkey, hcap, -, -⟩ := exists_of_capped r hmem hpolicy
    unfold capOf at hcap
    split at hcap
    · rename_i hpre
      rw [hkey] at hpre
      exact hpre
    · cases hcap
  have hn : ((pm :: cappedMonths months pm.month).map (·.entityId)).Nodup := by
    refine nodup_cons.mpr ⟨fun hmem => ?_, nodup_firstOfKey _ _⟩
    obtain ⟨m, hm, heq⟩ := mem_map.mp hmem
    have hpre := hcc m hm
    rw [show m.entityId = "enterprise" from heq.trans (hentity.trans hent)] at hpre
    revert hpre
    decide
  rw [hl.availOf, unused_level r hmode hent hcensus hseats hl, ← hmonth]
  exact overageTotal_blocked (fun m => level (consumptionStates m)) hn hcc

end Run

/-! ### The agreement -/

/-- How the overage of a month of the enterprise agrees with the overage of the whole billing entity: the forecast
of an open month at each level, and the overage of a closed month of a scenario; a month whose plan is known
observes the net of its pooled cells. -/
structure Agrees (cells : List Cell) (months : List PoolMonth) (pm : PoolMonth) : Prop where
  forecast : ∀ f, pm.overageForecast = some f → ∃ l, shownLevels f = some l ∧ l.Ordered ∧
    blockedOverage months pm (·.low) = .ok (l.low, l.low) ∧ blockedOverage months pm (·.point) = .ok (l.point, l.point) ∧
      blockedOverage months pm (·.high) = .ok (l.high, l.high)
  scenario : pm.planScenario.isSome → pm.finality = .closed →
    blockedOverage months pm (·.point) = .ok (pm.overageObservedNano, pm.overageObservedNano)
  observed : pm.planScenario = none →
    pm.overageObservedNano = ((pooledCells (cellsOfKey cells (pm.entityId, pm.month))).map (·.netNano)).sum

/-- An overage that is forecast without a cap is what exceeds the pool at each level. -/
theorem overageFigure_shown {i : EntityInputs} (hcap : i.cap = none) {known : Bool} {avail : Levels} {source : SeatSource}
    {f : Figure} (h : i.overageFigure known avail source = .ok (some f)) :
    shownLevels f = some (overAt i.cm.levels avail) := by
  unfold EntityInputs.overageFigure at h
  split at h
  · rename_i fc hopen hfc
    obtain ⟨g, hg, hsome⟩ := map_eq_ok.mp h
    obtain rfl := Option.some.inj hsome
    have hpolicy : i.policy = none := by
      unfold EntityInputs.policy
      rw [hcap]
      rfl
    rw [hpolicy] at hg
    obtain ⟨hpoint, hlow, hhigh, -⟩ := figureRange_eq_ok hg
    unfold shownLevels figureLevels Common.levels
    rw [hopen, hfc, hpoint, hlow, hhigh]
    rfl
  · cases h

theorem agrees_of_ran {facts : Facts} {inp : PoolInputs} {months : List PoolMonth} (hmode : inp.mode = .enterprise)
    (h : poolMonths facts inp = .ok months) {pm : PoolMonth} (hpm : pm ∈ months) (hent : pm.entityId = "enterprise")
    (hcensus : (census (inp.layers pm.month) "enterprise").isSome) : Agrees inp.cells months pm := by
  obtain ⟨todayDay, evidence, commons, r⟩ := ran_of_poolMonths h
  obtain ⟨c, hc, seats, source, scenario, allowance, hseats, -, hm⟩ := r.months pm hpm
  have hent' : c.1.1 = "enterprise" := hm.entityId.symm.trans hent
  have hmonth : pm.month = c.1.2 := hm.month
  obtain ⟨parent, hparent⟩ := Option.isSome_iff_exists.mp hcensus
  rw [hmonth] at hparent
  rw [hent', hparent] at hseats
  have hne := resolveSeats_ne_nil hseats (total_census hparent)
  have hcap : (entityInputs inp evidence commons c).cap = none := by
    show capOf inp.capped c.1.1 = none
    unfold capOf
    rw [hent', if_neg (by decide)]
  have hstates : consumptionStates pm = c.2.levels := consumptionStates_eq hm
  have hover := hm.overage
  have hobserved := hm.observed
  have hblocked : ∀ {level : Levels → Int}, IsLevel level → _ := fun hl =>
    blockedOverage_eq r hmode hent' hparent hne hm.entityId hmonth hl
  rw [hcap, Option.isSome_none, Bool.or_false] at hobserved
  generalize availOf pm.poolNano _ = avail at hover hobserved hblocked
  rw [hstates] at hblocked
  constructor
  · intro f hf
    rw [hf] at hover
    have hshown : shownLevels f = some (overAt c.2.levels avail) := overageFigure_shown hcap hover
    have hordered : (overAt c.2.levels avail).Ordered := by
      obtain ⟨n, hn, hlevels⟩ := Option.map_eq_some_iff.mp hshown
      rw [← hlevels]
      exact figureLevels_ordered f hn
    exact ⟨_, hshown, hordered, hblocked isLevel_low, hblocked isLevel_point, hblocked isLevel_high⟩
  · intro hscenario hclosed
    have hfin : c.2.finality = .closed := hm.finality.symm.trans hclosed
    rw [hm.planScenario] at hscenario
    have hlevels : c.2.levels.point = c.2.consumed := by
      unfold Common.levels
      rw [hfin]
    rw [hblocked isLevel_point, hobserved, if_neg (by rw [Option.isNone_eq_false_iff.mpr hscenario]; decide), hlevels]
    rfl
  · intro hnone
    rw [hm.planScenario] at hnone
    obtain ⟨estimates, hcommon⟩ := r.common c hc
    have hkey : (pm.entityId, pm.month) = c.1 := Prod.ext hm.entityId hm.month
    rw [hobserved, if_pos (by rw [hnone]; rfl), hkey]
    exact (common_eq hcommon).2.1

/-! ### Nothing raises -/

section Raises

variable {facts : Facts} {i : EntityInputs} {unused : Levels}

theorem regime_ok {low high : Int} (h : low ≤ high) (pool : Option Int) : ∃ r, regime low high pool = .ok r := by
  unfold regime
  cases pool with
  | none => exact ⟨_, rfl⟩
  | some pool =>
    dsimp only
    rw [if_neg (not_lt.mpr h)]
    split_ifs <;> exact ⟨_, rfl⟩

/-- The regime of an entity is told: the consumption beyond the unused caps is ordered as the consumption is. -/
theorem regimeOf_ok (hfc : ∀ fc, i.cm.fc = some fc → fc.Ordered) (hu : Unused unused) (known : Bool) (pool : Int) :
    ∃ r, i.regimeOf known pool unused = .ok r := by
  unfold EntityInputs.regimeOf
  split
  · exact ⟨_, rfl⟩
  split
  · exact regime_ok le_rfl _
  · exact ⟨_, rfl⟩
  · rename_i fc _ hsome
    have hf := hfc fc hsome
    exact regime_ok (Int.sub_le_sub (hf.low_le.trans hf.le_high) (hu.high_le.trans hu.le_low)) _

theorem forecastFigure_ok (hfc : ∀ fc, i.cm.fc = some fc → fc.Ordered) : ∃ f, i.forecastFigure = .ok f := by
  unfold EntityInputs.forecastFigure
  split
  · rename_i fc _ hsome
    obtain ⟨f, hf⟩ := figureRange_ok (hfc fc hsome) (show Basis.listEquivalent ≠ .invoice by decide) forecastNote false
    exact ⟨some f, by rw [hf]; rfl⟩
  · exact ⟨_, rfl⟩

theorem overAt_ordered {use : Levels} (h : use.Ordered) (hu : Unused unused) (pool : Int) :
    (overAt use (availOf pool unused)).Ordered :=
  ⟨max_le_max_left 0 (Int.sub_le_sub h.low_le (Int.add_le_add_left hu.le_low pool)),
    max_le_max_left 0 (Int.sub_le_sub h.le_high (Int.add_le_add_left hu.high_le pool))⟩

theorem overageFigure_ok (hfc : ∀ fc, i.cm.fc = some fc → fc.Ordered) (hu : Unused unused) (known : Bool) (pool : Int)
    (source : SeatSource) : ∃ f, i.overageFigure known (availOf pool unused) source = .ok f := by
  have hlist : Basis.list ≠ .invoice := by decide
  unfold EntityInputs.overageFigure
  split
  · rename_i fc _ hsome
    have hover := overAt_ordered (hfc fc hsome) hu pool
    have hok : ∃ f, overageForecast fc (availOf pool unused) i.policy (source = .reportUsers) = .ok f := by
      unfold overageForecast
      split
      · exact figureRange_ok (l := 0) ⟨le_rfl, le_rfl⟩ hlist _ _
      · have hzero : { overAt fc.toLevels (availOf pool unused) with low := 0 }.Ordered := ⟨le_max_left _ _, hover.le_high⟩
        exact figureRange_ok hzero hlist _ _
      · exact figureRange_ok hover hlist _ _
    obtain ⟨f, hf⟩ := hok
    exact ⟨some f, by rw [hf]; rfl⟩
  · exact ⟨_, rfl⟩

theorem poolMonth_error (hfc : ∀ fc, i.cm.fc = some fc → fc.Ordered) {seats : Seats} {source : SeatSource}
    {scenario : Option KnownPlan} (hu : Unused (((i.share seats).map (·.unused)).getD 0)) {e : Stop}
    (h : i.poolMonth facts seats source scenario = .error e) :
    poolCredits facts (scenarioSeats seats scenario) i.month i.eligible = .error e := by
  unfold EntityInputs.poolMonth at h
  cases hcredits : poolCredits facts (scenarioSeats seats scenario) i.month i.eligible with
  | error e' =>
    rw [hcredits] at h
    have herr : (Except.error e' : Except Stop PoolMonth) = .error e := h
    rw [Except.error.inj herr]
  | ok credits =>
    obtain ⟨reg, hreg⟩ := regimeOf_ok hfc hu (i.cap.isSome || !seats.isEmpty) (creditsToNano (i.pool seats credits.1))
    obtain ⟨fcFig, hforecast⟩ := forecastFigure_ok hfc
    obtain ⟨overFig, hover⟩ := overageFigure_ok hfc hu (i.cap.isSome || !seats.isEmpty)
      (creditsToNano (i.pool seats credits.1)) source
    rw [hcredits] at h
    simp only [bind, Except.bind, hreg, hforecast, hover] at h
    cases h

end Raises

/-! ### The overage of a run -/

/-- The overage of a run is consistent: the enterprise agrees with the whole billing entity, every forecast has its
point between its ends, and neither the regime of a pool month nor a figure of it raises. -/
structure OverageConsistent (facts : Facts) (inp : PoolInputs) : Prop where
  agrees : ∀ months, poolMonths facts inp = .ok months → ∀ pm ∈ months, pm.entityId = "enterprise" →
    (census (inp.layers pm.month) "enterprise").isSome → Agrees inp.cells months pm
  ordered : ∀ months, poolMonths facts inp = .ok months → ∀ pm ∈ months, ∀ f,
    pm.forecast = some f ∨ pm.overageForecast = some f → ∃ l, shownLevels f = some l ∧ l.Ordered
  regime : ∀ months, poolMonths facts inp = .ok months → ∀ pm ∈ months,
    ∃ r, regime (consumptionStates pm).low (consumptionStates pm).high (some pm.poolNano) = .ok r
  raises : ∀ todayDay evidence estimates commons,
    commonsOf facts inp todayDay estimates (poolKeys inp.cells evidence) = .ok commons → ∀ c ∈ commons,
      ∀ seats source scenario e, (entityInputs inp evidence commons c).poolMonth facts seats source scenario = .error e →
        poolCredits facts (scenarioSeats seats scenario) c.1.2 inp.eligible = .error e

/-- The figures of a pool month are priced. -/
theorem shown_of_month {facts : Facts} {i : EntityInputs} {seats : Seats} {source : SeatSource}
    {scenario : Option KnownPlan} {allowance : Decimal} {pm : PoolMonth}
    (hm : IsMonth facts i seats source scenario allowance pm) {f : Figure}
    (h : pm.forecast = some f ∨ pm.overageForecast = some f) : f.nano.isSome := by
  rcases h with h | h
  · have hforecast := hm.forecast
    rw [h] at hforecast
    obtain ⟨fc, -, -, hn, -⟩ := forecastFigure_eq_some hforecast
    rw [hn]
    rfl
  · have hover := hm.overage
    rw [h] at hover
    unfold EntityInputs.overageFigure at hover
    split at hover
    · obtain ⟨g, hg, hsome⟩ := map_eq_ok.mp hover
      obtain ⟨n, hn, -⟩ := overageForecast_nonneg hg
      rw [← Option.some.inj hsome, hn]
      rfl
    · cases hover

/-- In enterprise mode the overage of every run is consistent. -/
theorem overage_consistent {facts : Facts} {inp : PoolInputs} (hmode : inp.mode = .enterprise) :
    OverageConsistent facts inp where
  agrees months h pm hpm hent hcensus := agrees_of_ran hmode h hpm hent hcensus
  ordered months h pm hpm f hf := by
    obtain ⟨todayDay, evidence, commons, r⟩ := ran_of_poolMonths h
    obtain ⟨c, -, seats, source, scenario, allowance, -, -, hm⟩ := r.months pm hpm
    obtain ⟨n, hn⟩ := Option.isSome_iff_exists.mp (shown_of_month hm hf)
    exact ⟨figureLevels f n, by rw [shownLevels, hn]; rfl, figureLevels_ordered f hn⟩
  regime months h pm hpm := by
    obtain ⟨todayDay, evidence, commons, r⟩ := ran_of_poolMonths h
    obtain ⟨c, hc, seats, source, scenario, allowance, -, -, hm⟩ := r.months pm hpm
    obtain ⟨estimates, hcommon⟩ := r.common c hc
    have hlevels := levels_ordered hcommon
    rw [consumptionStates_eq hm]
    exact regime_ok (hlevels.low_le.trans hlevels.le_high) _
  raises todayDay evidence estimates commons h c hc seats source scenario e herr := by
    obtain ⟨-, hcommons⟩ := commonsOf_spec h
    obtain ⟨est, hcommon⟩ := hcommons c hc
    refine poolMonth_error (fun fc hfc => ?_) (share_unused hcommons evidence c seats) herr
    obtain ⟨-, -, hforecast⟩ := (common_eq hcommon).2.2 fc hfc
    obtain ⟨first, last, cutoff, rows, -, hs⟩ := forecast_sound hforecast
    exact hs.ordered

/-! ### Two closed months -/

theorem usedCell_valid : (dayFields "enterprise" "2026-10-05" (.ofInt 2000)).check = none := by decide

def usedInputs (plan : Plan) : PoolInputs where
  cells := [⟨_, usedCell_valid⟩]
  today := "2026-12-01"
  plans := [{ entityId := "enterprise", month := "2026-10", source := .orgSettings, seats := [(plan, 1)] }]
  layers := fun _ source => if source = .licenses then [("enterprise", [(plan, .ofInt 1)])] else []

/-- What a month observes, and what `overage_total` computes for it. -/
def observedAndComputed (months : List PoolMonth) : List (Int × Option (Int × Int)) :=
  months.map fun pm => (pm.overageObservedNano, (blockedOverage months pm (·.point)).toOption)

/-- The business seat has 1900 credits, so 100 credits ($1) are over; the bill of the month shows no net amount. -/
theorem known_plan_observes_net :
    (poolMonths packagedFacts (usedInputs (some .business))).toOption.map observedAndComputed =
      some [(0, some (1000000000, 1000000000))] := by
  decide +kernel

/-- Of an unknown plan the scenario of a business seat agrees. -/
theorem unknown_plan_agrees : OverageConsistent packagedFacts (usedInputs none) ∧
    ∃ months pm, poolMonths packagedFacts (usedInputs none) = .ok months ∧ pm ∈ months ∧
      pm.planScenario = some .business ∧ Agrees (usedInputs none).cells months pm := by
  have hrun : (poolMonths packagedFacts (usedInputs none)).toOption.map (List.map fun pm =>
      (pm.entityId, pm.month, pm.planScenario)) =
      some [("enterprise", "2026-10", some .business), ("enterprise", "2026-10", some .enterprise)] := by
    decide +kernel
  have hconsistent : OverageConsistent packagedFacts (usedInputs none) := overage_consistent rfl
  obtain ⟨months, hmonths, hparts⟩ := Option.map_eq_some_iff.mp hrun
  obtain ⟨pm, rest, rfl, hpm, -⟩ := map_eq_cons_iff.mp hparts
  obtain ⟨hent, hpm⟩ := Prod.mk.inj hpm
  obtain ⟨hmonth, hscenario⟩ := Prod.mk.inj hpm
  have hok := toOption_eq_some.mp hmonths
  refine ⟨hconsistent, _, pm, hok, mem_cons_self, hscenario,
    hconsistent.agrees _ hok pm mem_cons_self hent ?_⟩
  rw [hmonth]
  decide +kernel

end TokenBill.Pool
