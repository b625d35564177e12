import TokenBill.Copilot.CellGame

/-!
# What the cell game shares out

The credits of the players add up to what all of them save over what no player saves. No
player saves nothing exactly when no clamp acts on the cells as they are: a direct unit of
negative credits is cut to 0 in every coalition, and so are negative pooled units, whose
entity then consumes more than it did. `Quiet` says that none of this happens, and
`game_fair` that the game is then shared out as the plan says.
-/

namespace TokenBill.CellGame

open General List

/-! ### Rounding -/

theorem round_eq_iff {x : ℚ} {k : Int} : round x = k ↔ 2 * |x - k| < 1 ∨ 2 * |x - k| = 1 ∧ k % 2 = 0 := by
  have hd : (0 : ℚ) < x.den := by exact_mod_cast x.den_pos
  have hdist : |x - k| = ((|x.num - k * x.den| : Int) : ℚ) / x.den := by
    have hsub : x - k = ((x.num - k * x.den : Int) : ℚ) / x.den := by
      rw [eq_div_iff hd.ne', sub_mul, Rat.mul_den_eq_num]
      push_cast
      ring
    rw [hsub, abs_div, abs_of_pos hd, Int.cast_abs]
  unfold round
  rw [divHalfEven_eq_iff (by exact_mod_cast x.den_pos), hdist, ← mul_div_assoc, div_lt_one hd,
    div_eq_one_iff_eq hd.ne']
  norm_cast

@[simp] theorem round_intCast (n : Int) : round n = n := round_eq_iff.mpr (.inl (by simp))

theorem le_round {x : ℚ} {k : Int} (h : (k : ℚ) ≤ x) : k ≤ round x := by
  refine le_divHalfEven (by exact_mod_cast x.den_pos) ?_
  have hmul := mul_le_mul_of_nonneg_right h (Nat.cast_nonneg (α := ℚ) x.den)
  rw [Rat.mul_den_eq_num] at hmul
  exact_mod_cast hmul

/-- Whether a level stays as it is when what it is scaled by is `r` more than `p`. -/
def Absorbed (level p r : Int) : Prop := 2 * |level| * r < p ∨ 2 * |level| * r = p ∧ level % 2 = 0

theorem round_scaled_eq_iff {level p r : Int} (hp : 0 < p) (hr : 0 ≤ r) :
    round (level * ((p + r : Int) : ℚ) / p) = level ↔ Absorbed level p r := by
  have hpos : (0 : ℚ) < p := by exact_mod_cast hp
  have hdist : 2 * |(level * ((p + r : Int) : ℚ) / p) - level| = ((2 * |level| * r : Int) : ℚ) / p := by
    have hsub : (level * ((p + r : Int) : ℚ) / p) - level = (level * r : ℚ) / p := by
      field_simp
      push_cast
      ring
    rw [hsub, abs_div, abs_mul, abs_of_pos hpos, abs_of_nonneg (show (0 : ℚ) ≤ r by exact_mod_cast hr)]
    push_cast
    ring
  rw [round_eq_iff, hdist, div_lt_one hpos, div_eq_one_iff_eq hpos.ne', Int.cast_lt, Int.cast_inj]
  rfl

/-! ### Triples -/

theorem spread_ordered {point : Int} {values : List Int} (h : point ∈ values) :
    (spread point values).Ordered := by
  obtain ⟨low, hlow⟩ := Option.isSome_iff_exists.mp (isSome_min?_of_mem h)
  obtain ⟨high, hhigh⟩ := Option.isSome_iff_exists.mp (isSome_max?_of_mem h)
  unfold spread
  rw [hlow, hhigh]
  exact ⟨(min?_eq_some_iff.mp hlow).2 _ h, (max?_eq_some_iff.mp hhigh).2 _ h⟩

/-- An envelope holds the value of the point state. -/
theorem envelope_ordered {values : List (State × Int)} (h : ({} : State) ∈ values.map (·.1)) :
    (envelope values).Ordered := by
  unfold envelope
  cases hlookup : values.lookup {} with
  | none =>
    obtain ⟨v, hv, hst⟩ := mem_map.mp h
    exact absurd (lookup_eq_none_iff.mp hlookup v hv) (by simp [hst])
  | some v => exact spread_ordered (mem_map.mpr ⟨_, mem_of_lookup hlookup, rfl⟩)

theorem project_ordered {t t' : Triple} {cls : LeverClass} (h : project t cls = .ok t') : t'.Ordered := by
  unfold project at h
  split at h
  · cases h
  · cases h
    exact spread_ordered (by simp)

theorem sumTriples_ordered {ts : List Triple} (h : ∀ t ∈ ts, t.Ordered) : (sumTriples ts).Ordered :=
  ⟨sum_le_sum fun t ht => (h t ht).1, sum_le_sum fun t ht => (h t ht).2⟩

namespace Game

variable {g : Game}

/-! ### Figures of a plan -/

theorem point_mem_states (g : Game) : ({} : State) ∈ g.states :=
  mem_flatMap.mpr ⟨_, mem_cons_self, mem_flatMap.mpr ⟨_, mem_cons_self,
    mem_flatMap.mpr ⟨_, mem_cons_self, mem_flatMap.mpr ⟨_, mem_cons_self,
      mem_flatMap.mpr ⟨_, mem_cons_self, mem_cons_self⟩⟩⟩⟩⟩

theorem overStates_states {α : Type} {f : State → Except Error α} {values : List (State × α)}
    (h : g.overStates f = .ok values) : values.map (·.1) = g.states := by
  have hpairs : List.Forall₂ (fun st (v : State × α) => st = v.1) g.states values :=
    (mapM_eq_ok.mp h).imp fun st v hone => by
      obtain ⟨a, -, rfl⟩ := map_eq_ok.mp hone
      rfl
  rw [← forall₂_eq_eq_eq, forall₂_map_left_iff]
  exact hpairs.flip.imp fun _ _ h => h.symm

theorem overStates_ordered {f : State → Except Error Int} {values : List (State × Int)}
    (h : g.overStates f = .ok values) : (envelope values).Ordered :=
  envelope_ordered (overStates_states h ▸ g.point_mem_states)

theorem creditsOf_ordered {phi : List (State × Credits)} {f : State → Except Error Credits}
    (h : g.overStates f = .ok phi) (p : Player) : (creditsOf phi p).Ordered := by
  refine envelope_ordered ?_
  rw [map_map]
  exact overStates_states h ▸ g.point_mem_states

theorem leverTriples_ordered {values : State → Finset String → Except Error Int}
    {phi : List (State × Credits)} {f : State → Except Error Credits} (hphi : g.overStates f = .ok phi)
    {basis : Basis} {p : Player} {r : LeverTriples} (h : g.leverTriples values phi basis p = .ok r) :
    r.standalone.Ordered ∧ r.shapley.Ordered ∧ r.projected.Ordered := by
  obtain ⟨alone, halone, h⟩ := bind_eq_ok.mp h
  obtain ⟨vs, hvs, rfl⟩ := map_eq_ok.mp halone
  obtain ⟨projected, hproj, h⟩ := bind_eq_ok.mp h
  obtain rfl := pure_eq_ok.mp h
  exact ⟨overStates_ordered hvs, creditsOf_ordered hphi p, project_ordered hproj⟩

theorem assemble_ordered {plan : PlanTriples} (h : g.assemble = .ok plan) : ∀ t ∈ plan.all, t.Ordered := by
  unfold assemble at h
  split at h
  · cases h
    intro t ht
    simp only [PlanTriples.all, emptyPlan, flatMap_nil, mem_cons, not_mem_nil, or_false,
      or_self] at ht
    exact ht ▸ ⟨le_refl 0, le_refl 0⟩
  · obtain ⟨phi, hphi, h⟩ := bind_eq_ok.mp h
    obtain ⟨phiH, hphiH, h⟩ := bind_eq_ok.mp h
    obtain ⟨joint, hjoint, h⟩ := bind_eq_ok.mp h
    obtain ⟨jointH, hjointH, h⟩ := bind_eq_ok.mp h
    obtain ⟨results, hresults, h⟩ := bind_eq_ok.mp h
    obtain ⟨heads, hheads, h⟩ := bind_eq_ok.mp h
    obtain ⟨alone, -, h⟩ := bind_eq_ok.mp h
    obtain rfl := pure_eq_ok.mp h
    obtain ⟨_, hj, rfl⟩ := map_eq_ok.mp hjoint
    obtain ⟨_, hjH, rfl⟩ := map_eq_ok.mp hjointH
    have hres : ∀ r ∈ results, r.standalone.Ordered ∧ r.shapley.Ordered ∧ r.projected.Ordered :=
      fun r hr => by
        obtain ⟨p, -, hp⟩ := exists_of_mem_right (mapM_eq_ok.mp hresults) hr
        exact leverTriples_ordered hphi hp
    have hhead : ∀ r ∈ heads, r.standalone.Ordered ∧ r.shapley.Ordered ∧ r.projected.Ordered :=
      fun r hr => by
        obtain ⟨p, -, hp⟩ := exists_of_mem_right (mapM_eq_ok.mp hheads) hr
        exact leverTriples_ordered hphiH hp
    have hsum : ∀ {rs : List LeverTriples},
        (∀ r ∈ rs, r.standalone.Ordered ∧ r.shapley.Ordered ∧ r.projected.Ordered) →
        (sumTriples (rs.map (·.projected))).Ordered := fun hrs => sumTriples_ordered fun t ht => by
      obtain ⟨r, hr, rfl⟩ := mem_map.mp ht
      exact (hrs r hr).2.2
    intro t ht
    rcases mem_cons.mp ht with rfl | ht
    · exact overStates_ordered hj
    rcases mem_cons.mp ht with rfl | ht
    · exact hsum hres
    rcases mem_cons.mp ht with rfl | ht
    · split
      · exact hsum hhead
      · exact overStates_ordered hjH
    · obtain ⟨r, hr, ht⟩ := mem_flatMap.mp ht
      have hr : r.standalone.Ordered ∧ r.shapley.Ordered ∧ r.projected.Ordered := by
        rcases mem_append.mp hr with hr | hr
        · exact hres r hr
        · split at hr
          · exact hhead r hr
          · cases hr
      simp only [mem_cons, not_mem_nil, or_false] at ht
      rcases ht with rfl | rfl | rfl
      · exact hr.1
      · exact hr.2.1
      · exact hr.2.2

/-! ### What a game evaluates to -/

/-- The groups `overage_total` rejects: several entities without a cap beside one with a cap. -/
def Mixes (members : List (String × Ent)) : Prop :=
  let caps := byCostCenter (capsOf members)
  caps ≠ [] ∧ 1 < (uncapped caps (members.map (·.1) ++ members.map (·.1))).length

/-- The overage of a group, where there is one. -/
def overageNano (members : List (String × Ent)) (consumption pools : String × Ent → Int) (cap : CapPolicy) :
    Int :=
  match overage members consumption pools cap with
  | .ok nano => nano
  | .error _ => 0

variable {members : List (String × Ent)} {u : EvalKey × UnitSums} {m : String × Ent}

theorem overage_eq_ok_iff {consumption pools : String × Ent → Int}
    {cap : CapPolicy} {nano : Int} : overage members consumption pools cap = .ok nano ↔
      ¬ Mixes members ∧ overageNano members consumption pools cap = nano := by
  unfold overageNano overage overageTotal Mixes
  simp only [map_map, Function.comp_def]
  generalize byCostCenter (capsOf members) = caps
  generalize (uncapped caps (members.map (·.1) ++ members.map (·.1))).length = n
  by_cases hn : 1 < n
  · by_cases hc : caps = []
    · simp [hn, hc, Functor.map, Except.map]
    · simp [hn, hc, Functor.map, Except.map]
  · simp [hn, Functor.map, Except.map]

/-- Consumption that is the same leaves the overage as it is. -/
theorem overageNano_congr {f f' pools pools' : String × Ent → Int}
    (hf : ∀ m ∈ members, f m = f' m) (hp : ∀ m ∈ members, pools m = pools' m) (cap : CapPolicy) :
    overageNano members f pools cap = overageNano members f' pools' cap := by
  have hc : members.map (fun m => (m.1, f m)) = members.map fun m => (m.1, f' m) :=
    map_congr_left fun m hm => by rw [hf m hm]
  have hpool : members.map (fun m => (m.1, pools m)) = members.map fun m => (m.1, pools' m) :=
    map_congr_left fun m hm => by rw [hp m hm]
  unfold overageNano overage
  rw [hc, hpool]

/-- `groupChange`, where the overages are. -/
def change (g : Game) (active : List Player) (st : State) (members : List (String × Ent)) : Int × Int :=
  let before := fun m : String × Ent => m.2.levels.at st.level
  let after := g.scaledLevel (transform active) st
  let grown := grownPool active
  (overageNano members before (fun m => m.2.poolNano) st.cap - overageNano members after grown st.cap,
    (members.map fun m => before m - after m).sum -
      (overageNano members before grown st.cap - overageNano members after grown st.cap))

theorem groupChange_eq_ok_iff {active : List Player} {st : State} {c : Int × Int} :
    g.groupChange active st members = .ok c ↔ ¬ Mixes members ∧ g.change active st members = c := by
  constructor
  · intro h
    obtain ⟨ov00, h00, h⟩ := bind_eq_ok.mp h
    obtain ⟨ovSS, hSS, h⟩ := bind_eq_ok.mp h
    obtain ⟨ov0S, h0S, h⟩ := bind_eq_ok.mp h
    obtain rfl := pure_eq_ok.mp h
    obtain ⟨hmix, rfl⟩ := overage_eq_ok_iff.mp h00
    obtain ⟨-, rfl⟩ := overage_eq_ok_iff.mp hSS
    obtain ⟨-, rfl⟩ := overage_eq_ok_iff.mp h0S
    exact ⟨hmix, rfl⟩
  · rintro ⟨hmix, rfl⟩
    exact bind_eq_ok.mpr ⟨_, overage_eq_ok_iff.mpr ⟨hmix, rfl⟩, bind_eq_ok.mpr
      ⟨_, overage_eq_ok_iff.mpr ⟨hmix, rfl⟩, bind_eq_ok.mpr
        ⟨_, overage_eq_ok_iff.mpr ⟨hmix, rfl⟩, rfl⟩⟩⟩

/-- Billing groups that `overage_total` takes. -/
def Regular (g : Game) : Prop := ∀ members ∈ g.groups, ¬ Mixes members

/-- `evaluate` of a regular game. -/
def result (g : Game) (coalition : Finset String) (st : State) : Int × Int :=
  let active := g.active coalition
  let t := transform active
  let runner := active.countP (fun p => decide (p.kind = .runner)) *
    (g.runnerLines.map fun l => if st.runnerHigh then l.2 else l.1).sum
  let changes := g.groups.map (g.change active st)
  (round (((active.map (·.feeSaving)).sum + runner : Int) +
    (g.directUnits.map (directInvoice t st)).sum + (changes.map (·.1)).sum),
    round ((g.directUnits.map (directDiscount t st)).sum + (changes.map (·.2)).sum))

theorem evaluate_eq_ok_iff {coalition : Finset String} {st : State} {r : Int × Int} :
    g.evaluate coalition st = .ok r ↔ g.Regular ∧ g.result coalition st = r := by
  have hchanges : ∀ {active : List Player} {cs : List (Int × Int)},
      g.groups.mapM (g.groupChange active st) = .ok cs ↔
        g.Regular ∧ g.groups.map (g.change active st) = cs := fun {active cs} => by
    rw [mapM_eq_ok]
    unfold Regular
    generalize g.groups = groups
    constructor
    · intro h
      induction h with
      | nil => exact ⟨(fun _ h => nomatch h), rfl⟩
      | cons hone _ ih =>
        obtain ⟨hmix, rfl⟩ := groupChange_eq_ok_iff.mp hone
        exact ⟨forall_mem_cons.mpr ⟨hmix, ih.1⟩, by rw [map_cons, ih.2]⟩
    · rintro ⟨hreg, rfl⟩
      rw [forall₂_map_right_iff, forall₂_same]
      exact fun members hm => groupChange_eq_ok_iff.mpr ⟨hreg members hm, rfl⟩
  constructor
  · intro h
    obtain ⟨changes, hc, h⟩ := bind_eq_ok.mp h
    obtain ⟨hreg, rfl⟩ := hchanges.mp hc
    exact ⟨hreg, pure_eq_ok.mp h⟩
  · rintro ⟨hreg, rfl⟩
    exact bind_eq_ok.mpr ⟨_, hchanges.mpr ⟨hreg, rfl⟩, rfl⟩

/-! ### Cells as they are -/

/-- The transform of a coalition that leaves the cells as they are. -/
def idle : Transform := ⟨[], false, false⟩

theorem gross_of_unitOf {cell : Cell} {u : Unit} (h : g.unitOf cell = some u) : u.2.gross = u.2.value := by
  unfold unitOf at h
  dsimp only at h
  split at h
  · cases h
  · split at h
    · cases h
    · split at h
      · cases h
      · cases h
        rfl

theorem gross_of_units {u : Unit} (h : u ∈ g.units) : u.2.gross = u.2.value := by
  obtain ⟨k, total⟩ := u
  have hamount := mem_tally.mp ((mem_insertionSort _).mp h)
  unfold amountOf at hamount
  split at hamount
  · cases hamount
    show UnitSums.grossHom _ = UnitSums.valueHom _
    rw [map_list_sum, map_list_sum]
    refine congrArg List.sum (map_congr_left fun s hs => ?_)
    obtain ⟨u, hu, rfl⟩ := mem_map.mp hs
    obtain ⟨cell, -, hcell⟩ := mem_filterMap.mp (mem_filter.mp hu).1
    exact gross_of_unitOf hcell
  · cases hamount

theorem gross_of_directUnits (h : u ∈ g.directUnits) : u.2.gross = u.2.value := by
  obtain ⟨v, hv, rfl⟩ := mem_map.mp h
  exact gross_of_units (mem_filter.mp hv).1

theorem transformed_idle (st : State) (u : EvalKey × UnitSums) :
    transformed idle st u = (max u.2.value 0 : Int) := by
  simp [transformed, idle]

/-- A direct unit saves what its value is below 0. -/
theorem directInvoice_idle (st : State) (hu : u.2.gross = u.2.value) :
    directInvoice idle st u = (min u.2.value 0 : Int) := by
  unfold directInvoice
  rw [transformed_idle, hu]
  rcases lt_or_ge 0 u.2.value with hv | hv
  · simp [hv, max_eq_left hv.le, min_eq_right hv.le]
  · simp [not_lt.mpr hv, max_eq_right hv, min_eq_left hv]

theorem directDiscount_idle (st : State) (hu : u.2.gross = u.2.value) : directDiscount idle st u = 0 := by
  unfold directDiscount
  rw [transformed_idle, hu]
  rcases lt_or_ge 0 u.2.value with hv | hv
  · simp [max_eq_left hv.le]
  · simp [not_lt.mpr hv]

/-- What the negative pooled units of an entity take from its credits. -/
def refunds (g : Game) (name : String) : Int :=
  ((g.pooledUnits.filter fun u => decide (u.1.entity = name)).map fun u => max (-u.2.value) 0).sum

theorem refunds_nonneg (name : String) : 0 ≤ g.refunds name := by
  refine sum_nonneg fun n hn => ?_
  obtain ⟨u, -, rfl⟩ := mem_map.mp hn
  exact le_max_right _ _

theorem sum_pooledUnits (name : String) :
    ((g.pooledUnits.filter fun u => decide (u.1.entity = name)).map (·.2.value)).sum = g.pooled0 name := by
  have hsum := congrArg UnitSums.valueHom (sum_tally
    ((g.units.filter (·.1.pooled)).map fun u => (g.evalKey u.1, u.2.credit))
    fun k => decide (k.entity = name))
  rw [map_list_sum, map_list_sum, map_map, map_map] at hsum
  refine hsum.trans ?_
  rw [filter_map, map_map, filter_filter]
  congr 2
  exact filter_congr fun u _ => Bool.and_comm _ _

theorem pooledValue_idle (st : State) (name : String) :
    g.pooledValue idle st name = ((g.pooled0 name + g.refunds name : Int) : ℚ) := by
  have hvalue : ∀ u : EvalKey × UnitSums,
      transformed idle st u = ((u.2.value + max (-u.2.value) 0 : Int) : ℚ) := fun u => by
    rw [transformed_idle]
    congr 1
    omega
  unfold pooledValue
  rw [map_congr_left fun u _ => hvalue u, ← sum_pooledUnits, refunds, ← sum_map_add,
    Int.cast_list_sum, map_map]
  rfl

/-- An entity consumes what it did exactly when its refunds are absorbed. -/
theorem scaledLevel_idle_iff (st : State) (m : String × Ent) :
    g.scaledLevel idle st m = m.2.levels.at st.level ↔
      (0 < g.pooled0 m.1 → Absorbed (m.2.levels.at st.level) (g.pooled0 m.1) (g.refunds m.1)) := by
  unfold scaledLevel
  by_cases hp : 0 < g.pooled0 m.1
  · rw [if_pos hp, pooledValue_idle, round_scaled_eq_iff hp (refunds_nonneg _)]
    exact ⟨fun h _ => h, fun h => h hp⟩
  · rw [if_neg hp]
    exact ⟨fun _ h => absurd h hp, fun _ => rfl⟩

/-- It never consumes less. -/
theorem le_scaledLevel_idle (st : State) (hl : 0 ≤ m.2.levels.at st.level) :
    m.2.levels.at st.level ≤ g.scaledLevel idle st m := by
  unfold scaledLevel
  by_cases hp : 0 < g.pooled0 m.1
  · rw [if_pos hp, pooledValue_idle]
    refine le_round ?_
    have hpos : (0 : ℚ) < g.pooled0 m.1 := by exact_mod_cast hp
    rw [le_div_iff₀ hpos]
    exact_mod_cast mul_le_mul_of_nonneg_left (le_add_of_nonneg_right (refunds_nonneg m.1)) hl
  · rw [if_neg hp]

/-! ### Quiet games -/

/-- No clamp acts on the cells and pools as they are. -/
structure Quiet (g : Game) : Prop where
  /-- No direct unit has negative credits. -/
  direct : ∀ u ∈ g.units, u.1.pooled = false → 0 ≤ u.2.value
  /-- What negative pooled units take is too little to move a level by rounding. -/
  pooled : ∀ m ∈ g.ents, 0 < g.pooled0 m.1 →
    ∀ level, Absorbed (m.2.levels.at level) (g.pooled0 m.1) (g.refunds m.1)
  /-- No pool is negative. -/
  pools : ∀ m ∈ g.ents, 0 ≤ m.2.poolNano

theorem mem_ents_of_mem_groups (hm : members ∈ g.groups) (h : m ∈ members) : m ∈ g.ents := by
  obtain ⟨group, -, rfl⟩ := mem_map.mp hm
  exact (mem_filter.mp h).1

theorem exists_ent_group (h : m ∈ g.ents) : ∃ members ∈ g.groups, m ∈ members :=
  ⟨_, mem_map.mpr ⟨m.2.group, (mem_insertionSort _).mpr
    (mem_dedup.mpr (mem_map.mpr ⟨m, h, rfl⟩)), rfl⟩,
    mem_filter.mpr ⟨h, decide_eq_true rfl⟩⟩

theorem Quiet.scaledLevel (h : Quiet g) (st : State) (hm : m ∈ g.ents) :
    g.scaledLevel idle st m = m.2.levels.at st.level :=
  (scaledLevel_idle_iff st m).mpr fun hp => h.pooled m hm hp st.level

/-- A coalition that leaves the cells as they are frees no headroom. -/
theorem Quiet.headroom (h : Quiet g) {coalition : Finset String}
    (hidle : transform (g.active coalition) = idle) (st : State) : (g.result coalition st).2 = 0 := by
  have hchange : ∀ members ∈ g.groups, (g.change (g.active coalition) st members).2 = 0 :=
    fun members hmem => by
      have hlevel : ∀ m ∈ members, m.2.levels.at st.level = g.scaledLevel idle st m :=
        fun m hm => (h.scaledLevel st (mem_ents_of_mem_groups hmem hm)).symm
      unfold change
      dsimp only
      rw [hidle, overageNano_congr hlevel (fun _ _ => rfl), sub_self, sub_zero]
      refine sum_eq_zero fun n hn => ?_
      obtain ⟨m, hm, rfl⟩ := mem_map.mp hn
      rw [hlevel m hm, sub_self]
  have hdisc : ∀ x ∈ g.directUnits.map (directDiscount idle st), x = 0 := fun x hx => by
    obtain ⟨u, hu, rfl⟩ := mem_map.mp hx
    exact directDiscount_idle st (gross_of_directUnits hu)
  have hsum : ∀ x ∈ (g.groups.map (g.change (g.active coalition) st)).map (·.2), x = 0 := fun x hx => by
    obtain ⟨c, hc, rfl⟩ := mem_map.mp hx
    obtain ⟨members, hmem, rfl⟩ := mem_map.mp hc
    exact hchange members hmem
  unfold result
  dsimp only
  rw [hidle, sum_eq_zero hdisc, sum_eq_zero hsum, Int.cast_zero, add_zero]
  exact round_intCast 0

theorem active_empty : g.active ∅ = [] := by
  unfold active
  simp

/-- What the game is worth to no player. -/
theorem result_empty (g : Game) (st : State) : g.result ∅ st =
    ((g.directUnits.map fun u => min u.2.value 0).sum + (g.groups.map fun m => (g.change [] st m).1).sum,
      (g.groups.map fun m => (g.change [] st m).2).sum) := by
  have hinv : (g.directUnits.map (directInvoice idle st)).sum =
      (((g.directUnits.map fun u => min u.2.value 0).sum : Int) : ℚ) := by
    rw [Int.cast_list_sum, map_map]
    exact congrArg List.sum (map_congr_left fun u hu => directInvoice_idle st (gross_of_directUnits hu))
  have hdisc : ∀ x ∈ g.directUnits.map (directDiscount idle st), x = 0 := fun x hx => by
    obtain ⟨u, hu, rfl⟩ := mem_map.mp hx
    exact directDiscount_idle st (gross_of_directUnits hu)
  have htransform : transform (g.active ∅) = idle := by rw [active_empty]; rfl
  unfold result
  dsimp only
  rw [htransform, hinv, sum_eq_zero hdisc, active_empty]
  refine Prod.ext ?_ ?_
  · rw [map_nil, sum_nil, countP_nil, Nat.cast_zero, zero_mul, add_zero, Int.cast_zero,
      zero_add, ← Int.cast_add, round_intCast, map_map]
    rfl
  · dsimp only
    rw [zero_add, round_intCast, map_map]
    rfl

theorem Quiet.empty (h : Quiet g) (st : State) : g.result ∅ st = (0, 0) := by
  have htransform : transform (g.active ∅) = idle := by rw [active_empty]; rfl
  refine Prod.ext ?_ (h.headroom htransform st)
  have hdirect : ∀ x ∈ g.directUnits.map fun u => min u.2.value 0, x = 0 := fun x hx => by
    obtain ⟨u, hu, rfl⟩ := mem_map.mp hx
    obtain ⟨v, hv, rfl⟩ := mem_map.mp hu
    obtain ⟨hv, hpooled⟩ := mem_filter.mp hv
    exact min_eq_right (h.direct v hv (by simpa using hpooled))
  have hchange : ∀ x ∈ g.groups.map fun m => (g.change [] st m).1, x = 0 := fun x hx => by
    obtain ⟨members, hmem, rfl⟩ := mem_map.mp hx
    have hlevel : ∀ m ∈ members, m.2.levels.at st.level = g.scaledLevel idle st m :=
      fun m hm => (h.scaledLevel st (mem_ents_of_mem_groups hmem hm)).symm
    have hpool : ∀ m ∈ members, m.2.poolNano = grownPool [] m := fun m hm => by
      have hnonneg := h.pools m (mem_ents_of_mem_groups hmem hm)
      simp [grownPool, hnonneg]
    exact sub_eq_zero.mpr (overageNano_congr hlevel hpool st.cap)
  rw [result_empty]
  rw [sum_eq_zero hdirect, sum_eq_zero hchange, add_zero]

/-- Consumption and pools that are not negative. -/
def NonNegative (g : Game) : Prop :=
  ∀ m ∈ g.ents, 0 ≤ m.2.poolNano ∧ ∀ level, 0 ≤ m.2.levels.at level

def excess (g : Game) (st : State) (m : String × Ent) : Int :=
  g.scaledLevel idle st m - m.2.levels.at st.level

theorem NonNegative.excess_nonneg (h : NonNegative g)
    (hmem : members ∈ g.groups) (st : State) : ∀ x ∈ members.map (g.excess st), 0 ≤ x := fun x hx => by
  obtain ⟨m, hm, rfl⟩ := mem_map.mp hx
  exact sub_nonneg.mpr (le_scaledLevel_idle st ((h m (mem_ents_of_mem_groups hmem hm)).2 st.level))

/-- What a group loses is its excess: the overages cancel, as no pool is negative. -/
theorem NonNegative.change_empty (h : NonNegative g) (hmem : members ∈ g.groups) (st : State) :
    (g.change [] st members).1 + (g.change [] st members).2 = -(members.map (g.excess st)).sum := by
  have hpool : ∀ m ∈ members, m.2.poolNano = grownPool [] m := fun m hm => by
    have hnonneg := (h m (mem_ents_of_mem_groups hmem hm)).1
    simp [grownPool, hnonneg]
  have hexcess : (members.map fun m => m.2.levels.at st.level - g.scaledLevel (transform []) st m).sum =
      -(members.map (g.excess st)).sum := by
    rw [sum_neg, map_map]
    exact congrArg List.sum (map_congr_left fun m _ => (neg_sub _ _).symm)
  unfold change
  dsimp only
  rw [overageNano_congr (fun _ _ => rfl) hpool, hexcess]
  ring

theorem NonNegative.quiet (hnn : NonNegative g) (h : ∀ st, g.result ∅ st = (0, 0)) : Quiet g := by
  have hparts : ∀ st, (∀ u ∈ g.directUnits, 0 ≤ u.2.value) ∧ ∀ m ∈ g.ents, g.excess st m = 0 := fun st => by
    obtain ⟨hvalue, hhead⟩ := Prod.ext_iff.mp ((result_empty g st).symm.trans (h st))
    have hneg : ∀ x ∈ g.directUnits.map fun u => -min u.2.value 0, 0 ≤ x := fun x hx => by
      obtain ⟨u, -, rfl⟩ := mem_map.mp hx
      exact neg_nonneg.mpr (min_le_right _ _)
    have hgroups : ∀ x ∈ g.groups.map fun members => (members.map (g.excess st)).sum, 0 ≤ x := fun x hx => by
      obtain ⟨members, hmem, rfl⟩ := mem_map.mp hx
      exact sum_nonneg (hnn.excess_nonneg hmem st)
    have hboth : (g.groups.map fun m => (g.change [] st m).1).sum +
        (g.groups.map fun m => (g.change [] st m).2).sum =
        -(g.groups.map fun members => (members.map (g.excess st)).sum).sum := by
      rw [← sum_map_add, sum_neg, map_map]
      exact congrArg List.sum (map_congr_left fun members hmem => hnn.change_empty hmem st)
    have hdirect : (g.directUnits.map fun u => -min u.2.value 0).sum =
        -(g.directUnits.map fun u => min u.2.value 0).sum := by
      rw [sum_neg, map_map]
      rfl
    have hle := sum_nonneg hneg
    have hle' := sum_nonneg hgroups
    constructor
    · intro u hu
      have hzero := all_zero_of_le_zero_le_of_sum_eq_zero hneg (by omega) (mem_map_of_mem hu)
      omega
    · intro m hm
      obtain ⟨members, hmem, hin⟩ := exists_ent_group hm
      have hsum := all_zero_of_le_zero_le_of_sum_eq_zero hgroups (by omega) (mem_map_of_mem hmem)
      exact all_zero_of_le_zero_le_of_sum_eq_zero (hnn.excess_nonneg hmem st) hsum
        (mem_map_of_mem hin)
  constructor
  · intro u hu hpooled
    exact (hparts {}).1 (g.evalKey u.1, u.2)
      (mem_map.mpr ⟨u, mem_filter.mpr ⟨hu, by simp [hpooled]⟩, rfl⟩)
  · intro m hm hp level
    exact (scaledLevel_idle_iff { level } m).mp (sub_eq_zero.mp ((hparts { level }).2 m hm)) hp
  · exact fun m hm => (hnn m hm).1

/-! ### Fair games -/

/-- What the plan promises of its game. -/
structure Fair (g : Game) : Prop where
  /-- No player is worth nothing and frees nothing. -/
  empty : ∀ st, g.evaluate ∅ st = .ok (0, 0)
  /-- The credits of the players add up to what all of them are worth and free. -/
  shared : ∀ st, ∃ credits heads all, g.shapley (g.valueIn st) = .ok credits ∧
    g.shapley (g.headroomIn st) = .ok heads ∧ g.evaluate g.everyone st = .ok all ∧
    credits.map (·.1) = g.pids.insertionSort (· ≤ ·) ∧ heads.map (·.1) = g.pids.insertionSort (· ≤ ·) ∧
    credits.total = all.1 ∧ heads.total = all.2
  /-- Seats free no headroom. -/
  seats : ∀ st coalition, (∀ p ∈ g.active coalition, p.kind = .seats) →
    ∃ value, g.evaluate coalition st = .ok (value, 0)
  /-- Every triple of a figure holds its point in its range. -/
  figures : ∃ plan, g.assemble = .ok plan ∧ ∀ t ∈ plan.all, t.Ordered

/-- The credits of a game whose coalitions all have their values. -/
theorem shapley_shared {fn : Finset String → Except Error Int} {v : Finset String → Int}
    (hv : ∀ S, fn S = .ok (v S)) (hempty : v ∅ = 0) : ∃ credits, g.shapley fn = .ok credits ∧
      credits.map (·.1) = g.pids.insertionSort (· ≤ ·) ∧ credits.total = v g.everyone := by
  have htotal : ∀ {credits : Credits}, credits.map (·.1) = g.pids.insertionSort (· ≤ ·) →
      (g.pids ≠ [] → ∃ all empty, fn g.pids.toFinset = .ok all ∧ fn ∅ = .ok empty ∧
        credits.total = all - empty) → credits.total = v g.everyone := fun {credits} hkeys h => by
    by_cases hne : g.pids = []
    · rw [hne] at hkeys
      have hnil : credits = [] := map_eq_nil_iff.mp hkeys
      unfold everyone
      rw [hnil, hne, toFinset_nil, hempty]
      rfl
    · obtain ⟨all, empty, hall, he, htotal⟩ := h hne
      obtain rfl : v g.pids.toFinset = all := Except.ok.inj ((hv _).symm.trans hall)
      obtain rfl : v ∅ = empty := Except.ok.inj ((hv _).symm.trans he)
      rw [htotal, hempty, sub_zero]
      rfl
  unfold shapley
  split
  · rename_i hlen
    obtain ⟨credits, hok⟩ := @shapleyExact_ok _ fn id _ hv _ g.distinct
      (hlen.trans (show exactPlayers ≤ maxExactPlayers by decide))
    obtain ⟨hkeys, -, h⟩ := shapleyExact_total fn hok
    exact ⟨credits, hok, hkeys, htotal hkeys h⟩
  · obtain ⟨credits, hok⟩ := @shapleyMc_ok _ fn id _ hv _ _ g.distinct g.shuffles_ne g.shuffles_perm
    obtain ⟨hkeys, -, h⟩ := shapleyMc_total fn hok
    exact ⟨credits, hok, hkeys, htotal hkeys h⟩

theorem assemble_ok (hreg : Regular g) (hq : Quiet g) : ∃ plan, g.assemble = .ok plan := by
  have hval : ∀ st S, g.valueIn st S = .ok (g.result S st).1 := fun st S =>
    map_eq_ok.mpr ⟨_, evaluate_eq_ok_iff.mpr ⟨hreg, rfl⟩, rfl⟩
  have hhead : ∀ st S, g.headroomIn st S = .ok (g.result S st).2 := fun st S =>
    map_eq_ok.mpr ⟨_, evaluate_eq_ok_iff.mpr ⟨hreg, rfl⟩, rfl⟩
  have hover : ∀ {α : Type} {f : State → Except Error α}, (∀ st, ∃ a, f st = .ok a) →
      ∃ values, g.overStates f = .ok values := fun h => mapM_exists_ok fun st _ => by
    obtain ⟨a, ha⟩ := h st
    exact ⟨(st, a), map_eq_ok.mpr ⟨a, ha, rfl⟩⟩
  have hlever : ∀ {values : State → Finset String → Except Error Int}, (∀ st S, ∃ n, values st S = .ok n) →
      ∀ phi basis, ∃ rs, g.players.mapM (g.leverTriples values phi basis) = .ok rs :=
    fun hvalues phi basis => mapM_exists_ok fun p hp => by
      obtain ⟨alone, halone⟩ := hover fun st => hvalues st {p.pid}
      have hproj : ∃ t, project (creditsOf phi p) p.leverClass = .ok t := by
        rcases g.played p hp with h | h | h <;> rw [h] <;> exact ⟨_, rfl⟩
      obtain ⟨t, ht⟩ := hproj
      exact ⟨_, bind_eq_ok.mpr ⟨_, map_eq_ok.mpr ⟨_, halone, rfl⟩, bind_eq_ok.mpr ⟨t, ht, rfl⟩⟩⟩
  have hvalue : ∀ st S, ∃ n, g.valueIn st S = .ok n := fun st S => ⟨_, hval st S⟩
  have hfree : ∀ st S, ∃ n, g.headroomIn st S = .ok n := fun st S => ⟨_, hhead st S⟩
  unfold assemble
  split
  · exact ⟨_, rfl⟩
  · obtain ⟨phi, hphi⟩ := hover fun st =>
      (shapley_shared (hval st) (congrArg Prod.fst (hq.empty st))).imp fun _ h => h.1
    obtain ⟨phiH, hphiH⟩ := hover fun st =>
      (shapley_shared (hhead st) (congrArg Prod.snd (hq.empty st))).imp fun _ h => h.1
    obtain ⟨joint, hjoint⟩ := hover fun st => hvalue st g.everyone
    obtain ⟨jointH, hjointH⟩ := hover fun st => hfree st g.everyone
    obtain ⟨results, hresults⟩ := hlever hvalue phi .list
    obtain ⟨heads, hheads⟩ := hlever hfree phiH .listEquivalent
    obtain ⟨alone, halone⟩ : ∃ alone, g.players.mapM
        (fun p => g.overStates fun st => g.headroomIn st {p.pid}) = .ok alone :=
      mapM_exists_ok fun p _ => hover fun st => hfree st {p.pid}
    exact ⟨_, bind_eq_ok.mpr ⟨phi, hphi, bind_eq_ok.mpr ⟨phiH, hphiH, bind_eq_ok.mpr
      ⟨_, map_eq_ok.mpr ⟨joint, hjoint, rfl⟩, bind_eq_ok.mpr ⟨_, map_eq_ok.mpr ⟨jointH, hjointH, rfl⟩,
        bind_eq_ok.mpr ⟨results, hresults, bind_eq_ok.mpr ⟨heads, hheads, bind_eq_ok.mpr
          ⟨alone, halone, rfl⟩⟩⟩⟩⟩⟩⟩⟩

/-- A quiet game that `overage_total` takes is fair. -/
theorem Quiet.fair (hq : Quiet g) (hreg : Regular g) : Fair g where
  empty st := evaluate_eq_ok_iff.mpr ⟨hreg, hq.empty st⟩
  shared st := by
    have hval : ∀ S, g.valueIn st S = .ok (g.result S st).1 := fun S =>
      map_eq_ok.mpr ⟨_, evaluate_eq_ok_iff.mpr ⟨hreg, rfl⟩, rfl⟩
    have hhead : ∀ S, g.headroomIn st S = .ok (g.result S st).2 := fun S =>
      map_eq_ok.mpr ⟨_, evaluate_eq_ok_iff.mpr ⟨hreg, rfl⟩, rfl⟩
    obtain ⟨credits, hcredits, hkeys, htotal⟩ := shapley_shared hval (congrArg Prod.fst (hq.empty st))
    obtain ⟨heads, hheads, hkeysH, htotalH⟩ := shapley_shared hhead (congrArg Prod.snd (hq.empty st))
    exact ⟨credits, heads, _, hcredits, hheads, evaluate_eq_ok_iff.mpr ⟨hreg, rfl⟩, hkeys, hkeysH, htotal,
      htotalH⟩
  seats st coalition hseats := by
    have hidle : transform (g.active coalition) = idle := by
      have hkind : ∀ kind : Kind, kind ≠ .seats → ∀ p ∈ g.active coalition, ¬ p.kind = kind :=
        fun kind hne p hp h => hne (h.symm.trans (hseats p hp))
      have hremap : (g.active coalition).filter (fun p => decide (p.kind = .remap)) = [] :=
        filter_eq_nil_iff.mpr fun p hp => by simpa using hkind .remap (by decide) p hp
      have hnone : ∀ kind : Kind, kind ≠ .seats →
          (g.active coalition).any (fun p => decide (p.kind = kind)) = false := fun kind hne => any_eq_false.mpr fun p hp => by simpa using hkind kind hne p hp
      unfold transform idle
      rw [hremap, hnone .fast (by decide), hnone .auto (by decide), map_nil]
    exact ⟨_, evaluate_eq_ok_iff.mpr ⟨hreg, Prod.ext rfl (hq.headroom hidle st)⟩⟩
  figures := (assemble_ok hreg hq).imp fun _ h => ⟨h, assemble_ordered h⟩

end Game

/-! ### The plan -/

/-- A quiet game is shared out as the plan says; where no consumption and no pool is negative, only a
quiet game is. -/
theorem game_fair (g : Game) : (g.Regular ∧ g.Quiet → g.Fair) ∧
    (g.NonNegative → (g.Fair ↔ g.Regular ∧ g.Quiet)) := by
  have hfair : g.Regular ∧ g.Quiet → g.Fair := fun ⟨hreg, hq⟩ => hq.fair hreg
  refine ⟨hfair, fun hnn => ⟨fun h => ?_, hfair⟩⟩
  have hempty := fun st => Game.evaluate_eq_ok_iff.mp (h.empty st)
  exact ⟨(hempty {}).1, hnn.quiet fun st => (hempty st).2⟩

/-- The removal of an idle Business seat. -/
def seatReclaim : Player where
  pid := "copilot:seats_idle=30d@all"
  leverId := "copilot.seat_reclaim"
  leverClass := .rate
  kind := .seats
  dpool := [("enterprise", -19 * 10 ^ 9)]
  feeSaving := 19 * 10 ^ 9

/-- The removal of a seat in a month of direct usage. -/
def seatGame (credits : ℚ) : Game where
  cells := [{
    entityId := "enterprise", costType := "ai_credit.direct", credits, netNano := creditsNano credits }]
  pools := [("enterprise", { poolNano := 1900 * 10 ^ 9, consumedReportNano := 500 * 10 ^ 9 })]
  players := [seatReclaim]
  distinct := by decide
  played := by decide
  shuffles := [["copilot:seats_idle=30d@all"]]
  shuffles_ne := by decide
  shuffles_perm := by decide

/-- With 100 credits used the seat is fairly credited. -/
theorem game_fair_used : (seatGame 100).Fair := by
  have hreg : (seatGame 100).Regular := by
    unfold Game.Regular Game.Mixes
    decide
  have hnn : (seatGame 100).NonNegative := by
    have hents : ∀ m ∈ (seatGame 100).ents, 0 ≤ m.2.poolNano ∧ 0 ≤ m.2.levels.low ∧ 0 ≤ m.2.levels.point ∧
        0 ≤ m.2.levels.high := by decide
    intro m hm
    obtain ⟨hpool, hlow, hpoint, hhigh⟩ := hents m hm
    exact ⟨hpool, fun level => by cases level <;> assumption⟩
  have hpooled : ∀ m ∈ (seatGame 100).ents, ¬ 0 < (seatGame 100).pooled0 m.1 := by decide
  exact ((game_fair (seatGame 100)).2 hnn).mpr
    ⟨hreg, by decide +kernel, fun m hm hp => absurd hp (hpooled m hm), fun m hm => (hnn m hm).1⟩

/-- With 100 credits refunded no player is worth a dollar less than nothing. -/
theorem refund_unfair : ¬ (seatGame (-100)).Fair := fun h => by
  have hvalue := (Game.evaluate_eq_ok_iff.mp (h.empty {})).2
  have hdollar : (seatGame (-100)).result ∅ {} = (-10 ^ 9, 0) := by decide +kernel
  rw [hdollar] at hvalue
  cases hvalue

end TokenBill.CellGame
