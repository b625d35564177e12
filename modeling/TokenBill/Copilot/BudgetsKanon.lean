import TokenBill.Copilot.Budgets

/-!
# Small cost centers in a budget design

Which specs of `budget_design` show a figure of a single cost center, and when every cost
center they show has at least `k` users: the budget of a capped cost center is sized
without a look at its users, and a user-level budget counts the people of the cost lines
where a configured count may be smaller.
-/

namespace TokenBill.Copilot

open General List

variable {inp : Inputs} {k : Nat} {P : CostCenter → Prop}

/-! ### The figures of a spec -/

def Piece.figure : Piece → Option (List CostCenter)
  | .text _ => none
  | .shown _ parts => some parts

@[simp] theorem figures_text (s : String) (ps : List Piece) :
    (.text s :: ps).filterMap Piece.figure = ps.filterMap Piece.figure := rfl

@[simp] theorem figures_shown (f : Shown) (parts : List CostCenter) (ps : List Piece) :
    (.shown f parts :: ps).filterMap Piece.figure = parts :: ps.filterMap Piece.figure := rfl

def Body.figures : Body → List (List CostCenter)
  | .budget _ parts _ _ _ => [parts]
  | .enablePool => []

/-- The cost centers of each figure of a spec: of its text, and of the note and body of its request. -/
def Spec.figures (s : Spec) : List (List CostCenter) :=
  s.text.filterMap Piece.figure ++
    (s.request.map fun r => r.note.filterMap Piece.figure ++ r.body.figures).getD []

/-- A spec shows a figure of a single cost center. -/
def Spec.Shows (s : Spec) (cc : CostCenter) : Prop := [cc] ∈ s.figures

/-- Every cost center in the figures of a spec meets a condition. -/
def Spec.Within (P : CostCenter → Prop) (s : Spec) : Prop := ∀ parts ∈ s.figures, ∀ cc ∈ parts, P cc

variable {cc : CostCenter} {s : Spec} {pm : PoolMonth} {p90 : Int} {group pools : List PoolMonth}

theorem Spec.Within.shows (hs : s.Within P) (h : s.Shows cc) : P cc :=
  hs _ h cc (mem_singleton_self cc)

@[simp] theorem figures_spec (kind : SpecKind) (pm : PoolMonth) (scenario : Option Scenario)
    (text : List Piece) (request : Option Request) :
    (spec kind pm scenario text request).figures = text.filterMap Piece.figure ++
      (request.map fun r => r.note.filterMap Piece.figure ++ r.body.figures).getD [] := rfl

theorem Spec.within_of (parts : List CostCenter) (hs : ∀ ps ∈ s.figures, ps = parts ∨ ps = [])
    (h : ∀ cc ∈ parts, P cc) : s.Within P := by
  intro ps hps cc hcc
  rcases hs ps hps with rfl | rfl
  · exact h cc hcc
  · cases hcc

/-! ### The specs that show cost centers -/

theorem userLevelSpec_within
    (hs : userLevelSpec inp pm k cc = some s) (hP : (userLevelAmount inp k cc).isSome → P cc) : s.Within P := by
  unfold userLevelSpec at hs
  split at hs
  · split at hs <;> cases hs
    simp [Spec.Within]
  · rename_i amount ha
    have hcc := hP (by rw [ha]; rfl)
    cases hs
    exact Spec.within_of [cc] (by simp [budgetRequest, Body.figures]) (by simpa using hcc)

theorem cappedSpec_within {name : String} (h : P ⟨pm.entity, pm.month, name⟩) : (cappedSpec pm name p90).1.Within P :=
  Spec.within_of [⟨pm.entity, pm.month, name⟩] (by simp [cappedSpec, budgetRequest, Body.figures])
    (by simpa using h)

theorem cappedSpec_shows (pm : PoolMonth) (name : String) (p90 : Int) :
    (cappedSpec pm name p90).1.Shows ⟨pm.entity, pm.month, name⟩ := by
  simp [cappedSpec, Spec.Shows, budgetRequest, Body.figures]

theorem poolAdvice_within (h : P cc) : ∀ s ∈ poolAdvice inp pm cc, s.Within P := by
  intro s hs
  unfold poolAdvice at hs
  split at hs
  · obtain rfl := mem_singleton.mp hs
    simp [Spec.Within]
  · dsimp only at hs
    split at hs
    · obtain rfl := mem_singleton.mp hs
      split <;> simp [Spec.Within, Body.figures, h]
    · cases hs

theorem shareSpec_within (h : P cc) : (shareSpec inp pm cc p90).1.Within P :=
  Spec.within_of [cc] (by simp [shareSpec, budgetRequest, Body.figures]) (by simpa using h)

theorem costCenterSpecs_within (h : (k : Int) ≤ inp.users cc → P cc) :
    (∀ s ∈ (costCenterSpecs inp pm k cc).1, s.Within P) ∧
      ∀ b ∈ (costCenterSpecs inp pm k cc).2, P b.1 := by
  unfold costCenterSpecs
  split
  · simp [Spec.Within]
  · rename_i hk
    have hcc := h (by omega)
    split
    · exact ⟨poolAdvice_within hcc, by simp⟩
    · refine ⟨fun s hs => ?_, by simpa using hcc⟩
      rcases mem_append.mp hs with hs | hs
      · exact poolAdvice_within hcc s hs
      · obtain rfl := mem_singleton.mp hs
        exact shareSpec_within hcc

/-- What a pool month of a metered group shows: itself, if it is capped and its overage is priced, or
cost centers with enough users. -/
theorem memberSpecs_within
    (hcapped : ∀ name, pm.entity = .cc name → (overageP90 pm).isSome → P ⟨pm.entity, pm.month, name⟩)
    (hshare : ∀ cc, (k : Int) ≤ inp.users cc → P cc) :
    (∀ s ∈ (memberSpecs inp k pm).1, s.Within P) ∧ ∀ b ∈ (memberSpecs inp k pm).2, P b.1 := by
  unfold memberSpecs
  split
  · rename_i name hname
    split
    · simp [Spec.Within]
    · rename_i p90 hp
      have h := hcapped name hname (by rw [hp]; rfl)
      exact ⟨by simpa using cappedSpec_within h, by simpa using h⟩
  · constructor
    · intro s hs
      obtain ⟨each, he, hs⟩ := mem_flatMap.mp hs
      obtain ⟨cc, -, rfl⟩ := mem_map.mp he
      exact (costCenterSpecs_within (hshare cc)).1 s hs
    · intro b hb
      obtain ⟨each, he, hb⟩ := mem_flatMap.mp hb
      obtain ⟨cc, -, rfl⟩ := mem_map.mp he
      exact (costCenterSpecs_within (hshare cc)).2 b hb

theorem topSpec_within {lead : PoolMonth} {budgets : List (CostCenter × Int)}
    (h : ∀ b ∈ budgets, P b.1) : (topSpec group lead budgets p90).Within P :=
  Spec.within_of (budgets.map (·.1)) (by simp +contextual [topSpec, budgetRequest, Body.figures])
    (by simpa using fun cc n hb => h (cc, n) hb)

theorem sizingSpec_within {lead : PoolMonth} {caps : List (CostCenter × Int)}
    (h : ∀ b ∈ caps, P b.1) : (sizingSpec group lead caps).Within P := by
  refine Spec.within_of (caps.map (·.1)) ?_ (by simpa using fun cc n hb => h (cc, n) hb)
  unfold sizingSpec
  dsimp only
  split <;> simp +contextual

/-- What the specs of a metered group show. -/
theorem metered_within {caps : Entity → Nat → List (CostCenter × Int)}
    (hcapped : ∀ pm ∈ group, ∀ name, pm.entity = .cc name → (overageP90 pm).isSome →
      P ⟨pm.entity, pm.month, name⟩) (hshare : ∀ cc, (k : Int) ≤ inp.users cc → P cc)
    (hcaps : ∀ pm ∈ group, ∀ b ∈ caps pm.entity pm.month, P b.1) : ∀ s ∈ metered inp k caps group, s.Within P := by
  have hmembers : ∀ s ∈ (group.map (memberSpecs inp k)).flatMap (·.1), s.Within P := fun s hs => by
    obtain ⟨each, he, hs⟩ := mem_flatMap.mp hs
    obtain ⟨pm, hpm, rfl⟩ := mem_map.mp he
    exact (memberSpecs_within (hcapped pm hpm) hshare).1 s hs
  intro s hs
  unfold metered at hs
  split at hs
  · exact hmembers s hs
  · rename_i lead _
    split at hs
    · exact hmembers s hs
    · rcases mem_append.mp hs with hs | hs
      · exact hmembers s hs
      · rcases mem_append.mp hs with hs | hs
        · split at hs
          · obtain rfl := mem_singleton.mp hs
            simp [Spec.Within]
          · obtain rfl := mem_singleton.mp hs
            refine topSpec_within fun b hb => ?_
            obtain ⟨each, he, hb⟩ := mem_flatMap.mp hb
            obtain ⟨pm, hpm, rfl⟩ := mem_map.mp he
            exact (memberSpecs_within (hcapped pm hpm) hshare).2 b hb
        · obtain rfl := mem_singleton.mp hs
          refine sizingSpec_within fun b hb => ?_
          obtain ⟨pm, hpm, hb⟩ := mem_flatMap.mp hb
          exact hcaps pm hpm b hb

theorem unmetered_within : ∀ s ∈ unmetered pm, s.Within P := by
  intro s hs
  unfold unmetered at hs
  split at hs <;> dsimp only at hs <;> simp at hs
  · simp [hs, Spec.Within]
  · simp [hs, Spec.Within]
  · rcases hs with rfl | rfl <;> simp [Spec.Within, budgetRequest, Body.figures]

/-! ### The specs of a design -/

theorem mem_userLevelMonths (h : pm ∈ userLevelMonths pools) :
    pm ∈ pools ∧ pm.billingMode = .metered ∧ pm.isCapped = false := by
  have hmem := (firstOfKey_sublist _ _).subset h
  rw [mem_insertionSort, mem_filter] at hmem
  simpa using hmem

theorem exists_userLevelMonth (h : pm ∈ pools) (hm : pm.billingMode = .metered) (hc : pm.isCapped = false) :
    ∃ d ∈ userLevelMonths pools, d.entity = pm.entity ∧ d.month = pm.month := by
  have hmem : pm ∈ (pools.filter fun pm => decide (pm.billingMode = .metered) && !pm.isCapped).insertionSort
      fun a b => a.le b := by
    rw [mem_insertionSort, mem_filter]
    simp [h, hm, hc]
  obtain ⟨d, hd, hk⟩ := exists_mem_firstOfKey (fun pm : PoolMonth => (pm.entity, pm.month)) hmem
  exact ⟨d, hd, (Prod.mk.inj hk).1, (Prod.mk.inj hk).2⟩

theorem mem_of_mem_groups (hg : group ∈ groups pools) : ∀ pm ∈ group, pm ∈ pools := by
  intro pm hpm
  rcases mem_append.mp hg with hg | hg
  · obtain ⟨period, -, rfl⟩ := mem_map.mp hg
    rw [mem_insertionSort] at hpm
    exact mem_of_mem_filter (mem_of_mem_filter hpm)
  · obtain ⟨x, hx, rfl⟩ := mem_map.mp hg
    obtain rfl := mem_singleton.mp hpm
    exact mem_of_mem_filter hx

theorem exists_pool_group (h : pm ∈ pools) : ∃ group ∈ groups pools, pm ∈ group := by
  by_cases horg : pm.isOrg = true
  · exact ⟨[pm], mem_append_right _ (mem_map.mpr ⟨pm, mem_filter.mpr ⟨h, horg⟩, rfl⟩),
      mem_cons_self⟩
  · have hmem : pm ∈ pools.filter fun pm => !pm.isOrg := mem_filter.mpr ⟨h, by simpa using horg⟩
    obtain ⟨period, hp, hk⟩ := exists_mem_firstOfKey id (mem_map_of_mem (f := PoolMonth.period) hmem)
    refine ⟨_, mem_append_left _ (mem_map_of_mem hp), ?_⟩
    rw [mem_insertionSort, mem_filter]
    exact ⟨hmem, by simpa using hk.symm⟩

theorem cappedSpec_mem_metered {caps : Entity → Nat → List (CostCenter × Int)}
    {name : String} (hpm : pm ∈ group) (hname : pm.entity = .cc name)
    (hp : overageP90 pm = some p90) : (cappedSpec pm name p90).1 ∈ metered inp k caps group := by
  have hspec : (cappedSpec pm name p90).1 ∈ (memberSpecs inp k pm).1 := by
    unfold memberSpecs
    rw [hname, hp]
    exact mem_cons_self
  have hmem : (cappedSpec pm name p90).1 ∈ (group.map (memberSpecs inp k)).flatMap (·.1) :=
    mem_flatMap.mpr ⟨_, mem_map_of_mem hpm, hspec⟩
  unfold metered
  split
  · exact hmem
  · split
    · exact hmem
    · exact mem_append_left _ hmem

/-- Every cost center a design shows has enough users: the capped ones whose overage is priced, and
those with at least `k` people in the cost lines. -/
structure Ample (pools : List PoolMonth) (inp : Inputs) (k : Int) : Prop where
  capped : ∀ pm ∈ latest pools, pm.billingMode = .metered → ∀ name, pm.entity = .cc name →
    (overageP90 pm).isSome → k ≤ inp.users ⟨pm.entity, pm.month, name⟩
  people : ∀ pm ∈ latest pools, pm.billingMode = .metered → pm.isCapped = false →
    ∀ cc ∈ inp.costCenters pm.entity pm.month, inp.userCredits cc.month cc.name ≠ [] →
      k ≤ (inp.userCredits cc.month cc.name).length → k ≤ inp.users cc

theorem userLevelAmount_isSome : (userLevelAmount inp k cc).isSome ↔
    inp.userCredits cc.month cc.name ≠ [] ∧ k ≤ (inp.userCredits cc.month cc.name).length := by
  unfold userLevelAmount
  dsimp only
  split
  · rename_i h
    simp only [Option.isSome_none, Bool.false_eq_true, false_iff, not_and, not_le]
    exact fun hne => h.resolve_left hne
  · rename_i h
    simpa [not_or] using h

theorem exists_userLevelSpec {pm : PoolMonth} {cc : CostCenter} (h : (userLevelAmount inp k cc).isSome) :
    ∃ s, userLevelSpec inp pm k cc = some s ∧ s.Shows cc := by
  obtain ⟨amount, ha⟩ := Option.isSome_iff_exists.mp h
  unfold userLevelSpec
  rw [ha]
  exact ⟨_, rfl, by simp [Spec.Shows]⟩

theorem designSpecs_within (h : Ample pools inp k) :
    ∀ s ∈ designSpecs pools inp k, s.Within fun cc => (k : Int) ≤ inp.users cc := by
  have hlevel : ∀ pm ∈ userLevelMonths (latest pools), ∀ cc ∈ inp.costCenters pm.entity pm.month,
      (userLevelAmount inp k cc).isSome → (k : Int) ≤ inp.users cc := fun pm hpm cc hcc hsome => by
    obtain ⟨hmem, hm, hc⟩ := mem_userLevelMonths hpm
    obtain ⟨hne, hk⟩ := userLevelAmount_isSome.mp hsome
    exact h.people pm hmem hm hc cc hcc hne (by exact_mod_cast hk)
  intro s hs
  rcases mem_append.mp hs with hs | hs
  · rcases mem_append.mp hs with hs | hs
    · obtain ⟨pm, hpm, hs⟩ := mem_flatMap.mp hs
      obtain ⟨cc, hcc, hspec⟩ := mem_filterMap.mp hs
      exact userLevelSpec_within hspec (hlevel pm hpm cc hcc)
    · obtain ⟨pm, -, hs⟩ := mem_flatMap.mp hs
      exact unmetered_within s hs
  · obtain ⟨group, hg, hs⟩ := mem_flatMap.mp hs
    refine metered_within (fun pm hpm name hname hp => ?_) (fun _ h => h) (fun pm hpm b hb => ?_) s hs
    · have hmem := mem_of_mem_groups hg pm hpm
      exact h.capped pm (mem_of_mem_filter hmem) (by simpa using (mem_filter.mp hmem).2) name
        hname hp
    · obtain ⟨d, hd, hb⟩ := mem_flatMap.mp hb
      obtain ⟨cc, hcc, hb⟩ := mem_filterMap.mp hb
      obtain ⟨amount, ha, rfl⟩ := Option.map_eq_some_iff.mp hb
      exact hlevel d (mem_of_mem_filter hd) cc hcc (by rw [ha]; rfl)

/-- Without enough users, a spec shows a cost center. -/
theorem ample_of_shows (h : ∀ s ∈ designSpecs pools inp k, ∀ cc, s.Shows cc → (k : Int) ≤ inp.users cc) :
    Ample pools inp k where
  capped pm hpm hm name hname hp := by
    obtain ⟨p90, hp⟩ := Option.isSome_iff_exists.mp hp
    have hmetered : pm ∈ (latest pools).filter fun pm => decide (pm.billingMode = .metered) :=
      mem_filter.mpr ⟨hpm, by simpa using hm⟩
    obtain ⟨group, hg, hmem⟩ := exists_pool_group hmetered
    exact h _ (mem_append_right _ (mem_flatMap.mpr
      ⟨group, hg, cappedSpec_mem_metered hmem hname hp⟩)) _ (cappedSpec_shows pm name p90)
  people pm hpm hm hc cc hcc hne hk := by
    obtain ⟨d, hd, he, hmonth⟩ := exists_userLevelMonth hpm hm hc
    obtain ⟨s, hs, hshows⟩ := @exists_userLevelSpec inp k d cc
      (userLevelAmount_isSome.mpr ⟨hne, by exact_mod_cast hk⟩)
    refine h s (mem_append_left _ (mem_append_left _ (mem_flatMap.mpr ⟨d, hd, ?_⟩))) cc
      hshows
    exact mem_filterMap.mpr ⟨cc, he ▸ hmonth ▸ hcc, hs⟩

theorem mem_budgetDesign {cells : List Cell} {config : List ConfigSnapshot}
    {k : Int} {costLines : List CostLine} {specs : List Spec}
    (h : budgetDesign pools cells config k costLines = .ok specs) :
    1 ≤ k ∧ ∀ s, s ∈ specs ↔ s ∈ designSpecs pools ⟨cells, config, costLines⟩ k.toNat := by
  unfold budgetDesign at h
  split at h
  · cases h
  · cases h
    exact ⟨by omega, fun s => mem_insertionSort _⟩

/-- What the specs of a design show, read off its output. -/
theorem ample_of_budgetDesign {cells : List Cell} {config : List ConfigSnapshot}
    {k : Int} {costLines : List CostLine} (hk : 1 ≤ k)
    (h : ∀ specs, budgetDesign pools cells config k costLines = .ok specs → ∀ s ∈ specs, ∀ cc,
      s.Shows cc → k ≤ Inputs.users ⟨cells, config, costLines⟩ cc) : Ample pools ⟨cells, config, costLines⟩ k := by
  have hnat : ((k.toNat : Nat) : Int) = k := Int.toNat_of_nonneg (by omega)
  rw [← hnat]
  refine ample_of_shows fun s hs cc hshows => ?_
  rw [hnat]
  have hok : budgetDesign pools cells config k costLines = .ok _ := if_neg (by omega)
  exact h _ hok s (((mem_budgetDesign hok).2 s).mpr hs) cc hshows

/-- No design shows a figure of a single cost center with fewer than `k` users if and only if the cost
centers it sizes without a look at their user count have enough. -/
theorem budget_design_kanon_iff (pools : List PoolMonth) (cells : List Cell) (config : List ConfigSnapshot)
    (k : Int) (costLines : List CostLine) :
    (∀ specs, budgetDesign pools cells config k costLines = .ok specs → ∀ s ∈ specs, ∀ cc, s.Shows cc →
        k ≤ Inputs.users ⟨cells, config, costLines⟩ cc) ↔
      (1 ≤ k → Ample pools ⟨cells, config, costLines⟩ k) := by
  constructor
  · exact fun h hk => ample_of_budgetDesign hk h
  · intro h specs hspecs s hs cc hshows
    obtain ⟨hk, hmem⟩ := mem_budgetDesign hspecs
    have hnat : ((k.toNat : Nat) : Int) = k := Int.toNat_of_nonneg (by omega)
    have hample := h hk
    rw [← hnat] at hample ⊢
    exact (designSpecs_within hample s ((hmem s).mp hs)).shows hshows

/-- The budget of a capped cost center without users is shown. -/
theorem budget_design_shows_capped :
    ¬ ∀ (pools : List PoolMonth) (cells : List Cell) (config : List ConfigSnapshot) (k : Int)
      (costLines : List CostLine) (specs : List Spec),
      budgetDesign pools cells config k costLines = .ok specs → ∀ s ∈ specs, ∀ cc, s.Shows cc →
        k ≤ Inputs.users ⟨cells, config, costLines⟩ cc := by
  intro h
  let pm : PoolMonth := { entity := .cc "x", month := 2026 * 12, overageObservedNano := 10 ^ 9 }
  have hample : Ample [pm] ⟨[], [], []⟩ 5 :=
    ample_of_budgetDesign (by decide) fun specs => h [pm] [] [] 5 [] specs
  exact absurd (hample.capped pm mem_cons_self rfl "x" rfl rfl) (by decide)

end TokenBill.Copilot
