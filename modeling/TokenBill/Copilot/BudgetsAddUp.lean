import TokenBill.Copilot.BudgetsKanon
import Mathlib.Algebra.BigOperators.Ring.List

/-!
# Budgets add up

The budget of an enterprise or organization covers the cost-center budgets of its billing
group and the direct-org forecast. A group is formed of the pool months of one month and
scenario, so cost centers whose plan is known, or whose last month is another, are not in
the group of an enterprise whose plan is not known.
-/

namespace TokenBill.Copilot

open General List

variable {inp : Inputs} {k : Nat}

/-! ### Billing groups -/

def Entity.billing : Entity → Entity
  | .cc _ => .enterprise
  | entity => entity

def PoolMonth.bill (pm : PoolMonth) : Entity × Nat × Option Scenario :=
  (pm.entity.billing, pm.month, pm.planScenario)

def Spec.bill (s : Spec) : Entity × Nat × Option Scenario := (s.entity.billing, s.month, s.scenario)

variable {pm : PoolMonth} {group pools : List PoolMonth} {s : Spec} {cc : CostCenter}
  {caps : Entity → Nat → List (CostCenter × Int)}

theorem billing_of_not_org (h : pm.isOrg = false) : pm.entity.billing = .enterprise := by
  unfold PoolMonth.isOrg at h
  cases he : pm.entity with
  | enterprise => rfl
  | cc name => rfl
  | org login =>
    rw [he] at h
    cases h

theorem billing_of_org (h : pm.isOrg = true) : pm.entity.billing = pm.entity ∧ pm.entity ≠ .enterprise := by
  unfold PoolMonth.isOrg at h
  split at h
  · rename_i login he
    rw [he]
    exact ⟨rfl, fun h => nomatch h⟩
  · cases h

theorem group_perm (hkey : (pools.map PoolMonth.key).Nodup)
    (hg : group ∈ groups pools) {lead : PoolMonth} (hlead : lead ∈ group) :
    group.Perm (pools.filter fun pm => decide (pm.bill = lead.bill)) := by
  rcases mem_append.mp hg with hg | hg
  · obtain ⟨period, -, rfl⟩ := mem_map.mp hg
    refine (perm_insertionSort _ _).trans ?_
    rw [mem_insertionSort, mem_filter, mem_filter] at hlead
    obtain ⟨⟨-, horg⟩, hp⟩ := hlead
    have hp : lead.period = period := by simpa using hp
    have hbill := billing_of_not_org (by simpa using horg)
    rw [filter_filter]
    refine List.Perm.of_eq (filter_congr fun pm _ => ?_)
    rw [Bool.eq_iff_iff]
    simp only [PoolMonth.bill, hbill, ← hp, PoolMonth.period, Prod.mk.injEq, Bool.and_eq_true,
      decide_eq_true_eq, Bool.not_eq_true']
    constructor
    · exact fun ⟨h, ho⟩ => ⟨billing_of_not_org ho, h⟩
    · refine fun ⟨hb, h⟩ => ⟨h, ?_⟩
      cases ho : pm.isOrg with
      | false => rfl
      | true =>
        obtain ⟨he, hne⟩ := billing_of_org ho
        exact absurd (he.symm.trans hb) hne
  · obtain ⟨x, hx, rfl⟩ := mem_map.mp hg
    obtain rfl := mem_singleton.mp hlead
    obtain ⟨hmem, horg⟩ := mem_filter.mp hx
    -- an organization is billed alone, so its bill is its key in one month
    have hiff : ∀ pm ∈ pools, decide (pm.bill = lead.bill) = decide (pm = lead) := fun pm hpm => by
      rw [Bool.eq_iff_iff, decide_eq_true_eq, decide_eq_true_eq]
      refine ⟨fun hb => ?_, fun h => h ▸ rfl⟩
      simp only [PoolMonth.bill, (billing_of_org horg).1, Prod.mk.injEq] at hb
      refine inj_on_of_nodup_map hkey hpm hmem ?_
      cases ho : pm.isOrg with
      | true => exact Prod.ext ((billing_of_org ho).1.symm.trans hb.1) hb.2.2
      | false => exact absurd ((billing_of_not_org ho).symm.trans hb.1).symm (billing_of_org horg).2
    rw [filter_congr hiff]
    have hnodup : pools.Nodup := hkey.of_map _
    rw [filter_eq, count_eq_one_of_mem hnodup hmem]
    exact List.Perm.refl _

theorem nodup_groups (hkey : (pools.map PoolMonth.key).Nodup) :
    (groups pools).Pairwise fun g g' => ∀ pm ∈ g, ∀ pm' ∈ g', pm.bill ≠ pm'.bill := by
  refine pairwise_append.mpr ⟨?_, ?_, ?_⟩
  · rw [pairwise_map]
    have hnodup : (firstOfKey id ((pools.filter fun pm => !pm.isOrg).map PoolMonth.period)).Nodup := by
      simpa using nodup_firstOfKey id ((pools.filter fun pm => !pm.isOrg).map PoolMonth.period)
    refine hnodup.imp fun hne pm hpm pm' hpm' hb => hne ?_
    rw [mem_insertionSort, mem_filter, decide_eq_true_eq] at hpm hpm'
    rw [← hpm.2, ← hpm'.2]
    exact (Prod.mk.inj hb).2
  · rw [pairwise_map]
    have hnodup : ((pools.filter (·.isOrg)).map PoolMonth.key).Nodup :=
      hkey.sublist (filter_sublist.map _)
    refine (pairwise_map.mp hnodup).imp_of_mem fun {pm pm'} hpm hpm' hne x hx x' hx' hb => hne ?_
    obtain rfl := mem_singleton.mp hx
    obtain rfl := mem_singleton.mp hx'
    have he : x.entity.billing = x'.entity.billing := (Prod.mk.inj hb).1
    rw [(billing_of_org (mem_filter.mp hpm).2).1, (billing_of_org (mem_filter.mp hpm').2).1] at he
    exact Prod.ext he (Prod.mk.inj (Prod.mk.inj hb).2).2
  · intro g hg g' hg' pm hpm pm' hpm' hb
    obtain ⟨period, -, rfl⟩ := mem_map.mp hg
    obtain ⟨x, hx, rfl⟩ := mem_map.mp hg'
    obtain rfl := mem_singleton.mp hpm'
    rw [mem_insertionSort] at hpm
    have hnot : pm.isOrg = false := by
      simpa using (mem_filter.mp (mem_of_mem_filter hpm)).2
    obtain ⟨he, hne⟩ := billing_of_org (mem_filter.mp hx).2
    have hbill : pm.entity.billing = pm'.entity.billing := (Prod.mk.inj hb).1
    rw [billing_of_not_org hnot, he] at hbill
    exact hne hbill.symm

/-! ### The budgets of a spec -/

/-- The amount of the cost-center budget a spec creates, in dollars; 0 for another spec. -/
def Spec.costCenterBudget (s : Spec) : Int :=
  match s.request with
  | some ⟨_, _, .budget amount _ .costCenter _ _, _⟩ => amount
  | _ => 0

/-- The amount of the enterprise or organization budget a spec creates, in dollars. -/
def Spec.topBudget (s : Spec) : Option Int :=
  match s.request with
  | some ⟨_, _, .budget amount _ .enterprise _ _, _⟩ => some amount
  | some ⟨_, _, .budget amount _ .organization _ _, _⟩ => some amount
  | _ => none

def costCenterTotal (specs : List Spec) : Int := (specs.map Spec.costCenterBudget).sum

@[simp] theorem costCenterTotal_append (l l' : List Spec) :
    costCenterTotal (l ++ l') = costCenterTotal l + costCenterTotal l' := by
  unfold costCenterTotal
  rw [map_append, sum_append]

theorem costCenterTotal_eq_zero {specs : List Spec} (h : ∀ s ∈ specs, s.costCenterBudget = 0) :
    costCenterTotal specs = 0 :=
  sum_eq_zero fun n hn => by
    obtain ⟨s, hs, rfl⟩ := mem_map.mp hn
    exact h s hs

theorem le_whole (nano : Int) : nano ≤ (whole nano).1 * nanoPerUsd := by
  have hceil := le_ceilDiv_mul nano (d := nanoPerUsd) (by decide)
  have hpos : 0 < nanoPerUsd := by decide
  unfold whole
  split
  · refine hceil.trans (Int.mul_le_mul_of_nonneg_right ?_ hpos.le)
    exact le_max_right _ _
  · rename_i h
    have hle : ceilDiv nano nanoPerUsd ≤ 0 := by
      unfold ceilUsd at h
      omega
    have := Int.mul_le_mul_of_nonneg_right hle hpos.le
    omega

theorem overageP90_nonneg {p90 : Int} (h : overageP90 pm = some p90) : 0 ≤ p90 := by
  unfold overageP90 at h
  split at h
  · split at h
    · cases h
      exact le_max_left _ _
    · obtain ⟨n, -, rfl⟩ := Option.map_eq_some_iff.mp h
      exact le_max_left _ _
  · cases h
    exact le_max_left _ _

theorem timesFactor_nonneg {nano : Int} (h : 0 ≤ nano) : 0 ≤ timesFactor nano := by
  unfold timesFactor ceilDiv
  omega

/-! ### What each part of a design emits -/

/-- What the specs of a pool month are about. -/
def Spec.About (pm : PoolMonth) (s : Spec) : Prop :=
  s.entity = pm.entity ∧ s.month = pm.month ∧ s.scenario = pm.planScenario ∧
    s.billingMode = pm.billingMode

theorem Spec.About.bill (h : s.About pm) : s.bill = pm.bill := by
  unfold Spec.bill PoolMonth.bill
  rw [h.1, h.2.1, h.2.2.1]

theorem spec_about (kind : SpecKind) (pm : PoolMonth) (text : List Piece) (request : Option Request) :
    (spec kind pm pm.planScenario text request).About pm := ⟨rfl, rfl, rfl, rfl⟩

theorem userLevelSpec_spec (hs : userLevelSpec inp pm k cc = some s) : s.costCenterBudget = 0 ∧ s.topBudget = none ∧
      s.entity = pm.entity ∧ s.month = pm.month ∧ s.scenario = none := by
  unfold userLevelSpec at hs
  split at hs
  · split at hs <;> cases hs
    exact ⟨rfl, rfl, rfl, rfl, rfl⟩
  · cases hs
    exact ⟨rfl, rfl, rfl, rfl, rfl⟩

theorem poolAdvice_spec : ∀ s ∈ poolAdvice inp pm cc, s.costCenterBudget = 0 ∧ s.topBudget = none ∧ s.About pm := by
  intro s hs
  unfold poolAdvice at hs
  split at hs
  · obtain rfl := mem_singleton.mp hs
    exact ⟨rfl, rfl, spec_about _ _ _ _⟩
  · dsimp only at hs
    split at hs
    · obtain rfl := mem_singleton.mp hs
      exact ⟨rfl, rfl, spec_about _ _ _ _⟩
    · cases hs

theorem costCenterSpecs_spec :
    costCenterTotal (costCenterSpecs inp pm k cc).1 = ((costCenterSpecs inp pm k cc).2.map (·.2)).sum ∧
      ∀ s ∈ (costCenterSpecs inp pm k cc).1, s.topBudget = none ∧ s.About pm := by
  have hpool : costCenterTotal (poolAdvice inp pm cc) = 0 :=
    costCenterTotal_eq_zero fun s hs => (poolAdvice_spec s hs).1
  unfold costCenterSpecs
  split
  · exact ⟨rfl, fun s hs => mem_singleton.mp hs ▸ ⟨rfl, spec_about _ _ _ _⟩⟩
  · split
    · exact ⟨hpool, fun s hs => (poolAdvice_spec s hs).2⟩
    · rename_i p90 _
      refine ⟨?_, fun s hs => ?_⟩
      · rw [costCenterTotal_append, hpool]
        exact zero_add _
      · rcases mem_append.mp hs with hs | hs
        · exact (poolAdvice_spec s hs).2
        · exact mem_singleton.mp hs ▸ ⟨rfl, spec_about _ _ _ _⟩

/-- So are those of a pool month of a metered group. -/
theorem memberSpecs_spec :
    costCenterTotal (memberSpecs inp k pm).1 = ((memberSpecs inp k pm).2.map (·.2)).sum ∧
      ∀ s ∈ (memberSpecs inp k pm).1, s.topBudget = none ∧ s.About pm := by
  unfold memberSpecs
  split
  · split
    · exact ⟨rfl, fun s hs => mem_singleton.mp hs ▸ ⟨rfl, spec_about _ _ _ _⟩⟩
    · exact ⟨rfl, fun s hs => mem_singleton.mp hs ▸ ⟨rfl, spec_about _ _ _ _⟩⟩
  · constructor
    · induction inp.costCenters pm.entity pm.month with
      | nil => rfl
      | cons cc ccs ih =>
        simp only [map_cons, flatMap_cons, costCenterTotal_append, map_append,
          sum_append] at ih ⊢
        rw [ih, costCenterSpecs_spec.1]
    · intro s hs
      obtain ⟨each, he, hs⟩ := mem_flatMap.mp hs
      obtain ⟨cc, -, rfl⟩ := mem_map.mp he
      exact costCenterSpecs_spec.2 s hs

theorem members_spec (group : List PoolMonth) :
    costCenterTotal ((group.map (memberSpecs inp k)).flatMap (·.1)) =
      (((group.map (memberSpecs inp k)).flatMap (·.2)).map (·.2)).sum ∧
      ∀ s ∈ (group.map (memberSpecs inp k)).flatMap (·.1), s.topBudget = none ∧ ∃ pm ∈ group, s.About pm := by
  constructor
  · induction group with
    | nil => rfl
    | cons pm group ih =>
      simp only [map_cons, flatMap_cons, costCenterTotal_append, map_append,
        sum_append] at ih ⊢
      rw [ih, memberSpecs_spec.1]
  · intro s hs
    obtain ⟨each, he, hs⟩ := mem_flatMap.mp hs
    obtain ⟨pm, hpm, rfl⟩ := mem_map.mp he
    exact ⟨(memberSpecs_spec.2 s hs).1, pm, hpm, (memberSpecs_spec.2 s hs).2⟩

/-- The specs of `_top_budget`: no cost-center budget, and one that covers the group if it is sized. -/
theorem topBudget_spec (group : List PoolMonth) (lead : PoolMonth) (budgets caps : List (CostCenter × Int))
    (hlead : lead.isCapped = false) :
    ∀ s ∈ topBudget group lead budgets caps, s.costCenterBudget = 0 ∧ s.About lead ∧
      ∀ a, s.topBudget = some a →
        budgetTotal budgets + (group.map directForecast).sum ≤ a * nanoPerUsd := by
  intro s hs
  rcases mem_append.mp hs with hs | hs
  · split at hs
    · obtain rfl := mem_singleton.mp hs
      refine ⟨rfl, spec_about _ _ _ _, fun a ha => ?_⟩
      cases ha
    · rename_i p90 _
      obtain rfl := mem_singleton.mp hs
      have hcover : budgetTotal budgets + (group.map directForecast).sum ≤
          (whole (max (budgetTotal budgets) (timesFactor p90) +
            (group.map directForecast).sum)).1 * nanoPerUsd :=
        (Int.add_le_add_right (le_max_left _ _) _).trans (le_whole _)
      unfold PoolMonth.isCapped at hlead
      cases he : lead.entity with
      | cc name =>
        rw [he] at hlead
        cases hlead
      | enterprise =>
        refine ⟨?_, spec_about _ _ _ _, fun a ha => ?_⟩
        · simp [topSpec, Spec.costCenterBudget, spec, budgetRequest, entityScope, he]
        · simp only [topSpec, Spec.topBudget, spec, budgetRequest, entityScope, he] at ha
          cases ha
          exact hcover
      | org login =>
        refine ⟨?_, spec_about _ _ _ _, fun a ha => ?_⟩
        · simp [topSpec, Spec.costCenterBudget, spec, budgetRequest, entityScope, he]
        · simp only [topSpec, Spec.topBudget, spec, budgetRequest, entityScope, he] at ha
          cases ha
          exact hcover
  · obtain rfl := mem_singleton.mp hs
    refine ⟨rfl, spec_about _ _ _ _, fun a ha => ?_⟩
    cases ha

theorem metered_cons (caps : Entity → Nat → List (CostCenter × Int)) (lead : PoolMonth)
    (rest : List PoolMonth) : metered inp k caps (lead :: rest) =
      ((lead :: rest).map (memberSpecs inp k)).flatMap (·.1) ++
        if lead.isCapped then [] else topBudget (lead :: rest) lead
          (((lead :: rest).map (memberSpecs inp k)).flatMap (·.2))
          ((lead :: rest).flatMap fun pm => caps pm.entity pm.month) := by
  unfold metered PoolMonth.isCapped
  dsimp only [head?_cons]
  cases lead.entity <;> simp

theorem metered_spec :
    ∀ s ∈ metered inp k caps group, (∃ pm ∈ group, s.About pm) ∧
      ∀ a, s.topBudget = some a →
        costCenterTotal (metered inp k caps group) * nanoPerUsd + (group.map directForecast).sum ≤
          a * nanoPerUsd := by
  cases group with
  | nil => exact fun s hs => nomatch hs
  | cons lead rest =>
    obtain ⟨htotal, hmembers⟩ := @members_spec inp k (lead :: rest)
    intro s hs
    rw [metered_cons] at hs ⊢
    rcases mem_append.mp hs with hs | hs
    · obtain ⟨hnone, habout⟩ := hmembers s hs
      exact ⟨habout, fun a ha => nomatch hnone.symm.trans ha⟩
    · split at hs
      · cases hs
      · rename_i hcapped
        have htop := topBudget_spec (lead :: rest) lead
          (((lead :: rest).map (memberSpecs inp k)).flatMap (·.2))
          ((lead :: rest).flatMap fun pm => caps pm.entity pm.month) (eq_false_of_ne_true hcapped)
        obtain ⟨-, habout, hcover⟩ := htop s hs
        refine ⟨⟨lead, mem_cons_self, habout⟩, fun a ha => ?_⟩
        rw [if_neg hcapped, costCenterTotal_append, htotal,
          costCenterTotal_eq_zero fun s hs => (htop s hs).1, add_zero]
        unfold budgetTotal at hcover
        rw [← sum_map_mul_right]
        simpa [map_map] using hcover a ha

theorem exists_metered_spec (hpm : pm ∈ group) (hlead : pm.isCapped = false → group.head? = some pm) :
    ∃ s ∈ metered inp k caps group, s.About pm := by
  cases group with
  | nil => cases hpm
  | cons lead rest =>
    rw [metered_cons]
    cases hc : pm.isCapped with
    | true =>
      have hspec : ∃ s ∈ (memberSpecs inp k pm).1, s.About pm := by
        unfold PoolMonth.isCapped at hc
        unfold memberSpecs
        split at hc
        · split
          · exact ⟨_, mem_cons_self, spec_about _ _ _ _⟩
          · exact ⟨_, mem_cons_self, spec_about _ _ _ _⟩
        · cases hc
      obtain ⟨s, hs, habout⟩ := hspec
      exact ⟨s, mem_append_left _ (mem_flatMap.mpr ⟨_, mem_map_of_mem hpm, hs⟩), habout⟩
    | false =>
      obtain rfl : lead = pm := Option.some.inj (hlead hc)
      refine ⟨sizingSpec (lead :: rest) lead ((lead :: rest).flatMap fun pm => caps pm.entity pm.month),
        mem_append_right _ ?_, spec_about _ _ _ _⟩
      rw [if_neg (by rw [hc]; exact Bool.false_ne_true)]
      exact mem_append_right _ mem_cons_self

theorem unmetered_spec : (∀ s ∈ unmetered pm, s.costCenterBudget = 0 ∧ s.About pm ∧
      ∀ a, s.topBudget = some a → directForecast pm ≤ a * nanoPerUsd) ∧
    ∃ s ∈ unmetered pm, s.About pm := by
  unfold unmetered
  split
  · exact ⟨fun s hs => mem_singleton.mp hs ▸ ⟨rfl, spec_about _ _ _ _, fun a ha => nomatch ha⟩,
      _, mem_cons_self, spec_about _ _ _ _⟩
  · exact ⟨fun s hs => mem_singleton.mp hs ▸ ⟨rfl, spec_about _ _ _ _, fun a ha => nomatch ha⟩,
      _, mem_cons_self, spec_about _ _ _ _⟩
  · rename_i p90 hp hcapped
    refine ⟨fun s hs => ?_, _, mem_cons_self, spec_about _ _ _ _⟩
    rcases mem_cons.mp hs with rfl | hs
    · exact ⟨rfl, spec_about _ _ _ _, fun a ha => nomatch ha⟩
    · obtain rfl := mem_singleton.mp hs
      have hcover : directForecast pm ≤
          (whole (timesFactor p90 + directForecast pm)).1 * nanoPerUsd :=
        (le_add_of_nonneg_left (timesFactor_nonneg (overageP90_nonneg hp))).trans (le_whole _)
      cases he : pm.entity with
      | cc name => exact absurd he (hcapped name)
      | enterprise =>
        refine ⟨?_, spec_about _ _ _ _, fun a ha => ?_⟩
        · simp [Spec.costCenterBudget, spec, budgetRequest]
        · cases ha
          exact hcover
      | org login =>
        refine ⟨?_, spec_about _ _ _ _, fun a ha => ?_⟩
        · simp [Spec.costCenterBudget, spec, budgetRequest]
        · cases ha
          exact hcover

/-! ### The specs of a design -/

def meteredMonths (pools : List PoolMonth) : List PoolMonth :=
  (latest pools).filter fun pm => decide (pm.billingMode = .metered)

theorem nodup_meteredMonths (pools : List PoolMonth) : ((meteredMonths pools).map PoolMonth.key).Nodup :=
  (nodup_latest pools).sublist (filter_sublist.map _)

theorem total_of_bill (hg : group ∈ groups (meteredMonths pools)) {lead : PoolMonth} (hlead : lead ∈ group) :
    costCenterTotal (((groups (meteredMonths pools)).flatMap (metered inp k caps)).filter fun s =>
      decide (s.bill = lead.bill)) = costCenterTotal (metered inp k caps group) := by
  have hkey := nodup_meteredMonths pools
  have hbill : ∀ g ∈ groups (meteredMonths pools), ∀ pm ∈ g, ∀ s ∈ metered inp k caps g, s.bill = pm.bill :=
    fun g hgs pm hpm s hs => by
      obtain ⟨pm', hpm', habout⟩ := (metered_spec s hs).1
      have := (group_perm hkey hgs hpm).mem_iff.mp hpm'
      exact habout.bill.trans (by simpa using (mem_filter.mp this).2)
  obtain ⟨before, after, hsplit⟩ := append_of_mem hg
  have hapart := nodup_groups hkey
  rw [hsplit] at hapart hbill
  obtain ⟨-, hafter, hbefore⟩ := pairwise_append.mp hapart
  have hnone : ∀ gs : List (List PoolMonth), (∀ g ∈ gs, g ∈ before ++ group :: after) →
      (∀ g ∈ gs, ∀ pm ∈ g, pm.bill ≠ lead.bill) →
      (gs.flatMap (metered inp k caps)).filter (fun s => decide (s.bill = lead.bill)) = [] :=
    fun gs hin hne => filter_eq_nil_iff.mpr fun s hs => by
      obtain ⟨g, hgs, hs⟩ := mem_flatMap.mp hs
      obtain ⟨pm, hpm, habout⟩ := (metered_spec s hs).1
      rw [decide_eq_true_eq, habout.bill]
      exact hne g hgs pm hpm
  rw [hsplit, flatMap_append, flatMap_cons, filter_append, filter_append,
    hnone before (fun g h => mem_append_left _ h) fun g hgb pm hpm =>
      hbefore g hgb group mem_cons_self pm hpm lead hlead,
    hnone after (fun g h => mem_append_right _ (mem_cons_of_mem _ h)) fun g hga pm hpm =>
      ((pairwise_cons.mp hafter).1 g hga lead hlead pm hpm).symm,
    nil_append, append_nil, filter_eq_self.mpr fun s hs => ?_]
  exact decide_eq_true
    (hbill group (mem_append_right _ mem_cons_self) lead hlead s hs)

/-- The cost-center budgets of the billing group of a spec, in dollars. -/
def groupBudgets (specs : List Spec) (b : Spec) : Int :=
  costCenterTotal (specs.filter fun s => decide (s.bill = b.bill))

def groupDirect (pools : List PoolMonth) (b : Spec) : Int :=
  (((meteredMonths pools).filter fun pm => decide (pm.bill = b.bill)).map directForecast).sum

/-- What the budgets of a design promise. -/
structure AddsUp (pools : List PoolMonth) (specs : List Spec) : Prop where
  /-- A metered budget above covers the cost-center budgets and the direct forecast of its group. -/
  metered : ∀ b ∈ specs, b.billingMode = .metered → ∀ a, b.topBudget = some a →
    groupBudgets specs b * nanoPerUsd + groupDirect pools b ≤ a * nanoPerUsd
  /-- A budget in another billing mode covers the direct forecast of its pool month. -/
  unmetered : ∀ b ∈ specs, b.billingMode ≠ .metered → ∀ a, b.topBudget = some a →
    ∃ pm ∈ latest pools, b.About pm ∧ directForecast pm ≤ a * nanoPerUsd
  /-- Only the latest month of an entity and scenario is designed. -/
  latest : ∀ s ∈ specs, ∃ pm ∈ pools, s.entity = pm.entity ∧ s.month = pm.month ∧
    (s.scenario = pm.planScenario ∨ s.scenario = none) ∧
    ∀ pm' ∈ pools, pm'.key = pm.key → pm'.month ≤ pm.month
  /-- It is designed for every entity and scenario. -/
  every : ∀ pm ∈ pools, ∃ s ∈ specs, s.entity = pm.entity ∧ s.scenario = pm.planScenario ∧
    pm.month ≤ s.month

theorem latest_of_mem (h : pm ∈ Copilot.latest pools) : ∀ pm' ∈ pools, pm'.key = pm.key → pm'.month ≤ pm.month := by
  intro pm' hpm' hk
  obtain ⟨b, hb, hbk, hm⟩ := exists_latest hpm'
  obtain rfl := inj_on_of_nodup_map (nodup_latest pools) hb h (hbk.trans hk)
  exact hm

/-! ### The order of a group -/

instance : Std.Total fun a b : PoolMonth => memberLe a b = true where
  total a b := by
    unfold memberLe
    by_cases ha : a.entity = .enterprise
    · simp [ha]
    · by_cases hb : b.entity = .enterprise
      · simp [hb]
      · simpa [ha, hb] using le_total a.entity.id b.entity.id

instance : IsTrans PoolMonth fun a b => memberLe a b = true where
  trans a b c hab hbc := by
    unfold memberLe at hab hbc ⊢
    by_cases ha : a.entity = .enterprise
    · simp [ha]
    · by_cases hb : b.entity = .enterprise
      · simp [ha, hb] at hab
      · by_cases hc : c.entity = .enterprise
        · simp [hb, hc] at hbc
        · simp only [ha, hb, hc, if_false, decide_eq_true_eq] at hab hbc ⊢
          exact le_trans hab hbc

theorem head_group (hkey : (pools.map PoolMonth.key).Nodup)
    (hg : group ∈ groups pools) (hpm : pm ∈ group) (hc : pm.isCapped = false) : group.head? = some pm := by
  have hin := mem_of_mem_groups hg
  rcases mem_append.mp hg with hg | hg
  · obtain ⟨period, -, rfl⟩ := mem_map.mp hg
    have hsorted := pairwise_insertionSort (fun a b => memberLe a b = true)
      ((pools.filter fun pm => !pm.isOrg).filter fun pm => decide (pm.period = period))
    have hmem : ∀ x ∈ ((pools.filter fun pm => !pm.isOrg).filter fun pm => decide
        (pm.period = period)).insertionSort (fun a b => memberLe a b = true),
        x.isOrg = false ∧ x.period = period := fun x hx => by
      rw [mem_insertionSort, mem_filter, mem_filter] at hx
      exact ⟨by simpa using hx.1.2, by simpa using hx.2⟩
    revert hsorted hmem hpm hin
    generalize ((pools.filter fun pm => !pm.isOrg).filter fun pm => decide
        (pm.period = period)).insertionSort (fun a b => memberLe a b = true) = group
    intro hpm hin hsorted hmem
    cases group with
    | nil => cases hpm
    | cons lead rest =>
      rcases mem_cons.mp hpm with rfl | hrest
      · rfl
      · have hle := (pairwise_cons.mp hsorted).1 pm hrest
        have hent : pm.entity = .enterprise := by
          have horg := (hmem pm hpm).1
          unfold PoolMonth.isOrg at horg
          unfold PoolMonth.isCapped at hc
          cases he : pm.entity <;> simp [he] at horg hc ⊢
        have hlead : lead.entity = .enterprise := by
          by_contra hne
          rw [memberLe, if_neg hne, if_pos hent] at hle
          cases hle
        have hperiod : lead.period = pm.period :=
          (hmem lead mem_cons_self).2.trans (hmem pm hpm).2.symm
        refine congrArg some (inj_on_of_nodup_map hkey (hin lead mem_cons_self) (hin pm hpm) ?_)
        exact Prod.ext (hlead.trans hent.symm) (Prod.mk.inj hperiod).2
  · obtain ⟨x, hx, rfl⟩ := mem_map.mp hg
    obtain rfl := mem_singleton.mp hpm
    rfl

/-! ### Whole designs -/

theorem exists_designSpec {pools : List PoolMonth} {pm : PoolMonth} (h : pm ∈ latest pools) :
    ∃ s ∈ designSpecs pools inp k, s.About pm := by
  by_cases hm : pm.billingMode = .metered
  · have hmem : pm ∈ meteredMonths pools := mem_filter.mpr ⟨h, by simpa using hm⟩
    obtain ⟨group, hg, hpm⟩ := exists_pool_group hmem
    obtain ⟨s, hs, habout⟩ := exists_metered_spec hpm (head_group (nodup_meteredMonths pools) hg hpm)
    exact ⟨s, mem_append_right _ (mem_flatMap.mpr ⟨group, hg, hs⟩), habout⟩
  · obtain ⟨s, hs, habout⟩ := unmetered_spec.2
    refine ⟨s, mem_append_left _ (mem_append_right _ (mem_flatMap.mpr ⟨pm, ?_, hs⟩)),
      habout⟩
    exact mem_filter.mpr ⟨h, by simpa using hm⟩

theorem designSpecs_about (h : s ∈ designSpecs pools inp k) :
    (∃ pm ∈ latest pools, s.entity = pm.entity ∧ s.month = pm.month ∧ s.scenario = none ∧
        s.topBudget = none) ∨
      (∃ pm ∈ latest pools, pm.billingMode ≠ .metered ∧ s.About pm ∧ s ∈ unmetered pm) ∨
      ∃ group ∈ groups (meteredMonths pools), s ∈ metered inp k (capsOf inp k (latest pools)) group := by
  rcases mem_append.mp h with h | h
  · rcases mem_append.mp h with h | h
    · obtain ⟨pm, hpm, hs⟩ := mem_flatMap.mp h
      obtain ⟨cc, -, hs⟩ := mem_filterMap.mp hs
      obtain ⟨-, hnone, he, hmonth, hscen⟩ := userLevelSpec_spec hs
      exact .inl ⟨pm, (mem_userLevelMonths hpm).1, he, hmonth, hscen, hnone⟩
    · obtain ⟨pm, hpm, hs⟩ := mem_flatMap.mp h
      obtain ⟨hpm, hmode⟩ := mem_filter.mp hpm
      exact .inr (.inl ⟨pm, hpm, by simpa using hmode, (unmetered_spec.1 s hs).2.1, hs⟩)
  · obtain ⟨group, hg, hs⟩ := mem_flatMap.mp h
    exact .inr (.inr ⟨group, hg, hs⟩)

theorem groupBudgets_design {b : Spec} :
    groupBudgets (designSpecs pools inp k) b = groupBudgets ((groups (meteredMonths pools)).flatMap
      (metered inp k (capsOf inp k (latest pools)))) b := by
  have hzero : ∀ specs : List Spec, (∀ s ∈ specs, s.costCenterBudget = 0) → groupBudgets specs b = 0 :=
    fun specs h => costCenterTotal_eq_zero fun s hs => h s (mem_of_mem_filter hs)
  have hlevel := hzero ((userLevelMonths (latest pools)).flatMap fun pm => userLevel inp pm k)
    fun s hs => by
      obtain ⟨pm, -, hs⟩ := mem_flatMap.mp hs
      obtain ⟨cc, -, hs⟩ := mem_filterMap.mp hs
      exact (userLevelSpec_spec hs).1
  have hother := hzero (((latest pools).filter fun pm => decide (pm.billingMode ≠ .metered)).flatMap
    unmetered) fun s hs => by
      obtain ⟨pm, -, hs⟩ := mem_flatMap.mp hs
      exact (unmetered_spec.1 s hs).1
  unfold groupBudgets at hlevel hother ⊢
  unfold designSpecs
  simp only [filter_append, costCenterTotal_append, hlevel, hother, zero_add]
  rfl

def CoversAll (specs : List Spec) : Prop :=
  ∀ b ∈ specs, ∀ a, b.topBudget = some a →
    costCenterTotal (specs.filter fun s => decide (s.entity.billing = b.entity.billing ∧
      (s.scenario = b.scenario ∨ s.scenario = none))) ≤ a

def LatestOnly (pools : List PoolMonth) (specs : List Spec) : Prop :=
  ∀ s ∈ specs, ∀ pm ∈ pools, pm.entity = s.entity → pm.month ≤ s.month

def mixedPlans : List PoolMonth :=
  [{ entity := .enterprise, month := 2026 * 12 - 1 },
   { entity := .enterprise, month := 2026 * 12, planScenario := some .business },
   { entity := .cc "x", month := 2026 * 12, overageObservedNano := 100 * 10 ^ 9 }]

end TokenBill.Copilot
