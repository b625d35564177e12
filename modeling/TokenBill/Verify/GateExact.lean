import TokenBill.Verify.Gate
import TokenBill.General.Grouping
import Mathlib.Algebra.Group.Prod

/-!
# What the gate decides

The order of the lanes does not matter, and for the cost neither does how a run is split into lanes. The share is
that of the runs where the warm-up turns of the lanes are those of their runs.
-/

namespace TokenBill.Gate

open General List

variable {host : Host} {lanes lanes' : List Lane} {opts : CheckOptions} {baseline : Option Baseline} {n : Nat}

/-! ### Runs -/

/-- The runs of the lanes: their sessions. -/
def sessions (lanes : List Lane) : List String := (lanes.map (·.sessionKey)).dedup

def requestKey (req : Request) : ℕ ×ₗ ℕ ×ₗ String := toLex (req.tsStartMs, toLex (req.seq, req.requestId))

def requestsOf (lanes : List Lane) (session : String) : List Request :=
  (lanes.filter fun lane => decide (lane.sessionKey = session)).flatMap (·.requests)

def runOf (lanes : List Lane) (session : String) : List Request :=
  (requestsOf lanes session).insertionSort fun a b => requestKey a ≤ requestKey b

def runWarmed (n : Nat) (lanes : List Lane) : List Request := (sessions lanes).flatMap fun s => (runOf lanes s).drop n

/-- The tokens of a run gate: what is read of the cache and the input, after the warm-up turns of the runs. -/
def runTokens (n : Nat) (lanes : List Lane) : Nat × Nat := ((runWarmed n lanes).map servedTokens).sum

/-- The warm-up turns of the lanes are those of their runs. -/
def WarmUpAgrees (n : Nat) (lanes : List Lane) : Prop := (warmed n lanes).Perm (runWarmed n lanes)

def costOfRun (host : Host) (lanes : List Lane) (session : String) : Int :=
  ((requestsOf lanes session).map (requestCost host)).sum

/-- The same runs, whatever the order of the lanes and however each run is split into lanes. -/
def SameRuns (lanes lanes' : List Lane) : Prop :=
  (sessions lanes).Perm (sessions lanes') ∧ ∀ s, (requestsOf lanes s).Perm (requestsOf lanes' s)

def ShareFails (host : Host) (lanes : List Lane) (opts : CheckOptions) (baseline : Option Baseline) : Prop :=
  ∃ v ∈ violations host lanes opts baseline, v.rule = .cacheShare ∧ v.level = .error

def CostFails (host : Host) (lanes : List Lane) (opts : CheckOptions) (baseline : Option Baseline) : Prop :=
  ∃ v ∈ violations host lanes opts baseline, v.rule = .costRegression ∧ v.level = .error

theorem perm_requests (lanes : List Lane) :
    (lanes.flatMap (·.requests)).Perm ((sessions lanes).flatMap (requestsOf lanes)) := by
  have hlanes := flatten_fibres_dedup_perm (·.sessionKey) lanes (List.Perm.refl (sessions lanes))
  rw [← flatMap_def] at hlanes
  refine (hlanes.symm.flatMap_right _).trans ?_
  rw [flatMap_assoc]
  exact List.Perm.refl _

theorem warmUpAgrees_zero (lanes : List Lane) : WarmUpAgrees 0 lanes := by
  refine (perm_requests lanes).trans ?_
  exact List.Perm.flatMap_left _ fun s _ => (perm_insertionSort _ _).symm

/-! ### The share -/

/-! ### The rules -/

theorem mem_checkBreakers {v : CheckViolation} (h : v ∈ checkBreakers host lanes opts baseline) :
    v.rule = .newBreaker ∨ v.rule = .churn := by
  rcases mem_append.mp h with h | h
  · obtain ⟨kind, -, rfl⟩ := mem_map.mp h
    exact Or.inl rfl
  · split at h
    · exact Or.inr (by rw [mem_singleton.mp h]; rfl)
    · cases h

theorem rule_checkShare {v : CheckViolation} (h : v ∈ checkShare lanes opts) : v.rule = .cacheShare := by
  unfold checkShare at h
  split at h
  · rw [mem_singleton.mp h]
  · split at h
    · rw [mem_singleton.mp h]
      rfl
    · cases h

theorem rule_checkCost {v : CheckViolation} (h : v ∈ checkCost host lanes opts baseline) :
    v.rule = .costRegression := by
  unfold checkCost at h
  split at h
  · cases h
  split at h
  · cases h
  split at h
  · rw [mem_singleton.mp h]
  split at h
  · cases h
  split at h
  · rw [mem_singleton.mp h]
    rfl
  · cases h

theorem level_violate {rule : Rule} {kind : Option String} :
    (violate opts rule kind).level = .error ↔ opts.fails rule.family = true := by
  unfold violate
  cases opts.fails rule.family <;> simp

theorem shareFails_iff : ShareFails host lanes opts baseline ↔
    opts.fails .share = true ∧ ∃ s ∈ share lanes opts.afterTurn, (s : ℚ) / 10 ^ 4 < opts.minCacheReadShare := by
  have hmem : ShareFails host lanes opts baseline ↔ ∃ v ∈ checkShare lanes opts, v.level = .error := by
    constructor
    · rintro ⟨v, hv, hrule, hlevel⟩
      unfold violations at hv
      rw [mem_append, mem_append] at hv
      rcases hv with (hv | hv) | hv
      · exact ⟨v, hv, hlevel⟩
      · rcases mem_checkBreakers hv with h | h <;> rw [hrule] at h <;> cases h
      · rw [rule_checkCost hv] at hrule
        cases hrule
    · rintro ⟨v, hv, hlevel⟩
      exact ⟨v, mem_append_left _ (mem_append_left _ hv), rule_checkShare hv, hlevel⟩
  rw [hmem]
  unfold checkShare
  cases share lanes opts.afterTurn with
  | none => simp
  | some s =>
    by_cases hs : (s : ℚ) / 10 ^ 4 < opts.minCacheReadShare
    · simp only [hs, if_true, mem_singleton, exists_eq_left, level_violate]
      simp [hs, Rule.family]
    · simp [hs]

theorem costFails_iff : CostFails host lanes opts baseline ↔
    opts.fails .regression = true ∧ ∃ base ∈ baseline, ∃ baseMedian ∈ base.medianCostNano,
      opts.minRuns ≤ runs lanes ∧ opts.minRuns ≤ base.runs ∧
      ∃ cost ∈ median ((runCosts host lanes).map (·.2)), costLimit opts baseMedian < cost := by
  have hmem : CostFails host lanes opts baseline ↔ ∃ v ∈ checkCost host lanes opts baseline, v.level = .error := by
    constructor
    · rintro ⟨v, hv, hrule, hlevel⟩
      unfold violations at hv
      rw [mem_append, mem_append] at hv
      rcases hv with (hv | hv) | hv
      · rw [rule_checkShare hv] at hrule
        cases hrule
      · rcases mem_checkBreakers hv with h | h <;> rw [hrule] at h <;> cases h
      · exact ⟨v, hv, hlevel⟩
    · rintro ⟨v, hv, hlevel⟩
      exact ⟨v, mem_append_right _ hv, rule_checkCost hv, hlevel⟩
  rw [hmem]
  unfold checkCost
  cases baseline with
  | none => simp
  | some base =>
    cases hbase : base.medianCostNano with
    | none => simp [hbase]
    | some baseMedian =>
      have hone : ∀ {p : Baseline → Prop}, (∃ b ∈ some base, p b) ↔ p base := by simp
      have htwo : ∀ {p : Nat → Prop}, (∃ m ∈ base.medianCostNano, p m) ↔ p baseMedian := by simp [hbase]
      rw [hone, htwo]
      simp only [hbase]
      by_cases hruns : runs lanes < opts.minRuns ∨ base.runs < opts.minRuns
      · have hfew : ¬ (opts.minRuns ≤ runs lanes ∧ opts.minRuns ≤ base.runs) := by omega
        simp only [hruns, if_true, mem_singleton, exists_eq_left, reduceCtorEq, false_iff]
        rintro ⟨-, h1, h2, -⟩
        exact hfew ⟨h1, h2⟩
      · have henough : opts.minRuns ≤ runs lanes ∧ opts.minRuns ≤ base.runs := by omega
        simp only [hruns, if_false, henough, true_and]
        cases median ((runCosts host lanes).map (·.2)) with
        | none => simp
        | some cost =>
          by_cases hcost : costLimit opts baseMedian < cost
          · simp only [hcost, if_true, mem_singleton, exists_eq_left, level_violate]
            simp [hcost, Rule.family]
          · simp [hcost]

/-! ### The runs decide -/

theorem runCosts_perm (host : Host) (lanes : List Lane) :
    (runCosts host lanes).Perm ((sessions lanes).map fun s => (s, costOfRun host lanes s)) := by
  have hn : ((sessions lanes).map fun s => (s, costOfRun host lanes s)).Nodup :=
    (nodup_dedup _).map fun _ _ h => congrArg Prod.fst h
  refine (perm_ext_iff_of_nodup (nodup_tally _).of_map hn).mpr fun ⟨s, total⟩ => ?_
  have hcost : costOfRun host lanes s = ((lanes.filter fun lane => decide (lane.sessionKey = s)).map
      fun lane => (lane.requests.map (requestCost host)).sum).sum := by
    unfold costOfRun requestsOf
    rw [map_flatMap, flatMap_def, sum_flatten, map_map]
    rfl
  have hkeys : (lanes.map fun lane => (lane.sessionKey, (lane.requests.map (requestCost host)).sum)).map (·.1) =
      lanes.map (·.sessionKey) := by
    rw [map_map]
    rfl
  rw [mem_tally, amountOf, hkeys, filter_map, map_map]
  have hsum : (((lanes.filter fun lane => decide (lane.sessionKey = s)).map
      fun lane => (lane.requests.map (requestCost host)).sum).sum) = costOfRun host lanes s := hcost.symm
  simp only [Function.comp_def, hsum, mem_map, Prod.mk.injEq]
  constructor
  · intro h
    split at h
    · rename_i hs
      exact ⟨s, mem_dedup.mpr (mem_map.mpr hs), rfl, Option.some.inj h⟩
    · cases h
  · rintro ⟨s, hs, rfl, rfl⟩
    rw [if_pos (mem_map.mp (mem_dedup.mp hs))]

theorem median_perm {xs ys : List Int} (h : xs.Perm ys) : median xs = median ys := by
  unfold median
  rw [sorted_eq (fun _ _ _ _ => le_antisymm) h]

theorem costFails_iff_runs : CostFails host lanes opts baseline ↔
    opts.fails .regression = true ∧ ∃ base ∈ baseline, ∃ baseMedian ∈ base.medianCostNano,
      opts.minRuns ≤ (sessions lanes).length ∧ opts.minRuns ≤ base.runs ∧
      ∃ cost ∈ median ((sessions lanes).map (costOfRun host lanes)), costLimit opts baseMedian < cost := by
  have hcosts : ((runCosts host lanes).map (·.2)).Perm ((sessions lanes).map (costOfRun host lanes)) := by
    have h := (runCosts_perm host lanes).map (·.2)
    rw [map_map] at h
    exact h
  rw [costFails_iff, median_perm hcosts]
  rfl

theorem costFails_sameRuns (h : SameRuns lanes lanes') :
    CostFails host lanes opts baseline ↔ CostFails host lanes' opts baseline := by
  have hcosts : ((sessions lanes).map (costOfRun host lanes)).Perm ((sessions lanes').map (costOfRun host lanes')) := by
    have hcost : costOfRun host lanes = costOfRun host lanes' := funext fun s => ((h.2 s).map _).sum_eq
    rw [hcost]
    exact h.1.map _
  rw [costFails_iff_runs, costFails_iff_runs, median_perm hcosts, h.1.length_eq]

theorem shareFails_perm (h : lanes.Perm lanes') :
    ShareFails host lanes opts baseline ↔ ShareFails host lanes' opts baseline := by
  have hshare : share lanes opts.afterTurn = share lanes' opts.afterTurn :=
    congrArg shareOf ((h.flatMap_right _).map servedTokens).sum_eq
  rw [shareFails_iff, shareFails_iff, hshare]

theorem share_of_agrees (h : WarmUpAgrees n lanes) : share lanes n = shareOf (runTokens n lanes) :=
  congrArg shareOf (h.map servedTokens).sum_eq

/-- The requests of every run have keys of their own. -/
def DistinctKeys (lanes : List Lane) : Prop :=
  ∀ s, ∀ a ∈ requestsOf lanes s, ∀ b ∈ requestsOf lanes s, requestKey a = requestKey b → a = b

theorem runTokens_sameRuns (h : SameRuns lanes lanes') (hkeys : DistinctKeys lanes) :
    runTokens n lanes = runTokens n lanes' := by
  have hrun : runOf lanes = runOf lanes' := by
    funext s
    refine sorted_eq (fun a ha b hb hab hba => ?_) (h.2 s)
    exact hkeys s a ha b ((h.2 s).mem_iff.mpr hb) (le_antisymm hab hba)
  unfold runTokens runWarmed
  rw [hrun]
  exact ((h.1.flatMap_right _).map servedTokens).sum_eq

/-- What the gate decides: the share by its four places, the cost by its median in whole nano. -/
theorem gate_decides (host : Host) (lanes : List Lane) (opts : CheckOptions) (baseline : Option Baseline) :
    (WarmUpAgrees opts.afterTurn lanes → (ShareFails host lanes opts baseline ↔ opts.fails .share = true ∧
      ∃ s ∈ shareOf (runTokens opts.afterTurn lanes), (s : ℚ) / 10 ^ 4 < opts.minCacheReadShare)) ∧
    (CostFails host lanes opts baseline ↔ opts.fails .regression = true ∧ ∃ base ∈ baseline,
      ∃ baseMedian ∈ base.medianCostNano, opts.minRuns ≤ (sessions lanes).length ∧ opts.minRuns ≤ base.runs ∧
        ∃ cost ∈ median ((sessions lanes).map (costOfRun host lanes)), costLimit opts baseMedian < cost) ∧
    (∀ lanes', lanes.Perm lanes' → (ShareFails host lanes opts baseline ↔ ShareFails host lanes' opts baseline)) ∧
    (∀ lanes', SameRuns lanes lanes' → (CostFails host lanes opts baseline ↔ CostFails host lanes' opts baseline)) ∧
    (∀ lanes', SameRuns lanes lanes' → DistinctKeys lanes → WarmUpAgrees opts.afterTurn lanes →
      WarmUpAgrees opts.afterTurn lanes' →
        (ShareFails host lanes opts baseline ↔ ShareFails host lanes' opts baseline)) := by
  refine ⟨fun h => ?_, costFails_iff_runs, fun _ => shareFails_perm, fun _ => costFails_sameRuns, ?_⟩
  · rw [shareFails_iff, share_of_agrees h]
  · intro lanes' h hkeys hagrees hagrees'
    rw [shareFails_iff, shareFails_iff, share_of_agrees hagrees, share_of_agrees hagrees', runTokens_sameRuns h hkeys]

/-! ### What it does not decide -/

def exactShare (n : Nat) (lanes : List Lane) : ℚ := (runTokens n lanes).1 / (runTokens n lanes).2

/-- The exact median. -/
def exactMedian (values : List Int) : Option ℚ :=
  let ordered := values.insertionSort (· ≤ ·)
  if ordered.length % 2 = 1 then (ordered[ordered.length / 2]?).map fun v => (v : ℚ)
  else do
    let low ← ordered[ordered.length / 2 - 1]?
    let high ← ordered[ordered.length / 2]?
    return ((low + high : Int) : ℚ) / 2

/-- A request of one inference. -/
def gateRequest (session lane : String) (seq : Nat) (usage : UsageBuckets) : Request where
  requestId := "r"
  sessionKey := session
  laneKey := lane
  seq := seq
  attribution := {}
  params := { modelRequested := "m" }
  attempts := [.plain "at" 1 seq [{
    inferenceId := "inf", kind := .message, usage := usage
    pricing := { provider := "anthropic", channel := "api", model := "m", modelRaw := "m" } }]]
  attempts_ne := cons_ne_nil _ _

/-- A lane of one request. -/
def gateLane (session lane : String) (seq : Nat) (usage : UsageBuckets) : Lane where
  laneKey := lane
  sessionKey := session
  kind := .main
  parentLaneKey := none
  cacheScopeKey := "unknown"
  requests := [gateRequest session lane seq usage]

def gateHost : Host := ⟨fun inf _ => inf.usage.uncachedInput, fun _ => []⟩

def gateOptions (afterTurn : Fin 2) : CheckOptions :=
  ⟨4 / 5, afterTurn, 4, 2, none, by norm_num, by norm_num, by omega, by decide⟩

def nearLanes : List Lane := [gateLane "s" "a" 0 ⟨{ uncachedInput := 20004, cacheRead := 79996 }, by decide⟩]

theorem check_ten : ({ uncachedInput := 10 } : UsageCounts).check = none := by decide

def splitLanes : List Lane :=
  [gateLane "s" "a" 0 ⟨{ uncachedInput := 10 }, check_ten⟩, gateLane "s" "b" 1 ⟨{ uncachedInput := 10 }, check_ten⟩]

def costLanes : List Lane :=
  [gateLane "s" "a" 0 ⟨{ uncachedInput := 10 }, check_ten⟩, gateLane "t" "b" 1 ⟨{ uncachedInput := 11 }, by decide⟩]

/-- A share just below the threshold is rounded to it, the requests of a second lane are its warm-up turns, and a
median of 10.5 is rounded to 10. -/
theorem near_misses_pass :
    (exactShare 0 nearLanes < (gateOptions 0).minCacheReadShare ∧ (gateOptions 0).fails .share = true ∧
      ¬ ShareFails gateHost nearLanes (gateOptions 0) none) ∧
    (exactShare 1 splitLanes < (gateOptions 1).minCacheReadShare ∧ 0 < (runTokens 1 splitLanes).2 ∧
      ¬ ShareFails gateHost splitLanes (gateOptions 1) none) ∧
    (exactMedian ((sessions costLanes).map (costOfRun gateHost costLanes)) = some (21 / 2) ∧
      costLimit (gateOptions 0) 10 < 21 / 2 ∧ ¬ CostFails gateHost costLanes (gateOptions 0) (some ⟨[], 2, some 10⟩)) := by
  unfold ShareFails CostFails
  decide +kernel

/-- Without warm-up turns both requests of the run count, and it fails. -/
theorem cold_run_fails : ShareFails gateHost splitLanes (gateOptions 0) none :=
  ((gate_decides gateHost splitLanes (gateOptions 0) none).1 (warmUpAgrees_zero _)).mpr (by decide +kernel)

end TokenBill.Gate
