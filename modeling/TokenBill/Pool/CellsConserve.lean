import TokenBill.General.GroupSums
import TokenBill.Pool.Cells

/-!
# The cell table keeps the bill

The money of the cells is that of the lines that count, at either grain. The tokens of a key are split
over its cost types by largest remainders, counter by counter; each of the nine counters is kept, and
the reasoning tokens are kept unless a part of them exceeds that of the output tokens.
-/

namespace TokenBill.Pool

open General List

/-! ### Splitting a number -/

section Split

variable {total : Int} {weights : List Int} {fallback : Nat}

theorem sum_max_nonneg (weights : List Int) : 0 ≤ (weights.map (max 0)).sum :=
  sum_nonneg fun w hw => by
    obtain ⟨x, -, rfl⟩ := mem_map.mp hw
    exact le_max_left 0 x

theorem length_splitInt (total : Int) (weights : List Int) (fallback : Nat) :
    (splitInt total weights fallback).length = weights.length := by
  unfold splitInt
  dsimp only
  split
  · rw [length_map, length_range, length_map]
  · rw [length_apportion, length_map]

theorem sum_splitInt (total : Int) (h : fallback < weights.length) : (splitInt total weights fallback).sum = total := by
  unfold splitInt
  dsimp only
  split
  · have hmem : fallback ∈ List.range (weights.map (max 0)).length := by
      rw [mem_range, length_map]
      exact h
    rw [sum_map_ite_eq, count_eq_one_of_mem nodup_range hmem, sum_map_zero, one_nsmul, sub_zero,
      add_zero]
  · rename_i hsum
    exact sum_apportion (lt_of_le_of_ne (sum_max_nonneg weights) (Ne.symm hsum))

theorem splitInt_nonneg (ht : 0 ≤ total) : ∀ x ∈ splitInt total weights fallback, 0 ≤ x := by
  unfold splitInt
  dsimp only
  split
  · intro x hx
    obtain ⟨i, -, rfl⟩ := mem_map.mp hx
    split
    · exact ht
    · exact le_refl 0
  · rename_i hsum
    have hden := lt_of_le_of_ne (sum_max_nonneg weights) (Ne.symm hsum)
    intro x hx
    obtain ⟨w, hw, hr⟩ := exists_of_mem_right (apportion_rounded hden) hx
    obtain ⟨y, -, rfl⟩ := mem_map.mp hw
    exact hr.nonneg hden ht (le_max_left 0 y)

theorem sum_partAt (total : Nat) (h : fallback < weights.length) :
    ((List.range weights.length).map fun i => partAt total weights fallback i).sum = total := by
  have hparts : (List.range weights.length).map (fun i => (partAt total weights fallback i : Int)) =
      splitInt total weights fallback := by
    refine ext_getElem (by rw [length_map, length_range, length_splitInt]) fun i h1 h2 => ?_
    rw [getElem_map, getElem_range, partAt, getElem?_eq_getElem h2, Option.getD_some,
      Int.toNat_of_nonneg (splitInt_nonneg (Int.natCast_nonneg total) _ (getElem_mem h2))]
  have hsum : (((List.range weights.length).map fun i => partAt total weights fallback i).sum : Int) = total := by
    rw [Nat.cast_list_sum, map_map]
    exact (congrArg List.sum hparts).trans (sum_splitInt _ h)
  exact_mod_cast hsum

end Split

/-! ### Splitting tokens -/

/-- `_BUCKET_FIELDS`. -/
inductive Bucket where
  | uncachedInput | cacheRead | cacheWrite5m | cacheWrite1h | cacheWriteOther | cacheWriteUnknown | output
  | webSearchRequests | webFetchRequests

/-- The counter of a bucket. -/
def counter (b : Bucket) (u : UsageCounts) : Nat :=
  match b with
  | .uncachedInput => u.uncachedInput
  | .cacheRead => u.cacheRead
  | .cacheWrite5m => u.cacheWrite5m
  | .cacheWrite1h => u.cacheWrite1h
  | .cacheWriteOther => u.cacheWriteOther
  | .cacheWriteUnknown => u.cacheWriteUnknown
  | .output => u.output
  | .webSearchRequests => u.webSearchRequests
  | .webFetchRequests => u.webFetchRequests

theorem counter_splitCounts (b : Bucket) (u : UsageBuckets) (weights : List Int) (fallback i : Nat) :
    counter b (splitCounts u weights fallback i) = partAt (counter b u.toUsageCounts) weights fallback i := by
  cases b <;> rfl

theorem counter_empty (b : Bucket) : counter b UsageBuckets.empty.toUsageCounts = 0 := by cases b <;> rfl

theorem counter_add (b : Bucket) {x y z : UsageBuckets} (h : x.add y = .ok z) :
    counter b z.toUsageCounts = counter b x.toUsageCounts + counter b y.toUsageCounts := by
  unfold UsageBuckets.add at h
  split at h
  · cases h
  · rw [UsageCounts.build_eq_ok.mp h]
    cases b <;> rfl

/-- No share of the reasoning tokens exceeds that of the output tokens, where there are several shares. -/
def Unclamped (u : UsageBuckets) (weights : List Int) (fallback : Nat) : Prop :=
  weights.length = 1 ∨ ∀ r ∈ u.outputReasoning, ∀ i < weights.length,
    partAt r weights fallback i ≤ partAt u.output weights fallback i

/-- Some parts have the reasoning tokens of the whole: as many, or none of them tells. -/
def ReasoningKept (u : UsageBuckets) (parts : List UsageBuckets) : Prop :=
  match u.outputReasoning with
  | none => ∀ p ∈ parts, p.outputReasoning = none
  | some r => (parts.map fun p => p.outputReasoning.getD 0).sum = r

variable {u : UsageBuckets} {weights : List Int} {fallback : Nat} {parts : List UsageBuckets}

theorem parts_of_split (h : splitUsage u weights fallback = .ok parts) (hone : weights.length ≠ 1) :
    parts.map (·.toUsageCounts) = (List.range weights.length).map (splitCounts u weights fallback) := by
  unfold splitUsage at h
  rw [if_neg hone] at h
  refine (map_eq_of_forall₂ ((mapM_eq_ok.mp h).imp fun i p hp => ?_)).symm
  exact (UsageCounts.build_eq_ok.mp (lift_eq_ok.mp hp)).symm

theorem length_splitUsage (h : splitUsage u weights fallback = .ok parts) : parts.length = weights.length := by
  by_cases hone : weights.length = 1
  · unfold splitUsage at h
    rw [if_pos hone] at h
    rw [← Except.ok.inj h, hone, length_singleton]
  · have hlen := congrArg List.length (parts_of_split h hone)
    rwa [length_map, length_map, length_range] at hlen

theorem counter_split (h : splitUsage u weights fallback = .ok parts) (hf : fallback < weights.length) (b : Bucket) :
    (parts.map fun p => counter b p.toUsageCounts).sum = counter b u.toUsageCounts := by
  by_cases hone : weights.length = 1
  · unfold splitUsage at h
    rw [if_pos hone] at h
    rw [← Except.ok.inj h, map_singleton, sum_singleton]
  · have hparts := congrArg (List.map (counter b)) (parts_of_split h hone)
    rw [map_map, map_map] at hparts
    calc (parts.map fun p => counter b p.toUsageCounts).sum
        = ((List.range weights.length).map fun i => counter b (splitCounts u weights fallback i)).sum :=
          congrArg List.sum hparts
      _ = ((List.range weights.length).map fun i => partAt (counter b u.toUsageCounts) weights fallback i).sum := by
          simp only [counter_splitCounts]
      _ = counter b u.toUsageCounts := sum_partAt _ hf

/-- Parts that are cut to bounds add up to what they were without them when no bound cuts. -/
theorem sum_min_eq_iff {ι : Type} {is : List ι} {f g : ι → Nat} :
    (is.map fun i => min (f i) (g i)).sum = (is.map f).sum ↔ ∀ i ∈ is, f i ≤ g i := by
  induction is with
  | nil => simp
  | cons i is ih =>
    have hle : (is.map fun i => min (f i) (g i)).sum ≤ (is.map f).sum :=
      sum_le_sum fun i _ => min_le_left _ _
    rw [map_cons, map_cons, sum_cons, sum_cons, forall_mem_cons, ← ih]
    omega

theorem reasoning_split (h : splitUsage u weights fallback = .ok parts) (hf : fallback < weights.length) :
    ReasoningKept u parts ↔ Unclamped u weights fallback := by
  unfold ReasoningKept Unclamped
  by_cases hone : weights.length = 1
  · unfold splitUsage at h
    rw [if_pos hone] at h
    obtain rfl := Except.ok.inj h
    refine iff_of_true ?_ (.inl hone)
    cases hr : u.outputReasoning with
    | none => simpa using hr
    | some r => simp [hr]
  · rw [or_iff_right hone]
    have hparts := congrArg (List.map (·.outputReasoning)) (parts_of_split h hone)
    rw [map_map, map_map] at hparts
    cases hr : u.outputReasoning with
    | none =>
      refine iff_of_true (fun p hp => ?_) fun r hr => absurd hr (by simp)
      have hmem : p.outputReasoning ∈ parts.map ((·.outputReasoning) ∘ fun p => p.toUsageCounts) :=
        mem_map.mpr ⟨p, hp, rfl⟩
      rw [hparts] at hmem
      obtain ⟨i, -, hi⟩ := mem_map.mp hmem
      rw [← hi]
      show u.outputReasoning.map _ = none
      rw [hr, Option.map_none]
    | some r =>
      have hsum : (parts.map fun p => p.outputReasoning.getD 0).sum =
          ((List.range weights.length).map fun i =>
            min (partAt r weights fallback i) (partAt u.output weights fallback i)).sum := by
        have hget := congrArg (List.map (Option.getD · 0)) hparts
        rw [map_map, map_map] at hget
        refine (congrArg List.sum hget).trans (congrArg List.sum (map_congr_left fun i _ => ?_))
        show (u.outputReasoning.map _).getD 0 = _
        rw [hr, Option.map_some, Option.getD_some]
      have htotal := sum_partAt r hf
      rw [hsum]
      calc _ ↔ ((List.range weights.length).map fun i =>
              min (partAt r weights fallback i) (partAt u.output weights fallback i)).sum =
            ((List.range weights.length).map fun i => partAt r weights fallback i).sum := by rw [htotal]
        _ ↔ ∀ i ∈ List.range weights.length, partAt r weights fallback i ≤ partAt u.output weights fallback i :=
            sum_min_eq_iff
        _ ↔ _ := by simp

/-! ### The cells of a key -/

def CellFields.key (c : CellFields) : CellKey :=
  ⟨c.month, c.dateUtc, ⟨c.team, c.costCenter, c.org, c.sku, c.model, c.routing, c.speed, c.pseudo⟩⟩

/-- Credits, and gross, discount and net amounts. -/
abbrev Amounts : Type := Decimal × Int × Int × Int

def CellFields.money (c : CellFields) : Amounts := (c.credits, c.grossNano, c.discountNano, c.netNano)

def LineAcc.money (acc : LineAcc) : Amounts := (acc.credits, acc.gross, acc.gross - acc.net, acc.net)

def Counted.money (c : Counted) : Amounts := (c.credits, c.gross, c.gross - c.line.amountNano, c.line.amountNano)

theorem LineAcc.money_add (acc : LineAcc) (c : Counted) : (acc.add c).money = acc.money + c.money := by
  refine Prod.ext rfl (Prod.ext rfl (Prod.ext ?_ rfl))
  show acc.gross + c.gross - (acc.net + c.line.amountNano) = acc.gross - acc.net + (c.gross - c.line.amountNano)
  ring

variable {inp : CellInputs} {grain : Grain} {counted : List Counted} {usages : List (CellKey × UsageEntry)}
  {key : CellKey} {cells : List Cell}

theorem length_partsAt {entry : Option UsageEntry} {groups : List (CostType × LineAcc)}
    (h : partsAt entry groups = .ok parts) : parts.length = groups.length := by
  unfold partsAt at h
  split at h
  · rw [length_splitUsage h, length_map]
  · rw [← Except.ok.inj h, length_map]

/-- What the cells of a key are. -/
structure CellsOf (table : List (CellKey × List (CostType × LineAcc))) (usages : List (CellKey × UsageEntry))
    (key : CellKey) (cells : List Cell) : Prop where
  keys : ∀ c ∈ cells, c.key = key
  groups : cells.map (fun c => (c.costType, c.money)) = (groupsAt table key).map fun g => (g.1, g.2.money)
  parts : partsAt (usages.lookup key) (groupsAt table key) = .ok (cells.map (·.usage))

theorem cellsAt_spec {capped : List (String × Decimal)} {mode : EntityMode}
    {table : List (CellKey × List (CostType × LineAcc))} (h : cellsAt capped mode table usages key = .ok cells) :
    CellsOf table usages key cells := by
  obtain ⟨parts, hparts, h⟩ := bind_eq_ok.mp h
  have hlen := length_partsAt hparts
  have hcells : cells.map (·.toCellFields) = ((groupsAt table key).zip parts).map fun gp =>
      cellOf (poolEntity capped mode key.dims.costCenter key.dims.org) key (usages.lookup key) gp.1 gp.2 :=
    (map_eq_of_forall₂ ((mapM_eq_ok.mp h).imp fun _ _ hc => (CellFields.build_eq_ok hc).symm)).symm
  constructor
  · intro c hc
    have hmem : c.toCellFields ∈ cells.map (·.toCellFields) := mem_map.mpr ⟨c, hc, rfl⟩
    rw [hcells] at hmem
    obtain ⟨gp, -, hgp⟩ := mem_map.mp hmem
    rw [← hgp]
    rfl
  · have hmap := congrArg (List.map fun c : CellFields => (c.costType, c.money)) hcells
    rw [map_map, map_map] at hmap
    refine hmap.trans ?_
    have hfst := congrArg (List.map fun g : CostType × LineAcc => (g.1, g.2.money)) (map_fst_zip hlen.ge)
    rw [map_map] at hfst
    exact hfst
  · have hmap := congrArg (List.map fun c : CellFields => c.usage) hcells
    rw [map_map, map_map] at hmap
    rw [hparts]
    exact congrArg Except.ok ((hmap.trans (map_snd_zip hlen.le)).symm)

/-! ### The money of a key -/

/-- The groups of a key have the money of its lines, under any set of cost types. -/
theorem sum_groupsAt (grain : Grain) (counted : List Counted) (key : CellKey) (q : CostType → Bool) :
    (((groupsAt (lineTable grain counted) key).filter fun g => q g.1).map fun g => g.2.money).sum =
      (((counted.filter fun c => decide (lineKey grain c = key)).filter fun c => q c.costType).map
        Counted.money).sum := by
  have hinner : ((lineTable grain counted).lookup key).getD [] =
      collect (·.costType) addTo (counted.filter fun c => decide (lineKey grain c = key)) := by
    cases hl : (lineTable grain counted).lookup key with
    | some inner => exact mem_collectTwice (mem_of_lookup hl)
    | none =>
      have hnone : (counted.filter fun c => decide (lineKey grain c = key)) = [] := by
        refine filter_eq_nil_iff.mpr fun c hc hkey => ?_
        have hmem : key ∈ (lineTable grain counted).map (·.1) :=
          mem_keys_collect.mpr ⟨c, hc, of_decide_eq_true hkey⟩
        obtain ⟨e, he, rfl⟩ := mem_map.mp hmem
        simpa using lookup_eq_none_iff.mp hl e he
      rw [hnone]
      rfl
  have hsum : (((collect (·.costType) addTo
        (counted.filter fun c => decide (lineKey grain c = key))).filter fun g => q g.1).map fun g => g.2.money).sum =
      (((counted.filter fun c => decide (lineKey grain c = key)).filter fun c => q c.costType).map
        Counted.money).sum :=
    sum_collect (fun held c => by
      cases held with
      | none => exact LineAcc.money_add {} c
      | some acc => exact LineAcc.money_add acc c) _ q
  rw [← hsum, ← hinner]
  unfold groupsAt
  generalize ((lineTable grain counted).lookup key).getD [] = inner
  have hperm := perm_insertionSort (fun a b : CostType × LineAcc => a.1.text ≤ b.1.text) inner
  dsimp only
  split
  · -- no line: one group without money
    rename_i hempty
    rw [List.isEmpty_iff.mp hempty] at hperm
    rw [hperm.symm.eq_nil, filter_cons]
    split <;> rfl
  · exact ((hperm.filter _).map _).sum_eq

/-! ### Runs -/

/-- The cells of a run, key by key. -/
structure RunOf (inp : CellInputs) (grain : Grain) (counted : List Counted) (usages : List (CellKey × UsageEntry))
    (lists : List (List Cell)) : Prop where
  counted_eq : countedLines inp.costLines = .ok counted
  usages_eq : usageTable grain inp.convention inp.aggregates = .ok usages
  cells : List.Forall₂ (CellsOf (lineTable grain counted) usages) (sortedKeys (lineTable grain counted) usages) lists

theorem run_of_build {n : Nat} (h : buildCells inp grain = .ok (cells, n)) :
    ∃ counted usages lists, RunOf inp grain counted usages lists ∧ cells = lists.flatten := by
  obtain ⟨counted, hcounted, h⟩ := bind_eq_ok.mp h
  obtain ⟨usages, husages, h⟩ := bind_eq_ok.mp h
  obtain ⟨lists, hlists, h⟩ := bind_eq_ok.mp h
  exact ⟨counted, usages, lists, ⟨hcounted, husages, (mapM_eq_ok.mp hlists).imp fun _ _ => cellsAt_spec⟩,
    (congrArg Prod.fst (Except.ok.inj h)).symm⟩

theorem nodup_sortedKeys (table : List (CellKey × List (CostType × LineAcc))) (usages : List (CellKey × UsageEntry)) :
    (sortedKeys table usages).Nodup :=
  (perm_insertionSort _ _).nodup_iff.mpr (nodup_dedup _)

theorem mem_sortedKeys {table : List (CellKey × List (CostType × LineAcc))} {usages : List (CellKey × UsageEntry)} :
    key ∈ sortedKeys table usages ↔ key ∈ table.map (·.1) ∨ key ∈ usages.map (·.1) := by
  unfold sortedKeys
  rw [(perm_insertionSort _ _).mem_iff, mem_dedup, mem_append]

theorem sum_filter_flatten {α M : Type} [AddCommMonoid M] (f : α → M) (p : α → Bool) (lists : List (List α)) :
    ((lists.flatten.filter p).map f).sum = (lists.map fun l => ((l.filter p).map f).sum).sum := by
  rw [filter_flatten, map_flatten, sum_flatten, map_map, map_map]
  rfl

variable {lists : List (List Cell)}

theorem RunOf.money (r : RunOf inp grain counted usages lists) (p : CellKey → CostType → Bool) :
    ((lists.flatten.filter fun c => p c.key c.costType).map fun c => c.money).sum =
      ((counted.filter fun c => p (lineKey grain c) c.costType).map Counted.money).sum := by
  have hkey : ∀ {key : CellKey} {l : List Cell}, CellsOf (lineTable grain counted) usages key l →
      (((counted.filter fun c => p (lineKey grain c) c.costType).filter fun c => decide (lineKey grain c = key)).map
        Counted.money).sum = ((l.filter fun c => p c.key c.costType).map fun c => c.money).sum := by
    intro key l hl
    calc _ = (((counted.filter fun c => decide (lineKey grain c = key)).filter fun c => p key c.costType).map
          Counted.money).sum := by
          rw [filter_filter, filter_filter]
          refine congrArg (fun xs => (List.map Counted.money xs).sum) (filter_congr fun c _ => ?_)
          by_cases hc : lineKey grain c = key <;> simp [hc]
      _ = (((groupsAt (lineTable grain counted) key).filter fun g => p key g.1).map fun g => g.2.money).sum :=
          (sum_groupsAt grain counted key (p key)).symm
      _ = (((l.map fun c => (c.costType, c.money)).filter fun e => p key e.1).map (·.2)).sum := by
          rw [hl.groups, filter_map, map_map]
          rfl
      _ = _ := by
          rw [filter_map, map_map]
          refine congrArg (fun xs => (List.map (fun c : Cell => c.money) xs).sum) (filter_congr fun c hc => ?_)
          rw [hl.keys c hc]
          rfl
  rw [sum_filter_flatten, ← map_eq_of_forall₂ (r.cells.imp fun _ _ hl => hkey hl)]
  refine sum_fibres Counted.money (nodup_sortedKeys _ _) fun c hc => mem_sortedKeys.mpr (.inl ?_)
  exact mem_keys_collect.mpr ⟨c, (mem_filter.mp hc).1, rfl⟩

def tokensAt (b : Bucket) (usages : List (CellKey × UsageEntry)) (key : CellKey) : Nat :=
  ((usages.lookup key).map fun e => counter b e.tokens.toUsageCounts).getD 0

theorem groupsAt_ne_nil (table : List (CellKey × List (CostType × LineAcc))) (key : CellKey) :
    groupsAt table key ≠ [] := by
  unfold groupsAt
  dsimp only
  split
  · exact cons_ne_nil _ _
  · rename_i h
    exact fun hnil => h (List.isEmpty_iff.mpr hnil)

theorem fallbackOf_lt {groups : List (CostType × LineAcc)} (h : groups ≠ []) : fallbackOf groups < groups.length := by
  unfold fallbackOf
  cases hf : (groups.map (·.1)).findIdx? (· = .aiCreditUser) with
  | none => exact length_pos_iff.mpr h
  | some i =>
    obtain ⟨hi, -⟩ := findIdx?_eq_some_iff_getElem.mp hf
    rwa [length_map] at hi

def weightsAt (grain : Grain) (counted : List Counted) (key : CellKey) : List Int :=
  (groupsAt (lineTable grain counted) key).map (·.2.gross)

def fallbackAt (grain : Grain) (counted : List Counted) (key : CellKey) : Nat :=
  fallbackOf (groupsAt (lineTable grain counted) key)

theorem fallbackAt_lt (grain : Grain) (counted : List Counted) (key : CellKey) :
    fallbackAt grain counted key < (weightsAt grain counted key).length := by
  unfold weightsAt
  rw [length_map]
  exact fallbackOf_lt (groupsAt_ne_nil _ key)

theorem CellsOf.tokens (h : CellsOf (lineTable grain counted) usages key cells) (b : Bucket) :
    (cells.map fun c => counter b c.usage.toUsageCounts).sum = tokensAt b usages key := by
  have hparts := h.parts
  unfold tokensAt
  cases hl : usages.lookup key with
  | some entry =>
    rw [hl] at hparts
    have hsum := counter_split hparts (fallbackAt_lt grain counted key) b
    rwa [map_map] at hsum
  | none =>
    rw [hl] at hparts
    have hmap := congrArg (List.map fun u : UsageBuckets => counter b u.toUsageCounts) (Except.ok.inj hparts)
    rw [map_map, map_map] at hmap
    refine (congrArg List.sum hmap.symm).trans ?_
    refine sum_eq_zero fun n hn => ?_
    obtain ⟨g, -, rfl⟩ := mem_map.mp hn
    exact counter_empty b

theorem CellsOf.reasoning (h : CellsOf (lineTable grain counted) usages key cells) {entry : UsageEntry}
    (hl : usages.lookup key = some entry) :
    ReasoningKept entry.tokens (cells.map (·.usage)) ↔
      Unclamped entry.tokens (weightsAt grain counted key) (fallbackAt grain counted key) := by
  have hparts := h.parts
  rw [hl] at hparts
  exact reasoning_split hparts (fallbackAt_lt grain counted key)

/-! ### The tokens of a run -/

/-- What is read of an aggregate: its key and its tokens. -/
def readAgg (grain : Grain) (convention : Convention) (agg : UsageAggregate) : Except Stop (CellKey × UsageBuckets) := do
  let key ← aggKey grain agg
  let (tokens, _) ← convert convention agg.usage
  return (key, tokens)

variable {convention : Convention}

theorem usageStep_ok {table table' : List (CellKey × UsageEntry)} {agg : UsageAggregate}
    (h : usageStep grain convention table agg = .ok table') :
    ∃ r, readAgg grain convention agg = .ok r ∧ ∀ b, table'.map (fun e => (e.1, counter b e.2.tokens.toUsageCounts)) =
      addAt (table.map fun e => (e.1, counter b e.2.tokens.toUsageCounts)) (r.1, counter b r.2.toUsageCounts) := by
  obtain ⟨key, hkey, h⟩ := bind_eq_ok.mp h
  obtain ⟨⟨tokens, clamped⟩, hconv, h⟩ := bind_eq_ok.mp h
  obtain ⟨entry, hentry, h⟩ := bind_eq_ok.mp h
  refine ⟨(key, tokens), bind_eq_ok.mpr ⟨key, hkey, bind_eq_ok.mpr ⟨(tokens, clamped), hconv, rfl⟩⟩, fun b => ?_⟩
  have hval : counter b entry.tokens.toUsageCounts =
      ((table.lookup key).map fun e => counter b e.tokens.toUsageCounts).getD 0 + counter b tokens.toUsageCounts := by
    cases hl : table.lookup key with
    | none =>
      rw [hl] at hentry
      rw [← Except.ok.inj hentry]
      exact (Nat.zero_add _).symm
    | some prev =>
      rw [hl] at hentry
      obtain ⟨sum, hsum, hpure⟩ := bind_eq_ok.mp hentry
      rw [← pure_eq_ok.mp hpure]
      exact counter_add b (lift_eq_ok.mp hsum)
  have htable := map_upsert_value (fun e : UsageEntry => counter b e.tokens.toUsageCounts) key entry table
  have hheld := lookup_values (fun e : UsageEntry => counter b e.tokens.toUsageCounts) table key
  rw [← pure_eq_ok.mp h, htable, hval, ← hheld]
  rfl

theorem usageTable_reads {aggregates : List UsageAggregate}
    (h : usageTable grain convention aggregates = .ok usages) :
    ∃ reads, (aggregates.filter isReport).mapM (readAgg grain convention) = .ok reads ∧
      ∀ b, usages.map (fun e => (e.1, counter b e.2.tokens.toUsageCounts)) =
        tally (reads.map fun r => (r.1, counter b r.2.toUsageCounts)) := by
  have hrun : ∀ (aggs : List UsageAggregate) (table : List (CellKey × UsageEntry)),
      aggs.foldlM (usageStep grain convention) table = .ok usages →
      ∃ reads, aggs.mapM (readAgg grain convention) = .ok reads ∧
        ∀ b, usages.map (fun e => (e.1, counter b e.2.tokens.toUsageCounts)) =
          (reads.map fun r => (r.1, counter b r.2.toUsageCounts)).foldl addAt
            (table.map fun e => (e.1, counter b e.2.tokens.toUsageCounts)) := by
    intro aggs
    induction aggs with
    | nil =>
      intro table h
      rw [← pure_eq_ok.mp h]
      exact ⟨[], rfl, fun b => rfl⟩
    | cons agg aggs ih =>
      intro table h
      rw [foldlM_cons] at h
      obtain ⟨table', hstep, h⟩ := bind_eq_ok.mp h
      obtain ⟨r, hr, hvals⟩ := usageStep_ok hstep
      obtain ⟨reads, hreads, hall⟩ := ih table' h
      refine ⟨r :: reads, ?_, fun b => ?_⟩
      · rw [mapM_cons]
        exact bind_eq_ok.mpr ⟨r, hr, bind_eq_ok.mpr ⟨reads, hreads, rfl⟩⟩
      · rw [hall b, hvals b, map_cons, foldl_cons]
  exact hrun _ [] h

theorem nodup_usages (h : usageTable grain inp.convention inp.aggregates = .ok usages) : (usages.map (·.1)).Nodup := by
  obtain ⟨reads, -, hreads⟩ := usageTable_reads h
  have hn := nodup_tally (reads.map fun r => (r.1, counter .output r.2.toUsageCounts))
  rw [← hreads, map_map] at hn
  exact hn

theorem RunOf.tokens (r : RunOf inp grain counted usages lists) (p : CellKey → Bool) (b : Bucket) :
    ((lists.flatten.filter fun c => p c.key).map fun c => counter b c.usage.toUsageCounts).sum =
      ((usages.filter fun e => p e.1).map fun e => counter b e.2.tokens.toUsageCounts).sum := by
  have hn := nodup_usages r.usages_eq
  have hkey : ∀ {key : CellKey} {l : List Cell}, CellsOf (lineTable grain counted) usages key l →
      (((usages.filter fun e => p e.1).filter fun e => decide (e.1 = key)).map fun e =>
        counter b e.2.tokens.toUsageCounts).sum =
        ((l.filter fun c => p c.key).map fun c => counter b c.usage.toUsageCounts).sum := by
    intro key l hl
    have hp : (l.filter fun c => p c.key) = if p key then l else [] := by
      rw [filter_congr fun c hc => congrArg p (hl.keys c hc)]
      cases p key <;> simp
    rw [hp, filter_comm]
    have hsame : ((usages.filter fun e => decide (e.1 = key)).filter fun e => p e.1) =
        if p key then usages.filter fun e => decide (e.1 = key) else [] := by
      rw [filter_congr fun e he => congrArg p (of_decide_eq_true (mem_filter.mp he).2)]
      cases p key <;> simp
    rw [hsame]
    by_cases hpk : p key
    · rw [if_pos hpk, if_pos hpk, hl.tokens, sum_at_key hn]
      rfl
    · rw [if_neg hpk, if_neg hpk]
      rfl
  rw [sum_filter_flatten, ← map_eq_of_forall₂ (r.cells.imp fun _ _ hl => hkey hl)]
  refine sum_fibres _ (nodup_sortedKeys _ _) fun e he => mem_sortedKeys.mpr (.inr ?_)
  exact mem_map.mpr ⟨e, (mem_filter.mp he).1, rfl⟩

theorem RunOf.cellsOf (r : RunOf inp grain counted usages lists) {entry : UsageEntry}
    (hl : usages.lookup key = some entry) :
    CellsOf (lineTable grain counted) usages key (lists.flatten.filter fun c => decide (c.key = key)) := by
  have hmem : key ∈ usages.map (·.1) := mem_map.mpr ⟨(key, entry), mem_of_lookup hl, rfl⟩
  exact (filter_flatten_eq r.cells CellsOf.keys (nodup_sortedKeys _ _) key).1 (mem_sortedKeys.mpr (.inr hmem))

/-! ### Both grains -/

def CellKey.place (k : CellKey) : String × CellDims := (k.month, k.dims)

theorem place_aggKey {agg : UsageAggregate} {k k' : CellKey} (h : aggKey .day agg = .ok k)
    (h' : aggKey .month agg = .ok k') : k.place = k'.place := by
  obtain ⟨date, hdate, h⟩ := bind_eq_ok.mp h
  obtain ⟨date', hdate', h'⟩ := bind_eq_ok.mp h'
  rw [hdate] at hdate'
  obtain rfl := Except.ok.inj hdate'
  rw [← pure_eq_ok.mp h, ← pure_eq_ok.mp h']
  rfl

/-- The tokens that are read do not depend on the grain. -/
theorem reads_place {aggs : List UsageAggregate} {reads reads' : List (CellKey × UsageBuckets)}
    (h : aggs.mapM (readAgg .day convention) = .ok reads) (h' : aggs.mapM (readAgg .month convention) = .ok reads') :
    reads.map (fun r => (r.1.place, r.2)) = reads'.map fun r => (r.1.place, r.2) := by
  have hall := mapM_eq_ok.mp h
  have hall' := mapM_eq_ok.mp h'
  clear h h'
  induction hall generalizing reads' with
  | nil =>
    cases hall'
    rfl
  | @cons agg r aggs reads hr _ ih =>
    cases hall' with
    | @cons _ r' _ reads' hr' hrest =>
      obtain ⟨k, hk, hr⟩ := bind_eq_ok.mp hr
      obtain ⟨k', hk', hr'⟩ := bind_eq_ok.mp hr'
      obtain ⟨⟨tokens, clamped⟩, hconv, hr⟩ := bind_eq_ok.mp hr
      obtain ⟨⟨tokens', clamped'⟩, hconv', hr'⟩ := bind_eq_ok.mp hr'
      rw [hconv] at hconv'
      obtain ⟨rfl, rfl⟩ := Prod.mk.inj (Except.ok.inj hconv')
      rw [map_cons, map_cons, ih hrest, ← pure_eq_ok.mp hr, ← pure_eq_ok.mp hr']
      rw [place_aggKey hk hk']

/-- The tokens of some places are those that are read there. -/
theorem sum_usages_place {aggregates : List UsageAggregate}
    (h : usageTable grain convention aggregates = .ok usages) (place : String × CellDims) (b : Bucket) :
    ∃ reads, (aggregates.filter isReport).mapM (readAgg grain convention) = .ok reads ∧
      ((usages.filter fun e => decide (e.1.place = place)).map fun e => counter b e.2.tokens.toUsageCounts).sum =
        (((reads.map fun r => (r.1.place, r.2)).filter fun r => decide (r.1 = place)).map fun r =>
          counter b r.2.toUsageCounts).sum := by
  obtain ⟨reads, hreads, htally⟩ := usageTable_reads h
  refine ⟨reads, hreads, ?_⟩
  have hsum := sum_tally (reads.map fun r => (r.1, counter b r.2.toUsageCounts)) fun k => decide (k.place = place)
  rw [← htally b, filter_map, filter_map, map_map, map_map] at hsum
  rw [filter_map, map_map]
  exact hsum

/-- The cells of one grain have the sums of those of the other: the money of every place and cost type, and
the tokens of every place. -/
def SameSums (cells others : List Cell) : Prop :=
  ∀ place, (∀ t, ((cells.filter fun c => c.key.place = place ∧ c.costType = t).map fun c => c.money).sum =
      ((others.filter fun c => c.key.place = place ∧ c.costType = t).map fun c => c.money).sum) ∧
    ∀ b, ((cells.filter fun c => c.key.place = place).map fun c => counter b c.usage.toUsageCounts).sum =
      ((others.filter fun c => c.key.place = place).map fun c => counter b c.usage.toUsageCounts).sum

theorem sameSums {usages' : List (CellKey × UsageEntry)} {lists lists' : List (List Cell)}
    (r : RunOf inp .month counted usages lists) (r' : RunOf inp .day counted usages' lists') :
    SameSums lists.flatten lists'.flatten := by
  intro place
  constructor
  · intro t
    have hm := r.money fun k t' => decide (k.place = place ∧ t' = t)
    have hd := r'.money fun k t' => decide (k.place = place ∧ t' = t)
    exact hm.trans hd.symm
  · intro b
    obtain ⟨reads, hreads, hsum⟩ := sum_usages_place r.usages_eq place b
    obtain ⟨reads', hreads', hsum'⟩ := sum_usages_place r'.usages_eq place b
    rw [reads_place hreads' hreads] at hsum'
    have hm := r.tokens (fun k => decide (k.place = place)) b
    have hd := r'.tokens (fun k => decide (k.place = place)) b
    rw [hm, hd, hsum, hsum']

/-! ### The bill -/

/-- The money of the cells is that of the lines that count. -/
def KeepsMoney (inp : CellInputs) (cells : List Cell) : Prop :=
  ∃ counted, countedLines inp.costLines = .ok counted ∧
    (cells.map fun c => c.money).sum = (counted.map Counted.money).sum

/-- The cells of every key have its tokens, counter by counter. -/
def KeepsTokens (inp : CellInputs) (grain : Grain) (cells : List Cell) : Prop :=
  ∀ usages, usageTable grain inp.convention inp.aggregates = .ok usages → ∀ key entry,
    usages.lookup key = some entry → ∀ b,
      ((cells.filter fun c => c.key = key).map fun c => counter b c.usage.toUsageCounts).sum =
        counter b entry.tokens.toUsageCounts

/-- The cells of every key have its reasoning tokens. -/
def KeepsReasoning (inp : CellInputs) (grain : Grain) (cells : List Cell) : Prop :=
  ∀ usages, usageTable grain inp.convention inp.aggregates = .ok usages → ∀ key entry,
    usages.lookup key = some entry →
      ReasoningKept entry.tokens ((cells.filter fun c => c.key = key).map (·.usage))

/-- No share of the reasoning tokens of a key exceeds that of its output tokens. -/
def NoneCut (inp : CellInputs) (grain : Grain) : Prop :=
  ∀ counted usages, countedLines inp.costLines = .ok counted →
    usageTable grain inp.convention inp.aggregates = .ok usages → ∀ key entry, usages.lookup key = some entry →
      Unclamped entry.tokens (weightsAt grain counted key) (fallbackAt grain counted key)

/-- A row of the report of 2026-10-01, of a cost type with some credits. -/
def reportLine (costType : String) (credits : Int) : CostLine where
  lineId := "report-" ++ costType
  sourceKind := "github.ai_usage_report"
  dateUtc := 20727
  channel := "github_copilot"
  workspaceId := none
  description := ""
  model := some "claude-sonnet-5"
  costType := some costType
  tokenType := none
  sku := some "copilot_ai_credit"
  serviceTier := none
  inferenceGeo := none
  endpointScope := none
  amountNano := credits * 10 ^ 7

def cutInputs : CellInputs where
  aggregates := [{
    aggId := "report-1", sourceKind := "github.ai_usage_report", bucketStartMs := 20727 * 86400000
    bucketEndMs := 20728 * 86400000, dims := [("model", "claude-sonnet-5"), ("sku", "copilot_ai_credit")]
    usage := ⟨{ output := 11, outputReasoning := some 10 }, by decide⟩ }]
  costLines := [reportLine "ai_credit.user" 6, reportLine "ai_credit.direct" 6, reportLine "ai_credit.legacy_pru" 2]

def cutKey : CellKey :=
  ⟨"2026-10", some "2026-10-01", ⟨none, none, none, "copilot_ai_credit", "claude-sonnet-5", "unknown", "standard", none⟩⟩

end TokenBill.Pool
