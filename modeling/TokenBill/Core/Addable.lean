import TokenBill.Core.FigureRules
import TokenBill.Core.KanonSafe
import Mathlib.Algebra.Order.BigOperators.Group.List

/-!
# Figures and usage that can be added

Adding two figures raises for one reason only once their notes hold more than
separators: two different bases. Adding usage raises only past the counter bound.
-/

namespace TokenBill.Kanon

open General List

/-! ### Usage -/

/-- Counts that pass the checks of `UsageBuckets`. -/
theorem check_counts_eq_none {u : UsageCounts} (hc : ∀ i, count u i ≤ maxTokens)
    (hr : ∀ n ∈ u.outputReasoning, n ≤ u.output)
    (ht : ∀ t ∈ u.cacheWriteOtherTtlS, 0 < t ∧ t ≤ maxTokens)
    (ho : 0 < u.cacheWriteOther → u.cacheWriteOtherTtlS ≠ none) : u.check = none := by
  have hfind : (u.bucketCounts.find? fun b => decide (maxTokens < b.2)) = none := by
    rw [find?_eq_none]
    intro b hb
    have h := hc
    simp only [UsageCounts.bucketCounts, mem_cons, not_mem_nil, or_false] at hb
    rcases hb with rfl | rfl | rfl | rfl | rfl | rfl | rfl | rfl | rfl <;>
      simp only [decide_eq_true_eq, not_lt]
    exacts [h .uncachedInput, h .cacheRead, h .cacheWrite5m, h .cacheWrite1h, h .cacheWriteOther,
      h .cacheWriteUnknown, h .output, h .webSearchRequests, h .webFetchRequests]
  have hmax := hc .output
  simp only [count] at hmax
  unfold UsageCounts.check
  rw [hfind]
  rw [if_neg, if_neg, if_neg, if_neg]
  · rintro ⟨h1, h2⟩
    exact ho h1 h2
  · cases htt : u.cacheWriteOtherTtlS with
    | none => simp
    | some t =>
      have := ht t htt
      simp only [Option.any_some, Bool.or_eq_true, beq_iff_eq, decide_eq_true_eq]
      omega
  · cases hrr : u.outputReasoning with
    | none => simp
    | some n =>
      have := hr n hrr
      simp only [Option.any_some, decide_eq_true_eq]
      omega
  · cases hrr : u.outputReasoning with
    | none => simp
    | some n =>
      have := hr n hrr
      simp only [Option.any_some, decide_eq_true_eq]
      omega

/-- What the checks of `UsageBuckets` say of a usage. -/
theorem usage_rules (u : UsageBuckets) : (∀ n ∈ u.outputReasoning, n ≤ u.output) ∧
    (∀ t ∈ u.cacheWriteOtherTtlS, 0 < t ∧ t ≤ maxTokens) ∧
    (0 < u.cacheWriteOther → u.cacheWriteOtherTtlS ≠ none) := by
  have h := u.valid
  unfold UsageCounts.check at h
  split at h
  · cases h
  split_ifs at h with h1 h2 h3 h4
  refine ⟨fun n hn => ?_, fun t ht => ?_, fun ho hnone => h4 ⟨ho, hnone⟩⟩
  · rw [Option.mem_def.mp hn] at h2
    simpa using h2
  · rw [Option.mem_def.mp ht] at h3
    simp only [Option.any_some, Bool.or_eq_true, beq_iff_eq, decide_eq_true_eq, not_or, not_lt] at h3
    omega

theorem count_le (u : UsageBuckets) (i : Counter) : count u.toUsageCounts i ≤ maxTokens := by
  have h := u.valid
  unfold UsageCounts.check at h
  split at h
  · cases h
  · rename_i hfind
    rw [find?_eq_none] at hfind
    have hle : ∀ b ∈ u.bucketCounts, b.2 ≤ maxTokens := by simpa using hfind
    simp only [UsageCounts.bucketCounts, forall_mem_cons] at hle
    cases i <;> simp only [count] <;> omega

/-- Usage can be added within the counter bound, unless the other-write TTLs differ. -/
theorem usage_add_ok {a b : UsageBuckets}
    (hc : ∀ i, count a.toUsageCounts i + count b.toUsageCounts i ≤ maxTokens)
    (ht : ∀ ta ∈ a.cacheWriteOtherTtlS, ∀ tb ∈ b.cacheWriteOtherTtlS, ta = tb) :
    ∃ c, a.add b = .ok c := by
  obtain ⟨har, hat, hao⟩ := usage_rules a
  obtain ⟨hbr, hbt, hbo⟩ := usage_rules b
  unfold UsageBuckets.add
  rw [if_neg]
  · refine ⟨⟨_, check_counts_eq_none ?_ ?_ ?_ ?_⟩, UsageCounts.build_eq_ok.mpr rfl⟩
    · intro i
      have := hc i
      cases i <;> exact this
    · intro n hn
      simp only [addBoth] at hn
      split at hn
      · rename_i x y hx hy
        have h1 := har x hx
        have h2 := hbr y hy
        simp only [Option.mem_def, Option.some.injEq] at hn
        dsimp only
        omega
      · cases hn
    · intro t hm
      rcases Option.or_eq_some_iff.mp hm with h | ⟨-, h⟩
      · exact hat t h
      · exact hbt t h
    · intro ho hnone
      rw [Option.or_eq_none_iff] at hnone
      dsimp only at ho
      have hor : 0 < a.cacheWriteOther ∨ 0 < b.cacheWriteOther := by omega
      rcases hor with h | h
      · exact hao h hnone.1
      · exact hbo h hnone.2
  · rintro ⟨h1, h2, h3⟩
    obtain ⟨ta, hta⟩ := Option.ne_none_iff_exists'.mp h1
    obtain ⟨tb, htb⟩ := Option.ne_none_iff_exists'.mp h2
    exact h3 (by rw [hta, htb, ht ta hta tb htb])

theorem usage_withTtl_ok (u : UsageBuckets) {ttl : Nat} (h : 0 < ttl ∧ ttl ≤ maxTokens) :
    ∃ v, UsageCounts.build { u.toUsageCounts with cacheWriteOtherTtlS := some ttl } = .ok v ∧
      count v.toUsageCounts = count u.toUsageCounts ∧ v.cacheWriteOtherTtlS = some ttl := by
  obtain ⟨hr, -, -⟩ := usage_rules u
  have hcheck : UsageCounts.check { u.toUsageCounts with cacheWriteOtherTtlS := some ttl } = none := by
    refine check_counts_eq_none (fun i => ?_) hr (fun t ht => ?_) (fun _ => by simp)
    · have hle := count_le u i
      cases i <;> exact hle
    · obtain rfl : ttl = t := by simpa using ht
      exact h
  refine ⟨⟨_, hcheck⟩, UsageCounts.build_eq_ok.mpr rfl, ?_, rfl⟩
  funext i
  cases i <;> rfl

/-- `_add_usage` raises only past the counter bound. -/
theorem addUsage_ok {a b : UsageBuckets}
    (hc : ∀ i, count a.toUsageCounts i + count b.toUsageCounts i ≤ maxTokens) :
    ∃ c, addUsage a b = .ok c := by
  unfold addUsage
  split
  · rename_i ta tb ha hb
    split
    · have hta := (usage_rules a).2.1 ta ha
      have htb := (usage_rules b).2.1 tb hb
      have hmin : 0 < min ta tb ∧ min ta tb ≤ maxTokens := by omega
      obtain ⟨a', ha', hca, hta'⟩ := usage_withTtl_ok a hmin
      obtain ⟨b', hb', hcb, htb'⟩ := usage_withTtl_ok b hmin
      obtain ⟨c, hadd⟩ := usage_add_ok (a := a') (b := b') (by rw [hca, hcb]; exact hc)
        (by rw [hta', htb']; simp)
      exact ⟨c, bind_eq_ok.mpr ⟨a', ha', bind_eq_ok.mpr ⟨b', hb', hadd⟩⟩⟩
    · rename_i heq
      exact usage_add_ok hc (by rw [ha, hb]; simpa using heq)
  · rename_i hne
    exact usage_add_ok hc fun ta hta tb htb => absurd htb (hne ta tb hta)

/-! ### Prices -/

/-- One basis for each kind of money. -/
structure Bases where
  (exact estimated allowance pool : Basis)

def FigureOk (b : Basis) (f : Figure) : Prop := f.basis = b ∧ Spoken f.note

/-- A priced total of these bases. -/
structure PricedOk (bs : Bases) (p : PricedTotal) : Prop where
  exact : FigureOk bs.exact p.exact
  estimated : ∀ f ∈ p.estimated, FigureOk bs.estimated f
  allowance : ∀ f ∈ p.allowance, FigureOk bs.allowance f
  pool : ∀ f ∈ p.pool, FigureOk bs.pool f

theorem add_figureOk {b : Basis} {x y : Figure} (hx : FigureOk b x) (hy : FigureOk b y) :
    ∃ z, add x y = .ok z ∧ FigureOk b z := by
  obtain ⟨z, hz, hb, hn⟩ := add_ok (hx.1.trans hy.1.symm) hx.2 hy.2
  exact ⟨z, hz, hb.trans hx.1, hn⟩

theorem addOpt_ok {b : Basis} {x y : Option Figure} (hx : ∀ f ∈ x, FigureOk b f)
    (hy : ∀ f ∈ y, FigureOk b f) : ∃ z, addOpt x y = .ok z ∧ ∀ f ∈ z, FigureOk b f := by
  cases x with
  | none => exact ⟨y, rfl, hy⟩
  | some x =>
    cases y with
    | none => exact ⟨some x, rfl, hx⟩
    | some y =>
      obtain ⟨z, hz, hok⟩ := add_figureOk (hx x rfl) (hy y rfl)
      refine ⟨some z, map_eq_ok.mpr ⟨z, hz, rfl⟩, fun f hf => ?_⟩
      obtain rfl : z = f := by simpa using hf
      exact hok

theorem addPriced_ok {bs : Bases} {a b : PricedTotal} (ha : PricedOk bs a) (hb : PricedOk bs b)
    (ua ub : UsageBuckets) : ∃ c, addPriced a b ua ub = .ok c ∧ PricedOk bs c := by
  obtain ⟨exact, he, heo⟩ := add_figureOk ha.exact hb.exact
  obtain ⟨estimated, hs, hso⟩ := addOpt_ok ha.estimated hb.estimated
  obtain ⟨allowance, hl, hlo⟩ := addOpt_ok ha.allowance hb.allowance
  obtain ⟨pool, hp, hpo⟩ := addOpt_ok ha.pool hb.pool
  unfold addPriced
  rw [he, hs, hl, hp]
  exact ⟨_, rfl, heo, hso, hlo, hpo⟩

/-! ### Merging and publishing -/

/-- Rows that can be added in any order: one basis for each kind of money, spoken notes, and
counters whose sum stays in bounds. -/
structure Addable (bs : Bases) (rows : List AggRow) : Prop where
  priced : ∀ r ∈ rows, PricedOk bs r.priced
  counts : ∀ i, ((rows.map AggRow.totals).sum).counts i ≤ maxTokens

namespace Addable

variable {bs : Bases} {k : Nat} {label : String}

theorem sum_counts (rows : List AggRow) (i : Counter) :
    ((rows.map AggRow.totals).sum).counts i = (rows.map fun r => count r.usage.toUsageCounts i).sum := by
  induction rows with
  | nil => rfl
  | cons r rows ih =>
    rw [map_cons, sum_cons, map_cons, sum_cons, ← ih]
    rfl

/-- Fewer rows can be added too. -/
theorem sublist {rows rows' : List AggRow} (h : Addable bs rows) (hs : rows'.Sublist rows) :
    Addable bs rows' where
  priced r hr := h.priced r (hs.subset hr)
  counts i := by
    refine le_trans ?_ (h.counts i)
    rw [sum_counts, sum_counts]
    exact (hs.map _).sum_le_sum fun _ _ => Nat.zero_le _

theorem perm {rows rows' : List AggRow} (h : Addable bs rows) (hp : rows'.Perm rows) :
    Addable bs rows' where
  priced r hr := h.priced r (hp.mem_iff.mp hr)
  counts i := by
    rw [(hp.map AggRow.totals).sum_eq]
    exact h.counts i

variable {cells : List Cell}

/-- The sums of `_merge_cells` go through, from any running usage and price. -/
theorem mergeValues_ok {c : AggRow} (h : Addable bs (c :: cells.map (·.toAggRow))) :
    ∃ r, mergeValues c.usage c.priced cells = .ok r ∧ PricedOk bs r.2 := by
  induction cells generalizing c with
  | nil => exact ⟨_, rfl, h.priced c mem_cons_self⟩
  | cons d cells ih =>
    have hc := h.priced c mem_cons_self
    have hd := h.priced d.toAggRow (by simp)
    have hcounts : ∀ i, count c.usage.toUsageCounts i + count d.usage.toUsageCounts i +
        ((cells.map (·.toAggRow)).map fun r => count r.usage.toUsageCounts i).sum ≤ maxTokens := by
      intro i
      have := h.counts i
      rw [sum_counts] at this
      simpa [add_assoc] using this
    obtain ⟨priced, hp, hpo⟩ := addPriced_ok hc hd c.usage d.usage
    obtain ⟨usage, hu⟩ := addUsage_ok (a := c.usage) (b := d.usage)
      fun i => le_trans (Nat.le_add_right _ _) (hcounts i)
    have hsum := (count_addUsage hu).1
    obtain ⟨r, hr, hro⟩ := ih (c := ⟨c.dims, c.nUsers, c.nRequests, usage, priced⟩) (by
      constructor
      · intro r hr
        rcases mem_cons.mp hr with rfl | hr
        · exact hpo
        · exact h.priced r (by simp [hr])
      · intro i
        rw [sum_counts, map_cons, sum_cons, hsum]
        exact hcounts i)
    exact ⟨r, bind_eq_ok.mpr ⟨priced, hp, bind_eq_ok.mpr ⟨usage, hu, hr⟩⟩, hro⟩

/-- Cells that can be added merge, and the merge can be added in their place. -/
theorem mergeCells_ok {c : Cell} (h : Addable bs ((c :: cells).map (·.toAggRow))) (label : String) :
    ∃ d, mergeCells c cells label = .ok d ∧ PricedOk bs d.priced := by
  obtain ⟨r, hr, hro⟩ := mergeValues_ok (c := c.toAggRow) h
  exact ⟨_, bind_eq_ok.mpr ⟨r, hr, rfl⟩, hro⟩

/-- A merge can be added in the place of its cells. -/
theorem of_merges {others : List Cell} {m : Cell}
    (h : Addable bs ((cells ++ others).map (·.toAggRow))) (hm : Merges cells m)
    (hp : PricedOk bs m.priced) : Addable bs ((m :: others).map (·.toAggRow)) where
  priced r hr := by
    obtain ⟨c, hc, rfl⟩ := mem_map.mp hr
    rcases mem_cons.mp hc with rfl | hc
    · exact hp
    · exact h.priced _ (mem_map_of_mem (mem_append_right _ hc))
  counts i := by
    have ht : ((m :: others).map (·.totals)).sum = ((cells ++ others).map (·.totals)).sum := by
      rw [map_cons, sum_cons, map_append, sum_append, hm.totals]
    have hc := h.counts i
    simp only [map_map] at hc ⊢
    exact (congrArg (·.counts i) ht).trans_le hc

/-- A group of cells that can be added is resolved, and its cells can be added again. -/
theorem resolveGroup_ok (label : String) (h : Addable bs (cells.map (·.toAggRow))) :
    ∃ out, resolveGroup k label cells = .ok out ∧ Addable bs (out.map (·.toAggRow)) := by
  unfold resolveGroup
  have hsort : (cells.insertionSort (dimsLe label)).Perm cells := perm_insertionSort _ _
  generalize cells.insertionSort (dimsLe label) = group at hsort
  have hgroup : Addable bs (group.map (·.toAggRow)) := h.perm (hsort.map _)
  have hall := hgroup.perm ((small_big_perm k group).map _)
  dsimp only
  generalize group.filter (fun c => decide (k ≤ c.nUsers)) = big at hall ⊢
  generalize group.filter (fun c => decide (c.nUsers < k)) = small at hall ⊢
  cases small with
  | nil => exact ⟨group, rfl, hgroup⟩
  | cons c small =>
    obtain ⟨m, hm, hmp⟩ := mergeCells_ok (hall.sublist ((sublist_append_left _ _).map _)) label
    have hmb := hall.of_merges (mergeCells_spec hm).1 hmp
    dsimp only
    rw [hm]
    show ∃ out, (if m.nUsers < k then _ else _) = Except.ok out ∧ _
    split
    · split
      · exact ⟨[m], rfl, hmb.sublist ((cons_sublist_cons.mpr (nil_sublist _)).map _)⟩
      · rename_i x rest hpop
        have hmx : Addable bs (([m, x] ++ rest).map (·.toAggRow)) :=
          hmb.perm (((popMin_perm hpop).cons m).map _)
        obtain ⟨m', hm', hmp'⟩ :=
          mergeCells_ok (hmx.sublist ((sublist_append_left _ _).map _)) label
        rw [hm']
        exact ⟨rest ++ [m'], rfl,
          (hmx.of_merges (mergeCells_spec hm').1 hmp').perm (perm_append_comm.map _)⟩
    · exact ⟨big ++ [m], rfl, hmb.perm (perm_append_comm.map _)⟩

theorem resolveLevels_ok (label : String) (levels : List (Dims → Dims)) (h : Addable bs (cells.map (·.toAggRow))) :
    ∃ out, resolveLevels k label levels cells = .ok out := by
  induction levels generalizing cells with
  | nil => exact ⟨cells, rfl⟩
  | cons parent levels ih =>
    unfold resolveLevels
    split
    · exact ⟨cells, rfl⟩
    · have hgroup : ∀ g ∈ groupCells parent cells, Addable bs (g.map (·.toAggRow)) := by
        intro g hg
        refine (h.perm ((groupCells_perm parent cells).map _)).sublist (List.Sublist.map _ ?_)
        exact sublist_flatten_of_mem hg
      obtain ⟨outs, houts⟩ := mapM_exists_ok fun g hg =>
        (resolveGroup_ok (k := k) label (hgroup g hg)).imp fun _ h => h.1
      obtain ⟨out, hout⟩ := @ih outs.flatten (by
        constructor
        · intro r hr
          obtain ⟨c, hc, rfl⟩ := mem_map.mp hr
          obtain ⟨o, ho, hc⟩ := mem_flatten.mp hc
          obtain ⟨g, hg, hr⟩ := exists_of_mem_right (mapM_eq_ok.mp houts) ho
          obtain ⟨o', ho', hadd⟩ := resolveGroup_ok (k := k) label (hgroup g hg)
          obtain rfl : o' = o := Except.ok.inj (ho'.symm.trans hr)
          exact hadd.priced _ (mem_map_of_mem hc)
        · intro i
          have hc := h.counts i
          simp only [map_map] at hc ⊢
          exact (congrArg (·.counts i) (level_totals houts)).trans_le hc)
      exact ⟨out, bind_eq_ok.mpr ⟨outs, houts, hout⟩⟩

end Addable

/-- `publish` returns on rows that can be added. -/
theorem publish_ok {bs : Bases} {raw : RawAggregate} {k : Nat} (hk : 1 ≤ k)
    (h : Addable bs raw.rows) (parentOf : Option (Dims → Dims)) (audience : Audience) :
    ∃ out, publish raw k parentOf audience = .ok out := by
  unfold publish
  rw [if_neg (by omega)]
  split
  · exact ⟨_, rfl⟩
  · have hcells : Addable bs (((rawCells raw.rows).filter fun c =>
        !keptUnknown raw.groupBy c.toAggRow).map (·.toAggRow)) :=
      ((rawCells_rows raw.rows).symm ▸ h : Addable bs ((rawCells raw.rows).map (·.toAggRow))).sublist
        (filter_sublist.map _)
    obtain ⟨cells, hr⟩ := hcells.resolveLevels_ok (k := k) (otherLabel k) (levelsOf parentOf _)
    exact ⟨_, bind_eq_ok.mpr ⟨cells, hr, rfl⟩⟩

end TokenBill.Kanon
