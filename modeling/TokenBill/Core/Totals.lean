import TokenBill.Core.Kanon
import Mathlib.Algebra.Order.Ring.WithTop

/-!
# Totals of a row

What a row counts, read in one commutative monoid: every token bucket, the
requests, the money of each kind and the priced counts. Merging rows adds their
totals (`totals_mergeCells`), whatever happens to the informational fields (the
other-write TTL, the coverage text, labels and notes).
-/

namespace TokenBill.Kanon

open General

/-- The token buckets that are counted on every row. -/
inductive Counter where
  | uncachedInput | cacheRead | cacheWrite5m | cacheWrite1h | cacheWriteOther | cacheWriteUnknown
  | output | webSearchRequests | webFetchRequests

/-- One bucket of a usage. -/
def count (u : UsageCounts) : Counter → ℕ
  | .uncachedInput => u.uncachedInput
  | .cacheRead => u.cacheRead
  | .cacheWrite5m => u.cacheWrite5m
  | .cacheWrite1h => u.cacheWrite1h
  | .cacheWriteOther => u.cacheWriteOther
  | .cacheWriteUnknown => u.cacheWriteUnknown
  | .output => u.output
  | .webSearchRequests => u.webSearchRequests
  | .webFetchRequests => u.webFetchRequests

/-- The reasoning tokens, `⊤` where they are not known. -/
def reasoning (u : UsageCounts) : WithTop ℕ :=
  match u.outputReasoning with
  | none => ⊤
  | some n => n

/-- The totals of a row or of several rows. -/
@[ext] structure Totals where
  counts : Counter → ℕ
  reasoning : WithTop ℕ
  requests : ℕ
  exact : Amounts
  estimated : Amounts
  allowance : Amounts
  pool : Amounts
  priced : ℕ
  unpriced : ℕ
  unpricedTokens : ℕ

namespace Totals

instance : Zero Totals := ⟨⟨0, 0, 0, 0, 0, 0, 0, 0, 0, 0⟩⟩

instance : Add Totals := ⟨fun a b =>
  ⟨a.counts + b.counts, a.reasoning + b.reasoning, a.requests + b.requests, a.exact + b.exact,
   a.estimated + b.estimated, a.allowance + b.allowance, a.pool + b.pool, a.priced + b.priced,
   a.unpriced + b.unpriced, a.unpricedTokens + b.unpricedTokens⟩⟩

theorem add_def (a b : Totals) : a + b =
    ⟨a.counts + b.counts, a.reasoning + b.reasoning, a.requests + b.requests, a.exact + b.exact,
     a.estimated + b.estimated, a.allowance + b.allowance, a.pool + b.pool, a.priced + b.priced,
     a.unpriced + b.unpriced, a.unpricedTokens + b.unpricedTokens⟩ := rfl

theorem zero_def : (0 : Totals) = ⟨0, 0, 0, 0, 0, 0, 0, 0, 0, 0⟩ := rfl

instance : AddCommMonoid Totals where
  add_assoc a b c := by simp only [add_def, add_assoc]
  zero_add a := by simp only [add_def, zero_def, zero_add]
  add_zero a := by simp only [add_def, zero_def, add_zero]
  add_comm a b := by simp only [add_def, add_comm]
  nsmul := nsmulRec

end Totals

/-- The totals of a row. -/
def AggRow.totals (r : AggRow) : Totals where
  counts := count r.usage.toUsageCounts
  reasoning := reasoning r.usage.toUsageCounts
  requests := r.nRequests
  exact := r.priced.exact.amounts
  estimated := optAmounts r.priced.estimated
  allowance := optAmounts r.priced.allowance
  pool := optAmounts r.priced.pool
  priced := r.priced.pricedInferences
  unpriced := r.priced.unpricedInferences
  unpricedTokens := r.priced.unpricedTokens

/-! ### Adding usage and prices -/

theorem reasoning_addBoth (u v w : UsageCounts)
    (h : w.outputReasoning = addBoth u.outputReasoning v.outputReasoning) :
    reasoning w = reasoning u + reasoning v := by
  unfold reasoning
  rw [h]
  cases u.outputReasoning <;> cases v.outputReasoning <;> simp [addBoth]

theorem count_add {a b c : UsageBuckets} (h : a.add b = .ok c) :
    count c.toUsageCounts = count a.toUsageCounts + count b.toUsageCounts ∧
      reasoning c.toUsageCounts = reasoning a.toUsageCounts + reasoning b.toUsageCounts := by
  unfold UsageBuckets.add at h
  split at h
  · cases h
  · rw [UsageCounts.build_eq_ok] at h
    refine ⟨?_, reasoning_addBoth _ _ _ (by rw [h])⟩
    rw [h]
    funext i
    cases i <;> rfl

/-- Adding usage adds every bucket; a shortened TTL changes none. -/
theorem count_addUsage {a b c : UsageBuckets} (h : addUsage a b = .ok c) :
    count c.toUsageCounts = count a.toUsageCounts + count b.toUsageCounts ∧
      reasoning c.toUsageCounts = reasoning a.toUsageCounts + reasoning b.toUsageCounts := by
  unfold addUsage at h
  split at h
  · split at h
    · obtain ⟨a', ha, h⟩ := bind_eq_ok.mp h
      obtain ⟨b', hb, h⟩ := bind_eq_ok.mp h
      rw [UsageCounts.build_eq_ok] at ha hb
      have hc := count_add h
      rw [ha, hb] at hc
      exact hc
    · exact count_add h
  · exact count_add h

theorem optAmounts_addOpt {a b c : Option Figure} (h : addOpt a b = .ok c) :
    optAmounts c = optAmounts a + optAmounts b := by
  cases a with
  | none =>
    obtain rfl := pure_eq_ok.mp h
    exact (zero_add _).symm
  | some a =>
    cases b with
    | none =>
      obtain rfl := pure_eq_ok.mp h
      exact (add_zero _).symm
    | some b =>
      obtain ⟨f, hf, rfl⟩ := map_eq_ok.mp h
      exact amounts_add hf

theorem totals_merge_step {a b : AggRow} {usage : UsageBuckets} {priced : PricedTotal}
    (hp : addPriced a.priced b.priced a.usage b.usage = .ok priced)
    (hu : addUsage a.usage b.usage = .ok usage) (dims : Dims) (n : ℕ) :
    (AggRow.mk dims n (a.nRequests + b.nRequests) usage priced).totals = a.totals + b.totals := by
  obtain ⟨hc, hr⟩ := count_addUsage hu
  obtain ⟨exact, he, hp⟩ := bind_eq_ok.mp hp
  obtain ⟨estimated, hs, hp⟩ := bind_eq_ok.mp hp
  obtain ⟨allowance, ha, hp⟩ := bind_eq_ok.mp hp
  obtain ⟨pool, ho, hp⟩ := bind_eq_ok.mp hp
  obtain rfl := pure_eq_ok.mp hp
  simp only [AggRow.totals, Totals.add_def, hc, hr, amounts_add he, optAmounts_addOpt hs,
    optAmounts_addOpt ha, optAmounts_addOpt ho]

/-- The sums of `_merge_cells`, from any running usage and price. -/
theorem totals_mergeValues {c : AggRow} {cells : List Cell} {usage : UsageBuckets}
    {priced : PricedTotal} (h : mergeValues c.usage c.priced cells = .ok (usage, priced))
    (dims : Dims) (n : ℕ) :
    (AggRow.mk dims n (c.nRequests + (cells.map (·.nRequests)).sum) usage priced).totals =
      c.totals + (cells.map (·.totals)).sum := by
  induction cells generalizing c with
  | nil =>
    obtain ⟨rfl, rfl⟩ := Prod.mk.inj (pure_eq_ok.mp h)
    simp [AggRow.totals]
  | cons d cells ih =>
    obtain ⟨priced', hp, h⟩ := bind_eq_ok.mp h
    obtain ⟨usage', hu, h⟩ := bind_eq_ok.mp h
    have step := totals_merge_step hp hu dims n
    have rest := ih (c := ⟨dims, n, c.nRequests + d.nRequests, usage', priced'⟩) h
    simp only [List.map_cons, List.sum_cons, ← add_assoc, ← step]
    exact rest

theorem totals_mergeCells {c d : Cell} {cells : List Cell} {label : String}
    (h : mergeCells c cells label = .ok d) :
    d.totals = ((c :: cells).map (·.totals)).sum := by
  obtain ⟨⟨usage, priced⟩, hv, h⟩ := bind_eq_ok.mp h
  obtain rfl := pure_eq_ok.mp h
  exact totals_mergeValues hv _ _

end TokenBill.Kanon
