import TokenBill.Rates.UnitRates

/-!
# What the classes of a usage cost

The lines of a usage that is billed, class by class: uncached input, reads and writes of a known lifetime cost
their tokens at the rate of their class, whatever their ranges, and nothing else is billed under their buckets.
Writes of an unknown lifetime do not cost less than nothing.
-/

namespace TokenBill.Rates

open General List

/-! ### Amounts of lines -/

/-- The amount of an emission of tokens. -/
def tokenAmount (b : Billing) (e : Emission) : Int :=
  (b.settle (lineNano e.point.1 (tupleOf e.point.2)) (e.range.map fun quotes =>
    let low := lineNano quotes.1.1 (tupleOf quotes.1.2)
    let high := lineNano quotes.2.1 (tupleOf quotes.2.2)
    (min low high, max low high))).1

theorem amount_tokens (quantity : Nat) (rate : Decimal) :
    amount false quantity rate = .ok (lineNano quantity (tupleOf rate)) := rfl

variable {b : Billing} {lines : List RatedLine}

theorem emit_tokens {rates : ResolvedRates} {e : Emission} {ln : RatedLine}
    (hbucket : e.bucket ≠ .webSearch) (h : emit b rates e = .ok ln) :
    ln.bucket = e.bucket.text ∧ ln.amountNano = tokenAmount b e ∧ (ln.exact = true → e.range = none ∨
      b.billable = some false ∨ b.partialExact = some false) := by
  unfold emit at h
  rw [decide_eq_false hbucket] at h
  obtain ⟨point, hpoint, h⟩ := bind_eq_ok.mp h
  obtain rfl := Except.ok.inj hpoint
  obtain ⟨range, hrange, h⟩ := bind_eq_ok.mp h
  obtain rfl := Except.ok.inj h
  have hrange' : range = e.range.map fun quotes =>
      (min (lineNano quotes.1.1 (tupleOf quotes.1.2)) (lineNano quotes.2.1 (tupleOf quotes.2.2)),
        max (lineNano quotes.1.1 (tupleOf quotes.1.2)) (lineNano quotes.2.1 (tupleOf quotes.2.2))) := by
    cases hr : e.range with
    | none =>
      rw [hr] at hrange
      exact (Except.ok.inj hrange).symm
    | some quotes =>
      rw [hr] at hrange
      exact (Except.ok.inj hrange).symm
  refine ⟨rfl, by rw [hrange']; rfl, fun hexact => ?_⟩
  cases hr : e.range with
  | none => exact .inl rfl
  | some quotes =>
    rw [hrange', hr] at hexact
    refine .inr ?_
    unfold Billing.settle at hexact
    dsimp only [Option.map_some] at hexact
    split at hexact
    · assumption
    · split at hexact
      · cases hexact
      · split at hexact
        · cases hexact
        · cases hexact

theorem partialExact_billingOf (provider : String) (billable : Option Bool) (source : UsageSource) :
    (billingOf provider billable source).partialExact ≠ some false := by
  have hrule : (ruleFor provider "abort.client").billable = none := by
    unfold ruleFor
    dsimp only
    cases hfind : billingRules.find? fun r => decide (r.ruleId = provider ++ "." ++ "abort.client") with
    | none => rfl
    | some rule =>
      have hid : rule.ruleId = provider ++ "." ++ "abort.client" := by simpa using find?_some hfind
      refine (by decide : ∀ r ∈ billingRules, "abort.client".toList.isSuffixOf r.ruleId.toList = true →
        r.billable = none) rule (mem_of_find?_eq_some hfind) ?_
      rw [hid, String.toList_append, isSuffixOf_iff_suffix]
      exact suffix_append _ _
  unfold billingOf
  rw [hrule]
  split <;> exact fun h => by cases h

/-- What is billed of tokens is what they cost at their rate, whatever a higher rate. -/
theorem settle_point (hbillable : b.billable ≠ some false) (hexactly : b.partialExact ≠ some false)
    (point : Int) (other : Option Int) :
    (b.settle point (other.map fun n => (min point n, max point n))).1 = point := by
  unfold Billing.settle
  cases other with
  | none =>
    rw [if_neg (not_or.mpr ⟨hbillable, hexactly⟩)]
    split
    · rfl
    · split <;> rfl
  | some n =>
    have hclamp : min (max point (min point n)) (max point n) = point := by
      rw [max_eq_left (min_le_left point n), min_eq_left (le_max_left point n)]
    dsimp only [Option.map_some]
    rw [if_neg (not_or.mpr ⟨hbillable, hexactly⟩), hclamp]
    split
    · rfl
    · split <;> rfl

/-- Billing is never of less than nothing. -/
theorem settle_nonneg (b : Billing) {point : Int} {range : Option (Int × Int)} (hpoint : 0 ≤ point)
    (hrange : ∀ r ∈ range, 0 ≤ r.1 ∧ r.1 ≤ r.2) : 0 ≤ (b.settle point range).1 := by
  unfold Billing.settle
  cases range with
  | none =>
    dsimp only
    split
    · exact le_rfl
    · split
      · exact hpoint
      · split <;> exact hpoint
  | some r =>
    obtain ⟨hlo, hle⟩ := hrange r rfl
    have hclamp : 0 ≤ min (max point r.1) r.2 := le_min (hpoint.trans (le_max_left _ _)) (hlo.trans hle)
    dsimp only
    split
    · exact le_rfl
    · split
      · exact hclamp
      · split <;> exact hclamp

/-! ### The emissions of a class -/

section

variable {usage : UsageCounts} {ctx : PricingContext} {rates : ResolvedRates} {high : Option ResolvedRates}
  {source : UsageSource} {outputUpper : Option Nat}

theorem bucket_unknownEmission : ∀ e ∈ unknownEmission usage ctx rates high, e.bucket = .cacheWriteUnknown := by
  intro e he
  unfold unknownEmission at he
  dsimp only at he
  split at he
  · cases he
  · obtain rfl := mem_singleton.mp he
    rfl

theorem bucket_outputEmission : ∀ e ∈ outputEmission usage rates high source outputUpper, e.bucket = .output := by
  intro e he
  unfold outputEmission at he
  split at he
  · obtain rfl := mem_singleton.mp he
    rfl
  · split at he
    · obtain rfl := mem_singleton.mp he
      rfl
    · cases he

theorem bucket_webEmission : ∀ e ∈ webEmission usage rates high, e.bucket = .webSearch := by
  intro e he
  unfold webEmission at he
  split at he
  · cases he
  · dsimp only at he
    split at he
    · cases he
    · obtain rfl := mem_singleton.mp he
      rfl

variable {bucket : Bucket}

theorem bucket_known {key : PriceKey} {quantity : Nat} (h : (bucket, key, quantity) ∈ knownBuckets usage) :
    bucket ≠ .cacheWriteUnknown ∧ bucket ≠ .output ∧ bucket ≠ .webSearch := by
  unfold knownBuckets at h
  simp only [mem_cons, not_mem_nil, or_false, Prod.mk.injEq] at h
  rcases h with ⟨rfl, -⟩ | ⟨rfl, -⟩ | ⟨rfl, -⟩ | ⟨rfl, -⟩ | ⟨rfl, -⟩ <;> decide

theorem bucket_knownEmissions : ∀ e ∈ knownEmissions usage ctx rates high, e.bucket ≠ .cacheWriteUnknown := by
  intro e he
  obtain ⟨⟨bucket, key, quantity⟩, hk, rfl⟩ := mem_map.mp he
  exact (bucket_known (mem_filter.mp hk).1).1

theorem filter_bucket_eq_nil {es : List Emission} {own : Bucket} (h : ∀ e ∈ es, e.bucket = own)
    (hne : own ≠ bucket) : (es.filter fun e => decide (e.bucket = bucket)) = [] :=
  filter_eq_nil_iff.mpr fun e he => by simp [h e he, hne]

variable (ctx rates high source outputUpper) in
/-- The emissions under the bucket of a known class. -/
theorem filter_emissions_known {key : PriceKey} {quantity : Nat} (h : (bucket, key, quantity) ∈ knownBuckets usage) :
    ∃ other : Option Decimal, (emissions usage ctx rates high source outputUpper).filter
      (fun e => decide (e.bucket = bucket)) =
        if quantity = 0 then []
        else
          [{ bucket, point := (quantity, rates.rates.effective key)
             range := other.map fun rate => ((quantity, rates.rates.effective key), (quantity, rate)) }] := by
  have hbucket := bucket_known h
  have honly : ((knownBuckets usage).filter fun k => decide (k.1 = bucket)) = [(bucket, key, quantity)] := by
    unfold knownBuckets at h ⊢
    simp only [mem_cons, not_mem_nil, or_false, Prod.mk.injEq] at h
    rcases h with ⟨rfl, rfl, rfl⟩ | ⟨rfl, rfl, rfl⟩ | ⟨rfl, rfl, rfl⟩ | ⟨rfl, rfl, rfl⟩ | ⟨rfl, rfl, rfl⟩ <;> rfl
  have hkept : (((knownBuckets usage).filter fun k => decide (k.2.2 ≠ 0)).filter fun k => decide (k.1 = bucket)) =
      if quantity = 0 then [] else [(bucket, key, quantity)] := by
    rw [filter_comm, honly]
    by_cases h0 : quantity = 0
    · simp [h0]
    · simp [h0]
  unfold emissions
  rw [filter_append, filter_append, filter_append,
    filter_bucket_eq_nil bucket_unknownEmission hbucket.1.symm,
    filter_bucket_eq_nil bucket_outputEmission hbucket.2.1.symm,
    filter_bucket_eq_nil bucket_webEmission hbucket.2.2.symm, append_nil, append_nil, append_nil]
  unfold knownEmissions
  rw [filter_map]
  refine ⟨if folded ctx rates.rates ∧ bucket ∈ writeBuckets then some (rates.rates.effective key)
    else high.map fun top => top.rates.effective key, ?_⟩
  show List.map _ (((knownBuckets usage).filter fun k => decide (k.2.2 ≠ 0)).filter fun k => decide (k.1 = bucket)) = _
  rw [hkept]
  by_cases h0 : quantity = 0
  · rw [if_pos h0, if_pos h0]
    rfl
  · rw [if_neg h0, if_neg h0, map_singleton]
    by_cases hfold : folded ctx rates.rates ∧ bucket ∈ writeBuckets
    · simp only [if_pos hfold, Option.map_some]
    · simp only [if_neg hfold, Option.map_map, Function.comp_def]

theorem filter_emissions_unknown : (emissions usage ctx rates high source outputUpper).filter
    (fun e => decide (e.bucket = .cacheWriteUnknown)) = unknownEmission usage ctx rates high := by
  have hknown : ((knownEmissions usage ctx rates high).filter fun e => decide (e.bucket = .cacheWriteUnknown)) = [] :=
    filter_eq_nil_iff.mpr fun e he => by simp [bucket_knownEmissions e he]
  unfold emissions
  rw [filter_append, filter_append, filter_append, hknown,
    filter_eq_self.mpr fun e he => by simp [bucket_unknownEmission e he],
    filter_bucket_eq_nil bucket_outputEmission (by decide), filter_bucket_eq_nil bucket_webEmission (by decide),
    nil_append, append_nil, append_nil]

end

/-! ### The amount of a bucket -/

def amountIn (lines : List RatedLine) (bucket : Bucket) : Int :=
  ((lines.filter (·.bucket = bucket.text)).map (·.amountNano)).sum

theorem Bucket.text_injective : Function.Injective Bucket.text := by
  intro a b h
  cases a <;> cases b <;> first | rfl | (revert h; decide)

theorem amountIn_emitted {rates : ResolvedRates} {bucket : Bucket} (hbucket : bucket ≠ .webSearch)
    {es : List Emission} (h : es.mapM (emit b rates) = .ok lines) :
    amountIn lines bucket = ((es.filter fun e => decide (e.bucket = bucket)).map (tokenAmount b)).sum := by
  have hall := mapM_eq_ok.mp h
  clear h
  induction hall with
  | nil => rfl
  | @cons e ln es lines hemit hrest ih =>
    have htext : ln.bucket = e.bucket.text := by
      obtain ⟨_, -, hok⟩ := bind_eq_ok.mp hemit
      obtain ⟨_, -, hok⟩ := bind_eq_ok.mp hok
      exact Except.ok.inj hok ▸ rfl
    unfold amountIn at ih ⊢
    by_cases he : e.bucket = bucket
    · obtain ⟨-, hamount, -⟩ := emit_tokens (he ▸ hbucket) hemit
      rw [filter_cons_of_pos (by simp [htext, he]), filter_cons_of_pos (by simp [he]), map_cons,
        map_cons, sum_cons, sum_cons, ih, hamount]
    · have hne : ln.bucket ≠ bucket.text := fun heq => he (Bucket.text_injective (htext.symm.trans heq))
      rw [filter_cons_of_neg (by simp [hne]), filter_cons_of_neg (by simp [he]), ih]

theorem amountIn_zipWith (bucket : Bucket) {others : List RatedLine} (h : others.length = lines.length) :
    amountIn (List.zipWith hypothesisRange lines others) bucket = amountIn lines bucket := by
  induction lines generalizing others with
  | nil => rfl
  | cons ln lines ih =>
    cases others with
    | nil => cases h
    | cons other others =>
      have hrest := ih (Nat.succ.inj h)
      have hwide : (hypothesisRange ln other).bucket = ln.bucket := rfl
      unfold amountIn at hrest ⊢
      rw [zipWith_cons_cons]
      by_cases hln : ln.bucket = bucket.text
      · rw [filter_cons_of_pos (by simp [hwide, hln]), filter_cons_of_pos (by simp [hln]),
          map_cons, map_cons, sum_cons, sum_cons, hrest]
        rfl
      · rw [filter_cons_of_neg (by simp [hwide, hln]), filter_cons_of_neg (by simp [hln]),
          hrest]

/-- The lines of a price: none of a free one without a row, or those of the rates of the request, which two
hypotheses widen. -/
theorem priceUsage_lines {card : RateCard} {usage : UsageCounts} {ctx : PricingContext} {tsMs : Int}
    {billable : Option Bool} {source : UsageSource} {outputUpper : Option Nat} {p : PricedUsage}
    (h : card.priceUsage usage ctx tsMs billable source outputUpper = .ok p) (hpriced : p.unpricedReason = none) :
    (billable = some false ∧ p.lines = []) ∨ ∃ rates high row lines,
      card.resolve ctx tsMs usage.totalInput none = .ok (.priced rates high row) ∧
      RateCard.linesOf usage ctx rates high (billingOf ctx.provider billable source) outputUpper = .ok lines ∧
      (∀ bucket, amountIn p.lines bucket = amountIn lines bucket) ∧
      ∀ ln ∈ p.lines, ln.exact = true → ln ∈ lines := by
  obtain ⟨resolved, hresolve, h⟩ := bind_eq_ok.mp h
  cases resolved with
  | unpriced reason =>
    dsimp only at h
    split at h
    · rename_i hfree
      obtain rfl := Except.ok.inj h
      exact .inl ⟨hfree.1, rfl⟩
    · obtain ⟨figure, -, h⟩ := bind_eq_ok.mp h
      obtain rfl := Except.ok.inj h
      cases hpriced
  | priced rates high row =>
    obtain ⟨lines, hlines, h⟩ := bind_eq_ok.mp h
    obtain ⟨all, hall, h⟩ := bind_eq_ok.mp h
    have hp : p.lines = all := by
      unfold assemble at h
      split at h
      · obtain ⟨figure, -, h⟩ := bind_eq_ok.mp h
        exact Except.ok.inj h ▸ rfl
      · obtain ⟨estimated, -, h⟩ := bind_eq_ok.mp h
        obtain ⟨figure, -, h⟩ := bind_eq_ok.mp h
        exact Except.ok.inj h ▸ rfl
    refine .inr ⟨rates, high, row, lines, hresolve, hlines, ?_⟩
    rw [hp]
    cases hband : (RateCard.bandB row ctx usage.totalInput).filter fun _ => !lines.isEmpty with
    | none =>
      rw [hband] at hall
      obtain rfl := Except.ok.inj hall
      exact ⟨fun _ => rfl, fun _ hln _ => hln⟩
    | some band =>
      rw [hband] at hall
      have hall : card.widened usage ctx tsMs (billingOf ctx.provider billable source) outputUpper band lines =
        .ok all := hall
      obtain ⟨resolved, -, hall⟩ := bind_eq_ok.mp hall
      cases resolved with
      | unpriced _ => cases hall
      | priced rates' high' row' =>
        obtain ⟨others, -, hall⟩ := bind_eq_ok.mp hall
        split at hall
        · rename_i hlength
          obtain rfl := Except.ok.inj hall
          refine ⟨fun bucket => amountIn_zipWith bucket hlength, fun ln hln hexact => absurd hexact ?_⟩
          exact forall_mem_zipWith (P := fun ln => ¬ ln.exact = true) (fun _ _ _ => Bool.false_ne_true) ln hln
        · cases hall

/-- A known class of usage that is billed costs its tokens at the rate of the class. -/
theorem amountIn_known {usage : UsageCounts} {ctx : PricingContext} {rates : ResolvedRates}
    {high : Option ResolvedRates} {outputUpper : Option Nat}
    (h : RateCard.linesOf usage ctx rates high b outputUpper = .ok lines) (hbillable : b.billable ≠ some false)
    (hexactly : b.partialExact ≠ some false) {bucket : Bucket} {key : PriceKey} {quantity : Nat}
    (hknown : (bucket, key, quantity) ∈ knownBuckets usage) :
    amountIn lines bucket = lineNano quantity (tupleOf (rates.rates.effective key)) := by
  rw [amountIn_emitted (bucket_known hknown).2.2 h]
  obtain ⟨other, hfilter⟩ := filter_emissions_known ctx rates high b.source outputUpper hknown
  rw [hfilter]
  by_cases h0 : quantity = 0
  · rw [if_pos h0, h0, lineNano_zero]
    rfl
  · rw [if_neg h0, map_singleton, sum_singleton]
    unfold tokenAmount
    rw [Option.map_map]
    have hpoint := settle_point hbillable hexactly (lineNano quantity (tupleOf (rates.rates.effective key)))
      (other.map fun rate => lineNano quantity (tupleOf rate))
    rw [Option.map_map] at hpoint
    exact hpoint

/-- Writes of an unknown lifetime do not cost less than nothing. -/
theorem amountIn_unknown_nonneg {usage : UsageCounts} {ctx : PricingContext} {rates : ResolvedRates}
    {high : Option ResolvedRates} {outputUpper : Option Nat}
    (h : RateCard.linesOf usage ctx rates high b outputUpper = .ok lines) (hrates : rates.NonNegative)
    (hhigh : ∀ top ∈ high, top.NonNegative) : 0 ≤ amountIn lines .cacheWriteUnknown := by
  rw [amountIn_emitted (by decide) h, filter_emissions_unknown]
  refine sum_nonneg fun n hn => ?_
  obtain ⟨e, he, rfl⟩ := mem_map.mp hn
  have hnonneg := unknownEmission_nonneg hrates hhigh e he
  refine settle_nonneg b (amount_nonneg hnonneg.point (amount_tokens _ _)) fun r hr => ?_
  obtain ⟨quotes, hquotes, rfl⟩ := Option.map_eq_some_iff.mp hr
  obtain ⟨hlow, htop⟩ := hnonneg.range quotes hquotes
  exact ⟨le_min (amount_nonneg hlow (amount_tokens _ _)) (amount_nonneg htop (amount_tokens _ _)), min_le_max⟩

/-- No writes of an unknown lifetime cost nothing. -/
theorem amountIn_unknown_zero {usage : UsageCounts} {ctx : PricingContext} {rates : ResolvedRates}
    {high : Option ResolvedRates} {outputUpper : Option Nat}
    (h : RateCard.linesOf usage ctx rates high b outputUpper = .ok lines) (hzero : usage.cacheWriteUnknown = 0) :
    amountIn lines .cacheWriteUnknown = 0 := by
  rw [amountIn_emitted (by decide) h, filter_emissions_unknown]
  unfold unknownEmission
  rw [hzero]
  rfl

end TokenBill.Rates
