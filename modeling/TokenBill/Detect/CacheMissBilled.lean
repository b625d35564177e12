import TokenBill.Detect.CacheMiss
import TokenBill.Rates.NonBillable
import TokenBill.Rates.TokenLines

/-!
# The rewrite of a miss is what was billed

What `Prices` keeps is what the card computes on a day, so a price does not depend on the prices before it. Where a
request may be billed and its classes have the rates of a request of no size, as they do below the threshold of its
row, a rewrite without a range is not above what was billed for the uncached input and the writes, and is that when
all of them were missed. A request of the long-context band is billed at its rates, and a rewrite of it is not; nor
is a request billed at all that is marked so, while its rewrite is priced.
-/

namespace TokenBill.CacheMiss

open General Rates List

/-! ### A day -/

theorem dateOf_day (tsMs : Int) : RateCard.dateOf (tsMs / dayMs * dayMs) = RateCard.dateOf tsMs := by
  unfold RateCard.dateOf dayMs
  rw [Int.mul_ediv_cancel _ (by norm_num)]

section

variable (card : RateCard) (ctx : PricingContext) (tsMs : Int)

/-- The rates of a context are those of its day. -/
theorem resolve_day (total : Nat) (band : Option Bool) :
    card.resolve ctx (tsMs / dayMs * dayMs) total band = card.resolve ctx tsMs total band := by
  unfold RateCard.resolve
  rw [dateOf_day]

theorem unitRates_day : card.unitRates ctx (tsMs / dayMs * dayMs) = card.unitRates ctx tsMs := by
  unfold RateCard.unitRates
  rw [resolve_day]

theorem priced_day (bucket : Field) (tokens : Nat) :
    priced card ctx (tsMs / dayMs * dayMs) bucket tokens = priced card ctx tsMs bucket tokens := by
  unfold priced RateCard.priceUsage RateCard.pricePriced RateCard.widened
  simp only [resolve_day]

end

/-! ### What is kept -/

/-- The tables of `Prices` hold what the card computes of their keys. -/
structure Coherent (card : RateCard) (prices : Prices) : Prop where
  units : Kept.Coherent (fun k => caught (card.unitRates k.1 (k.2 * dayMs))) prices.units
  exacts : Kept.Coherent (fun k => (·.map Quoted.exact) <$> priced card k.1 (k.2.1 * dayMs) k.2.2 probeTokens)
    prices.exacts

section

variable (card : RateCard) (ctx : PricingContext) (tsMs : Int)

theorem ensures_unit : Kept.Ensures (Coherent card) (unit card ctx tsMs) fun units =>
    caught (card.unitRates ctx tsMs) = .ok units := by
  have h := Kept.ensures_lookOr Prices.units (fun prices units => { prices with units })
    (k := (ctx, tsMs / dayMs)) (fun _ (hs : Coherent card _) => hs.units)
    fun _ _ hs hv => ⟨hs.units.cons hv, hs.exacts⟩
  rw [unitRates_day] at h
  exact h

theorem ensures_probe (bucket : Field) : Kept.Ensures (Coherent card) (probe card ctx tsMs bucket) fun exact =>
    (·.map Quoted.exact) <$> priced card ctx tsMs bucket probeTokens = .ok exact := by
  have h := Kept.ensures_lookOr Prices.exacts (fun prices exacts => { prices with exacts })
    (k := (ctx, tsMs / dayMs, bucket)) (fun _ (hs : Coherent card _) => hs.exacts)
    fun _ _ hs hv => ⟨hs.units, hs.exacts.cons hv⟩
  rw [priced_day] at h
  exact h

end

/-! ### The rates of a slice -/

def billedFields : List Field := .uncachedInput :: writeOrder

/-- The classes of the uncached input and of the writes of a usage have the rates of a request of no size. -/
def PricedAtBase (card : RateCard) (usage : UsageCounts) (ctx : PricingContext) (tsMs : Int) : Prop :=
  ∀ rates high row base baseHigh baseRow,
    card.resolve ctx tsMs usage.totalInput none = .ok (.priced rates high row) →
    card.resolve ctx tsMs 0 none = .ok (.priced base baseHigh baseRow) →
    ∀ bucket ∈ billedFields, bucket.tokens usage ≠ 0 → ∀ key ∈ bucket.unitKey,
      base.rates.effective key = rates.rates.effective key

section

variable {card : RateCard} {ctx : PricingContext} {tsMs : Int} {usage : UsageCounts}

/-- A smaller request has the rates of one of no size, or of the larger one. -/
theorem resolve_smaller (card : RateCard) (ctx : PricingContext) (tsMs : Int) {m n : Nat} (h : m ≤ n) :
    card.resolve ctx tsMs m none = card.resolve ctx tsMs 0 none ∨
      card.resolve ctx tsMs m none = card.resolve ctx tsMs n none := by
  unfold RateCard.resolve
  cases RateCard.dateOf tsMs with
  | error e => exact .inl rfl
  | ok date =>
    cases hfind : card.find ctx.channel ctx.model date with
    | error reason => exact .inl (by simp only [bind, Except.bind, hfind])
    | ok found =>
      obtain ⟨row, kind⟩ := found
      simp only [bind, Except.bind, hfind, Option.getD_none]
      cases row.longContextThreshold with
      | none => exact .inl rfl
      | some threshold =>
        by_cases hm : threshold < m
        · have hn : threshold < n := hm.trans_le h
          refine .inr ?_
          simp only [Option.any_some, hm, hn]
        · refine .inl ?_
          simp only [Option.any_some, hm, Nat.not_lt_zero]

theorem pricedAtBase_of_le
    (h : ∀ rates high row, card.resolve ctx tsMs usage.totalInput none = .ok (.priced rates high row) →
      ∀ threshold ∈ row.longContextThreshold, usage.totalInput ≤ threshold) :
    PricedAtBase card usage ctx tsMs := by
  intro rates high row base baseHigh baseRow hrates hbase
  have hsame : card.resolve ctx tsMs usage.totalInput none = card.resolve ctx tsMs 0 none := by
    have hle := h rates high row hrates
    unfold RateCard.resolve at hrates ⊢
    obtain ⟨date, hdate, hrates⟩ := bind_eq_ok.mp hrates
    rw [hdate]
    cases hfind : card.find ctx.channel ctx.model date with
    | error reason =>
      rw [hfind] at hrates
      cases Except.ok.inj hrates
    | ok found =>
      obtain ⟨row', kind⟩ := found
      rw [hfind] at hrates
      obtain ⟨⟨r, r'⟩, hr, hrates⟩ := bind_eq_ok.mp hrates
      obtain ⟨-, -, rfl⟩ := RateCard.Resolved.priced.inj (Except.ok.inj hrates)
      simp only [bind, Except.bind, hfind, Option.getD_none]
      cases hthreshold : row'.longContextThreshold with
      | none => rfl
      | some threshold =>
        have hnot : ¬ threshold < usage.totalInput := not_lt.mpr (hle threshold hthreshold)
        simp only [Option.any_some, hnot, Nat.not_lt_zero]
  rw [hsame, hbase] at hrates
  obtain ⟨rfl, -, -⟩ := RateCard.Resolved.priced.inj (Except.ok.inj hrates)
  exact fun _ _ _ _ _ => rfl

theorem PricedAtBase.slice (hbase : PricedAtBase card usage ctx tsMs) {rates r : ResolvedRates}
    {high h : Option ResolvedRates} {row row' : RateRow}
    (hrates : card.resolve ctx tsMs usage.totalInput none = .ok (.priced rates high row)) {n : Nat}
    (hn : n ≤ usage.totalInput) (hslice : card.resolve ctx tsMs n none = .ok (.priced r h row'))
    {bucket : Field} (hb : bucket ∈ billedFields) (hne : bucket.tokens usage ≠ 0) {key : PriceKey}
    (hkey : key ∈ bucket.unitKey) : r.rates.effective key = rates.rates.effective key := by
  rcases resolve_smaller card ctx tsMs hn with hsame | hsame
  · rw [hsame] at hslice
    exact hbase rates high row r h row' hrates hslice bucket hb hne key hkey
  · rw [hsame, hrates] at hslice
    obtain ⟨rfl, -, -⟩ := RateCard.Resolved.priced.inj (Except.ok.inj hslice)
    rfl

end

/-! ### The price of a slice -/

theorem caught_eq_some {α : Type} {x : Except PriceError (Option α)} {a : α} (h : caught x = .ok (some a)) :
    x = .ok (some a) := by
  unfold caught at h
  split at h
  · exact h
  · split at h
    · cases Except.ok.inj h
    · cases h

/-- A bucket of input is that of a known class, or of writes of an unknown lifetime. -/
theorem known_of_mem {bucket : Field} (h : bucket ∈ billedFields) : bucket = .cacheWriteUnknown ∨
    ∃ key, bucket.unitKey = some key ∧ ∀ usage, (bucket.bucket, key, bucket.tokens usage) ∈ knownBuckets usage := by
  unfold billedFields writeOrder at h
  simp only [mem_cons, not_mem_nil, or_false] at h
  rcases h with rfl | rfl | rfl | rfl | rfl
  · exact .inr ⟨.input, rfl, fun usage => by simp [knownBuckets, Field.bucket, Field.tokens]⟩
  · exact .inr ⟨.cacheWrite1h, rfl, fun usage => by simp [knownBuckets, Field.bucket, Field.tokens]⟩
  · exact .inr ⟨.cacheWrite5m, rfl, fun usage => by simp [knownBuckets, Field.bucket, Field.tokens]⟩
  · exact .inr ⟨.cacheWriteOther, rfl, fun usage => by simp [knownBuckets, Field.bucket, Field.tokens]⟩
  · exact .inl rfl

theorem usageOf_input {bucket : Field} (h : bucket ∈ billedFields) (n : Nat) :
    (bucket.usageOf n).totalInput = n ∧ bucket.tokens (bucket.usageOf n) = n := by
  unfold billedFields writeOrder at h
  simp only [mem_cons, not_mem_nil, or_false] at h
  rcases h with rfl | rfl | rfl | rfl | rfl <;>
    simp [Field.usageOf, Field.tokens, UsageCounts.totalInput, UsageCounts.cacheWrite]

section

variable {card : RateCard} {ctx : PricingContext} {tsMs : Int}

/-- What a quote comes from: an exact line of the usage of its tokens. -/
theorem priced_eq_some {bucket : Field} {n : Nat} {q : Quoted} (h : priced card ctx tsMs bucket n = .ok (some q)) :
    ∃ p ln, card.priceUsage (bucket.usageOf n) ctx tsMs (some true) .final none = .ok p ∧ p.unpricedReason = none ∧
      ln ∈ p.lines ∧ ln.bucket = bucket.bucket.text ∧ q = .ofLine ln := by
  have hok := caught_eq_some h
  obtain ⟨usage, husage, hok⟩ := bind_eq_ok.mp hok
  have hcounts : usage.toUsageCounts = bucket.usageOf n := by
    cases hbuild : (bucket.usageOf n).build with
    | error e =>
      rw [hbuild] at husage
      cases husage
    | ok u =>
      rw [hbuild] at husage
      obtain rfl := Except.ok.inj husage
      exact UsageCounts.build_eq_ok.mp hbuild
  rw [hcounts] at hok
  obtain ⟨p, hp, hok⟩ := bind_eq_ok.mp hok
  split at hok
  · cases Except.ok.inj hok
  · rename_i hpriced
    obtain ⟨ln, hln, rfl⟩ := Option.map_eq_some_iff.mp (Except.ok.inj hok)
    refine ⟨p, ln, hp, ?_, mem_of_find?_eq_some hln, by simpa using find?_some hln, rfl⟩
    by_contra hreason
    exact hpriced (.inl hreason)

/-- An exact quote of input costs its tokens at the rate of their class in a request of them alone; writes of an
unknown lifetime have none. -/
theorem priced_exact {bucket : Field} (hb : bucket ∈ billedFields) {n : Nat} {q : Quoted}
    (h : priced card ctx tsMs bucket n = .ok (some q)) (hexact : q.exact = true) :
    ∃ key ∈ bucket.unitKey, ∃ rates high row, card.resolve ctx tsMs n none = .ok (.priced rates high row) ∧
      q.point = lineNano n (tupleOf (rates.rates.effective key)) := by
  obtain ⟨p, ln, hp, hreason, hln, hbucket, rfl⟩ := priced_eq_some h
  obtain ⟨rates, high, row, lines, hresolve, hlines, -, hmem⟩ :=
    (priceUsage_lines hp hreason).resolve_left fun hfree => by cases hfree.1
  obtain ⟨hinput, htokens⟩ := usageOf_input hb n
  rw [hinput] at hresolve
  obtain ⟨e, he, hemit⟩ := exists_of_mem_right (mapM_eq_ok.mp hlines) (hmem ln hln hexact)
  have hnot : (billingOf ctx.provider (some true) .final).partialExact ≠ some false := partialExact_billingOf _ _ _
  have hweb : e.bucket ≠ .webSearch ∧ e.bucket = bucket.bucket := by
    have htext : ln.bucket = e.bucket.text := by
      obtain ⟨_, -, hok⟩ := bind_eq_ok.mp hemit
      obtain ⟨_, -, hok⟩ := bind_eq_ok.mp hok
      exact Except.ok.inj hok ▸ rfl
    have heq := Bucket.text_injective (htext.symm.trans hbucket)
    refine ⟨heq ▸ ?_, heq⟩
    cases bucket <;> decide
  obtain ⟨-, hamount, hrange⟩ := emit_tokens hweb.1 hemit
  have hnone : e.range = none := ((hrange hexact).resolve_right fun hfree =>
    hfree.elim (fun hf => by cases hf) hnot)
  have hfilter : e ∈ (emissions (bucket.usageOf n) ctx rates high .final none).filter
      fun e => decide (e.bucket = bucket.bucket) := mem_filter.mpr ⟨he, decide_eq_true hweb.2⟩
  rcases known_of_mem hb with rfl | ⟨key, hkey, hknown⟩
  · rw [show Field.cacheWriteUnknown.bucket = .cacheWriteUnknown from rfl, filter_emissions_unknown] at hfilter
    unfold unknownEmission at hfilter
    dsimp only at hfilter
    split at hfilter
    · cases hfilter
    · obtain rfl := mem_singleton.mp hfilter
      cases hnone
  · have hknown := hknown (bucket.usageOf n)
    rw [htokens] at hknown
    obtain ⟨other, hone⟩ := filter_emissions_known ctx rates high .final none hknown
    rw [hone] at hfilter
    split at hfilter
    · cases hfilter
    · obtain rfl := mem_singleton.mp hfilter
      refine ⟨key, hkey, rates, high, row, hresolve, ?_⟩
      show ln.amountNano = _
      rw [hamount]
      rw [show Option.map _ other = none from hnone]
      exact settle_point (fun hf => by cases hf) hnot _ none

end

/-! ### What is billed -/

/-- The lines of the uncached input and of the writes, in sum. -/
def billedFor (lines : List RatedLine) : Int :=
  ((lines.filter fun ln => decide (ln.bucket ∈ billedFields.map (·.bucket.text))).map (·.amountNano)).sum

def amountOf (lines : List RatedLine) (bucket : Field) : Int := amountIn lines bucket.bucket

theorem sum_ite_mem {κ : Type} [DecidableEq κ] (x : κ) (n : Int) {ks : List κ} (hn : ks.Nodup) :
    (ks.map fun k => if x = k then n else 0).sum = if x ∈ ks then n else 0 := by
  induction ks with
  | nil => rfl
  | cons k ks ih =>
    obtain ⟨hk, hks⟩ := nodup_cons.mp hn
    rw [map_cons, sum_cons, ih hks]
    by_cases hx : x = k
    · subst hx
      rw [if_pos rfl, if_neg hk, if_pos mem_cons_self, add_zero]
    · rw [if_neg hx, zero_add]
      simp only [mem_cons, hx, false_or]

theorem nodup_billedFields : (billedFields.map (·.bucket.text)).Nodup := by decide

theorem billedFor_eq (lines : List RatedLine) :
    billedFor lines = (billedFields.map (amountOf lines)).sum := by
  induction lines with
  | nil => rfl
  | cons ln lines ih =>
    have hsplit : amountOf (ln :: lines) = fun bucket =>
        (if ln.bucket = bucket.bucket.text then ln.amountNano else 0) + amountOf lines bucket := by
      funext bucket
      unfold amountOf amountIn
      by_cases h : ln.bucket = bucket.bucket.text
      · rw [filter_cons_of_pos (by simp [h]), map_cons, sum_cons, if_pos h]
      · rw [filter_cons_of_neg (by simp [h]), if_neg h, zero_add]
    have hsum := sum_ite_mem ln.bucket ln.amountNano nodup_billedFields
    rw [map_map] at hsum
    rw [hsplit, sum_map_add, ← ih]
    unfold billedFor
    by_cases hmem : ln.bucket ∈ billedFields.map (·.bucket.text)
    · rw [if_pos hmem] at hsum
      rw [filter_cons_of_pos (by simpa using hmem), map_cons, sum_cons]
      exact congrArg (· + _) hsum.symm
    · rw [if_neg hmem] at hsum
      rw [filter_cons_of_neg (by simpa using hmem)]
      exact (zero_add _).symm.trans (congrArg (· + _) hsum.symm)

/-! ### Lines and writes -/

/-- An amount without a range is not above what is billed for a bucket, and is that for all of its tokens. -/
def WithinBill (usage : UsageCounts) (bill : Field → Int) (bucket : Field) (n : Nat) (part : Option Money) : Prop :=
  ∀ money, part = some money → money.ranged = false →
    money.point ≤ bill bucket ∧ (n = bucket.tokens usage → money.point = bill bucket)

section

variable {card : RateCard} {ctx : PricingContext} {tsMs : Int}

theorem ensures_unitFor (bucket : Field) (exact : Bool) :
    Kept.Ensures (Coherent card) (unitFor card ctx tsMs bucket exact) fun units =>
      ∀ u, units = some u → card.unitRates ctx tsMs = .ok (some u) := by
  unfold unitFor
  split
  · intro s hs
    obtain ⟨hinv, hunit⟩ := ensures_unit card ctx tsMs s hs
    refine ⟨hinv, ?_⟩
    rintro _ hok u rfl
    exact caught_eq_some (hunit _ hok)
  · exact Kept.ensures_pure fun u hu => by cases hu

theorem ensures_coherent_line (bucket : Field) (n : Nat) :
    Kept.Ensures (Coherent card) (line card ctx tsMs bucket n) fun _ => True := by
  unfold line
  split
  · exact Kept.ensures_pure trivial
  · refine (ensures_probe card ctx tsMs bucket).bind fun exact _ => ?_
    cases exact with
    | none => exact Kept.ensures_pure trivial
    | some exact =>
      refine (ensures_unitFor bucket exact).bind fun units _ => ?_
      split
      · exact Kept.ensures_pure trivial
      · exact Kept.ensures_ofExcept fun _ _ => trivial

/-- The line of some tokens of input: at a rate of the card of a request of no size, or of those tokens alone. -/
theorem ensures_line {bucket : Field} (hb : bucket ∈ billedFields) (n : Nat) :
    Kept.Ensures (Coherent card) (line card ctx tsMs bucket n) fun part =>
      ∀ money, part = some money → money.ranged = false → (n = 0 ∧ money.point = 0) ∨
        ∃ key ∈ bucket.unitKey, ∃ m ≤ n, ∃ rates high row,
          card.resolve ctx tsMs m none = .ok (.priced rates high row) ∧
          money.point = lineNano n (tupleOf (rates.rates.effective key)) := by
  unfold line
  split
  · rename_i h0
    refine Kept.ensures_pure fun money hmoney _ => .inl ⟨h0, ?_⟩
    obtain rfl := Option.some.inj hmoney
    rfl
  · refine (ensures_probe card ctx tsMs bucket).bind fun exact _ => ?_
    cases exact with
    | none => exact Kept.ensures_pure fun money hmoney => by cases hmoney
    | some exact =>
      refine (ensures_unitFor bucket exact).bind fun units hunits => ?_
      split
      · rename_i money hunit
        refine Kept.ensures_pure fun money' hmoney _ => .inr ?_
        obtain rfl := Option.some.inj hmoney
        obtain ⟨u, rfl, hunit⟩ := Option.bind_eq_some_iff.mp hunit
        obtain ⟨key, hkey, hunit⟩ := Option.bind_eq_some_iff.mp hunit
        obtain rfl := Option.some.inj hunit
        have hu := hunits u rfl
        obtain ⟨resolved, hresolve, hu⟩ := bind_eq_ok.mp hu
        cases resolved with
        | unpriced _ => cases Except.ok.inj hu
        | priced rates high row =>
          refine ⟨key, hkey, 0, Nat.zero_le n, rates, high, row, hresolve, ?_⟩
          show 0 + scaledToNano (n * u.rate key) u.scaleExp = _
          rw [zero_add, scaledToNano_unitRates hu key n]
      · refine Kept.ensures_ofExcept fun part hpart money hmoney hexact => .inr ?_
        obtain rfl := hmoney
        obtain ⟨quoted, hquoted, hpart⟩ := bind_eq_ok.mp hpart
        obtain ⟨q, rfl, hq⟩ := Option.map_eq_some_iff.mp (Except.ok.inj hpart)
        split at hq
        · rename_i hqexact
          obtain ⟨key, hkey, rates, high, row, hresolve, hpoint⟩ := priced_exact hb hquoted hqexact
          refine ⟨key, hkey, n, le_rfl, rates, high, row, hresolve, ?_⟩
          rw [← hq]
          show 0 + q.point = _
          rw [zero_add, hpoint]
        · rw [← hq] at hexact
          cases hexact

variable {usage : UsageCounts} {bill : Field → Int}

/-- The loop over the writes: what is left is priced within what is billed for the buckets left. -/
theorem ensures_writtenLoop {buckets : List Field} (hbill : ∀ b ∈ buckets, 0 ≤ bill b ∧ (b.tokens usage = 0 → bill b = 0))
    (hline : ∀ b ∈ buckets, ∀ n ≤ b.tokens usage,
      Kept.Ensures (Coherent card) (line card ctx tsMs b n) (WithinBill usage bill b n)) (remaining : Nat) (start : Money) :
    Kept.Ensures (Coherent card) (writtenLoop card ctx tsMs usage buckets remaining start) fun part =>
      ∀ money, part = some money → money.ranged = false → start.ranged = false ∧
        money.point ≤ start.point + (buckets.map bill).sum ∧
        ((buckets.map (Field.tokens usage)).sum ≤ remaining → money.point = start.point + (buckets.map bill).sum) := by
  induction buckets generalizing remaining start with
  | nil =>
    refine Kept.ensures_pure fun money hmoney hexact => ?_
    obtain rfl := Option.some.inj hmoney
    exact ⟨hexact, by simp, fun _ => by simp⟩
  | cons bucket buckets ih =>
    obtain ⟨hnonneg, hzero⟩ := hbill bucket mem_cons_self
    have hrest := ih (fun b hb => hbill b (mem_cons_of_mem _ hb)) fun b hb => hline b (mem_cons_of_mem _ hb)
    unfold writtenLoop
    simp only [map_cons, sum_cons]
    split
    · -- nothing of the bucket is taken: it has no tokens, or none remain
      rename_i htake
      intro s hs
      obtain ⟨hinv, hpost⟩ := hrest remaining start s hs
      refine ⟨hinv, fun part hpart money hmoney hexact => ?_⟩
      obtain ⟨hstart, hle, heq⟩ := hpost part hpart money hmoney hexact
      refine ⟨hstart, by linarith, fun hall => ?_⟩
      rw [heq (by omega), hzero (by omega), zero_add]
    · refine (hline bucket mem_cons_self _ (min_le_left _ _)).bind fun part hpart => ?_
      cases part with
      | none => exact Kept.ensures_pure fun money hmoney => by cases hmoney
      | some part =>
        intro s hs
        obtain ⟨hinv, hpost⟩ := hrest (remaining - min (bucket.tokens usage) remaining) (start.addMoney part 1) s hs
        refine ⟨hinv, fun r hr money hmoney hexact => ?_⟩
        obtain ⟨hranged, hle, heq⟩ := hpost r hr money hmoney hexact
        have hadded : (start.addMoney part 1).point = start.point + part.point ∧
            (start.addMoney part 1).ranged = (start.ranged || part.ranged) := ⟨rfl, rfl⟩
        rw [hadded.2, Bool.or_eq_false_iff] at hranged
        obtain ⟨hpoint, hall⟩ := hpart part rfl hranged.2
        rw [hadded.1] at hle heq
        refine ⟨hranged.1, by linarith, fun htokens => ?_⟩
        rw [heq (by omega), hall (by omega)]
        ring

end

/-! ### Main results -/

/-- The states that `Prices` reaches. -/
inductive Reach (card : RateCard) : Prices → Prop
  | new : Reach card {}
  | unit {prices : Prices} (h : Reach card prices) (pricing : PricingContext) (tsMs : Int) :
      Reach card ((unit card pricing tsMs).exec prices).2
  | line {prices : Prices} (h : Reach card prices) (pricing : PricingContext) (tsMs : Int) (bucket : Field)
      (tokens : Nat) : Reach card ((line card pricing tsMs bucket tokens).exec prices).2

theorem Reach.coherent {card : RateCard} {prices : Prices} (h : Reach card prices) : Coherent card prices := by
  induction h with
  | new => exact ⟨Kept.coherent_nil _, Kept.coherent_nil _⟩
  | unit _ pricing tsMs ih => exact (ensures_unit card pricing tsMs _ ih).1
  | line _ pricing tsMs bucket tokens ih => exact (ensures_coherent_line bucket tokens _ ih).1

/-- A rewrite without a range is what was billed: it is not above the lines of the uncached input and of the writes,
and it is their sum when all of them were missed. -/
def BilledRewrite (card : RateCard) (prices : Prices) (t : Transitions.Transition) (req : Request) : Prop :=
  ∀ inf p rewrite premium, req.servingInference = some inf → card.priceInference inf req.tsStartMs = .ok p →
    p.unpricedReason = none → ((missMoney card t req).exec prices).1 = .ok (some (rewrite, premium)) →
    rewrite.ranged = false →
    rewrite.point ≤ billedFor p.lines ∧
      (t.missed = inf.usage.cacheWrite + inf.usage.uncachedInput → rewrite.point = billedFor p.lines)

/-- A request that may be billed, at the rates of a request of no size. -/
def Charged (card : RateCard) (req : Request) : Prop :=
  ∀ inf ∈ req.servingInference, inf.billable ≠ some false ∧
    PricedAtBase card inf.usage.toUsageCounts inf.pricing req.tsStartMs

section

variable {card : RateCard} {usage : UsageCounts} {ctx : PricingContext} {tsMs : Int}

theorem tokens_le_totalInput {bucket : Field} (hb : bucket ∈ billedFields) : bucket.tokens usage ≤ usage.totalInput := by
  unfold billedFields writeOrder at hb
  simp only [mem_cons, not_mem_nil, or_false] at hb
  unfold UsageCounts.totalInput UsageCounts.cacheWrite
  rcases hb with rfl | rfl | rfl | rfl | rfl <;> dsimp only [Field.tokens] <;> omega

theorem ensures_withinBill (hcard : card.NonNegative) (hbase : PricedAtBase card usage ctx tsMs)
    {rates : ResolvedRates} {high : Option ResolvedRates} {row : RateRow}
    (hresolve : card.resolve ctx tsMs usage.totalInput none = .ok (.priced rates high row))
    {billable : Option Bool} {source : UsageSource} {outputUpper : Option Nat} {lines : List RatedLine}
    (hlines : RateCard.linesOf usage ctx rates high (billingOf ctx.provider billable source) outputUpper = .ok lines)
    (hbillable : billable ≠ some false) {bucket : Field} (hb : bucket ∈ billedFields) :
    (0 ≤ amountOf lines bucket ∧ (bucket.tokens usage = 0 → amountOf lines bucket = 0)) ∧
      ∀ n ≤ bucket.tokens usage, Kept.Ensures (Coherent card) (line card ctx tsMs bucket n)
        (WithinBill usage (amountOf lines) bucket n) := by
  obtain ⟨hrates, hhigh⟩ := RateCard.resolve_nonneg hcard hresolve
  rcases known_of_mem hb with rfl | ⟨key, hkey, hknown⟩
  · have hnonneg := amountIn_unknown_nonneg hlines hrates hhigh
    have hzero := amountIn_unknown_zero hlines
    refine ⟨⟨hnonneg, hzero⟩, fun n _ s hs => ?_⟩
    obtain ⟨hinv, hpost⟩ := ensures_line hb n s hs
    refine ⟨hinv, fun part hpart money hmoney hexact => ?_⟩
    rcases hpost part hpart money hmoney hexact with ⟨rfl, hpoint⟩ | ⟨_, hkey, -⟩
    · rw [hpoint]
      exact ⟨hnonneg, fun h => (hzero h.symm).symm⟩
    · cases hkey
  · have hamount : amountOf lines bucket = _ := amountIn_known hlines hbillable (partialExact_billingOf _ _ _)
      (hknown usage)
    have hrate := hrates.rates.effective key
    have hfree : lineNano ((0 : Nat) : Int) (tupleOf (rates.rates.effective key)) = 0 := lineNano_zero _
    refine ⟨⟨?_, fun h0 => ?_⟩, fun n hn s hs => ?_⟩
    · rw [hamount, ← hfree]
      exact lineNano_mono hrate (Nat.zero_le _)
    · rw [hamount, h0, hfree]
    · obtain ⟨hinv, hpost⟩ := ensures_line hb n s hs
      refine ⟨hinv, fun part hpart money hmoney hexact => ?_⟩
      have hpoint : money.point = lineNano n (tupleOf (rates.rates.effective key)) := by
        rcases hpost part hpart money hmoney hexact with ⟨rfl, hpoint⟩ | ⟨key', hkey', m, hm, r, h, row', hslice, hpoint⟩
        · rw [hpoint, hfree]
        · obtain rfl := Option.some.inj (hkey.symm.trans hkey')
          rw [hpoint]
          by_cases h0 : bucket.tokens usage = 0
          · obtain rfl : n = 0 := Nat.le_zero.mp (h0 ▸ hn)
            rw [lineNano_zero, hfree]
          · rw [hbase.slice hresolve ((hm.trans hn).trans (tokens_le_totalInput hb)) hslice hb h0 hkey]
      rw [hpoint, hamount]
      exact ⟨lineNano_mono hrate hn, fun hall => by rw [hall]⟩

end

theorem combine_two {a b : Option Money} {m : Money} (h : combine [(1, a), (1, b)] = some m) :
    ∃ x y, a = some x ∧ b = some y ∧ m.point = x.point + y.point ∧ m.ranged = (x.ranged || y.ranged) := by
  cases a with
  | none => cases h
  | some x =>
    cases b with
    | none => cases h
    | some y =>
      obtain rfl := Option.some.inj h
      refine ⟨x, y, rfl, rfl, ?_, ?_⟩
      · show 0 + x.point + y.point = _
        rw [zero_add]
      · show (false || x.ranged || y.ranged) = _
        rw [Bool.false_or]

/-- The rewrite of a miss is what was billed, when the request may be billed and has the rates of one of no size. -/
theorem rewrite_is_billed (card : RateCard) (hcard : card.NonNegative) {prices : Prices} (hreach : Reach card prices)
    (t : Transitions.Transition) (req : Request) (hcharged : Charged card req) : BilledRewrite card prices t req := by
  intro inf p rewrite premium hinf hp hpriced hmiss hexact
  obtain ⟨hbillable, hbase⟩ := hcharged inf hinf
  obtain ⟨rates, high, row, lines, hresolve, hlines, hsame, -⟩ :=
    (priceUsage_lines hp hpriced).resolve_left fun hfree => hbillable hfree.1
  have hbucket := fun {b : Field} (hb : b ∈ billedFields) =>
    ensures_withinBill hcard hbase hresolve hlines hbillable hb
  have hsum : billedFor p.lines = amountOf lines .uncachedInput + (writeOrder.map (amountOf lines)).sum := by
    rw [billedFor_eq, show amountOf p.lines = amountOf lines from funext fun b => hsame b.bucket]
    rfl
  have htokens : (writeOrder.map (Field.tokens inf.usage.toUsageCounts)).sum = inf.usage.cacheWrite := by
    simp only [writeOrder, map_cons, map_nil, sum_cons, sum_nil, Field.tokens,
      UsageCounts.cacheWrite]
    omega
  rw [hsum]
  have hwaste : missWaste t req = (min t.missed inf.usage.cacheWrite,
      min (t.missed - min t.missed inf.usage.cacheWrite) inf.usage.uncachedInput) := by
    unfold missWaste
    rw [hinf]
  have hensures : Kept.Ensures (Coherent card) (missMoney card t req) fun found =>
      ∀ r q, found = some (r, q) → r.ranged = false →
        r.point ≤ amountOf lines .uncachedInput + (writeOrder.map (amountOf lines)).sum ∧
          (t.missed = inf.usage.cacheWrite + inf.usage.uncachedInput →
            r.point = amountOf lines .uncachedInput + (writeOrder.map (amountOf lines)).sum) := by
    unfold missMoney
    rw [hinf]
    dsimp only
    rw [hwaste]
    dsimp only
    refine (ensures_writtenLoop (fun b hb => (hbucket (mem_cons_of_mem _ hb)).1)
      (fun b hb => (hbucket (mem_cons_of_mem _ hb)).2) _ {}).bind fun writes hwrites => ?_
    refine ((hbucket mem_cons_self).2 _ (min_le_right _ _)).bind fun uncached huncached => ?_
    refine (ensures_coherent_line .cacheRead _).bind fun reads _ => Kept.ensures_pure fun r q hfound hranged => ?_
    obtain ⟨r', hr', hq⟩ := Option.bind_eq_some_iff.mp hfound
    obtain ⟨q', -, hrq⟩ := Option.bind_eq_some_iff.mp hq
    obtain ⟨rfl, -⟩ := Prod.mk.inj (Option.some.inj hrq)
    obtain ⟨w, u, rfl, rfl, hpoint, hboth⟩ := combine_two hr'
    rw [hboth, Bool.or_eq_false_iff] at hranged
    obtain ⟨-, hwle, hweq⟩ := hwrites w rfl hranged.1
    obtain ⟨hule, hueq⟩ := huncached u rfl hranged.2
    rw [hpoint]
    refine ⟨?_, fun hall => ?_⟩
    · have hstart : ({} : Money).point = 0 := rfl
      rw [hstart] at hwle
      omega
    · have hu : min (t.missed - min t.missed inf.usage.cacheWrite) inf.usage.uncachedInput =
          inf.usage.uncachedInput := by omega
      rw [hweq (by rw [htokens]; omega), hueq hu]
      show 0 + _ + _ = _
      ring
  exact (hensures prices hreach.coherent).2 _ hmiss rewrite premium rfl hexact

/-! ### A request of the long-context band -/

/-- A row of $3, and of $6 above 200,000 tokens of input. -/
def bandRow : RateRow where
  rowId := "anthropic/vertex/claude-sonnet-4-5/2025-09-29"
  channel := "vertex"
  model := "claude-sonnet-4-5"
  effectiveFrom := 20360
  inputUsdPerMtok := .ofInt 3
  outputUsdPerMtok := .ofInt 15
  cacheReadMult := some (.ofScaled 1 1)
  cacheWrite5mMult := some (.ofScaled 125 2)
  cacheWrite1hMult := some (.ofInt 2)
  longContextThreshold := some 200000
  longContextUsdPerMtok := [(.input, .ofInt 6), (.output, .ofScaled 225 1), (.cacheRead, .ofScaled 6 1),
    (.cacheWrite5m, .ofScaled 75 1), (.cacheWrite1h, .ofInt 12)]

theorem bandRow_nonneg : bandRow.NonNegative where
  input := by decide +kernel
  output := by decide +kernel
  cacheRead m hm := by
    obtain rfl := Option.some.inj hm
    decide +kernel
  cacheWrite5m m hm := by
    obtain rfl := Option.some.inj hm
    decide +kernel
  cacheWrite1h m hm := by
    obtain rfl := Option.some.inj hm
    decide +kernel
  cacheWriteOther _ hm := by cases hm
  perRequest _ he := absurd he not_mem_nil
  longContext := by decide +kernel

def thresholdOf : RateCard.Resolved → Option Nat
  | .unpriced _ => none
  | .priced _ _ row => row.longContextThreshold

/-- An inference of a usage of the row. -/
def writeInference (usage : UsageBuckets) : Inference where
  inferenceId := "inf"
  kind := .message
  usage := usage
  pricing := {
    provider := "anthropic", channel := "vertex", model := "claude-sonnet-4-5", modelRaw := "claude-sonnet-4-5"
    endpointScope := "global" }

/-- A request that writes a prefix, some time after 2025-10-09. -/
def writeRequest (requestId : String) (afterMs : Nat) (usage : UsageBuckets) : Request where
  requestId := requestId
  sessionKey := "s"
  laneKey := "a"
  seq := 0
  attribution := {}
  params := { modelRequested := "claude-sonnet-4-5" }
  attempts := [.plain "at" 1 (1760000000000 + afterMs) [writeInference usage]]
  attempts_ne := cons_ne_nil _ _

/-- Two requests ten minutes apart, which write the same prefix. -/
def rewriteLane (usage : UsageBuckets) : Lane where
  laneKey := "a"
  sessionKey := "s"
  kind := .main
  parentLaneKey := none
  cacheScopeKey := "unknown"
  requests := [writeRequest "first" 0 usage, writeRequest "second" 600000 usage]

def plainProviders : Transitions.Providers := ⟨fun model => model, fun _ _ _ => true, fun _ _ => none⟩

section

variable {card : RateCard} {prices : Prices} {t : Transitions.Transition} {req : Request} {inf : Inference} {point bill : Int}

theorem rewrite_of_shown
    (hmiss : ((missMoney card t req).exec prices).1.toOption.map (·.map fun f => (f.1.point, f.1.ranged)) =
      some (some (point, false)))
    (hprice : (card.priceInference inf req.tsStartMs).toOption.map (fun p => (p.unpricedReason, billedFor p.lines)) =
      some (none, bill)) :
    ∃ p rewrite premium, card.priceInference inf req.tsStartMs = .ok p ∧ p.unpricedReason = none ∧
      ((missMoney card t req).exec prices).1 = .ok (some (rewrite, premium)) ∧ rewrite.ranged = false ∧
      rewrite.point = point ∧ billedFor p.lines = bill := by
  obtain ⟨found, hfound, hshown⟩ := Option.map_eq_some_iff.mp hmiss
  obtain ⟨⟨rewrite, premium⟩, rfl, hrewrite⟩ := Option.map_eq_some_iff.mp hshown
  obtain ⟨p, hp, hbill⟩ := Option.map_eq_some_iff.mp hprice
  obtain ⟨hpoint, hranged⟩ := Prod.mk.inj hrewrite
  obtain ⟨hreason, hsum⟩ := Prod.mk.inj hbill
  exact ⟨p, rewrite, premium, toOption_eq_some.mp hp, hreason, toOption_eq_some.mp hfound, hranged, hpoint, hsum⟩

end

def longWrite : UsageBuckets := ⟨{ cacheWrite5m := 300000 }, by decide⟩

def shortWrite : UsageBuckets := ⟨{ cacheWrite5m := 100000 }, by decide⟩

/-- A prefix of 300,000 tokens that is rewritten is billed in the band, at twice what its miss is said to cost. -/
theorem rewrite_below_bill : ∃ t ∈ Transitions.classifyTransitions plainProviders (rewriteLane longWrite),
    t.isMissEvent = true ∧ (oneRow bandRow).NonNegative ∧ Reach (oneRow bandRow) {} ∧
      ¬ BilledRewrite (oneRow bandRow) {} t (writeRequest "second" 600000 longWrite) := by
  obtain ⟨t, ht⟩ := exists_mem_of_ne_nil _ (show Transitions.classifyTransitions plainProviders
    (rewriteLane longWrite) ≠ [] by decide)
  obtain ⟨hevent, hmissed, hmiss⟩ := (by decide :
    ∀ t ∈ Transitions.classifyTransitions plainProviders (rewriteLane longWrite), t.isMissEvent = true ∧
      t.missed = 300000 ∧ ((missMoney (oneRow bandRow) t (writeRequest "second" 600000 longWrite)).exec {}).1.toOption.map (·.map fun f => (f.1.point, f.1.ranged)) =
          some (some (1125000000, false))) t ht
  refine ⟨t, ht, hevent, oneRow_nonneg bandRow_nonneg, .new, fun h => ?_⟩
  have hprice : ((oneRow bandRow).priceInference (writeInference longWrite)
      (writeRequest "second" 600000 longWrite).tsStartMs).toOption.map
        (fun p => (p.unpricedReason, billedFor p.lines)) = some (none, 2250000000) := by decide
  obtain ⟨p, rewrite, premium, hp, hpriced, hfound, hranged, hpoint, hbill⟩ := rewrite_of_shown hmiss hprice
  have hall := (h _ p rewrite premium rfl hp hpriced hfound hranged).2 hmissed
  rw [hpoint, hbill] at hall
  cases hall

/-- A prefix of 100,000 tokens costs what was billed. -/
theorem rewrite_at_bill : ∃ t ∈ Transitions.classifyTransitions plainProviders (rewriteLane shortWrite),
    t.isMissEvent = true ∧ t.missed = 100000 ∧
      ((missMoney (oneRow bandRow) t (writeRequest "second" 600000 shortWrite)).exec
        {}).1.toOption.map (·.map fun f => (f.1.point, f.1.ranged)) = some (some (375000000, false)) ∧
      BilledRewrite (oneRow bandRow) {} t (writeRequest "second" 600000 shortWrite) := by
  obtain ⟨t, ht⟩ := exists_mem_of_ne_nil _ (show Transitions.classifyTransitions plainProviders
    (rewriteLane shortWrite) ≠ [] by decide)
  obtain ⟨hevent, hmissed, hmiss⟩ := (by decide :
    ∀ t ∈ Transitions.classifyTransitions plainProviders (rewriteLane shortWrite), t.isMissEvent = true ∧
      t.missed = 100000 ∧ ((missMoney (oneRow bandRow) t (writeRequest "second" 600000 shortWrite)).exec {}).1.toOption.map (·.map fun f => (f.1.point, f.1.ranged)) =
          some (some (375000000, false))) t ht
  have hcharged : Charged (oneRow bandRow) (writeRequest "second" 600000 shortWrite) := by
    intro inf hinf
    obtain rfl : writeInference shortWrite = inf := Option.some.inj hinf
    refine ⟨by decide, pricedAtBase_of_le fun rates high row hrates threshold hthreshold => ?_⟩
    have hrow : ((oneRow bandRow).resolve (writeInference shortWrite).pricing 1760000600000 100000
        none).toOption.map thresholdOf = some (some 200000) := by decide
    have hsame : (oneRow bandRow).resolve (writeInference shortWrite).pricing 1760000600000 100000
        none = .ok (.priced rates high row) := hrates
    rw [hsame] at hrow
    obtain rfl := Option.some.inj (hthreshold.symm.trans (Option.some.inj hrow))
    exact (by decide : (100000 : Nat) ≤ 200000)
  exact ⟨t, ht, hevent, hmissed, hmiss, rewrite_is_billed (oneRow bandRow) (oneRow_nonneg bandRow_nonneg) .new t _
    hcharged⟩

end TokenBill.CacheMiss
