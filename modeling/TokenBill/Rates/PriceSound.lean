import TokenBill.Rates.CardRates
import TokenBill.Rates.Price

/-!
# The figure of a usage is the sum of its lines

On a card of non-negative prices every line holds its amount in its range, so the figure of their sums
passes the checks of its constructor whatever ranges the lines have, and it is exact when they are.
A model without a row has no lines and no amount: its figure says why.
-/

namespace TokenBill.Rates

open General List

/-! ### Amounts -/

theorem halfEven_nonneg {q : ℚ} {k : Int} (h : HalfEven q k) (hq : 0 ≤ q) : 0 ≤ k := by
  have hnear : 2 * |q - k| ≤ 1 := h.elim le_of_lt fun h => h.1.le
  by_contra hneg
  have hk : (k : ℚ) ≤ -1 := by exact_mod_cast Int.le_sub_one_of_lt (not_le.mp hneg)
  have habs := le_abs_self (q - k)
  linarith

theorem amount_nonneg {perRequest : Bool} {quantity : Nat} {rate : Decimal} {n : Int} (hrate : 0 ≤ rate)
    (h : amount perRequest quantity rate = .ok n) : 0 ≤ n := by
  have hrat : 0 ≤ rate.toRat := by
    rw [Decimal.le_iff, Decimal.toRat_zero] at hrate
    exact hrate
  unfold amount at h
  split at h
  · obtain ⟨d, hd, hn⟩ := bind_eq_ok.mp h
    unfold toNano at hn
    cases hconv : decimalToNano (tupleOf d) with
    | error e =>
      rw [hconv] at hn
      cases hn
    | ok k =>
      rw [hconv] at hn
      obtain rfl := Except.ok.inj hn
      refine halfEven_nonneg (halfEven_of_decimalToInt hconv) ?_
      rw [toRat_tupleOf, multiply_eq_ok hd, Decimal.toRat_mul, Decimal.toRat_ofInt]
      positivity
  · obtain rfl := Except.ok.inj h
    refine halfEven_nonneg (halfEven_lineNano quantity (tupleOf rate)) ?_
    rw [toRat_tupleOf]
    positivity

/-! ### Lines -/

/-- A line that is exact, or has its amount in a range. -/
def RatedLine.Sound (ln : RatedLine) : Prop :=
  (ln.exact = true ∧ ln.lowNano = none ∧ ln.highNano = none) ∨
    (ln.exact = false ∧ ∃ low high, ln.lowNano = some low ∧ ln.highNano = some high ∧
      low ≤ ln.amountNano ∧ ln.amountNano ≤ high)

/-- Quotes at rates that are not negative. -/
structure Emission.NonNegative (e : Emission) : Prop where
  point : 0 ≤ e.point.2
  range : ∀ quotes ∈ e.range, 0 ≤ quotes.1.2 ∧ 0 ≤ quotes.2.2

theorem settle_sound (b : Billing) {point : Int} {range : Option (Int × Int)} (hpoint : 0 ≤ point)
    (hrange : ∀ r ∈ range, 0 ≤ r.1 ∧ r.1 ≤ r.2) :
    ∀ r ∈ (b.settle point range).2, r.1 ≤ (b.settle point range).1 ∧ (b.settle point range).1 ≤ r.2 := by
  unfold Billing.settle
  cases range with
  | none =>
    dsimp only
    split
    · intro r hr
      cases hr
    · split
      · rintro r ⟨⟩
        exact ⟨hpoint, le_max_left _ _⟩
      · split
        · rintro r ⟨⟩
          exact ⟨le_rfl, le_rfl⟩
        · intro r hr
          cases hr
  | some bounds =>
    obtain ⟨lo, hi⟩ := bounds
    obtain ⟨hlo, hle⟩ := hrange _ rfl
    have hclamp : lo ≤ min (max point lo) hi ∧ min (max point lo) hi ≤ hi :=
      ⟨le_min (le_max_right _ _) hle, min_le_right _ _⟩
    dsimp only
    split
    · intro r hr
      cases hr
    · split
      · rintro r ⟨⟩
        exact ⟨le_trans hlo hclamp.1, le_max_left _ _⟩
      · split
        · rename_i hnone
          cases hnone.2
        · rintro r ⟨⟩
          exact hclamp

theorem rangeAmounts_sound {perRequest : Bool} {quotes : Quote × Quote} {r : Int × Int}
    (h1 : 0 ≤ quotes.1.2) (h2 : 0 ≤ quotes.2.2) (h : rangeAmounts perRequest quotes = .ok r) :
    0 ≤ r.1 ∧ r.1 ≤ r.2 := by
  obtain ⟨low, hlow, h⟩ := bind_eq_ok.mp h
  obtain ⟨high, hhigh, h⟩ := bind_eq_ok.mp h
  obtain rfl := Except.ok.inj h
  exact ⟨le_min (amount_nonneg h1 hlow) (amount_nonneg h2 hhigh), min_le_max⟩

variable {b : Billing} {outputUpper : Option Nat} {lines : List RatedLine} {basis : Basis}

theorem emit_sound {rates : ResolvedRates} {e : Emission} {ln : RatedLine} (he : e.NonNegative)
    (h : emit b rates e = .ok ln) : ln.Sound := by
  obtain ⟨point, hpoint, h⟩ := bind_eq_ok.mp h
  obtain ⟨range, hrange, h⟩ := bind_eq_ok.mp h
  obtain rfl := Except.ok.inj h
  have hbounds : ∀ r ∈ range, 0 ≤ r.1 ∧ r.1 ≤ r.2 := fun r hr => by
    obtain ⟨quotes, hquotes, hr⟩ := option_mapM_eq_ok hrange hr
    exact rangeAmounts_sound (he.range quotes hquotes).1 (he.range quotes hquotes).2 hr
  have hsettled := settle_sound b (amount_nonneg he.point hpoint) hbounds
  cases hs : (b.settle point range).2 with
  | none => exact .inl ⟨rfl, rfl, rfl⟩
  | some r =>
    obtain ⟨hlow, hhigh⟩ := hsettled r hs
    exact .inr ⟨rfl, r.1, r.2, rfl, rfl, hlow, hhigh⟩

theorem hypothesisRange_sound {a : RatedLine} (ha : a.Sound) (b : RatedLine) : (hypothesisRange a b).Sound := by
  refine .inr ⟨rfl, _, _, rfl, rfl, le_trans (min_le_left _ _) ?_, le_trans ?_ (le_max_left _ _)⟩
  · rcases ha with ⟨-, hl, -⟩ | ⟨-, low, high, hl, -, hle, -⟩
    · rw [hl]
      exact le_rfl
    · rw [hl]
      exact hle
  · rcases ha with ⟨-, -, hh⟩ | ⟨-, low, high, -, hh, -, hle⟩
    · rw [hh]
      exact le_rfl
    · rw [hh]
      exact hle

/-! ### The lines of a usage -/

theorem RateTable.NonNegative.effective {t : RateTable} (h : t.NonNegative) (key : PriceKey) :
    0 ≤ t.effective key := by
  have hget : ∀ {x : Option Decimal}, (∀ r ∈ x, 0 ≤ r) → 0 ≤ x.getD t.input := fun {x} hx => by
    cases x with
    | none => exact h.input
    | some r => exact hx r rfl
  have hor : ∀ {x y : Option Decimal}, (∀ r ∈ x, 0 ≤ r) → (∀ r ∈ y, 0 ≤ r) → ∀ r ∈ x.or y, 0 ≤ r :=
    fun {x y} hx hy r hr => by
      cases x with
      | none => exact hy r hr
      | some _ => exact hx r hr
  cases key with
  | input => exact h.input
  | output => exact h.output
  | cacheRead => exact hget h.cacheRead
  | cacheWrite5m => exact hget (hor h.cacheWrite5m h.cacheWriteOther)
  | cacheWrite1h => exact hget (hor h.cacheWrite1h h.cacheWriteOther)
  | cacheWriteOther => exact hget (hor h.cacheWriteOther h.cacheWrite5m)

variable {usage : UsageCounts} {ctx : PricingContext} {rates : ResolvedRates} {high : Option ResolvedRates}

theorem knownEmissions_nonneg (h : rates.NonNegative) (hhigh : ∀ top ∈ high, top.NonNegative) :
    ∀ e ∈ knownEmissions usage ctx rates high, e.NonNegative := by
  intro e he
  obtain ⟨⟨bucket, key, quantity⟩, -, rfl⟩ := mem_map.mp he
  have hrate := h.rates.effective key
  refine ⟨hrate, fun quotes hq => ?_⟩
  dsimp only at hq
  split at hq
  · cases hq
    exact ⟨hrate, hrate⟩
  · obtain ⟨top, htop, rfl⟩ := Option.map_eq_some_iff.mp hq
    exact ⟨hrate, (hhigh top htop).rates.effective key⟩

theorem unknownEmission_nonneg (h : rates.NonNegative) (hhigh : ∀ top ∈ high, top.NonNegative) :
    ∀ e ∈ unknownEmission usage ctx rates high, e.NonNegative := by
  have htop : (high.getD rates).NonNegative := by
    cases high with
    | none => exact h
    | some top => exact hhigh top rfl
  intro e he
  unfold unknownEmission at he
  dsimp only at he
  split at he
  · cases he
  · obtain rfl := mem_singleton.mp he
    refine ⟨?_, ?_⟩
    · split
      · exact h.rates.effective _
      · exact h.rates.effective _
    · rintro quotes ⟨⟩
      exact ⟨h.rates.effective _, htop.rates.effective _⟩

theorem outputEmission_nonneg (h : rates.NonNegative) (hhigh : ∀ top ∈ high, top.NonNegative) {source : UsageSource} :
    ∀ e ∈ outputEmission usage rates high source outputUpper, e.NonNegative := by
  have htop : (high.getD rates).NonNegative := by
    cases high with
    | none => exact h
    | some top => exact hhigh top rfl
  intro e he
  unfold outputEmission at he
  split at he
  · obtain rfl := mem_singleton.mp he
    refine ⟨h.rates.output, ?_⟩
    rintro quotes ⟨⟩
    exact ⟨h.rates.output, htop.rates.output⟩
  · split at he
    · obtain rfl := mem_singleton.mp he
      refine ⟨h.rates.output, fun quotes hq => ?_⟩
      obtain ⟨_, -, rfl⟩ := Option.map_eq_some_iff.mp hq
      exact ⟨h.rates.output, htop.rates.output⟩
    · cases he

theorem perRequest_nonneg (h : rates.NonNegative) {name : String} {price : Decimal}
    (hl : rates.perRequest.lookup name = some price) : 0 ≤ price := by
  have hmem : (name, price) ∈ rates.perRequest := mem_of_lookup hl
  exact h.perRequest (name, price) hmem

theorem webEmission_nonneg (h : rates.NonNegative) (hhigh : ∀ top ∈ high, top.NonNegative) :
    ∀ e ∈ webEmission usage rates high, e.NonNegative := by
  intro e he
  unfold webEmission at he
  split at he
  · cases he
  · rename_i web hweb
    have hprice := perRequest_nonneg h hweb
    dsimp only at he
    split at he
    · cases he
    · obtain rfl := mem_singleton.mp he
      refine ⟨hprice, fun quotes hq => ?_⟩
      obtain ⟨top, htop, rfl⟩ := Option.map_eq_some_iff.mp hq
      refine ⟨hprice, ?_⟩
      cases hl : top.perRequest.lookup "web_search" with
      | none => exact hprice
      | some price => exact perRequest_nonneg (hhigh top htop) hl

theorem emissions_nonneg (h : rates.NonNegative) (hhigh : ∀ top ∈ high, top.NonNegative) {source : UsageSource} :
    ∀ e ∈ emissions usage ctx rates high source outputUpper, e.NonNegative := by
  intro e he
  rcases mem_append.mp he with he | he
  · rcases mem_append.mp he with he | he
    · rcases mem_append.mp he with he | he
      · exact knownEmissions_nonneg h hhigh e he
      · exact unknownEmission_nonneg h hhigh e he
    · exact outputEmission_nonneg h hhigh e he
  · exact webEmission_nonneg h hhigh e he

theorem linesOf_sound (h : rates.NonNegative) (hhigh : ∀ top ∈ high, top.NonNegative)
    (hlines : RateCard.linesOf usage ctx rates high b outputUpper = .ok lines) : ∀ ln ∈ lines, ln.Sound := by
  intro ln hln
  obtain ⟨e, he, hemit⟩ := exists_of_mem_right (mapM_eq_ok.mp hlines) hln
  exact emit_sound (emissions_nonneg h hhigh e he) hemit

theorem forall_mem_zipWith {α β γ : Type} {f : α → β → γ} {P : γ → Prop} {as : List α}
    (h : ∀ a ∈ as, ∀ b, P (f a b)) {bs : List β} : ∀ c ∈ List.zipWith f as bs, P c := by
  induction as generalizing bs with
  | nil => exact fun _ hc => absurd hc not_mem_nil
  | cons a as ih =>
    cases bs with
    | nil => exact fun _ hc => absurd hc not_mem_nil
    | cons b bs =>
      exact forall_mem_cons.mpr ⟨h a mem_cons_self b, ih fun a ha => h a (mem_cons_of_mem _ ha)⟩

theorem widened_sound {card : RateCard} {tsMs : Int} {band : Bool}
    {wide : List RatedLine} (hlines : ∀ ln ∈ lines, ln.Sound)
    (h : card.widened usage ctx tsMs b outputUpper band lines = .ok wide) : ∀ ln ∈ wide, ln.Sound := by
  obtain ⟨resolved, -, h⟩ := bind_eq_ok.mp h
  cases resolved with
  | unpriced _ => cases h
  | priced rates high row =>
    obtain ⟨others, -, h⟩ := bind_eq_ok.mp h
    split at h
    · obtain rfl := Except.ok.inj h
      exact forall_mem_zipWith fun a ha o => hypothesisRange_sound (hlines a ha) o
    · cases h

/-! ### Figures -/

theorem basisOf_ne (ctx : PricingContext) (rates : Option ResolvedRates) :
    RateCard.basisOf ctx rates ≠ .invoice := by
  unfold RateCard.basisOf
  split
  · exact Basis.noConfusion
  · split
    · exact Basis.noConfusion
    · exact Basis.noConfusion

theorem figureOf_exact (nano : Int) (basis : Basis) (provenance : List String) (note : String) :
    ∃ f, figureOf { nano := some nano, evidence := .exact, basis, provenance, note } = .ok f ∧
      f.toFigureFields = { nano := some nano, evidence := .exact, basis, provenance, note } := by
  have hcheck : FigureFields.check { nano := some nano, evidence := .exact, basis, provenance, note } = none := by
    rw [FigureFields.check_eq_none]
    exact ⟨rfl, (fun h => by cases h), rfl, rfl, fun _ => rfl⟩
  exact ⟨⟨_, hcheck⟩, by rw [figureOf, FigureFields.build_of_check hcheck]; rfl, rfl⟩

theorem figureOf_range {nano low high : Int} (provenance : List String) {note : String}
    (hlow : low ≤ nano) (hhigh : nano ≤ high) (hbasis : basis ≠ .invoice) (hnote : note ≠ "") :
    ∃ f, figureOf { nano := some nano, evidence := .estimated, basis, lowNano := some low, highNano := some high
                    provenance, note } = .ok f ∧
      f.toFigureFields = { nano := some nano, evidence := .estimated, basis, lowNano := some low
                           highNano := some high, provenance, note } := by
  have hcheck : FigureFields.check { nano := some nano, evidence := .estimated, basis, lowNano := some low
                                     highNano := some high, provenance, note } = none := by
    rw [FigureFields.check_eq_none]
    refine ⟨rfl, (fun h => by cases h), ?_, ?_, fun h => absurd h hbasis⟩
    · have hle : ¬ high < low := not_lt.mpr (hlow.trans hhigh)
      simp [FigureFields.checkRange, hle, hlow, hhigh]
    · simp [FigureFields.checkEvidence, hnote]
  exact ⟨⟨_, hcheck⟩, by rw [figureOf, FigureFields.build_of_check hcheck]; rfl, rfl⟩

theorem unpricedFigure_ok (reason : String) (basis : Basis) :
    ∃ f, unpricedFigure reason basis = .ok f ∧ f.nano = none ∧ f.evidence = .exact ∧ f.lowNano = none ∧
      f.highNano = none ∧ startsWith f.note "unpriced:" := by
  unfold unpricedFigure
  have hnote : startsWith (if startsWith reason "unpriced:" then reason else "unpriced: " ++ reason) "unpriced:" := by
    split
    · assumption
    · unfold startsWith
      rw [String.toList_append]
      rfl
  generalize (if startsWith reason "unpriced:" then reason else "unpriced: " ++ reason) = note at hnote
  have hcheck : FigureFields.check { nano := none, evidence := .exact, basis, note } = none := by
    rw [FigureFields.check_eq_none]
    exact ⟨rfl, fun _ => hnote, rfl, rfl, fun _ => rfl⟩
  exact ⟨⟨_, hcheck⟩, by rw [figureOf, FigureFields.build_of_check hcheck]; rfl, rfl, rfl, rfl, rfl, hnote⟩

/-- The point, the low and the high of the lines that are ranges. -/
def rangedSums (lines : List RatedLine) : Int × Int × Int :=
  (((ranged lines).map (·.amountNano)).sum, ((ranged lines).map fun ln => ln.lowNano.getD 0).sum,
    ((ranged lines).map fun ln => ln.highNano.getD 0).sum)

/-- What is assembled of lines. -/
structure Assembled (lines : List RatedLine) (basis : Basis) (p : PricedUsage) : Prop where
  lines_eq : p.lines = lines
  reason : p.unpricedReason = none
  exactNano : p.exactNano = exactSum lines
  basis_eq : p.figure.basis = basis
  nano : p.figure.nano = some (exactSum lines + (rangedSums lines).1)
  /-- Exact lines have an exact figure. -/
  allExact : ranged lines = [] → p.figure.evidence = .exact ∧ p.figure.lowNano = none ∧ p.figure.highNano = none ∧
    p.estimated = none
  /-- Ranges add up beside the exact lines. -/
  someRanged : ranged lines ≠ [] → p.figure.evidence = .estimated ∧
    p.figure.lowNano = some (exactSum lines + (rangedSums lines).2.1) ∧
    p.figure.highNano = some (exactSum lines + (rangedSums lines).2.2) ∧
    ∃ f, p.estimated = some f ∧ f.nano = some (rangedSums lines).1 ∧ f.lowNano = some (rangedSums lines).2.1 ∧
      f.highNano = some (rangedSums lines).2.2

theorem rangedSums_ordered (h : ∀ ln ∈ lines, ln.Sound) :
    (rangedSums lines).2.1 ≤ (rangedSums lines).1 ∧ (rangedSums lines).1 ≤ (rangedSums lines).2.2 := by
  have hranged : ∀ ln ∈ ranged lines, ln.lowNano.getD 0 ≤ ln.amountNano ∧ ln.amountNano ≤ ln.highNano.getD 0 := by
    intro ln hln
    obtain ⟨hmem, hexact⟩ := mem_filter.mp hln
    rcases h ln hmem with ⟨htrue, -⟩ | ⟨-, low, high, hl, hh, hle⟩
    · rw [htrue] at hexact
      cases hexact
    · rw [hl, hh]
      exact hle
  exact ⟨sum_le_sum fun ln hln => (hranged ln hln).1, sum_le_sum fun ln hln => (hranged ln hln).2⟩

theorem assemble_sound (h : ∀ ln ∈ lines, ln.Sound)
    (hbasis : basis ≠ .invoice) (provenance : List String) (note : String) :
    ∃ p, assemble lines basis provenance note = .ok p ∧ Assembled lines basis p := by
  obtain ⟨hlow, hhigh⟩ := rangedSums_ordered h
  unfold assemble
  by_cases hnone : ranged lines = []
  · obtain ⟨f, hf, hfields⟩ := figureOf_exact (exactSum lines) basis provenance note
    have hsums : (rangedSums lines).1 = 0 := by
      unfold rangedSums
      rw [hnone]
      rfl
    rw [if_pos hnone]
    refine ⟨_, bind_eq_ok.mpr ⟨f, hf, rfl⟩, ?_⟩
    constructor
    case lines_eq => rfl
    case reason => rfl
    case exactNano => rfl
    case basis_eq => exact congrArg FigureFields.basis hfields
    case nano =>
      rw [hsums, add_zero]
      exact congrArg FigureFields.nano hfields
    case allExact =>
      exact fun _ => ⟨congrArg FigureFields.evidence hfields, congrArg FigureFields.lowNano hfields,
        congrArg FigureFields.highNano hfields, rfl⟩
    case someRanged => exact fun hsome => absurd hnone hsome
  · have hnote : (if note = "" then "range lines" else note) ≠ "" := by
      split
      · decide
      · assumption
    obtain ⟨est, hest, hestFields⟩ := figureOf_range provenance hlow hhigh hbasis hnote
    obtain ⟨f, hf, hfields⟩ := figureOf_range provenance (add_le_add_right hlow (exactSum lines))
      (add_le_add_right hhigh (exactSum lines)) hbasis hnote
    rw [if_neg hnone]
    refine ⟨_, bind_eq_ok.mpr ⟨est, hest, bind_eq_ok.mpr ⟨f, hf, rfl⟩⟩, ?_⟩
    constructor
    case lines_eq => rfl
    case reason => rfl
    case exactNano => rfl
    case basis_eq => exact congrArg FigureFields.basis hfields
    case nano => exact congrArg FigureFields.nano hfields
    case allExact => exact fun h => absurd h hnone
    case someRanged =>
      exact fun _ => ⟨congrArg FigureFields.evidence hfields, congrArg FigureFields.lowNano hfields,
        congrArg FigureFields.highNano hfields, est, rfl, congrArg FigureFields.nano hestFields,
        congrArg FigureFields.lowNano hestFields, congrArg FigureFields.highNano hestFields⟩

/-! ### What pricing raises -/

/-- A refusal: of a time outside the calendar, or of a product the decimal context signals. -/
def PriceError.Refusal : PriceError → Prop
  | .usage msg => msg = "ts_ms out of range"
  | .broken _ => False
  | .signal => True
  | .value => True

def Refuses {α : Type} (x : Except PriceError α) : Prop := ∀ e, x = .error e → e.Refusal

namespace Refuses

variable {α β : Type}

theorem ok (a : α) : Refuses (.ok a) := fun _ h => by cases h

variable {f : α → Except PriceError β} {x : Except PriceError α}

theorem bind_of (hx : Refuses x) (hf : ∀ a, x = .ok a → Refuses (f a)) : Refuses (x >>= f) := by
  cases x with
  | error e =>
    rintro e' ⟨⟩
    exact hx e rfl
  | ok a => exact hf a rfl

theorem bind (hx : Refuses x) (hf : ∀ a, Refuses (f a)) : Refuses (x >>= f) := hx.bind_of fun a _ => hf a

theorem map (hx : Refuses x) (f : α → β) : Refuses (f <$> x) := by
  cases x with
  | error e =>
    rintro e' ⟨⟩
    exact hx e rfl
  | ok a => exact ok (f a)

theorem option_mapM (hf : ∀ a, Refuses (f a)) (x : Option α) : Refuses (x.mapM f) := by
  cases x with
  | none => exact ok none
  | some a => exact (hf a).map some

theorem list_mapM (hf : ∀ a, Refuses (f a)) (xs : List α) : Refuses (xs.mapM f) := by
  induction xs with
  | nil => exact ok []
  | cons x xs ih =>
    rw [mapM_cons]
    exact (hf x).bind fun y => ih.bind fun ys => ok (y :: ys)

theorem foldlM {f : β → α → Except PriceError β} (hf : ∀ b a, Refuses (f b a)) (xs : List α) (b : β) :
    Refuses (xs.foldlM f b) := by
  induction xs generalizing b with
  | nil => exact ok b
  | cons x xs ih =>
    rw [foldlM_cons]
    exact (hf b x).bind ih

end Refuses

theorem refuses_multiply (a b : Decimal) : Refuses (multiply a b) := by
  unfold multiply
  split
  · exact .ok _
  · rintro e ⟨⟩
    exact trivial

theorem refuses_mapRates {f : PriceKey → Decimal → Except PriceError Decimal} (hf : ∀ k v, Refuses (f k v))
    (t : RateTable) : Refuses (t.mapRates f) := by
  exact (hf _ _).bind fun _ => (hf _ _).bind fun _ => (Refuses.option_mapM (hf _) _).bind fun _ =>
    (Refuses.option_mapM (hf _) _).bind fun _ => (Refuses.option_mapM (hf _) _).bind fun _ =>
      (Refuses.option_mapM (hf _) _).bind fun _ => .ok _

theorem refuses_scale (targets : PriceKey → Bool) (factor : Decimal) (t : RateTable) :
    Refuses (t.scale targets factor) := by
  refine refuses_mapRates (fun k v => ?_) t
  split
  · exact refuses_multiply v factor
  · exact .ok v

theorem refuses_apply (t : RateTable) (m : Modifier) : Refuses (Modifier.apply t m) := by
  unfold Modifier.apply
  split
  · exact refuses_scale _ _ t
  · exact .ok t

theorem refuses_contractRates (c : ContractOverlay) (overrides : List (OverrideKey × Decimal)) (t : RateTable)
    (table : List (String × Decimal)) : Refuses (contractRates c overrides t table) := by
  unfold contractRates
  split
  · exact .ok _
  · refine (refuses_scale _ _ _).bind fun _ => (Refuses.list_mapM (fun e => ?_) _).bind fun _ => .ok _
    split
    · exact .ok e
    · exact (refuses_multiply _ _).map _

namespace RateCard

variable (card : RateCard)

theorem refuses_build (row : RateRow) (kind : LayerKind) (ctx : PricingContext) (date : Int) (scope : String)
    (band : Bool) : Refuses (card.build row kind ctx date scope band) := by
  have hcache : ∀ base, Refuses (cacheRates row base) := fun base => by
    exact (Refuses.option_mapM (refuses_multiply _) _).bind fun _ =>
      (Refuses.option_mapM (refuses_multiply _) _).bind fun _ =>
        (Refuses.option_mapM (refuses_multiply _) _).bind fun _ =>
          (Refuses.option_mapM (refuses_multiply _) _).bind fun _ => .ok _
  refine (hcache _).bind fun t => (Refuses.foldlM refuses_apply _ _).bind fun u => ?_
  split
  · exact .ok _
  · exact (refuses_contractRates _ _ _ _).bind fun _ => .ok _

theorem refuses_resolve (ctx : PricingContext) (tsMs : Int) (totalInput : Nat) (band : Option Bool) :
    Refuses (card.resolve ctx tsMs totalInput band) := by
  have hdate : Refuses (dateOf tsMs) := by
    unfold dateOf
    dsimp only
    split
    · exact .ok _
    · rintro e ⟨⟩
      rfl
  have hrates : ∀ row kind date band, Refuses (card.rates row kind ctx date band) := fun row kind date band => by
    unfold rates
    split
    · exact Refuses.bind (card.refuses_build _ _ _ _ _ _) fun _ => Refuses.bind (card.refuses_build _ _ _ _ _ _) fun _ => .ok _
    · exact Refuses.map (card.refuses_build _ _ _ _ _ _) _
  refine hdate.bind fun date => ?_
  split
  · exact .ok _
  · exact (hrates _ _ _ _).bind fun _ => .ok _

end RateCard

theorem refuses_amount (perRequest : Bool) (quantity : Nat) (rate : Decimal) :
    Refuses (amount perRequest quantity rate) := by
  unfold amount
  split
  · refine (refuses_multiply _ _).bind fun d => ?_
    unfold toNano
    cases decimalToNano (tupleOf d) with
    | error _ =>
      rintro e ⟨⟩
      exact trivial
    | ok n => exact .ok n
  · exact .ok _

theorem refuses_emit (b : Billing) (rates : ResolvedRates) (e : Emission) : Refuses (emit b rates e) := by
  refine (refuses_amount _ _ _).bind fun _ => (Refuses.option_mapM (fun quotes => ?_) _).bind fun _ => .ok _
  exact (refuses_amount _ _ _).bind fun _ => (refuses_amount _ _ _).bind fun _ => .ok _

theorem refuses_linesOf (usage : UsageCounts) (ctx : PricingContext) (rates : ResolvedRates)
    (high : Option ResolvedRates) (b : Billing) (outputUpper : Option Nat) :
    Refuses (RateCard.linesOf usage ctx rates high b outputUpper) := Refuses.list_mapM (refuses_emit b rates) _

theorem refuses_widened (card : RateCard) (usage : UsageCounts) (ctx : PricingContext) (tsMs : Int) (b : Billing)
    (outputUpper : Option Nat) (band : Bool) (lines : List RatedLine) :
    Refuses (card.widened usage ctx tsMs b outputUpper band lines) := by
  have hvalue : ∀ {α : Type}, Refuses (.error .value : Except PriceError α) := fun e h => by
    cases h
    exact trivial
  refine (card.refuses_resolve _ _ _ _).bind fun resolved => ?_
  cases resolved with
  | unpriced _ => exact hvalue
  | priced rates high row =>
    refine Refuses.bind (refuses_linesOf _ _ _ _ _ _) fun others => ?_
    split
    · exact .ok _
    · exact hvalue

/-! ### Main results -/

/-- What a price is: the sum of its lines, each in its range, or no lines and the reason. -/
structure Closed (p : PricedUsage) : Prop where
  lines : ∀ ln ∈ p.lines, ln.Sound
  evidence : p.figure.evidence = .exact ↔ ∀ ln ∈ p.lines, ln.exact = true
  priced : p.unpricedReason = none → p.figure.nano = some (exactSum p.lines + (rangedSums p.lines).1) ∧
    (ranged p.lines = [] → p.figure.lowNano = none ∧ p.figure.highNano = none) ∧
    (ranged p.lines ≠ [] → p.figure.lowNano = some (exactSum p.lines + (rangedSums p.lines).2.1) ∧
      p.figure.highNano = some (exactSum p.lines + (rangedSums p.lines).2.2))
  unpriced : p.unpricedReason ≠ none → p.lines = [] ∧ p.figure.nano = none

theorem ranged_eq_nil : ranged lines = [] ↔ ∀ ln ∈ lines, ln.exact = true := by
  unfold ranged
  rw [filter_eq_nil_iff]
  exact forall₂_congr fun ln _ => by cases ln.exact <;> decide

theorem Assembled.closed {p : PricedUsage} (h : Assembled lines basis p) (hlines : ∀ ln ∈ lines, ln.Sound) : Closed p := by
  obtain rfl := h.lines_eq
  constructor
  case lines => exact hlines
  case evidence =>
    rw [← ranged_eq_nil]
    refine ⟨fun hexact => ?_, fun hnone => (h.allExact hnone).1⟩
    by_contra hsome
    rw [(h.someRanged hsome).1] at hexact
    cases hexact
  case priced =>
    refine fun _ => ⟨h.nano, fun hnone => ?_, fun hsome => ?_⟩
    · obtain ⟨-, hlow, hhigh, -⟩ := h.allExact hnone
      exact ⟨hlow, hhigh⟩
    · obtain ⟨-, hlow, hhigh, -⟩ := h.someRanged hsome
      exact ⟨hlow, hhigh⟩
  case unpriced => exact fun hreason => absurd h.reason hreason

theorem pricePriced_assembled (card : RateCard) (usage : UsageCounts) (ctx : PricingContext) (tsMs : Int)
    (b : Billing) (outputUpper : Option Nat) (row : RateRow) {rates : ResolvedRates}
    {high : Option ResolvedRates} (hrates : rates.NonNegative) (hhigh : ∀ top ∈ high, top.NonNegative) :
    Refuses (card.pricePriced usage ctx tsMs b outputUpper rates high row) ∧
      ∀ p, card.pricePriced usage ctx tsMs b outputUpper rates high row = .ok p →
        ∃ lines, (∀ ln ∈ lines, ln.Sound) ∧ Assembled lines (RateCard.basisOf ctx (some rates)) p := by
  have hassemble : ∀ {lines : List RatedLine} (provenance : List String) (note : String),
      (∀ ln ∈ lines, ln.Sound) → ∃ p, assemble lines (RateCard.basisOf ctx (some rates)) provenance note = .ok p ∧
        Assembled lines (RateCard.basisOf ctx (some rates)) p :=
    fun provenance note hsound => assemble_sound hsound (basisOf_ne ctx _) provenance note
  have hwide : ∀ {band : Option Bool} {lines wide : List RatedLine}, (∀ ln ∈ lines, ln.Sound) →
      (band.elim (.ok lines) fun band => card.widened usage ctx tsMs b outputUpper band lines) = .ok wide →
      ∀ ln ∈ wide, ln.Sound := fun {band} {lines} {wide} hsound h => by
    cases band with
    | none => exact Except.ok.inj h ▸ hsound
    | some band => exact widened_sound hsound h
  constructor
  · refine (refuses_linesOf _ _ _ _ _ _).bind_of fun lines hlines => ?_
    have hsound := linesOf_sound hrates hhigh hlines
    refine Refuses.bind_of ?_ fun wide hw => ?_
    · cases (RateCard.bandB row ctx usage.totalInput).filter fun _ => !lines.isEmpty with
      | none => exact .ok lines
      | some band => exact refuses_widened _ _ _ _ _ _ _ _
    · obtain ⟨p, hp, -⟩ := hassemble _ _ (hwide hsound hw)
      rw [hp]
      exact .ok p
  · intro p hp
    obtain ⟨lines, hlines, hp⟩ := bind_eq_ok.mp hp
    have hsound := linesOf_sound hrates hhigh hlines
    obtain ⟨wide, hw, hp⟩ := bind_eq_ok.mp hp
    have hsound := hwide hsound hw
    obtain ⟨q, hq, hassembled⟩ := hassemble _ _ hsound
    rw [hq] at hp
    obtain rfl := Except.ok.inj hp
    exact ⟨wide, hsound, hassembled⟩

/-- On a card of non-negative prices no price breaks a constructor's rules, and every price is the sum of
its lines. -/
theorem price_usage_closed (card : RateCard) (hcard : card.NonNegative) (usage : UsageCounts) (ctx : PricingContext)
    (tsMs : Int) (billable : Option Bool) (source : UsageSource) (outputUpper : Option Nat) :
    (∀ e, card.priceUsage usage ctx tsMs billable source outputUpper ≠ .error (.broken e)) ∧
      ∀ p, card.priceUsage usage ctx tsMs billable source outputUpper = .ok p → Closed p := by
  have hfree : ∀ (figure : Figure) (reason : Option String), figure.evidence = .exact → figure.lowNano = none →
      figure.highNano = none → (reason = none → figure.nano = some 0) → (reason ≠ none → figure.nano = none) →
      Closed ⟨[], figure, 0, none, reason⟩ := fun figure reason hexact hlow hhigh hzero hnone =>
    { lines := fun _ hln => absurd hln not_mem_nil
      evidence := ⟨fun _ _ hln => absurd hln not_mem_nil, fun _ => hexact⟩
      priced := fun hreason => ⟨hzero hreason, fun _ => ⟨hlow, hhigh⟩, fun h => absurd rfl h⟩
      unpriced := fun hreason => ⟨rfl, hnone hreason⟩ }
  unfold RateCard.priceUsage
  have hresolve := card.refuses_resolve ctx tsMs usage.totalInput none
  cases hr : card.resolve ctx tsMs usage.totalInput none with
  | error e =>
    refine ⟨fun e' h => ?_, (fun p h => by cases h)⟩
    obtain rfl : e = .broken e' := Except.error.inj h
    exact hresolve _ hr
  | ok resolved =>
    cases resolved with
    | unpriced reason =>
      show (∀ e, (if billable = some false ∧ ctx.channel = RateCard.copilotChannel then _ else _) ≠ _) ∧ ∀ p,
        (if billable = some false ∧ ctx.channel = RateCard.copilotChannel then _ else _) = _ → _
      split
      · refine ⟨(fun e h => by cases h), fun p hp => ?_⟩
        obtain rfl := Except.ok.inj hp
        exact hfree _ _ rfl rfl rfl (fun _ => rfl) fun h => absurd rfl h
      · obtain ⟨f, hf, hnano, hexact, hlow, hhigh, -⟩ := unpricedFigure_ok reason (RateCard.basisOf ctx none)
        rw [hf]
        refine ⟨(fun e h => by cases h), fun p hp => ?_⟩
        obtain rfl := Except.ok.inj hp
        exact hfree _ _ hexact hlow hhigh (fun h => by cases h) fun _ => hnano
    | priced rates high row =>
      obtain ⟨hrates, hhigh⟩ := RateCard.resolve_nonneg hcard hr
      obtain ⟨hrefuses, hok⟩ := pricePriced_assembled card usage ctx tsMs
        (billingOf ctx.provider billable source) outputUpper row hrates hhigh
      refine ⟨fun e h => hrefuses _ h, fun p hp => ?_⟩
      obtain ⟨lines, hsound, hassembled⟩ := hok p hp
      exact hassembled.closed hsound

def oneRow (row : RateRow) : RateCard where
  ranked := [(.builtin, [((row.channel, row.model), [row])])]

/-- A row of $4 and $20, with writes at 1.25 and 2 times the input. -/
def opusRow : RateRow where
  rowId := "opus"
  channel := "anthropic_api"
  model := "claude-opus"
  effectiveFrom := 0
  inputUsdPerMtok := .ofInt 4
  outputUsdPerMtok := .ofInt 20
  cacheWrite5mMult := some (.ofScaled 125 2)
  cacheWrite1hMult := some (.ofInt 2)

def opusContext : PricingContext where
  provider := "anthropic"
  channel := "anthropic_api"
  model := "claude-opus"
  modelRaw := "claude-opus"

theorem oneRow_nonneg {row : RateRow} (h : row.NonNegative) : (oneRow row).NonNegative where
  rows layer hlayer e he r hr := by
    obtain rfl := mem_singleton.mp hlayer
    obtain rfl := mem_singleton.mp he
    obtain rfl := mem_singleton.mp hr
    exact h
  modifiers _ hm := absurd hm not_mem_nil
  contract _ hc := by cases hc
  overrides _ ho := absurd ho not_mem_nil

theorem opusRow_nonneg : opusRow.NonNegative where
  input := by decide +kernel
  output := by decide +kernel
  cacheRead _ hm := by cases hm
  cacheWrite5m m hm := by
    obtain rfl := Option.some.inj hm
    decide +kernel
  cacheWrite1h m hm := by
    obtain rfl := Option.some.inj hm
    decide +kernel
  cacheWriteOther _ hm := by cases hm
  perRequest _ he := absurd he not_mem_nil
  longContext _ he := absurd he not_mem_nil

/-- Writes of unknown lifetime are priced from five minutes to an hour. -/
theorem price_usage_closed_opus :
    (((oneRow opusRow).priceUsage { cacheWriteUnknown := 1000 } opusContext 0 (some true) .final none).toOption.map
        fun p => (p.figure.nano, p.figure.lowNano, p.figure.highNano)) =
      some (some 5000000, some 5000000, some 8000000) ∧
    ∀ p, (oneRow opusRow).priceUsage { cacheWriteUnknown := 1000 } opusContext 0 (some true) .final none = .ok p →
      Closed p :=
  ⟨by decide, (price_usage_closed (oneRow opusRow) (oneRow_nonneg opusRow_nonneg)
    { cacheWriteUnknown := 1000 } opusContext 0 (some true) .final none).2⟩

/-- Without a row there is no amount, though there is no line that is not in it. -/
theorem unpriced_is_no_sum :
    ((oneRow opusRow).priceUsage { output := 5 } { opusContext with model := "claude-other" } 0 (some true) .final
        none).toOption.map (fun p => (p.lines.length, p.figure.nano)) = some (0, none) := by
  decide

end TokenBill.Rates
