import TokenBill.Rates.PriceSound

/-!
# Usage that is not billed

A usage that is not billed is priced as any other, and its lines are settled at nothing: whatever their
ranges, they are exact and 0, so the figure is. A model without a row is not priced, billed or not,
unless it is a model of Copilot; and the two hypotheses on a band make ranges of lines that are not
billed either, so only usage on which they agree is covered.
-/

namespace TokenBill.Rates

open General

def RatedLine.Free (ln : RatedLine) : Prop := ln.exact = true ∧ ln.amountNano = 0

/-- A price of nothing. -/
structure FreePrice (p : PricedUsage) : Prop where
  lines : ∀ ln ∈ p.lines, ln.Free
  nano : p.figure.nano = some 0
  evidence : p.figure.evidence = .exact
  low : p.figure.lowNano = none
  high : p.figure.highNano = none

variable {b : Billing} {rates : ResolvedRates} {high : Option ResolvedRates} {lines : List RatedLine}

theorem settle_free (h : b.billable = some false) (point : Int) (range : Option (Int × Int)) :
    b.settle point range = (0, none) := by
  exact if_pos (.inl h)

/-- Whatever is emitted of usage that is not billed is exact and 0. -/
theorem emit_free (hb : b.billable = some false) {e : Emission} {ln : RatedLine}
    (h : emit b rates e = .ok ln) : ln.Free ∧ ln.Sound := by
  obtain ⟨point, -, h⟩ := bind_eq_ok.mp h
  obtain ⟨range, -, h⟩ := bind_eq_ok.mp h
  obtain rfl := Except.ok.inj h
  rw [settle_free hb]
  exact ⟨⟨rfl, rfl⟩, .inl ⟨rfl, rfl, rfl⟩⟩

theorem linesOf_free (hb : b.billable = some false) {usage : UsageCounts} {ctx : PricingContext}
    {outputUpper : Option Nat} (h : RateCard.linesOf usage ctx rates high b outputUpper = .ok lines) :
    ∀ ln ∈ lines, ln.Free ∧ ln.Sound := by
  intro ln hln
  obtain ⟨e, -, hemit⟩ := exists_of_mem_right (mapM_eq_ok.mp h) hln
  exact emit_free hb hemit

theorem exactSum_free (h : ∀ ln ∈ lines, ln.Free) : exactSum lines = 0 := by
  refine List.sum_eq_zero fun n hn => ?_
  obtain ⟨ln, hln, rfl⟩ := List.mem_map.mp hn
  exact (h ln (List.mem_filter.mp hln).1).2

theorem Assembled.free {basis : Basis} {p : PricedUsage} (h : Assembled lines basis p)
    (hlines : ∀ ln ∈ lines, ln.Free) : FreePrice p := by
  have hnone : ranged lines = [] := ranged_eq_nil.mpr fun ln hln => (hlines ln hln).1
  obtain ⟨hexact, hlow, hhigh, -⟩ := h.allExact hnone
  refine ⟨h.lines_eq ▸ hlines, ?_, hexact, hlow, hhigh⟩
  rw [h.nano, exactSum_free hlines]
  unfold rangedSums
  rw [hnone]
  rfl

/-! ### Returning -/

theorem emit_exists (b b' : Billing) {e : Emission} {ln : RatedLine}
    (h : emit b rates e = .ok ln) : ∃ ln', emit b' rates e = .ok ln' := by
  obtain ⟨point, hpoint, h⟩ := bind_eq_ok.mp h
  obtain ⟨range, hrange, -⟩ := bind_eq_ok.mp h
  exact ⟨_, bind_eq_ok.mpr ⟨point, hpoint, bind_eq_ok.mpr ⟨range, hrange, rfl⟩⟩⟩

theorem linesOf_exists {b' : Billing} (hsource : b.source = b'.source) {usage : UsageCounts} {ctx : PricingContext}
    {outputUpper : Option Nat} (h : RateCard.linesOf usage ctx rates high b outputUpper = .ok lines) :
    ∃ lines', RateCard.linesOf usage ctx rates high b' outputUpper = .ok lines' ∧ lines'.length = lines.length := by
  unfold RateCard.linesOf at h ⊢
  rw [hsource] at h
  have hall := mapM_eq_ok.mp h
  obtain ⟨lines', hlines'⟩ := mapM_exists_ok fun e he => by
    obtain ⟨ln, -, hemit⟩ := exists_of_mem_left hall he
    exact emit_exists b b' hemit
  exact ⟨lines', hlines', (mapM_eq_ok.mp hlines').length_eq.symm.trans hall.length_eq⟩

/-! ### Main results -/

/-- The hypotheses on the band of a request do not disagree. -/
def RateCard.HypothesesAgree (card : RateCard) (usage : UsageCounts) (ctx : PricingContext) (tsMs : Int) : Prop :=
  ∀ rates high row, card.resolve ctx tsMs usage.totalInput none = .ok (.priced rates high row) →
    bandB row ctx usage.totalInput = none

/-- A context is priced: it has a row, or is Copilot's. -/
def RateCard.Prices (card : RateCard) (usage : UsageCounts) (ctx : PricingContext) (tsMs : Int) : Prop :=
  ctx.channel = copilotChannel ∨ ∀ reason, card.resolve ctx tsMs usage.totalInput none ≠ .ok (.unpriced reason)

variable {card : RateCard} {usage : UsageCounts} {ctx : PricingContext} {tsMs : Int} {outputUpper : Option Nat}

/-- The price of a context that has a row is put together of its lines, where the hypotheses agree. -/
theorem pricePriced_of_agree {row : RateRow} (hagree : RateCard.bandB row ctx usage.totalInput = none) :
    card.pricePriced usage ctx tsMs b outputUpper rates high row =
      (RateCard.linesOf usage ctx rates high b outputUpper >>= fun lines =>
        assemble lines (RateCard.basisOf ctx (some rates)) (rates.rowId :: rates.modifierIds)
          (RateCard.figureNote (notes usage ctx rates high b outputUpper) none usage lines)) := by
  unfold RateCard.pricePriced
  rw [hagree]
  rfl

theorem pricePriced_free (card : RateCard) (tsMs : Int) (outputUpper : Option Nat) (b : Billing)
    (hb : b.billable = some false) (rates : ResolvedRates) (high : Option ResolvedRates) {row : RateRow} (hagree : RateCard.bandB row ctx usage.totalInput = none) :
    Refuses (card.pricePriced usage ctx tsMs b outputUpper rates high row) ∧
      (∀ p, card.pricePriced usage ctx tsMs b outputUpper rates high row = .ok p → FreePrice p) ∧
      ∀ lines, RateCard.linesOf usage ctx rates high b outputUpper = .ok lines →
        ∃ p, card.pricePriced usage ctx tsMs b outputUpper rates high row = .ok p := by
  have hassemble : ∀ {lines : List RatedLine} (provenance : List String) (note : String),
      RateCard.linesOf usage ctx rates high b outputUpper = .ok lines →
      ∃ p, assemble lines (RateCard.basisOf ctx (some rates)) provenance note = .ok p ∧ FreePrice p :=
    fun provenance note hlines => by
      have hfree := linesOf_free hb hlines
      obtain ⟨p, hp, hassembled⟩ := assemble_sound (fun ln hln => (hfree ln hln).2) (basisOf_ne ctx (some rates))
        provenance note
      exact ⟨p, hp, hassembled.free fun ln hln => (hfree ln hln).1⟩
  rw [pricePriced_of_agree hagree]
  refine ⟨(refuses_linesOf _ _ _ _ _ _).bind_of fun lines hlines => ?_, fun p hp => ?_, fun lines hlines => ?_⟩
  · obtain ⟨p, hp, -⟩ := hassemble _ _ hlines
    rw [hp]
    exact .ok p
  · obtain ⟨lines, hlines, hp⟩ := bind_eq_ok.mp hp
    obtain ⟨q, hq, hfree⟩ := hassemble _ _ hlines
    rw [hq] at hp
    exact Except.ok.inj hp ▸ hfree
  · obtain ⟨p, hp, -⟩ := hassemble _ _ hlines
    exact ⟨p, bind_eq_ok.mpr ⟨lines, hlines, hp⟩⟩

/-- Usage that is not billed costs exactly nothing where it is priced at all, and it is priced where it would be
if it were billed. -/
theorem not_billed_costs_nothing (card : RateCard) (usage : UsageCounts) (ctx : PricingContext) (tsMs : Int)
    (source : UsageSource) (outputUpper : Option Nat) (hprices : card.Prices usage ctx tsMs)
    (hagree : card.HypothesesAgree usage ctx tsMs) :
    Refuses (card.priceUsage usage ctx tsMs (some false) source outputUpper) ∧
      (∀ p, card.priceUsage usage ctx tsMs (some false) source outputUpper = .ok p → FreePrice p) ∧
      ∀ billable p, card.priceUsage usage ctx tsMs billable source outputUpper = .ok p →
        ∃ q, card.priceUsage usage ctx tsMs (some false) source outputUpper = .ok q := by
  unfold RateCard.priceUsage
  have hresolve := card.refuses_resolve ctx tsMs usage.totalInput none
  cases hr : card.resolve ctx tsMs usage.totalInput none with
  | error e =>
    refine ⟨?_, (fun p h => by cases h), (fun billable p h => by cases h)⟩
    rintro e' ⟨⟩
    exact hresolve e hr
  | ok resolved =>
    cases resolved with
    | unpriced reason =>
      have hcopilot : ctx.channel = RateCard.copilotChannel := hprices.resolve_right fun h => h reason hr
      have hfree : ∀ p : PricedUsage, (if some false = some false ∧ ctx.channel = RateCard.copilotChannel then
          (pure ⟨[], exactFigure 0 (RateCard.basisOf ctx none), 0, none, none⟩ : Except PriceError PricedUsage)
          else unpricedFigure reason (RateCard.basisOf ctx none) >>= fun figure =>
            pure ⟨[], figure, 0, none, some reason⟩) = .ok p ↔
          p = ⟨[], exactFigure 0 (RateCard.basisOf ctx none), 0, none, none⟩ := fun p => by
        rw [if_pos ⟨rfl, hcopilot⟩]
        exact pure_eq_ok.trans eq_comm
      refine ⟨fun e h => ?_, fun p hp => ?_, fun _ _ _ => ⟨_, (hfree _).mpr rfl⟩⟩
      · have hok := (hfree _).mpr rfl
        cases hok.symm.trans h
      · obtain rfl := (hfree p).mp hp
        exact ⟨fun _ hln => absurd hln List.not_mem_nil, rfl, rfl, rfl, rfl⟩
    | priced rates high row =>
      have hnone := hagree rates high row hr
      obtain ⟨hrefuses, hfree, hreturns⟩ := pricePriced_free card tsMs outputUpper
        (billingOf ctx.provider (some false) source) rfl rates high hnone
      refine ⟨hrefuses, hfree, fun billable p hp => ?_⟩
      have hp : card.pricePriced usage ctx tsMs (billingOf ctx.provider billable source) outputUpper rates high row =
          .ok p := hp
      rw [pricePriced_of_agree hnone] at hp
      obtain ⟨lines, hlines, -⟩ := bind_eq_ok.mp hp
      have hsource : (billingOf ctx.provider billable source).source =
          (billingOf ctx.provider (some false) source).source := rfl
      obtain ⟨lines', hlines', -⟩ := linesOf_exists hsource hlines
      exact hreturns lines' hlines'

def RateCard.Resolved.isUnpriced : RateCard.Resolved → Bool
  | unpriced _ => true
  | priced _ _ _ => false

/-- Writes of unknown lifetime that are not billed. -/
theorem not_billed_opus :
    ∃ p, (oneRow opusRow).priceUsage { cacheWriteUnknown := 1000 } opusContext 0 (some false) .final none = .ok p ∧
      FreePrice p := by
  have hrow : ((oneRow opusRow).resolve opusContext 0 1000 none).toOption.map (·.isUnpriced) = some false := by
    decide
  have hprices : (oneRow opusRow).Prices { cacheWriteUnknown := 1000 } opusContext 0 := .inr fun reason h => by
    rw [show UsageCounts.totalInput { cacheWriteUnknown := 1000 } = 1000 from rfl] at h
    rw [h] at hrow
    cases hrow
  have hagree : (oneRow opusRow).HypothesesAgree { cacheWriteUnknown := 1000 } opusContext 0 := fun _ _ row _ => by
    unfold RateCard.bandB
    cases row.longContextThreshold <;> rfl
  have hbilled : ((oneRow opusRow).priceUsage { cacheWriteUnknown := 1000 } opusContext 0 (some true) .final
      none).toOption.isSome = true := by
    decide
  obtain ⟨-, hfree, hreturns⟩ := not_billed_costs_nothing (oneRow opusRow) { cacheWriteUnknown := 1000 } opusContext 0
    .final none hprices hagree
  obtain ⟨p, hp⟩ := Option.isSome_iff_exists.mp hbilled
  obtain ⟨q, hq⟩ := hreturns (some true) p (toOption_eq_some.mp hp)
  exact ⟨q, hq, hfree q hq⟩

/-- Without a row, usage that is not billed has no price either. -/
theorem not_billed_unpriced :
    ((oneRow opusRow).priceUsage { output := 5 } { opusContext with model := "claude-other" } 0 (some false) .final
        none).toOption.map (fun p => p.figure.nano) = some none := by
  decide

end TokenBill.Rates
