import TokenBill.Rates.Card
import TokenBill.Store.Db

/-!
# Prices of usage

`RateCard.price_usage`: a line for each bucket of a usage that is not empty, each rounded once, and a
figure of their sums. A line is exact, or a range: of unknown write lifetimes, of an unknown scope, of
uncertain billing, of a placeholder output, or of the two hypotheses on the band of a Copilot request.
-/

namespace TokenBill.Rates

open General

/-! ### Billing rules -/

/-- `BillingRule`, as far as it decides what is billed. -/
structure BillingRule where
  (ruleId billedInput billedPartialOutput confidence : String)

/-- `BillingRule.billable`. -/
def BillingRule.billable (r : BillingRule) : Option Bool :=
  if r.confidence ≠ "documented" then none
  else if r.billedInput = "yes" ∨ r.billedPartialOutput = "yes" then some true
  else if r.billedInput = "no" ∧ r.billedPartialOutput = "no" then some false
  else none

/-- `rules`: the packaged rules. -/
def billingRules : List BillingRule :=
  [⟨"anthropic.refusal.pre_output", "no", "no", "documented"⟩,
    ⟨"anthropic.refusal.ambiguous", "unknown", "unknown", "assumed"⟩,
    ⟨"anthropic.refusal.mid_stream", "yes", "yes", "documented"⟩,
    ⟨"anthropic.batch.errored_canceled_expired", "no", "no", "documented"⟩,
    ⟨"anthropic.web_search.failed", "no", "no", "documented"⟩,
    ⟨"anthropic.max_tokens", "yes", "yes", "documented"⟩,
    ⟨"anthropic.abort.client", "unknown", "unknown", "unknown"⟩,
    ⟨"anthropic.overloaded.mid_stream", "unknown", "unknown", "unknown"⟩,
    ⟨"anthropic.pre_token_429_529", "unknown", "unknown", "unknown"⟩,
    ⟨"vertex.non_200", "no", "no", "documented"⟩,
    ⟨"azure_openai.content_filter_400", "yes", "yes", "documented"⟩,
    ⟨"azure_openai.timeout_408", "yes", "yes", "documented"⟩,
    ⟨"openai.flex_429", "no", "no", "documented"⟩,
    ⟨"openai.max_output_tokens", "yes", "yes", "documented"⟩]

/-- `rule_for`: an undocumented combination has an unknown rule. -/
def ruleFor (provider failureMode : String) : BillingRule :=
  let ruleId := provider ++ "." ++ failureMode
  (billingRules.find? (·.ruleId = ruleId)).getD ⟨ruleId, "unknown", "unknown", "unknown"⟩

/-! ### Amounts -/

/-- `_effective_rate`: a class that is not priced falls back to the nearest one that is. -/
def RateTable.effective (t : RateTable) : PriceKey → Decimal
  | .input => t.input
  | .output => t.output
  | .cacheRead => t.cacheRead.getD t.input
  | .cacheWrite5m => (t.cacheWrite5m.or t.cacheWriteOther).getD t.input
  | .cacheWrite1h => (t.cacheWrite1h.or t.cacheWriteOther).getD t.input
  | .cacheWriteOther => (t.cacheWriteOther.or t.cacheWrite5m).getD t.input

/-- `decimal_to_nano`. -/
def toNano (amountUsd : Decimal) : Except PriceError Int :=
  (decimalToNano (tupleOf amountUsd)).mapError fun _ => .value

/-- The amount of a quantity: of tokens at a rate for a million, or of requests at a price each. -/
def amount (perRequest : Bool) (quantity : Nat) (rate : Decimal) : Except PriceError Int :=
  if perRequest then multiply (.ofInt quantity) rate >>= toNano else .ok (lineNano quantity (tupleOf rate))

/-- The buckets of a line. -/
inductive Bucket where
  | uncachedInput | cacheRead | cacheWrite5m | cacheWrite1h | cacheWriteOther | cacheWriteUnknown
  | output | webSearch
  deriving DecidableEq

/-- The name of a bucket. -/
def Bucket.text : Bucket → String
  | uncachedInput => "uncached_input"
  | cacheRead => "cache_read"
  | cacheWrite5m => "cache_write_5m"
  | cacheWrite1h => "cache_write_1h"
  | cacheWriteOther => "cache_write_other"
  | cacheWriteUnknown => "cache_write_unknown"
  | output => "output"
  | webSearch => "web_search"

/-! ### Lines -/

/-- A quantity at a rate. -/
abbrev Quote : Type := Nat × Decimal

/-- The arguments of an `emit`: a quantity at a rate, and the quotes of its range. -/
structure Emission where
  bucket : Bucket
  point : Quote
  range : Option (Quote × Quote) := none

/-- `PricedLine`. -/
structure RatedLine extends Store.PricedLine where
  unitUsdPerMtok : String
  modifierIds : List String
  layer : ResolvedLayer

/-- What a call knows of the billing of its usage. -/
structure Billing where
  billable : Option Bool
  source : UsageSource
  /-- `partial_exact`: whether a partial stream is billed. -/
  partialExact : Option Bool

/-- The billing of a usage of a provider. -/
def billingOf (provider : String) (billable : Option Bool) (source : UsageSource) : Billing where
  billable := billable
  source := source
  partialExact := if source = .partialStream then (ruleFor provider "abort.client").billable else none

/-- The amount of a line and its range, from the amounts of its quotes. -/
def Billing.settle (b : Billing) (point : Int) (range : Option (Int × Int)) : Int × Option (Int × Int) :=
  let point := match range with
    | none => point
    | some (lo, hi) => min (max point lo) hi
  if b.billable = some false ∨ b.partialExact = some false then (0, none)
  else if b.billable = none ∨ (b.source = .partialStream ∧ b.partialExact = none) then
    (point, some (0, max point ((range.map (·.2)).getD point)))
  else if b.source = .estimated ∧ range = none then (point, some (point, point))
  else (point, range)

/-- The sorted amounts of two quotes. -/
def rangeAmounts (perRequest : Bool) (quotes : Quote × Quote) : Except PriceError (Int × Int) := do
  let low ← amount perRequest quotes.1.1 quotes.1.2
  let high ← amount perRequest quotes.2.1 quotes.2.2
  pure (min low high, max low high)

/-- `emit`. -/
def emit (b : Billing) (rates : ResolvedRates) (e : Emission) : Except PriceError RatedLine := do
  let perRequest := decide (e.bucket = .webSearch)
  let point ← amount perRequest e.point.1 e.point.2
  let range ← e.range.mapM (rangeAmounts perRequest)
  let settled := b.settle point range
  pure
    { bucket := e.bucket.text
      quantity := e.point.1
      amountNano := settled.1
      lowNano := settled.2.map (·.1)
      highNano := settled.2.map (·.2)
      exact := settled.2.isNone
      rateRowId := rates.rowId
      unitUsdPerMtok := String.ofList e.point.2.text
      modifierIds := rates.modifierIds
      layer := rates.layer }

/-- The buckets of known classes, with the keys of their rates. -/
def knownBuckets (usage : UsageCounts) : List (Bucket × PriceKey × Nat) :=
  [(.uncachedInput, .input, usage.uncachedInput), (.cacheRead, .cacheRead, usage.cacheRead),
    (.cacheWrite5m, .cacheWrite5m, usage.cacheWrite5m), (.cacheWrite1h, .cacheWrite1h, usage.cacheWrite1h),
    (.cacheWriteOther, .cacheWriteOther, usage.cacheWriteOther)]

/-- `_WRITE_BUCKETS`. -/
def writeBuckets : List Bucket := [.cacheWrite5m, .cacheWrite1h, .cacheWriteOther]

def folded (ctx : PricingContext) (t : RateTable) : Bool :=
  decide (ctx.channel = RateCard.copilotChannel ∧ t.cacheWrite5m = none ∧ t.cacheWrite1h = none ∧
    t.cacheWriteOther = none)

/-- The lines of the known classes. -/
def knownEmissions (usage : UsageCounts) (ctx : PricingContext) (rates : ResolvedRates)
    (high : Option ResolvedRates) : List Emission :=
  ((knownBuckets usage).filter fun b => decide (b.2.2 ≠ 0)).map fun (bucket, key, quantity) =>
    let rate := rates.rates.effective key
    { bucket, point := (quantity, rate)
      range :=
        if folded ctx rates.rates ∧ bucket ∈ writeBuckets then some ((quantity, rate), (quantity, rate))
        else high.map fun top => ((quantity, rate), (quantity, top.rates.effective key)) }

/-- The line of writes of unknown lifetime, from five minutes to an hour where the row has one. -/
def unknownEmission (usage : UsageCounts) (ctx : PricingContext) (rates : ResolvedRates)
    (high : Option ResolvedRates) : List Emission :=
  let quantity := usage.cacheWriteUnknown
  if quantity = 0 then []
  else
    let low := rates.rates.effective .cacheWrite5m
    let oneHour := rates.rates.cacheWrite1h.isSome
    let top := (high.getD rates).rates.effective (if oneHour then .cacheWrite1h else .cacheWrite5m)
    let hint := if ctx.writeTtlHint = some "1h" ∧ oneHour then rates.rates.effective .cacheWrite1h else low
    [{ bucket := .cacheWriteUnknown, point := (quantity, hint), range := some ((quantity, low), (quantity, top)) }]

/-- The line of the output, up to its upper estimate where only a placeholder is known. -/
def outputEmission (usage : UsageCounts) (rates : ResolvedRates) (high : Option ResolvedRates)
    (source : UsageSource) (outputUpper : Option Nat) : List Emission :=
  let rate := rates.rates.output
  let top := (high.getD rates).rates.output
  let point := (usage.output, rate)
  if source = .messageStartOnly ∧ (usage.output ≠ 0 ∨ outputUpper.getD 0 ≠ 0) then
    [{ bucket := .output, point
       range := some (point, (max usage.output (outputUpper.getD usage.output), top)) }]
  else if usage.output ≠ 0 then
    [{ bucket := .output, point, range := high.map fun _ => (point, (usage.output, top)) }]
  else []

/-- The line of web searches, where they have a price. -/
def webEmission (usage : UsageCounts) (rates : ResolvedRates) (high : Option ResolvedRates) : List Emission :=
  match rates.perRequest.lookup "web_search" with
  | none => []
  | some web =>
    let quantity := usage.webSearchRequests
    if quantity = 0 then []
    else
      [{ bucket := .webSearch, point := (quantity, web)
         range := high.map fun top =>
           ((quantity, web), (quantity, (top.perRequest.lookup "web_search").getD web)) }]

/-- The lines of a usage, in the order of their buckets. -/
def emissions (usage : UsageCounts) (ctx : PricingContext) (rates : ResolvedRates)
    (high : Option ResolvedRates) (source : UsageSource) (outputUpper : Option Nat) : List Emission :=
  knownEmissions usage ctx rates high ++ unknownEmission usage ctx rates high ++
    outputEmission usage rates high source outputUpper ++ webEmission usage rates high

/-! ### Notes -/

/-- `DQ_COPILOT_WRITE_FOLDED`, as a note. -/
def foldedNote : String := "writes folded to input (dq.copilot_write_folded_to_input)"

/-- The notes of the lines of a usage. -/
def notes (usage : UsageCounts) (ctx : PricingContext) (rates : ResolvedRates) (high : Option ResolvedRates)
    (b : Billing) (outputUpper : Option Nat) : List String :=
  let rule := ruleFor ctx.provider "abort.client"
  let isFolded := folded ctx rates.rates
  let partialNote := "partial stream: billing " ++ rule.confidence ++ " (" ++ rule.ruleId ++ ")" ++
    if b.partialExact = none then ": range [0, full]" else ""
  let writes := (knownBuckets usage).filter fun w => decide (w.2.2 ≠ 0 ∧ w.1 ∈ writeBuckets)
  let note (holds : Bool) (text : String) : List String := if holds then [text] else []
  note (b.source = .partialStream) partialNote ++
    note high.isSome "endpoint scope unknown: priced [global, regional] (dq.scope_unknown)" ++
    (if isFolded then writes.map fun _ => foldedNote else []) ++
    note (usage.cacheWriteUnknown ≠ 0) (if isFolded then foldedNote else "unknown-TTL cache writes priced [5m, 1h]") ++
    note (b.source = .messageStartOnly ∧ (usage.output ≠ 0 ∨ outputUpper.getD 0 ≠ 0))
      "placeholder output priced [logged, upper]" ++
    if b.billable = none then ["billing uncertain: [0, full]"]
    else note (b.source = .estimated) "reconstructed usage (estimated)"

/-! ### Figures -/

/-- What `price_usage` returns of a usage. -/
structure PricedUsage where
  lines : List RatedLine
  figure : Figure
  exactNano : Int
  estimated : Option Figure
  unpricedReason : Option String

def figureOf (f : FigureFields) : Except PriceError Figure := f.build.mapError .broken

/-- `unpriced`. -/
def unpricedFigure (reason : String) (basis : Basis) : Except PriceError Figure :=
  figureOf
    { nano := none, evidence := .exact, basis
      note := if startsWith reason "unpriced:" then reason else "unpriced: " ++ reason }

def ranged (lines : List RatedLine) : List RatedLine := lines.filter fun ln => !ln.exact

def exactSum (lines : List RatedLine) : Int := ((lines.filter (·.exact)).map (·.amountNano)).sum

/-- `_assemble`. -/
def assemble (lines : List RatedLine) (basis : Basis) (provenance : List String) (note : String) :
    Except PriceError PricedUsage :=
  let exactNano := exactSum lines
  if ranged lines = [] then do
    let figure ← figureOf { nano := some exactNano, evidence := .exact, basis, provenance, note }
    pure { lines, figure, exactNano, estimated := none, unpricedReason := none }
  else do
    let point := ((ranged lines).map (·.amountNano)).sum
    let low := ((ranged lines).map fun ln => ln.lowNano.getD 0).sum
    let high := ((ranged lines).map fun ln => ln.highNano.getD 0).sum
    let text := if note = "" then "range lines" else note
    let estimated ← figureOf
      { nano := some point, evidence := .estimated, basis, lowNano := some low, highNano := some high
        provenance, note := text }
    let figure ← figureOf
      { nano := some (exactNano + point), evidence := .estimated, basis, lowNano := some (exactNano + low)
        highNano := some (exactNano + high), provenance, note := text }
    pure { lines, figure, exactNano, estimated := some estimated, unpricedReason := none }

/-- `_hypothesis_range`: a line, widened to cover the one of the other hypothesis. -/
def hypothesisRange (a b : RatedLine) : RatedLine :=
  { a with
    lowNano := some (min (a.lowNano.getD a.amountNano) (b.lowNano.getD b.amountNano))
    highNano := some (max (a.highNano.getD a.amountNano) (b.highNano.getD b.amountNano))
    exact := false }

namespace RateCard

variable (card : RateCard)

/-- `_basis`. -/
def basisOf (ctx : PricingContext) (rates : Option ResolvedRates) : Basis :=
  if ctx.billingPath = "subscription" ∨ ctx.billingPath ∈ copilotBillingPaths then .listEquivalent
  else if rates.any fun r => decide (r.layer = .contract) then .contract
  else .list

/-- `_band_b`: the hypothesis of the session's tier, where it disagrees with the request's size. -/
def bandB (row : RateRow) (ctx : PricingContext) (totalInput : Nat) : Option Bool :=
  match row.longContextThreshold, ctx.contextTier with
  | some threshold, some tier =>
    let b := decide (tier = "long_context")
    if ctx.channel = copilotChannel ∧ decide (threshold < totalInput) ≠ b then some b else none
  | _, _ => none

/-- `_lines`. -/
def linesOf (usage : UsageCounts) (ctx : PricingContext) (rates : ResolvedRates) (high : Option ResolvedRates)
    (b : Billing) (outputUpper : Option Nat) : Except PriceError (List RatedLine) :=
  (emissions usage ctx rates high b.source outputUpper).mapM (emit b rates)

/-- The lines of the other hypothesis, one for each line. -/
def widened (usage : UsageCounts) (ctx : PricingContext) (tsMs : Int) (b : Billing) (outputUpper : Option Nat)
    (band : Bool) (lines : List RatedLine) : Except PriceError (List RatedLine) := do
  match ← card.resolve ctx tsMs usage.totalInput (some band) with
  | .unpriced _ => .error .value
  | .priced rates high _ => do
    let others ← linesOf usage ctx rates high b outputUpper
    if others.length = lines.length then pure (List.zipWith hypothesisRange lines others) else .error .value

/-- The note of a price, of the notes of its lines, the hypotheses and the searches without a price. -/
def figureNote (texts : List String) (band : Option Bool) (usage : UsageCounts) (lines : List RatedLine) : String :=
  let unpricedWeb := decide (usage.webSearchRequests ≠ 0) && !lines.any (·.bucket = "web_search")
  "; ".intercalate (texts ++
    (if band.isSome then
      ["long-context band hypotheses A/B differ: range, point A (dq.copilot_band_hypothesis)"] else []) ++
    if unpricedWeb then ["web search requests unpriced (no per-request rate on the row)"] else []).eraseDups

/-- `price_usage` of a context that has a row. -/
def pricePriced (usage : UsageCounts) (ctx : PricingContext) (tsMs : Int) (b : Billing) (outputUpper : Option Nat)
    (rates : ResolvedRates) (high : Option ResolvedRates) (row : RateRow) : Except PriceError PricedUsage := do
  let lines ← linesOf usage ctx rates high b outputUpper
  let band := (bandB row ctx usage.totalInput).filter fun _ => !lines.isEmpty
  let lines ← band.elim (.ok lines) fun band => card.widened usage ctx tsMs b outputUpper band lines
  assemble lines (basisOf ctx (some rates)) (rates.rowId :: rates.modifierIds)
    (figureNote (notes usage ctx rates high b outputUpper) band usage lines)

/-- `price_usage`. -/
def priceUsage (usage : UsageCounts) (ctx : PricingContext) (tsMs : Int) (billable : Option Bool)
    (source : UsageSource) (outputUpper : Option Nat) : Except PriceError PricedUsage := do
  match ← card.resolve ctx tsMs usage.totalInput none with
  | .unpriced reason =>
    if billable = some false ∧ ctx.channel = copilotChannel then
      pure { lines := [], figure := exactFigure 0 (basisOf ctx none), exactNano := 0, estimated := none
             unpricedReason := none }
    else do
      let figure ← unpricedFigure reason (basisOf ctx none)
      pure { lines := [], figure, exactNano := 0, estimated := none, unpricedReason := some reason }
  | .priced rates high row =>
    card.pricePriced usage ctx tsMs (billingOf ctx.provider billable source) outputUpper rates high row

/-- `price_inference`. -/
def priceInference (inf : Inference) (tsMs : Int) : Except PriceError PricedUsage :=
  card.priceUsage inf.usage.toUsageCounts inf.pricing tsMs inf.billable inf.usageSource inf.outputUpper

end RateCard

end TokenBill.Rates
