import TokenBill.Core.Labels
import TokenBill.Core.MoneyExact
import TokenBill.General.ExactDecimals
import TokenBill.General.Tables

/-!
# The rate card

`rates/engine.py`: the row of a context is looked up layer by layer, and its rates are derived from
it: base rates, cache multipliers, the long-context band, modifiers and a contract. Every product is
exact in sixty digits, or a signal of the decimal context.

A card is what its constructor leaves: its tables in the order of their precedence, the effective
modifiers and the overrides of the contract by their models. What the loader has checked is typed:
dates are days, predicates and buckets are enumerations. The caches and the ids of the rows in use
are left out, as are the fields of a row that no price reads.
-/

namespace TokenBill.Rates

open General

/-! ### Errors and exact products -/

/-- What pricing raises. -/
inductive PriceError where
  /-- `UsageError`. -/
  | usage (msg : String)
  /-- A `ContractViolation`, or another error of a constructor. -/
  | broken (e : Error)
  /-- `decimal.Inexact` or `decimal.Overflow`, of `EXACT_CTX`. -/
  | signal
  /-- `ValueError`. -/
  | value

/-- The number of digits of an integer up to its last one that is not 0. -/
def significant (mant : Int) : Nat :=
  ((Decimal.digits mant.natAbs).reverse.dropWhile (· = '0')).length

/-- A number of `EXACT_CTX`: sixty digits, and exponents of its range. -/
def InContext (d : Decimal) : Prop :=
  significant d.mant ≤ 60 ∧ d.scale ≤ 1000058 ∧
    ((Decimal.digits d.mant.natAbs).length : Int) - 1 - d.scale ≤ 999999

instance (d : Decimal) : Decidable (InContext d) := inferInstanceAs (Decidable (_ ∧ _ ∧ _))

/-- `EXACT_CTX.multiply`. -/
def multiply (a b : Decimal) : Except PriceError Decimal :=
  if InContext (a * b) then .ok (a * b) else .error .signal

/-! ### Rows -/

/-- `_PRICE_KEYS`. -/
inductive PriceKey where
  | input | output | cacheRead | cacheWrite5m | cacheWrite1h | cacheWriteOther
  deriving DecidableEq

/-- The rates of a row by their keys; `none` of a class the row does not price. -/
structure RateTable where
  (input output : Decimal)
  (cacheRead cacheWrite5m cacheWrite1h cacheWriteOther : Option Decimal)

namespace RateTable

/-- `rates[key] = value`. -/
def set (t : RateTable) (key : PriceKey) (value : Decimal) : RateTable :=
  match key with
  | .input => { t with input := value }
  | .output => { t with output := value }
  | .cacheRead => { t with cacheRead := some value }
  | .cacheWrite5m => { t with cacheWrite5m := some value }
  | .cacheWrite1h => { t with cacheWrite1h := some value }
  | .cacheWriteOther => { t with cacheWriteOther := some value }

/-- Every rate under a derivation by its key. -/
def mapRates (f : PriceKey → Decimal → Except PriceError Decimal) (t : RateTable) : Except PriceError RateTable := do
  let input ← f .input t.input
  let output ← f .output t.output
  let cacheRead ← t.cacheRead.mapM (f .cacheRead)
  let cacheWrite5m ← t.cacheWrite5m.mapM (f .cacheWrite5m)
  let cacheWrite1h ← t.cacheWrite1h.mapM (f .cacheWrite1h)
  let cacheWriteOther ← t.cacheWriteOther.mapM (f .cacheWriteOther)
  pure { input, output, cacheRead, cacheWrite5m, cacheWrite1h, cacheWriteOther }

def scale (targets : PriceKey → Bool) (factor : Decimal) : RateTable → Except PriceError RateTable :=
  mapRates fun key value => if targets key then multiply value factor else .ok value

end RateTable

/-- `RateRow`. A day is counted from the epoch, a generation is the numbers of its text. -/
structure RateRow where
  (rowId channel model : String)
  generation : List Nat := []
  effectiveFrom : Int
  effectiveTo : Option Int := none
  (inputUsdPerMtok outputUsdPerMtok : Decimal)
  cacheReadMult : Option Decimal := none
  cacheWrite5mMult : Option Decimal := none
  cacheWrite1hMult : Option Decimal := none
  cacheWriteOtherMult : Option Decimal := none
  perRequestUsd : List (String × Decimal) := []
  longContextThreshold : Option Nat := none
  longContextUsdPerMtok : List (PriceKey × Decimal) := []
  enabled : Bool := true
  promotion : Option String := none

def RateRow.covers (row : RateRow) (date : Int) : Bool :=
  decide (row.effectiveFrom ≤ date) && row.effectiveTo.all (date < ·)

/-! ### Modifiers -/

/-- A predicate of `Modifier.when`. A list is the values of a comma list. -/
inductive Predicate where
  | serviceTier (value : String)
  | speed (value : String)
  | inferenceGeo (value : String)
  | endpointScope (value : String)
  | channelIn (values : List String)
  | modelIn (values : List String)
  | routing (value : String)
  | complianceIn (values : List String)
  | generationGte (value : List Nat)

/-- What a modifier does to the rates. -/
inductive Effect where
  | multiply (factor : Decimal)
  | replaceBase (input output : Option Decimal)

def Effect.isReplace : Effect → Bool
  | .multiply _ => false
  | .replaceBase _ _ => true

/-- `Modifier`. -/
structure Modifier where
  modifierId : String
  effect : Effect
  /-- `none` is `"*"`. -/
  appliesTo : Option (List PriceKey) := none
  when : List Predicate := []

def Modifier.targets (m : Modifier) (key : PriceKey) : Bool := m.appliesTo.all (decide <| key ∈ ·)

/-- The base rates after a modifier. -/
def Modifier.base (rates : Decimal × Decimal) (m : Modifier) : Decimal × Decimal :=
  match m.effect with
  | .replaceBase input output => (input.getD rates.1, output.getD rates.2)
  | .multiply _ => rates

/-- The rates after a modifier. -/
def Modifier.apply (t : RateTable) (m : Modifier) : Except PriceError RateTable :=
  match m.effect with
  | .multiply factor => t.scale m.targets factor
  | .replaceBase _ _ => .ok t

def Predicate.isScope : Predicate → Bool
  | .endpointScope _ => true
  | _ => false

/-- Whether a predicate holds; no scope ignores the predicate on it. -/
def Predicate.holds (row : RateRow) (ctx : PricingContext) (scope : Option String) : Predicate → Bool
  | .serviceTier value => ctx.serviceTier = value
  | .speed value => ctx.speed = value
  | .inferenceGeo value => ctx.inferenceGeo = some value
  | .endpointScope value => scope.all fun s => s = value ∨ (value = "regional" ∧ s = "multi_region")
  | .channelIn values => ctx.channel ∈ values
  | .modelIn values => row.model ∈ values
  | .routing value => ctx.routing = value
  | .complianceIn values => ctx.compliance.any (decide <| · ∈ values)
  | .generationGte value => value ≤ row.generation

/-- `_matches`. -/
def Modifier.matchesContext (m : Modifier) (row : RateRow) (ctx : PricingContext) (scope : Option String) : Bool :=
  m.when.all (Predicate.holds row ctx scope)

/-! ### Cards -/

/-- `layer_kind`. -/
inductive LayerKind where
  | builtin | user | modelPrice

/-- The layer of resolved rates, with `_RESOLVED_LAYER`. -/
inductive ResolvedLayer where
  | builtin | user | contract
  deriving DecidableEq

/-- `_RESOLVED_LAYER`. -/
def LayerKind.resolved : LayerKind → ResolvedLayer
  | .builtin => .builtin | .user => .user | .modelPrice => .user

/-- A bucket of a contract override. -/
inductive OverrideKey where
  | rate (key : PriceKey)
  | webSearch
  deriving DecidableEq

/-- `ContractOverlay`, as far as pricing reads it. -/
structure ContractOverlay where
  name : String
  multiplier : Option Decimal := none
  effectiveFrom : Int
  effectiveTo : Option Int := none
  channels : List String := []

/-- `RateCard`. -/
structure RateCard where
  /-- `_ranked`: the rows under a channel and a name, by their dates, of the layers by their precedence. -/
  ranked : List (LayerKind × List ((String × String) × List RateRow))
  /-- `_modifiers`. -/
  modifiers : List Modifier := []
  contract : Option ContractOverlay := none
  /-- `_overrides`: the overrides of the contract by their models. -/
  overrides : List (String × List (OverrideKey × Decimal)) := []

namespace RateCard

variable (card : RateCard)

/-- `WILDCARD_CHANNEL`. -/
def wildcardChannel : String := "*"

/-- `COPILOT_CHANNEL`. -/
def copilotChannel : String := "github_copilot"

/-- `FALLBACK_CHANNELS`. -/
def fallbackChannels : List String := ["claude_platform_aws", "foundry"]

/-- `RateCard.basis`. -/
def basis : Basis := if card.contract.isSome then .contract else .list

/-! ### Rows of a context -/

/-- `_candidates`: the rows of a model on a channel and of any channel, by the precedence of their layers. -/
def candidates (channel model : String) : List (LayerKind × RateRow) :=
  card.ranked.flatMap fun layer =>
    [(channel, model), (wildcardChannel, model)].flatMap fun key =>
      (((layer.2.find? fun e => decide (e.1 = key)).map (·.2)).getD []).map (layer.1, ·)

/-- The candidates of a channel, or those of the Anthropic API where a channel falls back. -/
def rowsFor (channel model : String) : List (LayerKind × RateRow) :=
  let own := card.candidates channel model
  if own = [] ∧ channel ∈ fallbackChannels then card.candidates "anthropic_api" model else own

/-- The day after which no row is effective: 9999-12-31. -/
def lastDay : Int := 2932896

/-- The row that is effective last, the first of several. -/
def lastRow (rows : List (LayerKind × RateRow)) : Option RateRow :=
  rows.foldl (fun best r => match best with
    | none => some r.2
    | some b => if b.effectiveTo.getD lastDay < r.2.effectiveTo.getD lastDay then some r.2 else some b) none

/-- `_find`, with the reason a model is not priced for. -/
def find (channel model : String) (date : Int) : Except String (RateRow × LayerKind) :=
  let rows := card.rowsFor channel model
  if model = "" then .error "not priceable"
  else if rows = [] then .error "no rate row"
  else match rows.find? fun r => r.2.covers date with
    | some (kind, row) => if row.enabled then .ok (row, kind) else .error "unverified rate row"
    | none =>
      if rows.all fun r => decide (date < r.2.effectiveFrom) then .error "model before effective date"
      else if (lastRow rows).any fun last => last.promotion.isSome && last.effectiveTo.any (· ≤ date) then
        .error "promotion expired"
      else .error "no rate row"

/-! ### Resolved rates -/

/-- `_contract_applies`: the contract of a context on a day. -/
def contractFor (ctx : PricingContext) (date : Int) : Option ContractOverlay :=
  card.contract.filter fun c =>
    decide (ctx.billingPath ≠ "subscription" ∧ ctx.billingPath ∉ copilotBillingPaths ∧
      ctx.channel ≠ copilotChannel ∧ (c.channels = [] ∨ ctx.channel ∈ c.channels) ∧ c.effectiveFrom ≤ date) &&
    c.effectiveTo.all (date < ·)

end RateCard

/-- `ResolvedRates`, without the range of an unknown scope. -/
structure ResolvedRates where
  rowId : String
  rates : RateTable
  perRequest : List (String × Decimal)
  modifierIds : List String
  layer : ResolvedLayer

/-- The cache rates of a base rate. -/
def cacheRates (row : RateRow) (base : Decimal × Decimal) : Except PriceError RateTable := do
  let times := multiply base.1
  let cacheRead ← row.cacheReadMult.mapM times
  let cacheWrite5m ← row.cacheWrite5mMult.mapM times
  let cacheWrite1h ← row.cacheWrite1hMult.mapM times
  let cacheWriteOther ← row.cacheWriteOtherMult.mapM times
  pure { input := base.1, output := base.2, cacheRead, cacheWrite5m, cacheWrite1h, cacheWriteOther }

def bandRates (row : RateRow) (band : Bool) (t : RateTable) : RateTable :=
  if band then row.longContextUsdPerMtok.foldl (fun t e => t.set e.1 e.2) t else t

/-- An override of a rate. -/
def overrideRate (t : RateTable) (e : OverrideKey × Decimal) : RateTable :=
  match e.1 with
  | .rate key => t.set key e.2
  | .webSearch => t

/-- An override of a per-request price. -/
def overrideRequest (table : List (String × Decimal)) (e : OverrideKey × Decimal) : List (String × Decimal) :=
  match e.1 with
  | .rate _ => table
  | .webSearch => upsert (·.1) ("web_search", e.2) table

/-- A contract on rates and per-request prices: overrides are final, the multiplier scales the others. -/
def contractRates (c : ContractOverlay) (overrides : List (OverrideKey × Decimal)) (t : RateTable)
    (perRequest : List (String × Decimal)) : Except PriceError (RateTable × List (String × Decimal)) := do
  let t := overrides.foldl overrideRate t
  let perRequest := overrides.foldl overrideRequest perRequest
  match c.multiplier with
  | none => pure (t, perRequest)
  | some factor => do
    let t ← t.scale (fun key => decide (.rate key ∉ overrides.map (·.1))) factor
    let perRequest ← perRequest.mapM fun e =>
      if e.1 = "web_search" ∧ .webSearch ∈ overrides.map (·.1) then .ok e
      else (e.1, ·) <$> multiply e.2 factor
    pure (t, perRequest)

namespace RateCard

variable (card : RateCard)

def applicable (row : RateRow) (ctx : PricingContext) (scope : String) : List Modifier :=
  card.modifiers.filter fun m => m.matchesContext row ctx (some scope)

/-- `_build`. -/
def build (row : RateRow) (kind : LayerKind) (ctx : PricingContext) (date : Int) (scope : String)
    (band : Bool) : Except PriceError ResolvedRates := do
  let mods := card.applicable row ctx scope
  let base := mods.foldl Modifier.base (row.inputUsdPerMtok, row.outputUsdPerMtok)
  let t ← cacheRates row base
  let t ← mods.foldlM Modifier.apply (bandRates row band t)
  let ids (replaces : Bool) := (mods.filter fun m => decide (m.effect.isReplace = replaces)).map (·.modifierId)
  let modifierIds := ids true ++ ids false
  match card.contractFor ctx date with
  | none =>
    pure { rowId := row.rowId, rates := t, perRequest := row.perRequestUsd, modifierIds, layer := kind.resolved }
  | some c => do
    let (t, perRequest) ← contractRates c ((card.overrides.lookup row.model).getD []) t row.perRequestUsd
    pure
      { rowId := row.rowId, rates := t, perRequest, modifierIds := modifierIds ++ ["contract:" ++ c.name]
        layer := .contract }

/-- `_scope_priced`: some modifier of a scope would apply but for the scope. -/
def scopePriced (row : RateRow) (ctx : PricingContext) : Bool :=
  card.modifiers.any fun m => m.when.any Predicate.isScope && m.matchesContext row ctx none

/-- `_rates`, with the rates of the high side when the scope is not known. -/
def rates (row : RateRow) (kind : LayerKind) (ctx : PricingContext) (date : Int) (band : Bool) :
    Except PriceError (ResolvedRates × Option ResolvedRates) :=
  if ctx.endpointScope = "unknown" ∧ card.scopePriced row ctx then do
    let low ← card.build row kind ctx date "global" band
    let high ← card.build row kind ctx date "regional" band
    pure (low, some high)
  else (·, none) <$> card.build row kind ctx date ctx.endpointScope band

def dayRange : Int × Int := (-719162, lastDay)

/-- `_date_of`. -/
def dateOf (tsMs : Int) : Except PriceError Int :=
  let day := tsMs / 86400000
  if dayRange.1 ≤ day ∧ day ≤ dayRange.2 then .ok day else .error (.usage "ts_ms out of range")

/-- A context resolved: the rates of its row, of both sides, or why it has none. -/
inductive Resolved where
  | unpriced (reason : String)
  | priced (rates : ResolvedRates) (scopeRange : Option ResolvedRates) (row : RateRow)

/-- `_resolve`. The band is that of the request's size, unless it is given. -/
def resolve (ctx : PricingContext) (tsMs : Int) (totalInput : Nat) (band : Option Bool) :
    Except PriceError Resolved := do
  let date ← dateOf tsMs
  match card.find ctx.channel ctx.model date with
  | .error reason => pure (.unpriced reason)
  | .ok (row, kind) => do
    let band := row.longContextThreshold.any fun threshold => band.getD (decide (threshold < totalInput))
    let (rates, scopeRange) ← card.rates row kind ctx date band
    pure (.priced rates scopeRange row)

end RateCard

end TokenBill.Rates
