import TokenBill.Core.Transitions
import TokenBill.General.Lookaside
import TokenBill.Rates.UnitRates

/-!
# The rewrite of a cache miss

`detect/cache_miss.py`: `Prices` gives the price of tokens of a bucket from the rates of a card, at its unit rates
where a probe is priced exactly and as the card prices them where not, and keeps unit rates and probes under a
context and a day. `miss_money` prices the tokens of a miss: those written first, longer lifetimes before shorter
ones, then those sent uncached.
-/

namespace TokenBill.CacheMiss

open General Rates

/-! ### Amounts -/

/-- `Money`. -/
structure Money where
  point : Int := 0
  low : Int := 0
  high : Int := 0
  ranged : Bool := false

namespace Money

/-- `add`. -/
def add (m : Money) (nano : Int) : Money :=
  { m with point := m.point + nano, low := m.low + nano, high := m.high + nano }

/-- `add_range`. -/
def addRange (m : Money) (point low high : Int) : Money :=
  ⟨m.point + point, m.low + low, m.high + high, true⟩

/-- `add_money`, of a sum or of a difference. -/
def addMoney (m other : Money) (sign : Int) : Money :=
  if 0 ≤ sign then ⟨m.point + other.point, m.low + other.low, m.high + other.high, m.ranged || other.ranged⟩
  else ⟨m.point - other.point, m.low - other.high, m.high - other.low, m.ranged || other.ranged⟩

end Money

/-- `combine`. -/
def combine (parts : List (Int × Option Money)) : Option Money :=
  parts.foldlM (fun total part => part.2.map fun money => total.addMoney money part.1) {}

/-! ### Buckets -/

/-- The keys of `_FIELD`: the buckets of tokens. -/
inductive Field where
  | uncachedInput | cacheRead | cacheWrite5m | cacheWrite1h | cacheWriteOther | cacheWriteUnknown | output
  deriving DecidableEq

namespace Field

/-- The bucket of a line. -/
def bucket : Field → Bucket
  | uncachedInput => .uncachedInput
  | cacheRead => .cacheRead
  | cacheWrite5m => .cacheWrite5m
  | cacheWrite1h => .cacheWrite1h
  | cacheWriteOther => .cacheWriteOther
  | cacheWriteUnknown => .cacheWriteUnknown
  | output => .output

/-- The tokens of a usage. -/
def tokens (usage : UsageCounts) : Field → Nat
  | uncachedInput => usage.uncachedInput
  | cacheRead => usage.cacheRead
  | cacheWrite5m => usage.cacheWrite5m
  | cacheWrite1h => usage.cacheWrite1h
  | cacheWriteOther => usage.cacheWriteOther
  | cacheWriteUnknown => usage.cacheWriteUnknown
  | output => usage.output

/-- A usage of nothing but some tokens of a bucket. -/
def usageOf (tokens : Nat) : Field → UsageCounts
  | uncachedInput => { uncachedInput := tokens }
  | cacheRead => { cacheRead := tokens }
  | cacheWrite5m => { cacheWrite5m := tokens }
  | cacheWrite1h => { cacheWrite1h := tokens }
  | cacheWriteOther => { cacheWriteOther := tokens, cacheWriteOtherTtlS := some 1800 }
  | cacheWriteUnknown => { cacheWriteUnknown := tokens }
  | output => { output := tokens }

/-- `_UNIT_ATTR`: the class of the unit rate of a bucket. -/
def unitKey : Field → Option PriceKey
  | uncachedInput => some .input
  | cacheRead => some .cacheRead
  | cacheWrite5m => some .cacheWrite5m
  | cacheWrite1h => some .cacheWrite1h
  | cacheWriteOther => some .cacheWriteOther
  | cacheWriteUnknown => none
  | output => some .output

end Field

/-- `WRITE_ORDER`. -/
def writeOrder : List Field := [.cacheWrite1h, .cacheWrite5m, .cacheWriteOther, .cacheWriteUnknown]

/-! ### Prices -/

/-- `DAY_MS`. -/
def dayMs : Int := 86400000

/-- `_PROBE_TOKENS`. -/
def probeTokens : Nat := 1000

/-- Whether an error of the card is a `TokenbillError`. -/
def isTokenbillError : PriceError → Bool
  | .usage _ => true
  | .broken (.integrity _) => false
  | .broken _ => true
  | .signal => false
  | .value => false

/-- A result, or nothing where a `TokenbillError` is raised. -/
def caught {α : Type} (x : Except PriceError (Option α)) : Except PriceError (Option α) :=
  match x with
  | .ok a => .ok a
  | .error e => if isTokenbillError e then .ok none else .error e

/-- `Prices`: what is kept of a card. -/
structure Prices where
  /-- `_units`. -/
  units : List ((PricingContext × Int) × Option UnitRates) := []
  /-- `_exact`. -/
  exacts : List ((PricingContext × Int × Field) × Option Bool) := []

/-- The price of some tokens, its range and whether it is exact. -/
structure Quoted where
  (point low high : Int)
  exact : Bool

/-- The price of a line. -/
def Quoted.ofLine (ln : RatedLine) : Quoted where
  point := ln.amountNano
  low := min (ln.lowNano.getD ln.amountNano) ln.amountNano
  high := max (ln.highNano.getD ln.amountNano) ln.amountNano
  exact := ln.exact

section

variable (card : RateCard) (pricing : PricingContext) (tsMs : Int)

/-- `_priced`. -/
def priced (bucket : Field) (tokens : Nat) : Except PriceError (Option Quoted) :=
  caught do
    let usage ← (bucket.usageOf tokens).build.mapError .broken
    let priced ← card.priceUsage usage.toUsageCounts pricing tsMs (some true) .final none
    if priced.unpricedReason ≠ none ∨ priced.figure.nano = none then pure none
    else pure ((priced.lines.find? (·.bucket = bucket.bucket.text)).map .ofLine)

/-- `unit`. -/
def unit : Kept PriceError Prices (Option UnitRates) :=
  Kept.lookOr Prices.units (fun prices units => { prices with units }) (pricing, tsMs / dayMs)
    (caught (card.unitRates pricing tsMs))

def unitFor (bucket : Field) (exact : Bool) : Kept PriceError Prices (Option UnitRates) :=
  if exact ∧ bucket.unitKey ≠ none then unit card pricing tsMs else pure none

/-- Whether a probe of a bucket is priced exactly, looked up first. -/
def probe (bucket : Field) : Kept PriceError Prices (Option Bool) :=
  Kept.lookOr Prices.exacts (fun prices exacts => { prices with exacts }) (pricing, tsMs / dayMs, bucket)
    ((·.map Quoted.exact) <$> priced card pricing tsMs bucket probeTokens)

/-- The amount of some tokens at unit rates, where there are any. -/
def atUnit (bucket : Field) (tokens : Nat) (units : Option UnitRates) : Option Money := do
  let units ← units
  let key ← bucket.unitKey
  pure (Money.add {} (scaledToNano (tokens * units.rate key) units.scaleExp))

def asPriced (bucket : Field) (tokens : Nat) : Except PriceError (Option Money) := do
  let quoted ← priced card pricing tsMs bucket tokens
  pure (quoted.map fun q => if q.exact then Money.add {} q.point else Money.addRange {} q.point q.low q.high)

/-- `line`. -/
def line (bucket : Field) (tokens : Nat) : Kept PriceError Prices (Option Money) :=
  if tokens = 0 then pure (some {})
  else do
    match ← probe card pricing tsMs bucket with
    | none => pure none
    | some exact => do
      let units ← unitFor card pricing tsMs bucket exact
      match atUnit bucket tokens units with
      | some money => pure (some money)
      | none => Kept.ofExcept (asPriced card pricing tsMs bucket tokens)

/-- The loop of `written` over the buckets of the writes. -/
def writtenLoop (usage : UsageCounts) : List Field → Nat → Money → Kept PriceError Prices (Option Money)
  | [], _, money => pure (some money)
  | bucket :: buckets, remaining, money => do
    let take := min (bucket.tokens usage) remaining
    if take = 0 then writtenLoop usage buckets remaining money
    else
      match ← line card pricing tsMs bucket take with
      | none => pure none
      | some part => writtenLoop usage buckets (remaining - take) (money.addMoney part 1)

/-- `written`. -/
def written (usage : UsageCounts) (tokens : Nat) : Kept PriceError Prices (Option Money) :=
  writtenLoop card pricing tsMs usage writeOrder (min tokens usage.cacheWrite) {}

end

/-! ### Misses -/

/-- `miss_waste`: the missed tokens that were written, and those that were sent uncached. -/
def missWaste (t : Transitions.Transition) (req : Request) : Nat × Nat :=
  match req.servingInference with
  | none => (0, 0)
  | some inf =>
    let mw := min t.missed inf.usage.cacheWrite
    (mw, min (t.missed - mw) inf.usage.uncachedInput)

/-- `miss_money`: the rewrite of a miss and its premium over a warm read. -/
def missMoney (card : RateCard) (t : Transitions.Transition) (req : Request) :
    Kept PriceError Prices (Option (Money × Money)) :=
  match req.servingInference with
  | none => pure none
  | some inf => do
    let (mw, mu) := missWaste t req
    let writes ← written card inf.pricing req.tsStartMs inf.usage.toUsageCounts mw
    let uncached ← line card inf.pricing req.tsStartMs .uncachedInput mu
    let rewrite := combine [(1, writes), (1, uncached)]
    let reads ← line card inf.pricing req.tsStartMs .cacheRead (mw + mu)
    let premium := combine [(1, rewrite), (-1, reads)]
    pure (do pure (← rewrite, ← premium))

end TokenBill.CacheMiss
