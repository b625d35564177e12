import TokenBill.Core.DecimalStr
import TokenBill.Core.Encode
import TokenBill.Core.Findings
import TokenBill.Core.MoneyExact
import TokenBill.General.Tables

/-!
# Vendor costs of one read

`ReadContext` of `adapters/anthropic_admin.py`, which the admin and the cloud billing adapters share: usage and scaled
amounts are summed under keys, rounded once and emitted in the order of the keys. A date is the number of its day.
-/

namespace TokenBill.VendorCosts

open General

/-- `BadRecord(reason)`. -/
structure BadRecord where
  reason : String

def badType (fieldName : String) : BadRecord := ⟨"bad_type:" ++ fieldName⟩

/-! ### Money -/

/-- `MONEY_SCALE`. -/
def moneyScale : Nat := 210

/-- `MAX_FRACTION_DIGITS`. -/
def maxFractionDigits : Int := 200

/-- `MAX_AMOUNT_EXP`. -/
def maxAmountExp : Int := 30

/-- What an export has as an amount. -/
inductive Amount where
  | decimal (d : Numeric)
  | int (n : Int)
  | text (s : String)
  /-- A boolean, a null, a list. -/
  | other

/-- The number that is written in an amount. -/
def Amount.number : Amount → Option Numeric
  | .decimal d => some d
  | .int n => some (.finite (.ofSigned n 0))
  | .text s =>
    let text := stripSpace s.toList
    if text = [] ∨ 512 < text.length then none else decimalOf (String.ofList text)
  | .other => none

/-- `_decimal`. -/
def decimalIn (value : Amount) (fieldName : String) : Except BadRecord DecimalTuple :=
  match value.number with
  | some (.finite d) =>
    if d.coeff = 0 then .ok ⟨false, 0, 0⟩
    else if maxAmountExp ≤ d.adjusted ∨ d.exp < -maxFractionDigits then .error (badType fieldName)
    else .ok d
  | _ => .error (badType fieldName)

/-- `money_scaled`. -/
def moneyScaled (value : Amount) (fieldName : String) (cents : Bool) : Except BadRecord Int := do
  let d ← decimalIn value fieldName
  if d.coeff = 0 then return 0
  let shift := d.exp + moneyScale - if cents then 2 else 0
  return Decimal.signed d.neg (d.coeff * 10 ^ shift.toNat)

/-- `scaled_to_decimal`. -/
def scaledToDecimal (scaled : Int) : Except MoneyError DecimalTuple := keep (.ofSigned scaled (-moneyScale))

/-- `remainder_e18`. -/
def remainderE18 (remainderUsd : DecimalTuple) : Except MoneyError Int :=
  if remainderUsd.coeff = 0 then .ok 0 else decimalToNano (remainderUsd.shift 9)

/-- `scaled_to_nano`. -/
def scaledToNano (scaled : Int) : Except MoneyError (Int × Int) := do
  let (nano, remainder) ← usdStrToNano (decimalStr (← scaledToDecimal scaled))
  return (nano, ← remainderE18 remainder)

/-! ### Labels -/

/-- The separator of the parts of a `stable_id`. -/
def separator : Char := '\x1f'

/-- A character of `_CONTROL_RE`. -/
def isControl (c : Char) : Bool :=
  decide (c.toNat ≤ 0x1f ∨ (0x7f ≤ c.toNat ∧ c.toNat ≤ 0x9f) ∨ (0x202a ≤ c.toNat ∧ c.toNat ≤ 0x202e) ∨
    (0x2066 ≤ c.toNat ∧ c.toNat ≤ 0x2069))

/-- A text that is not blank and has no control characters. -/
structure Label where
  text : String
  ne : text ≠ ""
  clean : separator ∉ text.toList
  deriving DecidableEq

/-- `label` of a text or a null: null for a blank text. -/
def label (value : Option String) (fieldName : String) (maxLen : Nat) : Except BadRecord (Option Label) :=
  match value with
  | none => .ok none
  | some s =>
    let text := String.ofList (stripSpace s.toList)
    if hne : text = "" then .ok none
    else if h : text.toList.length ≤ maxLen ∧ (text.toList.all fun c => !isControl c) = true then
      .ok (some ⟨text, hne, fun hsep => by
        have := List.all_eq_true.mp h.2 _ hsep
        revert this
        decide⟩)
    else .error (badType fieldName)

/-- A provider code that is copied as it is, but for blanks around it: only known not to be blank. -/
structure Code where
  text : String
  ne : text ≠ ""
  deriving DecidableEq

/-- A pseudonym `p_…` of a principal. -/
structure Pseudonym where
  hex : String
  clean : separator ∉ hex.toList
  deriving DecidableEq

/-- The name of a dim. -/
structure DimName where
  text : String
  clean : separator ∉ text.toList
  plain : '=' ∉ text.toList
  deriving DecidableEq

/-! ### Calls -/

/-- `IngestOptions`, what a read context takes of it. -/
structure Options where
  sinceMs : Option Nat := none
  untilMs : Option Nat := none
  nowMs : Nat := 0

def dayMs : Nat := 86400000

/-- `REVISION_WINDOW_MS`. -/
def revisionWindowMs : Nat := 30 * dayMs

/-- `OPENAI_WRITE_TTL_S`. -/
def openaiWriteTtlS : Nat := 1800

/-- The basis of the costs that the adapters report with a usage. -/
def basisOf (sourceKind : String) : String :=
  if sourceKind = "anthropic.cc_analytics" then "provider_estimate" else "invoice"

/-- The arguments of `add_aggregate`, as the adapters call it. -/
structure AggCall where
  sourceKind : Label
  (startMs endMs : Nat)
  dims : List (DimName × Option Label)
  usage : UsageBuckets
  cost : Option Int := none
  basis : Option String := none
  listed : Option Int := none
  fetchedMs : Nat := 0
  /-- `dims` is a dictionary. -/
  distinct : (dims.map (·.1)).Nodup
  /-- Where there is a cost its basis goes with the source. -/
  basis_eq : cost ≠ none → basis = some (basisOf sourceKind.text)
  /-- There is one TTL of other writes. -/
  ttl : ∀ t ∈ usage.cacheWriteOtherTtlS, t = openaiWriteTtlS

/-- The fields that identify a cost line: `_COST_KEY_FIELDS`. A description that is missing is the empty text. -/
structure CostKey where
  sourceKind : Label
  dateUtc : Nat
  channel : Label
  (workspaceId description model : Option Label)
  costType : Option Code
  (tokenType sku serviceTier inferenceGeo endpointScope : Option Label)
  principal : Option Pseudonym
  deriving DecidableEq

/-- The arguments of `add_cost`. -/
structure CostCall where
  key : CostKey
  amount : Int
  listed : Option Int := none
  fetchedMs : Nat := 0

/-- A call of an adapter. -/
inductive Call where
  | aggregate (c : AggCall)
  | cost (c : CostCall)

/-! ### Cells -/

/-- `_AggCell`. -/
structure AggCell where
  usage : UsageBuckets
  cost : Int := 0
  nCost : Nat := 0
  listed : Int := 0
  nList : Nat := 0
  basis : Option String := none
  fetchedMs : Nat := 0

/-- `_CostCell`. -/
structure CostCell where
  amount : Int := 0
  listed : Int := 0
  nList : Nat := 0
  fetchedMs : Nat := 0
  rows : Nat := 0

/-- The key of an aggregate. -/
structure AggKey where
  sourceKind : Label
  (startMs endMs : Nat)
  dims : List (DimName × Label)
  deriving DecidableEq

def dimOrder (d : DimName × Label) : String ×ₗ String := toLex (d.1.text, d.2.text)

/-- `tuple(sorted((k, v) for k, v in dims.items() if v is not None))`. -/
def cleanDims (dims : List (DimName × Option Label)) : List (DimName × Label) :=
  (dims.filterMap fun d => d.2.map (d.1, ·)).insertionSort fun a b => dimOrder a ≤ dimOrder b

def AggCall.key (c : AggCall) : AggKey := ⟨c.sourceKind, c.startMs, c.endMs, cleanDims c.dims⟩

/-- What a read has accumulated. -/
structure Read where
  aggs : List (AggKey × AggCell) := []
  costs : List (CostKey × CostCell) := []
  teams : List Label := []
  /-- `stats["filtered_by_window"]`. -/
  filtered : Nat := 0

/-- `in_window`. -/
def Options.inWindow (o : Options) (startMs : Nat) : Bool :=
  !(o.sinceMs.any fun since => decide (startMs < since)) && (o.untilMs.all fun until_ => decide (startMs < until_))

/-- `finality`. -/
def Options.finality (o : Options) (endMs : Nat) : String :=
  if endMs + revisionWindowMs ≤ o.nowMs then "final" else "provisional"

/-- The usage of a cell with a call. -/
def totalUsage (cell : Option AggCell) (usage : UsageBuckets) : Except BadRecord UsageBuckets :=
  match cell with
  | none => .ok usage
  | some cell =>
    match cell.usage.add usage with
    | .ok total => .ok total
    | .error _ => .error ⟨"bad_usage"⟩

/-- A cell after a call. -/
def AggCell.after (cell : AggCell) (total : UsageBuckets) (c : AggCall) : AggCell :=
  let cell := { cell with usage := total, fetchedMs := max cell.fetchedMs c.fetchedMs }
  let cell := match c.cost with
    | some cost => { cell with cost := cell.cost + cost, nCost := cell.nCost + 1, basis := c.basis }
    | none => cell
  match c.listed with
  | some listed => { cell with listed := cell.listed + listed, nList := cell.nList + 1 }
  | none => cell

/-- `add_aggregate`. -/
def addAggregate (o : Options) (r : Read) (c : AggCall) : Except BadRecord (Read × Bool) :=
  if c.endMs < c.startMs then .error (badType "ending_at")
  else if !o.inWindow c.startMs then .ok ({ r with filtered := r.filtered + 1 }, false)
  else do
    let cell := r.aggs.lookup c.key
    let total ← totalUsage cell c.usage
    let cell := (cell.getD ⟨.empty, 0, 0, 0, 0, none, 0⟩).after total c
    let teams := (c.key.dims.filter fun d => decide (d.1.text = "team")).map (·.2)
    return ({ r with aggs := upsert (·.1) (c.key, cell) r.aggs, teams := r.teams ++ teams }, true)

/-- A cost cell after a call. -/
def CostCell.after (cell : CostCell) (c : CostCall) : CostCell :=
  let cell := { cell with
    amount := cell.amount + c.amount
    fetchedMs := max cell.fetchedMs c.fetchedMs
    rows := cell.rows + 1 }
  match c.listed with
  | some listed => { cell with listed := cell.listed + listed, nList := cell.nList + 1 }
  | none => cell

/-- `add_cost`. -/
def addCost (o : Options) (r : Read) (c : CostCall) : Read × Bool :=
  if !o.inWindow (c.key.dateUtc * dayMs) then ({ r with filtered := r.filtered + 1 }, false)
  else
    let cell := ((r.costs.lookup c.key).getD {}).after c
    ({ r with costs := upsert (·.1) (c.key, cell) r.costs }, true)

/-- A call, with whether it was recorded. A record that raises is quarantined, and the read goes on. -/
def Read.call (o : Options) (r : Read) : Call → Read × Bool
  | .aggregate c =>
    match addAggregate o r c with
    | .ok done => done
    | .error _ => (r, false)
  | .cost c => addCost o r c

def run (o : Options) (calls : List Call) : Read := calls.foldl (fun r c => (r.call o c).1) {}

/-! ### Results -/

def AggKey.order (k : AggKey) : String ×ₗ Nat ×ₗ Nat ×ₗ List (String ×ₗ String) :=
  toLex (k.sourceKind.text, toLex (k.startMs, toLex (k.endMs, k.dims.map dimOrder)))

def AggKey.parts (k : AggKey) : List String :=
  [k.sourceKind.text, toString k.startMs, toString k.endMs] ++ k.dims.map fun d => d.1.text ++ "=" ++ d.2.text

def textOr (l : Option Label) : String := (l.map Label.text).getD ""

/-- `"" if v is None else v` of the fields of a key: the order of cost lines, and the parts of their ids. -/
def CostKey.parts (k : CostKey) : List String :=
  [k.sourceKind.text, isoDate k.dateUtc, k.channel.text, textOr k.workspaceId, textOr k.description, textOr k.model,
    (k.costType.map Code.text).getD "", textOr k.tokenType, textOr k.sku, textOr k.serviceTier, textOr k.inferenceGeo,
    textOr k.endpointScope, (k.principal.map fun p => "p_" ++ p.hex).getD ""]

/-- The nano-dollars of an amount and its remainder, where there was an amount. -/
def scaledIf (n : Nat) (scaled : Int) : Except MoneyError (Option (Int × Int)) :=
  if 0 < n then (scaledToNano scaled).map some else .ok none

/-- The aggregate of a cell, with the remainder of its cost. -/
def aggregateOf (h : Hashes) (o : Options) (e : AggKey × AggCell) : Except MoneyError (UsageAggregate × Int) := do
  let reported ← scaledIf e.2.nCost e.2.cost
  let listed ← scaledIf e.2.nList e.2.listed
  return (⟨h.stableId "ag" e.1.parts, e.1.sourceKind.text, e.1.startMs, e.1.endMs,
      e.1.dims.map fun d => (d.1.text, d.2.text), e.2.usage, reported.map (·.1), reported.bind fun _ => e.2.basis,
      listed.map (·.1), o.finality e.1.endMs, e.2.fetchedMs⟩, (reported.map (·.2)).getD 0)

/-- `aggregates`, with the sum of the remainders. -/
def aggregates (h : Hashes) (o : Options) (r : Read) : Except MoneyError (List UsageAggregate × Int) := do
  let out ← (r.aggs.insertionSort fun a b => a.1.order ≤ b.1.order).mapM (aggregateOf h o)
  return (out.map (·.1), (out.map (·.2)).sum)

/-- The cost line of a cell, with its remainder. -/
def costLineOf (h : Hashes) (o : Options) (e : CostKey × CostCell) : Except MoneyError (CostLine × Int) := do
  let rounded ← scaledToNano e.2.amount
  let listed ← scaledIf e.2.nList e.2.listed
  return ({ lineId := h.stableId "cl" e.1.parts
            sourceKind := e.1.sourceKind.text
            dateUtc := e.1.dateUtc
            channel := e.1.channel.text
            workspaceId := e.1.workspaceId.map Label.text
            description := textOr e.1.description
            model := e.1.model.map Label.text
            costType := e.1.costType.map Code.text
            tokenType := e.1.tokenType.map Label.text
            sku := e.1.sku.map Label.text
            serviceTier := e.1.serviceTier.map Label.text
            inferenceGeo := e.1.inferenceGeo.map Label.text
            endpointScope := e.1.endpointScope.map Label.text
            amountNano := rounded.1
            listAmountNano := listed.map (·.1)
            finality := o.finality (e.1.dateUtc * dayMs + dayMs)
            principal := e.1.principal.map fun p => .p p.hex
            fetchedMs := e.2.fetchedMs }, rounded.2)

/-- `cost_lines`, with `stats["rounding_remainder_e18"]`. -/
def costLines (h : Hashes) (o : Options) (r : Read) : Except MoneyError (List CostLine × Int) := do
  let out ← (r.costs.insertionSort fun a b => a.1.parts ≤ b.1.parts).mapM (costLineOf h o)
  return (out.map (·.1), (out.map (·.2)).sum)

end TokenBill.VendorCosts

/-!
## Scaled amounts are exact

An amount of an export is kept in units of `10 ^ (-210)` dollars. Rounded once to nano-dollars it leaves a remainder
which is exact in units of `10 ^ (-18)` dollars where the amount has no more than 18 digits after the point.
-/

namespace TokenBill.VendorCosts

open General

def usdOf (scaled : Int) : ℚ := scaled / 10 ^ moneyScale

/-- An amount has at most 18 digits after the point. -/
def Fine (scaled : Int) : Prop := (10 : Int) ^ 192 ∣ scaled

theorem usdOf_add (a b : Int) : usdOf (a + b) = usdOf a + usdOf b := by
  unfold usdOf
  push_cast
  ring

theorem usdOf_sum (l : List Int) : usdOf l.sum = (l.map usdOf).sum := by
  induction l with
  | nil => simp [usdOf]
  | cons a l ih => rw [List.sum_cons, usdOf_add, ih, List.map_cons, List.sum_cons]

theorem Fine.sum {l : List Int} (h : ∀ a ∈ l, Fine a) : Fine l.sum := by
  induction l with
  | nil => exact dvd_zero _
  | cons a l ih =>
    rw [List.sum_cons]
    exact dvd_add (h a List.mem_cons_self) (ih fun b hb => h b (List.mem_cons_of_mem _ hb))

variable {scaled nano : Int} {r : DecimalTuple}

theorem moneyScaled_exact {value : Amount} {fieldName : String} {cents : Bool}
    (h : moneyScaled value fieldName cents = .ok scaled) :
    ∃ d, value.number = some (.finite d) ∧ usdOf scaled = d.toRat / if cents then 100 else 1 := by
  obtain ⟨d, hd, h⟩ := bind_eq_ok.mp h
  unfold decimalIn at hd
  split at hd
  · rename_i d' hnumber
    split at hd
    · rename_i hzero
      obtain rfl := Except.ok.inj hd
      have hscaled : scaled = 0 := (Except.ok.inj h).symm
      refine ⟨d', hnumber, ?_⟩
      rw [hscaled, DecimalTuple.toRat_eq_zero.mpr hzero]
      simp [usdOf]
    · rename_i hne
      split at hd
      · cases hd
      · rename_i hrange
        obtain rfl := Except.ok.inj hd
        refine ⟨d', hnumber, ?_⟩
        rw [if_neg hne] at h
        obtain rfl := (Except.ok.inj h).symm
        push Not at hrange
        have hshift : 0 ≤ d'.exp + (moneyScale : Int) - if cents then 2 else 0 := by
          have := hrange.2
          unfold maxFractionDigits at this
          unfold moneyScale
          split <;> omega
        have hpow : ((10 : ℚ) ^ (d'.exp + (moneyScale : Int) - if cents then 2 else 0).toNat) =
            10 ^ d'.exp * 10 ^ moneyScale / if cents then 100 else 1 := by
          rw [← zpow_natCast, Int.toNat_of_nonneg hshift, zpow_sub₀ (by norm_num), zpow_add₀ (by norm_num), zpow_natCast]
          cases cents <;> norm_num
        have hcoeff : ((Decimal.signed d'.neg (d'.coeff *
            10 ^ (d'.exp + (moneyScale : Int) - if cents then 2 else 0).toNat) : Int) : ℚ) =
            d'.signedCoeff * 10 ^ (d'.exp + (moneyScale : Int) - if cents then 2 else 0).toNat := by
          unfold DecimalTuple.signedCoeff Decimal.signed
          cases d'.neg <;> push_cast <;> simp
        unfold usdOf
        rw [hcoeff, hpow]
        unfold DecimalTuple.toRat
        field_simp
  · cases hd

/-! ### Remainders -/

/-- A remainder in units of `10 ^ (-18)` is rounded, and exact where it is a whole number of them. -/
theorem remainderE18_exact {rem n : Int} (h : remainderE18 r = .ok rem) (hn : r.toRat * 10 ^ 18 = n) : rem = n := by
  unfold remainderE18 at h
  split at h
  · rename_i hzero
    rw [DecimalTuple.toRat_eq_zero.mpr hzero, zero_mul] at hn
    rw [← Except.ok.inj h]
    exact_mod_cast hn
  · have hround := halfEven_of_decimalToInt h
    rw [DecimalTuple.toRat_shift] at hround
    have hvalue : r.toRat * 10 ^ (9 : Int) * 10 ^ (9 : Int) = n := by
      rw [← hn, mul_assoc]
      norm_num
    rw [hvalue] at hround
    exact hround.unique (halfEven_int n)

theorem toRat_ofSigned_scale (scaled : Int) : (DecimalTuple.ofSigned scaled (-moneyScale)).toRat = usdOf scaled := by
  unfold DecimalTuple.toRat usdOf
  rw [DecimalTuple.signedCoeff_ofSigned]
  change (scaled : ℚ) * 10 ^ (-(moneyScale : Int)) = _
  rw [zpow_neg, zpow_natCast]
  rfl

/-- What `scaled_to_nano` gives. -/
theorem scaledToNano_spec {rem : Int} (h : scaledToNano scaled = .ok (nano, rem)) :
    HalfEven (usdOf scaled * 10 ^ 9) nano ∧
      (Fine scaled → (nano : ℚ) / 10 ^ 9 + rem / 10 ^ 18 = usdOf scaled) := by
  obtain ⟨d, hd, h⟩ := bind_eq_ok.mp h
  obtain ⟨⟨nano', r⟩, hread, h⟩ := bind_eq_ok.mp h
  obtain ⟨rem', hrem, h⟩ := bind_eq_ok.mp h
  obtain ⟨rfl, rfl⟩ := Prod.mk.inj (Except.ok.inj h)
  unfold scaledToDecimal keep at hd
  split at hd
  · rename_i hrep
    obtain rfl := Except.ok.inj hd
    obtain ⟨d, htext, hexact⟩ := money_exact.1.1.1 hread
    rw [decimalOf_decimalStr hrep] at htext
    obtain rfl := Numeric.finite.inj (Option.some.inj htext)
    rw [toRat_ofSigned_scale, zpow_zero, mul_one] at hexact
    refine ⟨hexact.rounded, fun ⟨k, hk⟩ => ?_⟩
    -- a whole number of the units is left of a whole number of them
    have hr : r.toRat * 10 ^ 18 = (k - nano' * 10 ^ 9 : Int) := by
      have hsum := hexact.sum
      have husd : usdOf scaled * 10 ^ 18 = k := by
        have hscale : (10 : ℚ) ^ moneyScale = 10 ^ 192 * 10 ^ 18 := by rw [← pow_add]; rfl
        unfold usdOf
        rw [hk, hscale, Int.cast_mul, Int.cast_pow, Int.cast_ofNat, div_mul_eq_mul_div, mul_right_comm]
        exact mul_div_cancel_left₀ _ (by positivity)
      push_cast
      rw [← husd, ← hsum]
      ring
    have hrem := remainderE18_exact hrem hr
    rw [← hexact.sum, hrem, ← hr]
    ring
  · cases hd

theorem remainder_exp {d : DecimalTuple} (h : toNanoWithRemainder d = .ok (nano, r)) : min d.exp (-9) ≤ r.exp := by
  obtain ⟨k, -, h⟩ := bind_eq_ok.mp h
  split at h
  · obtain ⟨-, rfl⟩ := Prod.mk.inj (Except.ok.inj h)
    exact min_le_left _ _
  · obtain ⟨scaled, hscaled, h⟩ := bind_eq_ok.mp h
    dsimp only at h
    split at h
    · cases h
    · obtain ⟨rest, hrest, h⟩ := bind_eq_ok.mp h
      obtain ⟨r', hr', h⟩ := bind_eq_ok.mp h
      obtain ⟨-, rfl⟩ := Prod.mk.inj (Except.ok.inj h)
      have hs := shiftMoney_eq_ok hscaled
      have hr := shiftMoney_eq_ok hr'
      unfold subtractExact keep at hrest
      dsimp only at hrest
      split at hrest
      · split at hrest
        · obtain rfl := Except.ok.inj hrest
          subst hr hs
          simp only [DecimalTuple.exp_shift, DecimalTuple.ofSigned]
          omega
        · cases hrest
      · cases hrest

theorem remainder_exp_usd {d : DecimalTuple} {text : String} (htext : decimalOf text = some (.finite d))
    (h : usdStrToNano text = .ok (nano, r)) : min d.exp (-9) ≤ r.exp := by
  obtain ⟨d', hd', h⟩ := bind_eq_ok.mp h
  have hd' := parseMoney_eq_ok.mp hd'
  rw [htext] at hd'
  obtain rfl := Numeric.finite.inj (Option.some.inj hd')
  exact remainder_exp h

theorem remainderE18_ok (hexp : -moneyScale ≤ r.exp) (hhalf : 2 * |r.toRat| ≤ 1 / 10 ^ 9) :
    ∃ rem, remainderE18 r = .ok rem := by
  unfold remainderE18
  split
  · exact ⟨0, rfl⟩
  · rename_i hne
    have hsmall : |r.toRat| < 1 := by
      have : (1 : ℚ) / 10 ^ 9 < 1 := by norm_num
      linarith [abs_nonneg r.toRat]
    have hadjusted : r.adjusted < 0 := (DecimalTuple.adjusted_lt_iff hne 0).mpr (by simpa using hsmall)
    have hwidth := r.width_pos
    unfold DecimalTuple.adjusted at hadjusted
    unfold moneyScale at hexp
    refine decimalToInt_ok ⟨?_, ?_⟩ ?_
    · change r.width ≤ 10 ^ 17
      omega
    · rw [DecimalTuple.exp_shift, abs_le]
      omega
    · rw [DecimalTuple.toRat_shift, abs_mul]
      have hpow : |(10 : ℚ) ^ (9 : Int)| * 10 ^ 9 ≤ 10 ^ 18 := by norm_num
      have hbig : (10 : ℚ) ^ 18 ≤ 10 ^ 4000 := pow_le_pow_right₀ (by norm_num) (by norm_num)
      calc |r.toRat| * |(10 : ℚ) ^ (9 : Int)| * 10 ^ 9 = |r.toRat| * (|(10 : ℚ) ^ (9 : Int)| * 10 ^ 9) := by ring
        _ ≤ |r.toRat| * 10 ^ 18 := mul_le_mul_of_nonneg_left hpow (abs_nonneg _)
        _ < 1 * 10 ^ 18 := mul_lt_mul_of_pos_right hsmall (by positivity)
        _ ≤ 10 ^ 4000 := by rwa [one_mul]

/-- An amount below `10 ^ 4000` nano-dollars is rounded. -/
theorem scaledToNano_ok (hsmall : |usdOf scaled| * 10 ^ 9 < 10 ^ 4000) : ∃ out, scaledToNano scaled = .ok out := by
  have hvalue := toRat_ofSigned_scale scaled
  have hexp : (DecimalTuple.ofSigned scaled (-moneyScale)).exp = -moneyScale := rfl
  unfold scaledToNano scaledToDecimal
  generalize DecimalTuple.ofSigned scaled (-moneyScale) = d at hvalue hexp ⊢
  have hwidth : d.width ≤ 5000 := by
    by_cases hzero : d.coeff = 0
    · unfold DecimalTuple.width
      rw [hzero]
      decide
    · have hlt : |d.toRat| < 10 ^ (4000 : Int) := by
        rw [hvalue]
        refine lt_of_le_of_lt ?_ (by exact_mod_cast hsmall)
        exact le_mul_of_one_le_right (abs_nonneg _) (by norm_num)
      have hadjusted := (DecimalTuple.adjusted_lt_iff hzero (4000 : Nat)).mpr hlt
      unfold DecimalTuple.adjusted at hadjusted
      unfold moneyScale at hexp
      omega
  have habs : |d.exp| ≤ 10 ^ 15 := by
    rw [hexp, abs_neg]
    unfold moneyScale
    norm_num
  have hrep : Representable d := representable_of_ample ⟨by omega, by omega⟩
  have htext := decimalOf_decimalStr hrep
  obtain ⟨nano, r, hread⟩ := money_exact.1.1.2 htext (by omega) habs (by
    rw [zpow_zero, mul_one, hvalue]
    exact hsmall)
  obtain ⟨d', hd', hexact⟩ := money_exact.1.1.1 hread
  have hr := remainder_exp_usd htext hread
  obtain ⟨rem, hrem⟩ := remainderE18_ok (r := r) (by
    rw [hexp] at hr
    unfold moneyScale at hr ⊢
    omega) hexact.half
  have hkeep : keep d = .ok d := if_pos hrep
  exact ⟨(nano, rem), bind_eq_ok.mpr ⟨d, hkeep, bind_eq_ok.mpr ⟨(nano, r), hread, bind_eq_ok.mpr ⟨rem, hrem, rfl⟩⟩⟩⟩

end TokenBill.VendorCosts
