import TokenBill.Rates.PriceSound

/-!
# Exact integer rates

`RateCard.unit_rates`: the rates of a context at one power of ten that makes integers of all of them. They are
those of a usage of no size, before the long-context band, and a number of tokens at them is rounded to what the
line of that many tokens at the rate for a million is.
-/

namespace TokenBill.Rates

open General

/-- `UnitRates`: a rate is an integer over `10 ^ scaleExp`, in dollars a token. -/
structure UnitRates where
  scaleExp : Nat
  (uncached cacheRead cacheWrite5m cacheWrite1h cacheWriteOther output webSearchNano : Int)
  rowId : String

/-- The rate of a class. -/
def UnitRates.rate (u : UnitRates) : PriceKey → Int
  | .input => u.uncached
  | .output => u.output
  | .cacheRead => u.cacheRead
  | .cacheWrite5m => u.cacheWrite5m
  | .cacheWrite1h => u.cacheWrite1h
  | .cacheWriteOther => u.cacheWriteOther

/-- `_min_exponent`: the exponent of the last digit that is not 0. -/
def minExponent (d : Decimal) : Int :=
  if d.mant = 0 then 0 else (Decimal.digits d.mant.natAbs).length - significant d.mant - d.scale

/-- `int(d.scaleb(places, EXACT_CTX))`. -/
def scalebInt (d : Decimal) (places : Nat) : Except PriceError Int :=
  let shifted := Decimal.ofScaled (d.mant * 10 ^ places) d.scale
  if InContext shifted then .ok (shifted.mant.tdiv (10 ^ shifted.scale)) else .error .signal

def unitKeys : List PriceKey := [.input, .cacheRead, .cacheWrite5m, .cacheWrite1h, .cacheWriteOther, .output]

/-- The smallest scale of at least six digits at which every rate is an integer. -/
def unitScale (t : RateTable) : Int :=
  max 6 (6 - (unitKeys.map fun key => minExponent (t.effective key)).foldl min (minExponent t.input))

/-- The unit rates of resolved rates; `none` beyond 24 digits, or when a search is no whole number of nano-USD. -/
def ResolvedRates.unitRates (rates : ResolvedRates) : Except PriceError (Option UnitRates) :=
  let web := (rates.perRequest.lookup "web_search").getD 0
  let scale := unitScale rates.rates
  if minExponent web < -9 ∨ 24 < scale then pure none
  else do
    let rate key := scalebInt (rates.rates.effective key) (scale - 6).toNat
    let webSearchNano ← scalebInt web 9
    let uncached ← rate .input
    let cacheRead ← rate .cacheRead
    let cacheWrite5m ← rate .cacheWrite5m
    let cacheWrite1h ← rate .cacheWrite1h
    let cacheWriteOther ← rate .cacheWriteOther
    let output ← rate .output
    pure (some
      { scaleExp := scale.toNat, uncached, cacheRead, cacheWrite5m, cacheWrite1h, cacheWriteOther, output
        webSearchNano, rowId := rates.rowId })

/-- `unit_rates`. -/
def RateCard.unitRates (card : RateCard) (ctx : PricingContext) (tsMs : Int) :
    Except PriceError (Option UnitRates) := do
  match ← card.resolve ctx tsMs 0 none with
  | .unpriced _ => pure none
  | .priced rates _ _ => rates.unitRates

/-! ### The scale -/

theorem significant_of_mod {mant : Int} (h : mant % 10 ≠ 0) :
    significant mant = (Decimal.digits mant.natAbs).length := by
  have hlast : ∃ ds, Decimal.digits mant.natAbs = ds ++ [(mant.natAbs % 10).digitChar] := by
    unfold Decimal.digits
    by_cases hlt : mant.natAbs < 10
    · exact ⟨[], by rw [Nat.toDigits_of_lt_base hlt, Nat.mod_eq_of_lt hlt]; rfl⟩
    · exact ⟨_, Nat.toDigits_of_base_le (by omega) (by omega)⟩
  obtain ⟨ds, hds⟩ := hlast
  have hne : (mant.natAbs % 10).digitChar ≠ '0' :=
    (by decide : ∀ n < 10, n ≠ 0 → n.digitChar ≠ '0') _ (Nat.mod_lt _ (by omega)) (by omega)
  unfold significant
  rw [hds, List.reverse_append, List.reverse_singleton, List.singleton_append,
    List.dropWhile_cons_of_neg (by simpa using hne)]
  simp

/-- The places of a fraction are below the exponent of its last digit. -/
theorem scale_le_of_minExponent {d : Decimal} {places : Nat} (h : -(places : Int) ≤ minExponent d) :
    d.scale ≤ places := by
  rcases d.lowest with h0 | hmod
  · omega
  · have hmant : d.mant ≠ 0 := fun hzero => hmod (by rw [hzero]; rfl)
    unfold minExponent at h
    rw [if_neg hmant, significant_of_mod hmod] at h
    omega

/-- A shift by as many places as a fraction has is the integer of its digits. -/
theorem scalebInt_eq_ok {d : Decimal} {places : Nat} {n : Int} (hplaces : d.scale ≤ places)
    (h : scalebInt d places = .ok n) : (n : ℚ) = d.toRat * 10 ^ places := by
  have hint : Decimal.ofScaled (d.mant * 10 ^ places) d.scale = .ofInt (d.mant * 10 ^ (places - d.scale)) := by
    apply Decimal.toRat_injective
    rw [Decimal.toRat_ofScaled, Decimal.toRat_ofInt]
    obtain ⟨k, rfl⟩ := Nat.exists_eq_add_of_le hplaces
    rw [Nat.add_sub_cancel_left, pow_add]
    push_cast
    field_simp
  unfold scalebInt at h
  dsimp only at h
  rw [hint] at h
  split at h
  · obtain rfl := Except.ok.inj h
    have hvalue := congrArg Decimal.toRat hint
    rw [Decimal.toRat_ofScaled, Decimal.toRat_ofInt] at hvalue
    show (((d.mant * 10 ^ (places - d.scale)).tdiv (10 ^ 0) : Int) : ℚ) = _
    rw [pow_zero, Int.tdiv_one, ← hvalue, Decimal.toRat]
    push_cast
    ring
  · cases h

theorem foldl_min_le (x : Int) (l : List Int) : l.foldl min x ≤ x ∧ ∀ y ∈ l, l.foldl min x ≤ y := by
  induction l generalizing x with
  | nil => exact ⟨le_rfl, fun _ h => absurd h List.not_mem_nil⟩
  | cons z l ih =>
    obtain ⟨hx, hl⟩ := ih (min x z)
    refine ⟨le_trans hx (min_le_left x z), fun y hy => ?_⟩
    rcases List.mem_cons.mp hy with rfl | hy
    · exact le_trans hx (min_le_right x y)
    · exact hl y hy

theorem mem_unitKeys (key : PriceKey) : key ∈ unitKeys := by cases key <;> decide

theorem scale_le_unitScale (t : RateTable) (key : PriceKey) :
    (t.effective key).scale ≤ (unitScale t - 6).toNat := by
  apply scale_le_of_minExponent
  have hle := (foldl_min_le (minExponent t.input) (unitKeys.map fun key => minExponent (t.effective key))).2 _
    (List.mem_map_of_mem (mem_unitKeys key))
  unfold unitScale
  omega

/-! ### Tokens at unit rates -/

theorem rate_unitRates {rates : ResolvedRates} {u : UnitRates} (h : rates.unitRates = .ok (some u)) (key : PriceKey) :
    (u.rate key : ℚ) = (rates.rates.effective key).toRat * 10 ^ (u.scaleExp - 6) ∧ 6 ≤ u.scaleExp := by
  unfold ResolvedRates.unitRates at h
  dsimp only at h
  split at h
  · cases Except.ok.inj h
  · obtain ⟨web, -, h⟩ := bind_eq_ok.mp h
    obtain ⟨uncached, hinput, h⟩ := bind_eq_ok.mp h
    obtain ⟨cacheRead, hread, h⟩ := bind_eq_ok.mp h
    obtain ⟨cacheWrite5m, h5m, h⟩ := bind_eq_ok.mp h
    obtain ⟨cacheWrite1h, h1h, h⟩ := bind_eq_ok.mp h
    obtain ⟨cacheWriteOther, hother, h⟩ := bind_eq_ok.mp h
    obtain ⟨output, houtput, h⟩ := bind_eq_ok.mp h
    obtain rfl := Option.some.inj (Except.ok.inj h)
    have hsix : 6 ≤ unitScale rates.rates := le_max_left _ _
    have hplaces : (unitScale rates.rates - 6).toNat = (unitScale rates.rates).toNat - 6 := by omega
    have hscaled : ∀ {k n}, scalebInt (rates.rates.effective k) (unitScale rates.rates - 6).toNat = .ok n →
        (n : ℚ) = (rates.rates.effective k).toRat * 10 ^ ((unitScale rates.rates).toNat - 6) := fun {k n} hn => by
      rw [← hplaces]
      exact scalebInt_eq_ok (scale_le_unitScale rates.rates k) hn
    refine ⟨?_, by show 6 ≤ (unitScale rates.rates).toNat; omega⟩
    cases key with
    | input => exact hscaled hinput
    | output => exact hscaled houtput
    | cacheRead => exact hscaled hread
    | cacheWrite5m => exact hscaled h5m
    | cacheWrite1h => exact hscaled h1h
    | cacheWriteOther => exact hscaled hother

theorem scaledToNano_unitRates {rates : ResolvedRates} {u : UnitRates} (h : rates.unitRates = .ok (some u))
    (key : PriceKey) (tokens : Nat) :
    scaledToNano (tokens * u.rate key) u.scaleExp = lineNano tokens (tupleOf (rates.rates.effective key)) := by
  obtain ⟨hrate, hsix⟩ := rate_unitRates h key
  have hscaled := halfEven_scaledToNano (tokens * u.rate key) u.scaleExp
  have hline := halfEven_lineNano tokens (tupleOf (rates.rates.effective key))
  rw [toRat_tupleOf] at hline
  obtain ⟨k, hk⟩ := Nat.exists_eq_add_of_le hsix
  have hvalue : ((tokens * u.rate key : Int) : ℚ) * 10 ^ (-(u.scaleExp : Int)) =
      tokens * (rates.rates.effective key).toRat / 10 ^ 6 := by
    push_cast
    rw [hrate, hk, Nat.add_sub_cancel_left, zpow_neg, zpow_natCast, pow_add]
    field_simp
  rw [hvalue] at hscaled
  exact hscaled.unique hline

/-! ### Rounding is monotone -/

/-- A rounding does not fall as the number grows. -/
theorem halfEven_mono {q r : ℚ} {k l : Int} (hk : HalfEven q k) (hl : HalfEven r l) (h : q ≤ r) : k ≤ l := by
  rcases h.eq_or_lt with rfl | hlt
  · exact (hk.unique hl).le
  have hk' : 2 * |q - k| ≤ 1 := hk.elim le_of_lt fun h => h.1.le
  have hl' : 2 * |r - l| ≤ 1 := hl.elim le_of_lt fun h => h.1.le
  by_contra hkl
  have hstep : (l : ℚ) + 1 ≤ k := by exact_mod_cast Int.lt_iff_add_one_le.mp (not_le.mp hkl)
  have h1 := neg_abs_le (q - k)
  have h2 := le_abs_self (r - l)
  linarith

theorem lineNano_zero (rate : DecimalTuple) : lineNano (0 : Nat) rate = 0 := by
  have h := halfEven_lineNano (0 : Nat) rate
  rw [Nat.cast_zero, Int.cast_zero, zero_mul, zero_div, zero_mul, ← Int.cast_zero] at h
  exact h.unique (halfEven_int 0)

/-- More tokens at a rate that is not negative do not cost less. -/
theorem lineNano_mono {rate : Decimal} (hrate : 0 ≤ rate) {m n : Nat} (h : m ≤ n) :
    lineNano m (tupleOf rate) ≤ lineNano n (tupleOf rate) := by
  rw [Decimal.le_iff, Decimal.toRat_zero] at hrate
  refine halfEven_mono (halfEven_lineNano m (tupleOf rate)) (halfEven_lineNano n (tupleOf rate)) ?_
  rw [toRat_tupleOf]
  have hmn : (m : ℚ) ≤ n := by exact_mod_cast h
  push_cast
  gcongr

end TokenBill.Rates
