import TokenBill.General.Lists
import TokenBill.Rates.Card

/-!
# Rates of a card of non-negative prices

Every product of a derivation is of non-negative factors, so the rates of a row are non-negative, in
the band, under modifiers and under the contract.
-/

namespace TokenBill.Rates

open General

theorem multiply_eq_ok {a b c : Decimal} (h : multiply a b = .ok c) : c = a * b := by
  unfold multiply at h
  split at h
  · exact (Except.ok.inj h).symm
  · cases h

theorem multiply_nonneg {a b c : Decimal} (ha : 0 ≤ a) (hb : 0 ≤ b) (h : multiply a b = .ok c) : 0 ≤ c := by
  rw [multiply_eq_ok h, Decimal.le_iff, Decimal.toRat_mul, Decimal.toRat_zero]
  rw [Decimal.le_iff, Decimal.toRat_zero] at ha hb
  exact mul_nonneg ha hb

theorem option_mapM_eq_ok {ε α β : Type} {f : α → Except ε β} {x : Option α} {y : Option β}
    (h : x.mapM f = .ok y) {b : β} (hb : b ∈ y) : ∃ a ∈ x, f a = .ok b := by
  cases x with
  | none =>
    obtain rfl : none = y := Except.ok.inj h
    cases hb
  | some a =>
    obtain ⟨c, hc, hy⟩ := bind_eq_ok.mp h
    obtain rfl : some c = y := Except.ok.inj hy
    obtain rfl : c = b := Option.some.inj hb
    exact ⟨a, rfl, hc⟩

/-- Non-negative rates. -/
structure RateTable.NonNegative (t : RateTable) : Prop where
  input : 0 ≤ t.input
  output : 0 ≤ t.output
  cacheRead : ∀ r ∈ t.cacheRead, 0 ≤ r
  cacheWrite5m : ∀ r ∈ t.cacheWrite5m, 0 ≤ r
  cacheWrite1h : ∀ r ∈ t.cacheWrite1h, 0 ≤ r
  cacheWriteOther : ∀ r ∈ t.cacheWriteOther, 0 ≤ r

namespace RateTable

variable {t : RateTable}

theorem NonNegative.set (h : t.NonNegative) (key : PriceKey) {value : Decimal} (hv : 0 ≤ value) :
    (t.set key value).NonNegative := by
  have hsome : ∀ r ∈ some value, 0 ≤ r := fun r hr => Option.some.inj hr ▸ hv
  cases key with
  | input => exact { h with input := hv }
  | output => exact { h with output := hv }
  | cacheRead => exact { h with cacheRead := hsome }
  | cacheWrite5m => exact { h with cacheWrite5m := hsome }
  | cacheWrite1h => exact { h with cacheWrite1h := hsome }
  | cacheWriteOther => exact { h with cacheWriteOther := hsome }

theorem NonNegative.mapRates {f : PriceKey → Decimal → Except PriceError Decimal} {u : RateTable}
    (h : t.NonNegative) (hf : ∀ key v w, 0 ≤ v → f key v = .ok w → 0 ≤ w) (hu : t.mapRates f = .ok u) :
    u.NonNegative := by
  have hopt : ∀ {key : PriceKey} {x y : Option Decimal}, (∀ r ∈ x, 0 ≤ r) → x.mapM (f key) = .ok y →
      ∀ r ∈ y, 0 ≤ r := fun hx hy r hr => by
    obtain ⟨a, ha, hfa⟩ := option_mapM_eq_ok hy hr
    exact hf _ a r (hx a ha) hfa
  obtain ⟨input, h1, hu⟩ := bind_eq_ok.mp hu
  obtain ⟨output, h2, hu⟩ := bind_eq_ok.mp hu
  obtain ⟨cacheRead, h3, hu⟩ := bind_eq_ok.mp hu
  obtain ⟨cacheWrite5m, h4, hu⟩ := bind_eq_ok.mp hu
  obtain ⟨cacheWrite1h, h5, hu⟩ := bind_eq_ok.mp hu
  obtain ⟨cacheWriteOther, h6, hu⟩ := bind_eq_ok.mp hu
  obtain rfl := Except.ok.inj hu
  exact ⟨hf _ _ _ h.input h1, hf _ _ _ h.output h2, hopt h.cacheRead h3, hopt h.cacheWrite5m h4,
    hopt h.cacheWrite1h h5, hopt h.cacheWriteOther h6⟩

theorem NonNegative.scale {targets : PriceKey → Bool} {factor : Decimal} {u : RateTable} (h : t.NonNegative)
    (hfactor : 0 ≤ factor) (hu : t.scale targets factor = .ok u) : u.NonNegative := by
  refine h.mapRates (fun key v w hv hw => ?_) hu
  split at hw
  · exact multiply_nonneg hv hfactor hw
  · exact Except.ok.inj hw ▸ hv

end RateTable

/-! ### Cards -/

/-- A row of non-negative prices. -/
structure RateRow.NonNegative (row : RateRow) : Prop where
  input : 0 ≤ row.inputUsdPerMtok
  output : 0 ≤ row.outputUsdPerMtok
  cacheRead : ∀ m ∈ row.cacheReadMult, 0 ≤ m
  cacheWrite5m : ∀ m ∈ row.cacheWrite5mMult, 0 ≤ m
  cacheWrite1h : ∀ m ∈ row.cacheWrite1hMult, 0 ≤ m
  cacheWriteOther : ∀ m ∈ row.cacheWriteOtherMult, 0 ≤ m
  perRequest : ∀ e ∈ row.perRequestUsd, 0 ≤ e.2
  longContext : ∀ e ∈ row.longContextUsdPerMtok, 0 ≤ e.2

def Effect.NonNegative : Effect → Prop
  | .multiply factor => 0 ≤ factor
  | .replaceBase input output => (∀ r ∈ input, 0 ≤ r) ∧ ∀ r ∈ output, 0 ≤ r

/-- A card of non-negative prices, as the loaders accept. -/
structure RateCard.NonNegative (card : RateCard) : Prop where
  rows : ∀ layer ∈ card.ranked, ∀ e ∈ layer.2, ∀ row ∈ e.2, row.NonNegative
  modifiers : ∀ m ∈ card.modifiers, m.effect.NonNegative
  contract : ∀ c ∈ card.contract, ∀ m ∈ c.multiplier, 0 ≤ m
  overrides : ∀ o ∈ card.overrides, ∀ e ∈ o.2, 0 ≤ e.2

/-- Resolved rates that are not negative. -/
structure ResolvedRates.NonNegative (r : ResolvedRates) : Prop where
  rates : r.rates.NonNegative
  perRequest : ∀ e ∈ r.perRequest, 0 ≤ e.2

theorem cacheRates_nonneg {row : RateRow} {base : Decimal × Decimal} {t : RateTable} (h : row.NonNegative)
    (h1 : 0 ≤ base.1) (h2 : 0 ≤ base.2) (ht : cacheRates row base = .ok t) : t.NonNegative := by
  have hopt : ∀ {x y : Option Decimal}, (∀ r ∈ x, 0 ≤ r) → x.mapM (multiply base.1) = .ok y → ∀ r ∈ y, 0 ≤ r :=
    fun hx hy r hr => by
      obtain ⟨a, ha, hmul⟩ := option_mapM_eq_ok hy hr
      exact multiply_nonneg h1 (hx a ha) hmul
  obtain ⟨cacheRead, hr, ht⟩ := bind_eq_ok.mp ht
  obtain ⟨cacheWrite5m, h5m, ht⟩ := bind_eq_ok.mp ht
  obtain ⟨cacheWrite1h, h1h, ht⟩ := bind_eq_ok.mp ht
  obtain ⟨cacheWriteOther, ho, ht⟩ := bind_eq_ok.mp ht
  obtain rfl := Except.ok.inj ht
  exact ⟨h1, h2, hopt h.cacheRead hr, hopt h.cacheWrite5m h5m, hopt h.cacheWrite1h h1h, hopt h.cacheWriteOther ho⟩

theorem foldl_set_nonneg {entries : List (PriceKey × Decimal)} (h : ∀ e ∈ entries, 0 ≤ e.2) {t : RateTable}
    (ht : t.NonNegative) : (entries.foldl (fun t e => t.set e.1 e.2) t).NonNegative := by
  induction entries generalizing t with
  | nil => exact ht
  | cons e entries ih =>
    exact ih (fun e he => h e (List.mem_cons_of_mem _ he)) (ht.set e.1 (h e List.mem_cons_self))

theorem bandRates_nonneg {row : RateRow} {t : RateTable} (h : row.NonNegative) (band : Bool) (ht : t.NonNegative) :
    (bandRates row band t).NonNegative := by
  unfold bandRates
  split
  · exact foldl_set_nonneg h.longContext ht
  · exact ht

theorem Modifier.base_nonneg {m : Modifier} {rates : Decimal × Decimal} (hm : m.effect.NonNegative)
    (h : 0 ≤ rates.1 ∧ 0 ≤ rates.2) : 0 ≤ (Modifier.base rates m).1 ∧ 0 ≤ (Modifier.base rates m).2 := by
  unfold Modifier.base
  cases heffect : m.effect with
  | multiply _ => exact h
  | replaceBase input output =>
    rw [heffect] at hm
    have hget : ∀ {x : Option Decimal} {d : Decimal}, (∀ r ∈ x, 0 ≤ r) → 0 ≤ d → 0 ≤ x.getD d := fun {x d} hx hd => by
      cases x with
      | none => exact hd
      | some r => exact hx r rfl
    exact ⟨hget hm.1 h.1, hget hm.2 h.2⟩

variable {u : RateTable}

theorem Modifier.apply_nonneg {m : Modifier} {t : RateTable} (hm : m.effect.NonNegative) (ht : t.NonNegative)
    (h : Modifier.apply t m = .ok u) : u.NonNegative := by
  unfold Modifier.apply at h
  cases heffect : m.effect with
  | multiply factor =>
    rw [heffect] at h hm
    exact ht.scale hm h
  | replaceBase _ _ =>
    rw [heffect] at h
    exact Except.ok.inj h ▸ ht

theorem foldlM_apply_nonneg {mods : List Modifier} (hm : ∀ m ∈ mods, m.effect.NonNegative) {t : RateTable}
    (ht : t.NonNegative) (h : mods.foldlM Modifier.apply t = .ok u) : u.NonNegative := by
  induction mods generalizing t with
  | nil => exact Except.ok.inj h ▸ ht
  | cons m mods ih =>
    rw [List.foldlM_cons] at h
    obtain ⟨v, hv, h⟩ := bind_eq_ok.mp h
    exact ih (fun m hmem => hm m (List.mem_cons_of_mem _ hmem)) (Modifier.apply_nonneg (hm m List.mem_cons_self) ht hv) h

/-! ### Contracts -/

theorem overrideRate_nonneg {e : OverrideKey × Decimal} (he : 0 ≤ e.2) {t : RateTable} (ht : t.NonNegative) :
    (overrideRate t e).NonNegative := by
  unfold overrideRate
  cases e.1 with
  | rate key => exact ht.set key he
  | webSearch => exact ht

theorem overrideRequest_nonneg {e : OverrideKey × Decimal} (he : 0 ≤ e.2) {table : List (String × Decimal)}
    (ht : ∀ x ∈ table, 0 ≤ x.2) : ∀ x ∈ overrideRequest table e, 0 ≤ x.2 := by
  unfold overrideRequest
  cases e.1 with
  | rate key => exact ht
  | webSearch =>
    intro x hx
    rcases mem_of_mem_upsert hx with rfl | hx
    · exact he
    · exact ht x hx

theorem contractRates_nonneg {c : ContractOverlay} {overrides : List (OverrideKey × Decimal)} {t : RateTable}
    {table table' : List (String × Decimal)} (hc : ∀ m ∈ c.multiplier, 0 ≤ m) (ho : ∀ e ∈ overrides, 0 ≤ e.2)
    (ht : t.NonNegative) (htable : ∀ e ∈ table, 0 ≤ e.2)
    (h : contractRates c overrides t table = .ok (u, table')) : u.NonNegative ∧ ∀ e ∈ table', 0 ≤ e.2 := by
  have ht := List.foldlRecOn (motive := RateTable.NonNegative) overrides overrideRate ht
    fun t ht e he => overrideRate_nonneg (ho e he) ht
  have htable := List.foldlRecOn (motive := fun table => ∀ e ∈ table, 0 ≤ e.2) overrides overrideRequest htable
    fun t ht e he => overrideRequest_nonneg (ho e he) ht
  unfold contractRates at h
  cases hm : c.multiplier with
  | none =>
    rw [hm] at h
    obtain ⟨rfl, rfl⟩ := Prod.mk.inj (Except.ok.inj h)
    exact ⟨ht, htable⟩
  | some factor =>
    rw [hm] at h
    have hfactor := hc factor hm
    obtain ⟨v, hv, h⟩ := bind_eq_ok.mp h
    obtain ⟨scaled, hscaled, h⟩ := bind_eq_ok.mp h
    obtain ⟨rfl, rfl⟩ := Prod.mk.inj (Except.ok.inj h)
    refine ⟨ht.scale hfactor hv, fun e he => ?_⟩
    obtain ⟨x, hx, hxe⟩ := exists_of_mem_right (mapM_eq_ok.mp hscaled) he
    split at hxe
    · exact Except.ok.inj hxe ▸ htable x hx
    · obtain ⟨w, hw, rfl⟩ := map_eq_ok.mp hxe
      exact multiply_nonneg (htable x hx) hfactor hw

/-! ### Resolution -/

namespace RateCard

variable {card : RateCard}

variable {ctx : PricingContext} {row : RateRow} {date : Int} {kind : LayerKind} {r : ResolvedRates}
  {channel model : String}

theorem mem_applicable {scope : String} {m : Modifier} (h : m ∈ card.applicable row ctx scope) : m ∈ card.modifiers := (List.mem_filter.mp h).1

theorem build_nonneg (hcard : card.NonNegative) (hrow : row.NonNegative) {scope : String} {band : Bool}
    (h : card.build row kind ctx date scope band = .ok r) : r.NonNegative := by
  have hmods : ∀ m ∈ card.applicable row ctx scope, m.effect.NonNegative :=
    fun m hm => hcard.modifiers m (mem_applicable hm)
  have hbase := List.foldlRecOn (motive := fun rates => 0 ≤ rates.1 ∧ 0 ≤ rates.2)
    (card.applicable row ctx scope) Modifier.base (b := (row.inputUsdPerMtok, row.outputUsdPerMtok))
    ⟨hrow.input, hrow.output⟩ fun rates hrates m hm => Modifier.base_nonneg (hmods m hm) hrates
  obtain ⟨t, ht, h⟩ := bind_eq_ok.mp h
  obtain ⟨u, hu, h⟩ := bind_eq_ok.mp h
  have ht := bandRates_nonneg hrow band (cacheRates_nonneg hrow hbase.1 hbase.2 ht)
  have hu := foldlM_apply_nonneg hmods ht hu
  cases hc : card.contractFor ctx date with
  | none =>
    rw [hc] at h
    obtain rfl := Except.ok.inj h
    exact ⟨hu, hrow.perRequest⟩
  | some c =>
    rw [hc] at h
    obtain ⟨⟨v, table⟩, hv, h⟩ := bind_eq_ok.mp h
    obtain rfl := Except.ok.inj h
    have hmem : c ∈ card.contract := (Option.filter_eq_some_iff.mp hc).1
    have hover : ∀ e ∈ (card.overrides.lookup row.model).getD [], 0 ≤ e.2 := fun e he => by
      cases hl : card.overrides.lookup row.model with
      | none =>
        rw [hl] at he
        cases he
      | some entries =>
        rw [hl] at he
        exact hcard.overrides _ (mem_of_lookup hl) e he
    obtain ⟨hv, htable⟩ := contractRates_nonneg (hcard.contract c hmem) hover hu hrow.perRequest hv
    exact ⟨hv, htable⟩

theorem rates_nonneg (hcard : card.NonNegative) (hrow : row.NonNegative) {band : Bool} {high : Option ResolvedRates}
    (h : card.rates row kind ctx date band = .ok (r, high)) : r.NonNegative ∧ ∀ top ∈ high, top.NonNegative := by
  unfold rates at h
  split at h
  · obtain ⟨low, hlow, h⟩ := bind_eq_ok.mp h
    obtain ⟨top, htop, h⟩ := bind_eq_ok.mp h
    obtain ⟨rfl, rfl⟩ := Prod.mk.inj (Except.ok.inj h)
    exact ⟨build_nonneg hcard hrow hlow, fun t ht => Option.some.inj ht ▸ build_nonneg hcard hrow htop⟩
  · obtain ⟨low, hlow, heq⟩ := map_eq_ok.mp h
    obtain ⟨rfl, rfl⟩ := Prod.mk.inj heq
    exact ⟨build_nonneg hcard hrow hlow, fun _ ht => by cases ht⟩

theorem candidates_nonneg (hcard : card.NonNegative) {r : LayerKind × RateRow}
    (h : r ∈ card.candidates channel model) : r.2.NonNegative := by
  obtain ⟨layer, hlayer, h⟩ := List.mem_flatMap.mp h
  obtain ⟨key, -, h⟩ := List.mem_flatMap.mp h
  obtain ⟨row, hrow, rfl⟩ := List.mem_map.mp h
  cases hl : layer.2.find? fun e => decide (e.1 = key) with
  | none =>
    rw [hl] at hrow
    cases hrow
  | some rows =>
    rw [hl] at hrow
    exact hcard.rows layer hlayer _ (List.mem_of_find?_eq_some hl) row hrow

theorem rowsFor_nonneg (hcard : card.NonNegative) {r : LayerKind × RateRow}
    (h : r ∈ card.rowsFor channel model) : r.2.NonNegative := by
  unfold rowsFor at h
  dsimp only at h
  split at h
  · exact candidates_nonneg hcard h
  · exact candidates_nonneg hcard h

theorem find_nonneg (hcard : card.NonNegative) (h : card.find channel model date = .ok (row, kind)) : row.NonNegative := by
  unfold find at h
  dsimp only at h
  split at h
  · cases h
  · split at h
    · cases h
    · split at h
      · rename_i hfind
        split at h
        · obtain ⟨rfl, rfl⟩ := Prod.mk.inj (Except.ok.inj h)
          exact rowsFor_nonneg hcard (List.mem_of_find?_eq_some hfind)
        · cases h
      · split at h
        · cases h
        · split at h <;> cases h

theorem resolve_nonneg (hcard : card.NonNegative) {tsMs : Int} {totalInput : Nat}
    {band : Option Bool} {high : Option ResolvedRates}
    (h : card.resolve ctx tsMs totalInput band = .ok (.priced r high row)) :
    r.NonNegative ∧ ∀ top ∈ high, top.NonNegative := by
  obtain ⟨date, -, h⟩ := bind_eq_ok.mp h
  cases hfind : card.find ctx.channel ctx.model date with
  | error reason =>
    rw [hfind] at h
    cases Except.ok.inj h
  | ok found =>
    rw [hfind] at h
    obtain ⟨⟨r', high'⟩, hrates, h⟩ := bind_eq_ok.mp h
    obtain ⟨rfl, rfl, rfl⟩ := Resolved.priced.inj (Except.ok.inj h)
    exact rates_nonneg hcard (find_nonneg hcard hfind) hrates

end RateCard

end TokenBill.Rates
