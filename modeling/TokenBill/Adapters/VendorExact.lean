import TokenBill.Adapters.VendorCells

/-!
# Vendor costs are summed exactly in any order

The run keeps that every cell sums up its calls. What is emitted then depends on the calls only, under distinct ids, and
the rounded amounts add up with their remainders to the exact sum.
-/

namespace TokenBill.VendorCosts

open General Kanon List

variable {h : Hashes} {o : Options} {calls calls' : List Call} {r : Read}

/-! ### The run -/

/-- What a read keeps: its cells sum up the calls that were recorded. -/
structure Inv (o : Options) (r : Read) (calls : List Call) : Prop where
  aggs : Summarizes AggCall.key AggSums r.aggs (recordedAggs o calls)
  costs : Summarizes CostCall.key CostSums r.costs (recordedCosts o calls)

/-- A call that is not recorded changes no cell. -/
theorem rejected_call {c : Call} (hc : (r.call o c).2 = false) :
    (r.call o c).1.aggs = r.aggs ∧ (r.call o c).1.costs = r.costs := by
  cases c with
  | aggregate c =>
    unfold Read.call at hc ⊢
    dsimp only at hc ⊢
    cases hadd : addAggregate o r c with
    | error e => exact ⟨rfl, rfl⟩
    | ok done =>
      rw [hadd] at hc
      unfold addAggregate at hadd
      split at hadd
      · cases hadd
      · split at hadd
        · obtain rfl := Except.ok.inj hadd
          exact ⟨rfl, rfl⟩
        · obtain ⟨total, -, hadd⟩ := bind_eq_ok.mp hadd
          obtain rfl := Except.ok.inj hadd
          cases hc
  | cost c =>
    unfold Read.call addCost at hc ⊢
    dsimp only at hc ⊢
    split at hc
    · rename_i hout
      rw [if_pos hout]
      exact ⟨rfl, rfl⟩
    · cases hc

theorem fibre_append_self {α κ : Type} [DecidableEq κ] (key : α → κ) (xs : List α) (x : α) :
    fibre key (xs ++ [x]) (key x) = fibre key xs (key x) ++ [x] := by
  unfold fibre
  rw [filter_append]
  simp

/-- A usage goes to the cell of its key. -/
theorem Inv.aggregate (hinv : Inv o r calls) {c : AggCall} (hfit : TokensFit o (calls ++ [.aggregate c])) :
    Inv o (r.call o (.aggregate c)).1 (calls ++ [.aggregate c]) := by
  have hcosts : recordedCosts o (calls ++ [.aggregate c]) = recordedCosts o calls := by
    rw [recordedCosts_append]
    exact append_nil _
  by_cases hrec : o.records c = true
  · have haggs : recordedAggs o (calls ++ [.aggregate c]) = recordedAggs o calls ++ [c] := by
      rw [recordedAggs_append]
      simp [recordedAggs, hrec]
    have hkey := hfit c.key
    rw [haggs, fibre_append_self] at hkey
    obtain ⟨horder, hwindow⟩ := (Bool.and_eq_true _ _).mp hrec
    have horder : ¬c.endMs < c.startMs := by simpa using horder
    -- the cell of the key before, and with the call
    obtain ⟨total, htotal, hsums⟩ : ∃ total, totalUsage (r.aggs.lookup c.key) c.usage = .ok total ∧
        AggSums (fibre AggCall.key (recordedAggs o calls) c.key ++ [c])
          (((r.aggs.lookup c.key).getD ⟨.empty, 0, 0, 0, 0, none, 0⟩).after total c) := by
      cases hcell : r.aggs.lookup c.key with
      | none =>
        have hnil := hinv.aggs.fibre_of_none hcell
        refine ⟨c.usage, rfl, ?_⟩
        rw [hnil, nil_append]
        refine ⟨?_, ⟨c.sourceKind, by simp, (AmountSums.nil c.sourceKind _).add c.usage⟩, cons_ne_nil _ _⟩
        rw [usage_after]
        exact UsageSums.single c
      | some cell =>
        have hcell := hinv.aggs.sums_of_some hcell
        obtain ⟨total, htotal⟩ := hcell.usage.add_ok hkey
        obtain ⟨kind, hkind, hamounts⟩ := hcell.amounts
        obtain ⟨c', hc'⟩ := exists_mem_of_ne_nil _ hcell.ne
        have hsource : c'.sourceKind = c.sourceKind :=
          congrArg AggKey.sourceKind (of_decide_eq_true (mem_filter.mp hc').2)
        obtain rfl : kind = c.sourceKind := (hkind c' hc').symm.trans hsource
        refine ⟨total, ?_, ?_, ⟨c.sourceKind, ?_, hamounts.add total⟩, by simp⟩
        · unfold totalUsage
          dsimp only
          rw [htotal]
        · rw [usage_after]
          exact hcell.usage.add htotal
        · intro c'' hc''
          rcases mem_append.mp hc'' with hc'' | hc''
          · exact hkind c'' hc''
          · rw [mem_singleton.mp hc'']
    have hadd : (r.call o (.aggregate c)).1.aggs = upsert (·.1) (c.key,
        ((r.aggs.lookup c.key).getD ⟨.empty, 0, 0, 0, 0, none, 0⟩).after total c) r.aggs ∧
          (r.call o (.aggregate c)).1.costs = r.costs := by
      unfold Read.call addAggregate
      dsimp only
      rw [if_neg horder, hwindow, htotal]
      exact ⟨rfl, rfl⟩
    refine ⟨?_, ?_⟩
    · rw [haggs, hadd.1]
      exact hinv.aggs.add hsums
    · rw [hcosts, hadd.2]
      exact hinv.costs
  · have haggs : recordedAggs o (calls ++ [.aggregate c]) = recordedAggs o calls := by
      rw [recordedAggs_append]
      simp [recordedAggs, hrec]
    have hrejected : (r.call o (.aggregate c)).2 = false := by
      unfold Read.call addAggregate
      dsimp only
      unfold Options.records at hrec
      by_cases horder : c.endMs < c.startMs
      · rw [if_pos horder]
      · have hwindow : o.inWindow c.startMs = false := by simpa [horder] using hrec
        rw [if_neg horder, hwindow]
        rfl
    obtain ⟨hsame, hsame'⟩ := rejected_call hrejected
    exact ⟨by rw [haggs, hsame]; exact hinv.aggs, by rw [hcosts, hsame']; exact hinv.costs⟩

theorem Inv.cost (hinv : Inv o r calls) (c : CostCall) : Inv o (r.call o (.cost c)).1 (calls ++ [.cost c]) := by
  have haggs : recordedAggs o (calls ++ [.cost c]) = recordedAggs o calls := by
    rw [recordedAggs_append]
    exact append_nil _
  by_cases hwindow : o.inWindow (c.key.dateUtc * dayMs) = true
  · have hcosts : recordedCosts o (calls ++ [.cost c]) = recordedCosts o calls ++ [c] := by
      rw [recordedCosts_append]
      simp [recordedCosts, hwindow]
    have hsums : CostSums (fibre CostCall.key (recordedCosts o calls) c.key ++ [c])
        (((r.costs.lookup c.key).getD {}).after c) := by
      refine CostSums.add ?_ c
      cases hcell : r.costs.lookup c.key with
      | none =>
        rw [hinv.costs.fibre_of_none hcell]
        exact CostSums.nil
      | some cell => exact hinv.costs.sums_of_some hcell
    have hadd : (r.call o (.cost c)).1 = { r with
        costs := upsert (·.1) (c.key, ((r.costs.lookup c.key).getD {}).after c) r.costs } := by
      unfold Read.call addCost
      dsimp only
      rw [hwindow]
      rfl
    rw [hadd]
    exact ⟨by rw [haggs]; exact hinv.aggs, by rw [hcosts]; exact hinv.costs.add hsums⟩
  · have hcosts : recordedCosts o (calls ++ [.cost c]) = recordedCosts o calls := by
      rw [recordedCosts_append]
      simp [recordedCosts, hwindow]
    have hrejected : (r.call o (.cost c)).2 = false := by
      unfold Read.call addCost
      dsimp only
      rw [Bool.eq_false_iff.mpr hwindow]
      rfl
    obtain ⟨hsame, hsame'⟩ := rejected_call hrejected
    exact ⟨by rw [haggs, hsame]; exact hinv.aggs, by rw [hcosts, hsame']; exact hinv.costs⟩

theorem TokensFit.of_append {c : Call} (hfit : TokensFit o (calls ++ [c])) : TokensFit o calls := by
  intro k i
  refine (List.Sublist.sum_le_sum ?_ fun _ _ => Nat.zero_le _).trans (hfit k i)
  rw [recordedAggs_append]
  exact ((sublist_append_left _ _).filter _).map _

theorem TokensFit.perm (hfit : TokensFit o calls) (hp : calls.Perm calls') : TokensFit o calls' := fun k i => by
  have hsum := ((((hp.filterMap _).filter _).map _).sum_eq).symm.trans_le (hfit k i)
  exact hsum

theorem run_inv (hfit : TokensFit o calls) : Inv o (run o calls) calls := by
  induction calls using List.reverseRecOn with
  | nil => exact ⟨Summarizes.nil, Summarizes.nil⟩
  | append_singleton calls c ih =>
    have hinv := ih hfit.of_append
    have hrun : run o (calls ++ [c]) = ((run o calls).call o c).1 := by
      unfold run
      rw [foldl_append]
      rfl
    rw [hrun]
    cases c with
    | aggregate c => exact hinv.aggregate hfit
    | cost c => exact hinv.cost c

/-! ### What is emitted -/

theorem aggregates_perm {r' : Read} (hn : (r.aggs.map (·.1)).Nodup) (hp : r.aggs.Perm r'.aggs) :
    aggregates h o r = aggregates h o r' := by
  have hsorted : (r.aggs.insertionSort fun a b => a.1.order ≤ b.1.order) =
      r'.aggs.insertionSort fun a b => a.1.order ≤ b.1.order :=
    sorted_eq (fun a ha b hb hab hba => inj_on_of_nodup_map hn ha (hp.mem_iff.mpr hb)
      (AggKey.order_injective (le_antisymm hab hba))) hp
  unfold aggregates
  rw [hsorted]

theorem costLines_perm {r' : Read} (hn : (r.costs.map (·.1)).Nodup) (hp : r.costs.Perm r'.costs) :
    costLines h o r = costLines h o r' := by
  have hsorted : (r.costs.insertionSort fun a b => a.1.parts ≤ b.1.parts) =
      r'.costs.insertionSort fun a b => a.1.parts ≤ b.1.parts :=
    sorted_eq (fun a ha b hb hab hba => inj_on_of_nodup_map hn ha (hp.mem_iff.mpr hb)
      (CostKey.parts_injective (le_antisymm hab hba))) hp
  unfold costLines
  rw [hsorted]

/-- No two of some ids have one digest of two texts. -/
def NoCollision (h : Hashes) (pre : String) (ids : List (List String)) : Prop :=
  ∀ parts ∈ ids, ∀ parts' ∈ ids, h.stableId pre parts = h.stableId pre parts' →
    "\x1f".intercalate parts = "\x1f".intercalate parts'

/-- An aggregate is that of a key. -/
structure Emitted (h : Hashes) (k : AggKey) (a : UsageAggregate) : Prop where
  aggId : a.aggId = h.stableId "ag" k.parts
  sourceKind : a.sourceKind = k.sourceKind.text
  bucket : (a.bucketStartMs, a.bucketEndMs) = (k.startMs, k.endMs)
  dims : a.dims = k.dims.map fun d => (d.1.text, d.2.text)

theorem aggregateOf_spec {e : AggKey × AggCell} {out : UsageAggregate × Int} (hout : aggregateOf h o e = .ok out) :
    Emitted h e.1 out.1 ∧ out.1.usage = e.2.usage := by
  obtain ⟨reported, -, hout⟩ := bind_eq_ok.mp hout
  obtain ⟨listed, -, hout⟩ := bind_eq_ok.mp hout
  obtain rfl := Except.ok.inj hout
  exact ⟨⟨rfl, rfl, rfl, rfl⟩, rfl⟩

theorem costLineOf_spec {e : CostKey × CostCell} {out : CostLine × Int} (hout : costLineOf h o e = .ok out) :
    out.1.lineId = h.stableId "cl" e.1.parts ∧ scaledToNano e.2.amount = .ok (out.1.amountNano, out.2) := by
  obtain ⟨rounded, hrounded, hout⟩ := bind_eq_ok.mp hout
  obtain ⟨listed, -, hout⟩ := bind_eq_ok.mp hout
  obtain rfl := Except.ok.inj hout
  exact ⟨rfl, hrounded⟩

/-- Aggregates are emitted in the order of their keys, under distinct ids. -/
theorem aggregates_spec {out : List UsageAggregate × Int} (hn : (r.aggs.map (·.1)).Nodup)
    (hout : aggregates h o r = .ok out) :
    List.Forall₂ (fun e a => Emitted h e.1 a ∧ a.usage = e.2.usage)
        (r.aggs.insertionSort fun a b => a.1.order ≤ b.1.order) out.1 ∧
      (NoCollision h "ag" (r.aggs.map fun e => e.1.parts) → (out.1.map (·.aggId)).Nodup) := by
  obtain ⟨done, hdone, hout⟩ := bind_eq_ok.mp hout
  obtain rfl := Except.ok.inj hout
  have hall : List.Forall₂ (fun e a => Emitted h e.1 a ∧ a.usage = e.2.usage)
      (r.aggs.insertionSort fun a b => a.1.order ≤ b.1.order) (done.map (·.1)) := by
    rw [forall₂_map_right_iff]
    exact (mapM_eq_ok.mp hdone).imp fun e a ha => aggregateOf_spec ha
  refine ⟨hall, fun hfree => ?_⟩
  have hids : (r.aggs.insertionSort fun a b => a.1.order ≤ b.1.order).map (fun e => h.stableId "ag" e.1.parts) =
      (done.map (·.1)).map (·.aggId) := map_eq_of_forall₂ (hall.imp fun e a ha => ha.1.aggId.symm)
  have hperm : (r.aggs.insertionSort fun a b => a.1.order ≤ b.1.order).Perm r.aggs := perm_insertionSort _ _
  rw [← hids, (hperm.map _).nodup_iff]
  refine List.Nodup.map_on (fun e he e' he' heq => ?_) hn.of_map
  exact inj_on_of_nodup_map hn he he' (AggKey.text_injective (hfree _ (mem_map_of_mem he) _
    (mem_map_of_mem he') heq))

/-- The rounded amounts of some cells add up with their remainders. -/
theorem sum_rounded {cells : List (CostKey × CostCell)} {done : List (CostLine × Int)}
    (hall : List.Forall₂ (fun e a => scaledToNano e.2.amount = .ok (a.1.amountNano, a.2)) cells done)
    (hfine : ∀ e ∈ cells, Fine e.2.amount) :
    ((done.map (·.1.amountNano)).sum : ℚ) / 10 ^ 9 + ((done.map (·.2)).sum : Int) / 10 ^ 18 =
      (cells.map fun e => usdOf e.2.amount).sum := by
  induction hall with
  | nil => simp
  | @cons e a cells done ha _ ih =>
    have hexact := (scaledToNano_spec ha).2 (hfine e mem_cons_self)
    have ih := ih fun e he => hfine e (mem_cons_of_mem _ he)
    rw [map_cons, sum_cons, map_cons, sum_cons, map_cons, sum_cons, ← hexact, ← ih]
    push_cast
    ring

/-- Cost lines have distinct ids, and add up with their remainders to the amounts of their cells. -/
theorem costLines_spec {out : List CostLine × Int} (hn : (r.costs.map (·.1)).Nodup)
    (hout : costLines h o r = .ok out) :
    (NoCollision h "cl" (r.costs.map fun e => e.1.parts) → (out.1.map (·.lineId)).Nodup) ∧
      ((∀ e ∈ r.costs, Fine e.2.amount) → ((out.1.map (·.amountNano)).sum : ℚ) / 10 ^ 9 + out.2 / 10 ^ 18 =
        usdOf (r.costs.map fun e => e.2.amount).sum) := by
  obtain ⟨done, hdone, hout⟩ := bind_eq_ok.mp hout
  obtain rfl := Except.ok.inj hout
  have hall := (mapM_eq_ok.mp hdone).imp fun e a ha => costLineOf_spec ha
  have hperm : (r.costs.insertionSort fun a b => a.1.parts ≤ b.1.parts).Perm r.costs := perm_insertionSort _ _
  constructor
  · intro hfree
    have hids : (r.costs.insertionSort fun a b => a.1.parts ≤ b.1.parts).map (fun e => h.stableId "cl" e.1.parts) =
        done.map fun a => a.1.lineId := map_eq_of_forall₂ (hall.imp fun e a ha => ha.1.symm)
    rw [map_map]
    change (done.map fun a => a.1.lineId).Nodup
    rw [← hids, (hperm.map _).nodup_iff]
    refine List.Nodup.map_on (fun e he e' he' heq => ?_) hn.of_map
    exact inj_on_of_nodup_map hn he he' (CostKey.text_injective (hfree _ (mem_map_of_mem he) _
      (mem_map_of_mem he') heq))
  · intro hfine
    have hsum := sum_rounded (hall.imp fun e a ha => ha.2) fun e he => hfine e (hperm.mem_iff.mp he)
    have htotal : ((r.costs.map fun e => e.2.amount).map usdOf).sum =
        ((r.costs.insertionSort fun a b => a.1.parts ≤ b.1.parts).map fun e => usdOf e.2.amount).sum := by
      rw [map_map]
      exact ((hperm.map _).sum_eq).symm
    rw [usdOf_sum, htotal, ← hsum, map_map]
    rfl

/-! ### Every amount in range is emitted -/

/-- A sum of amounts is below `10 ^ 4000` nano-dollars. -/
def Small (amounts : List Int) : Prop := |usdOf amounts.sum| * 10 ^ 9 < 10 ^ 4000

/-- The amounts of every key are in range. -/
structure AmountsFit (o : Options) (calls : List Call) : Prop where
  reported : ∀ k, Small ((fibre AggCall.key (recordedAggs o calls) k).map fun c => c.cost.getD 0)
  reportedListed : ∀ k, Small ((fibre AggCall.key (recordedAggs o calls) k).map fun c => c.listed.getD 0)
  amount : ∀ k, Small ((fibre CostCall.key (recordedCosts o calls) k).map (·.amount))
  listed : ∀ k, Small ((fibre CostCall.key (recordedCosts o calls) k).map fun c => c.listed.getD 0)

theorem scaledIf_ok (n : Nat) {scaled : Int} (hsmall : |usdOf scaled| * 10 ^ 9 < 10 ^ 4000) :
    ∃ out, scaledIf n scaled = .ok out := by
  unfold scaledIf
  split
  · obtain ⟨out, hout⟩ := scaledToNano_ok hsmall
    exact ⟨some out, by rw [hout]; rfl⟩
  · exact ⟨none, rfl⟩

theorem Inv.aggregates_ok (hinv : Inv o r calls) (hfit : AmountsFit o calls) : ∃ out, aggregates h o r = .ok out := by
  obtain ⟨done, hdone⟩ : ∃ done, (r.aggs.insertionSort fun a b => a.1.order ≤ b.1.order).mapM (aggregateOf h o) =
      .ok done := by
    refine mapM_exists_ok fun e he => ?_
    obtain ⟨kind, -, hamounts⟩ := (hinv.aggs.cells ((perm_insertionSort _ _).mem_iff.mp he)).amounts
    have hcost : |usdOf e.2.cost| * 10 ^ 9 < 10 ^ 4000 := by
      rw [hamounts.cost]
      exact hfit.reported e.1
    have hlist : |usdOf e.2.listed| * 10 ^ 9 < 10 ^ 4000 := by
      rw [hamounts.listed]
      exact hfit.reportedListed e.1
    obtain ⟨reported, hreported⟩ := scaledIf_ok e.2.nCost hcost
    obtain ⟨listed, hlisted⟩ := scaledIf_ok e.2.nList hlist
    exact ⟨_, bind_eq_ok.mpr ⟨reported, hreported, bind_eq_ok.mpr ⟨listed, hlisted, rfl⟩⟩⟩
  exact ⟨_, bind_eq_ok.mpr ⟨done, hdone, rfl⟩⟩

theorem Inv.costLines_ok (hinv : Inv o r calls) (hfit : AmountsFit o calls) : ∃ out, costLines h o r = .ok out := by
  obtain ⟨done, hdone⟩ : ∃ done, (r.costs.insertionSort fun a b => a.1.parts ≤ b.1.parts).mapM (costLineOf h o) =
      .ok done := by
    refine mapM_exists_ok fun e he => ?_
    have hsums := hinv.costs.cells ((perm_insertionSort _ _).mem_iff.mp he)
    have hcost : |usdOf e.2.amount| * 10 ^ 9 < 10 ^ 4000 := by
      rw [hsums.amount]
      exact hfit.amount e.1
    have hlist : |usdOf e.2.listed| * 10 ^ 9 < 10 ^ 4000 := by
      rw [hsums.listed]
      exact hfit.listed e.1
    obtain ⟨rounded, hrounded⟩ := scaledToNano_ok hcost
    obtain ⟨listed, hlisted⟩ := scaledIf_ok e.2.nList hlist
    exact ⟨_, bind_eq_ok.mpr ⟨rounded, hrounded, bind_eq_ok.mpr ⟨listed, hlisted, rfl⟩⟩⟩
  exact ⟨_, bind_eq_ok.mpr ⟨done, hdone, rfl⟩⟩

/-- The ids of the cells are those of the calls. -/
theorem NoCollision.of_summarizes {α κ σ : Type} [DecidableEq κ] {key : α → κ} {Sums : List α → σ → Prop}
    {table : List (κ × σ)} {xs : List α} {pre : String} {parts : κ → List String} (hs : Summarizes key Sums table xs)
    (hfree : NoCollision h pre (xs.map fun x => parts (key x))) : NoCollision h pre (table.map fun e => parts e.1) := by
  have hsub : ∀ p ∈ table.map (fun e => parts e.1), p ∈ xs.map fun x => parts (key x) := by
    intro p hp
    obtain ⟨e, he, rfl⟩ := mem_map.mp hp
    obtain ⟨x, hx, hk⟩ := (hs.keys e.1).mp (mem_map_of_mem he)
    exact mem_map.mpr ⟨x, hx, by rw [hk]⟩
  exact fun p hp q hq => hfree p (hsub p hp) q (hsub q hq)

/-- Vendor costs are summed exactly in any order: what is emitted depends on the multiset of the calls, has distinct ids,
and adds up to the calls, and a call that is rejected changes no cell. -/
theorem vendor_costs_sum_exactly (h : Hashes) (o : Options) {calls calls' : List Call} (hp : calls.Perm calls')
    (hfit : TokensFit o calls) :
    (aggregates h o (run o calls) = aggregates h o (run o calls') ∧
      costLines h o (run o calls) = costLines h o (run o calls')) ∧
    (AmountsFit o calls →
      (∃ out, aggregates h o (run o calls) = .ok out) ∧ ∃ out, costLines h o (run o calls) = .ok out) ∧
    (∀ out, aggregates h o (run o calls) = .ok out →
      (NoCollision h "ag" ((recordedAggs o calls).map fun c => c.key.parts) → (out.1.map (·.aggId)).Nodup) ∧
      ∃ keys : List AggKey, keys.Nodup ∧ (∀ k, k ∈ keys ↔ ∃ c ∈ recordedAggs o calls, c.key = k) ∧
        List.Forall₂ (fun k a => Emitted h k a ∧ UsageSums (fibre AggCall.key (recordedAggs o calls) k) a.usage)
          keys out.1) ∧
    (∀ out, costLines h o (run o calls) = .ok out →
      (NoCollision h "cl" ((recordedCosts o calls).map fun c => c.key.parts) → (out.1.map (·.lineId)).Nodup) ∧
      ((∀ c ∈ recordedCosts o calls, Fine c.amount) →
        ((out.1.map (·.amountNano)).sum : ℚ) / 10 ^ 9 + out.2 / 10 ^ 18 =
          usdOf ((recordedCosts o calls).map (·.amount)).sum)) ∧
    (∀ value fieldName cents scaled, moneyScaled value fieldName cents = .ok scaled →
      ∃ d, value.number = some (.finite d) ∧ usdOf scaled = d.toRat / if cents then 100 else 1) ∧
    ∀ (r : Read) (c : Call), (r.call o c).2 = false →
      (r.call o c).1.aggs = r.aggs ∧ (r.call o c).1.costs = r.costs := by
  have hinv := run_inv hfit
  have hinv' := run_inv (hfit.perm hp)
  have haggs : (recordedAggs o calls).Perm (recordedAggs o calls') := hp.filterMap _
  have hcosts : (recordedCosts o calls).Perm (recordedCosts o calls') := hp.filterMap _
  refine ⟨⟨aggregates_perm hinv.aggs.nodup (hinv.aggs.perm hinv'.aggs haggs AggSums.unique),
    costLines_perm hinv.costs.nodup (hinv.costs.perm hinv'.costs hcosts CostSums.unique)⟩,
    fun hsmall => ⟨hinv.aggregates_ok hsmall, hinv.costLines_ok hsmall⟩, fun out hout => ?_, fun out hout => ?_,
    fun _ _ _ _ => moneyScaled_exact, fun _ _ => rejected_call⟩
  · obtain ⟨hall, hids⟩ := aggregates_spec hinv.aggs.nodup hout
    have hperm : ((run o calls).aggs.insertionSort fun a b => a.1.order ≤ b.1.order).Perm (run o calls).aggs :=
      perm_insertionSort _ _
    refine ⟨fun hfree => hids (hfree.of_summarizes hinv.aggs),
      ((run o calls).aggs.insertionSort fun a b => a.1.order ≤ b.1.order).map (·.1),
      (hperm.map _).nodup_iff.mpr hinv.aggs.nodup,
      fun k => (hperm.map _).mem_iff.trans (hinv.aggs.keys k), ?_⟩
    rw [forall₂_map_left_iff]
    exact forall₂_imp_of_mem hall fun e he a _ ha =>
      ⟨ha.1, ha.2 ▸ (hinv.aggs.cells (hperm.mem_iff.mp he)).usage⟩
  · obtain ⟨hids, hsum⟩ := costLines_spec hinv.costs.nodup hout
    refine ⟨fun hfree => hids (hfree.of_summarizes hinv.costs), fun hfine => ?_⟩
    have hcells : ∀ e ∈ (run o calls).costs, Fine e.2.amount := by
      intro e he
      rw [(hinv.costs.cells he).amount]
      refine Fine.sum fun a ha => ?_
      obtain ⟨c, hc, rfl⟩ := mem_map.mp ha
      exact hfine c (mem_filter.mp hc).1
    rw [hsum hcells, hinv.costs.sum fun hs => hs.amount]

def sampleCost (amount : Int) : CostCall where
  key := ⟨⟨"aws.cur2", by decide, by decide⟩, 20000, ⟨"bedrock", by decide, by decide⟩, none, none, none, none, none, none,
    none, none, none, none⟩
  amount := amount

/-- The usage of one row. -/
def sampleUsage : AggCall where
  sourceKind := ⟨"aws.cur2", by decide, by decide⟩
  startMs := 0
  endMs := dayMs
  dims := [(⟨"team", by decide, by decide⟩, some ⟨"core", by decide, by decide⟩), (⟨"sku", by decide, by decide⟩, none)]
  usage := ⟨{ uncachedInput := 10 }, by decide⟩
  distinct := by decide
  basis_eq h := absurd rfl h
  ttl := nofun

def sampleCalls : List Call :=
  [.aggregate sampleUsage, .cost (sampleCost (5 * 10 ^ 200)), .cost (sampleCost (10 ^ 201))]

theorem sampleCalls_fit : TokensFit {} sampleCalls := by
  intro k i
  have hle : ((fibre AggCall.key (recordedAggs {} sampleCalls) k).map fun c => count c.usage.toUsageCounts i).sum ≤
      ((recordedAggs {} sampleCalls).map fun c => count c.usage.toUsageCounts i).sum :=
    (filter_sublist.map _).sum_le_sum fun _ _ => Nat.zero_le _
  have hrec : recordedAggs {} sampleCalls = [sampleUsage] := rfl
  rw [hrec] at hle
  refine hle.trans ?_
  cases i <;> decide

/-- The last row may come first. -/
theorem sample_costs_sum :
    aggregates ⟨id, fun _ => id, id⟩ {} (run {} sampleCalls) =
        aggregates ⟨id, fun _ => id, id⟩ {} (run {} sampleCalls.reverse) ∧
      costLines ⟨id, fun _ => id, id⟩ {} (run {} sampleCalls) =
        costLines ⟨id, fun _ => id, id⟩ {} (run {} sampleCalls.reverse) :=
  (vendor_costs_sum_exactly _ _ (reverse_perm _).symm sampleCalls_fit).1

end TokenBill.VendorCosts
