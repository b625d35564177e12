import TokenBill.Adapters.VendorCosts
import TokenBill.Copilot.RecordKeys
import TokenBill.Core.Addable
import TokenBill.General.GroupSums

/-!
# What the cells of a read hold

Each cell sums up the calls that were recorded under its key: the tokens of every bucket, the amounts, how many calls
had a cost or a list price, the last fetch. None of it depends on the order of the calls.
-/

namespace TokenBill.VendorCosts

open General Kanon
open List hiding count

variable {o : Options} {calls calls' : List Call} {r : Read}

/-! ### The calls that are recorded -/

def Options.records (o : Options) (c : AggCall) : Bool := !decide (c.endMs < c.startMs) && o.inWindow c.startMs

/-- The usage that is recorded, where no sum is out of range. -/
def recordedAggs (o : Options) (calls : List Call) : List AggCall :=
  calls.filterMap fun
    | .aggregate c => if o.records c then some c else none
    | .cost _ => none

/-- The costs that are recorded. -/
def recordedCosts (o : Options) (calls : List Call) : List CostCall :=
  calls.filterMap fun
    | .aggregate _ => none
    | .cost c => if o.inWindow (c.key.dateUtc * dayMs) then some c else none

/-- The tokens of every bucket stay within `2 ^ 53` under each key. -/
def TokensFit (o : Options) (calls : List Call) : Prop :=
  ∀ k i, ((fibre AggCall.key (recordedAggs o calls) k).map fun c => count c.usage.toUsageCounts i).sum ≤ maxTokens

theorem recordedAggs_append (calls : List Call) (c : Call) :
    recordedAggs o (calls ++ [c]) = recordedAggs o calls ++ recordedAggs o [c] := filterMap_append

theorem recordedCosts_append (calls : List Call) (c : Call) :
    recordedCosts o (calls ++ [c]) = recordedCosts o calls ++ recordedCosts o [c] := filterMap_append

/-! ### Usage -/

/-- A usage is the sum of those of some calls. -/
structure UsageSums (l : List AggCall) (u : UsageBuckets) : Prop where
  counts : ∀ i, count u.toUsageCounts i = (l.map fun c => count c.usage.toUsageCounts i).sum
  reasoning : reasoning u.toUsageCounts = (l.map fun c => reasoning c.usage.toUsageCounts).sum
  ttl : u.cacheWriteOtherTtlS = if ∀ c ∈ l, c.usage.cacheWriteOtherTtlS = none then none else some openaiWriteTtlS

theorem ttl_eq (c : AggCall) : c.usage.cacheWriteOtherTtlS =
    if c.usage.cacheWriteOtherTtlS = none then none else some openaiWriteTtlS := by
  cases h : c.usage.cacheWriteOtherTtlS with
  | none => rfl
  | some t => rw [if_neg (by simp), c.ttl t h]

theorem UsageSums.single (c : AggCall) : UsageSums [c] c.usage where
  counts i := by simp
  reasoning := by simp
  ttl := by
    simp only [mem_singleton, forall_eq]
    exact ttl_eq c

theorem ttl_add {a b total : UsageBuckets} (h : a.add b = .ok total) :
    total.cacheWriteOtherTtlS = a.cacheWriteOtherTtlS.or b.cacheWriteOtherTtlS := by
  unfold UsageBuckets.add at h
  split at h
  · cases h
  · rw [UsageCounts.build_eq_ok] at h
    rw [h]

variable {c : AggCall} {l l' : List AggCall} {u : UsageBuckets} {cell : AggCell}

theorem UsageSums.add {total : UsageBuckets} (h : UsageSums l u)
    (hadd : u.add c.usage = .ok total) : UsageSums (l ++ [c]) total where
  counts i := by
    rw [(count_add hadd).1, Pi.add_apply, h.counts]
    simp
  reasoning := by
    rw [(count_add hadd).2, h.reasoning]
    simp
  ttl := by
    rw [ttl_add hadd, h.ttl, ttl_eq c]
    by_cases hl : ∀ c ∈ l, c.usage.cacheWriteOtherTtlS = none
    · rw [if_pos hl, Option.none_or]
      refine if_congr ⟨fun hc c' hc' => ?_, fun hall => hall c (by simp)⟩ rfl rfl
      rcases mem_append.mp hc' with hc' | hc'
      · exact hl c' hc'
      · rw [mem_singleton.mp hc', hc]
    · have hnot : ¬∀ c' ∈ l ++ [c], c'.usage.cacheWriteOtherTtlS = none :=
        fun hall => hl fun c' hc' => hall c' (mem_append_left _ hc')
      rw [if_neg hl, Option.some_or, if_neg hnot]

/-- A call can be added where the tokens fit. -/
theorem UsageSums.add_ok (h : UsageSums l u)
    (hfit : ∀ i, ((l ++ [c]).map fun c => count c.usage.toUsageCounts i).sum ≤ maxTokens) :
    ∃ total, u.add c.usage = .ok total := by
  refine usage_add_ok (fun i => ?_) fun ta hta tb htb => ?_
  · have := hfit i
    rw [map_append, sum_append, ← h.counts] at this
    simpa using this
  · have hta' := h.ttl
    rw [Option.mem_def.mp hta] at hta'
    split at hta'
    · cases hta'
    · rw [Option.some.inj hta', c.ttl tb htb]

theorem count_inj {a b : UsageCounts} (hc : ∀ i, count a i = count b i) (hr : reasoning a = reasoning b)
    (ht : a.cacheWriteOtherTtlS = b.cacheWriteOtherTtlS) : a = b := by
  have hreasoning : a.outputReasoning = b.outputReasoning := by
    unfold reasoning at hr
    cases ha : a.outputReasoning <;> cases hb : b.outputReasoning <;> rw [ha, hb] at hr
    · exact absurd hr WithTop.top_ne_coe
    · exact absurd hr WithTop.coe_ne_top
    · exact congrArg some (WithTop.coe_injective hr)
  obtain ⟨h1, h2, h3, h4, h5, h6, h7, h8, h9⟩ : _ ∧ _ ∧ _ ∧ _ ∧ _ ∧ _ ∧ _ ∧ _ ∧ _ :=
    ⟨hc .uncachedInput, hc .cacheRead, hc .cacheWrite5m, hc .cacheWrite1h, hc .cacheWriteOther, hc .cacheWriteUnknown,
      hc .output, hc .webSearchRequests, hc .webFetchRequests⟩
  simp only [count] at h1 h2 h3 h4 h5 h6 h7 h8 h9
  cases a
  cases b
  simp_all

theorem UsageSums.unique {u' : UsageBuckets} (hp : l.Perm l') (h : UsageSums l u) (h' : UsageSums l' u') : u = u' := by
  have hcounts : u.toUsageCounts = u'.toUsageCounts := by
    refine count_inj (fun i => ?_) ?_ ?_
    · rw [h.counts, h'.counts, (hp.map _).sum_eq]
    · rw [h.reasoning, h'.reasoning, (hp.map _).sum_eq]
    · rw [h.ttl, h'.ttl]
      exact if_congr (forall_congr' fun c => imp_congr_left hp.mem_iff) rfl rfl
  cases u
  cases u'
  simpa using hcounts

/-! ### Cells of usage -/

/-- The amounts of a cell are those of some calls of one source. -/
structure AmountSums (kind : Label) (l : List AggCall) (cell : AggCell) : Prop where
  cost : cell.cost = (l.map fun c => c.cost.getD 0).sum
  nCost : cell.nCost = l.countP fun c => c.cost.isSome
  listed : cell.listed = (l.map fun c => c.listed.getD 0).sum
  nList : cell.nList = l.countP fun c => c.listed.isSome
  basis : cell.basis = if ∀ c ∈ l, c.cost = none then none else some (basisOf kind.text)
  fetched : cell.fetchedMs = (l.map (·.fetchedMs)).foldr max 0

theorem foldr_max_append (l : List Nat) (n : Nat) : (l ++ [n]).foldr max 0 = max (l.foldr max 0) n := by
  induction l with
  | nil => simp
  | cons a l ih => rw [cons_append, foldr_cons, ih, foldr_cons, max_assoc]

theorem foldr_max_perm {l l' : List Nat} (h : l.Perm l') : l.foldr max 0 = l'.foldr max 0 :=
  h.foldr_eq 0

theorem AmountSums.nil (kind : Label) (u : UsageBuckets) : AmountSums kind [] ⟨u, 0, 0, 0, 0, none, 0⟩ where
  cost := rfl
  nCost := rfl
  listed := rfl
  nList := rfl
  basis := rfl
  fetched := rfl

theorem AmountSums.add (h : AmountSums c.sourceKind l cell)
    (total : UsageBuckets) : AmountSums c.sourceKind (l ++ [c]) (cell.after total c) where
  cost := by
    unfold AggCell.after
    cases hcost : c.cost <;> cases c.listed <;> simp [h.cost, hcost]
  nCost := by
    unfold AggCell.after
    cases hcost : c.cost <;> cases c.listed <;> simp [h.nCost, hcost, countP_append]
  listed := by
    unfold AggCell.after
    cases c.cost <;> cases hlisted : c.listed <;> simp [h.listed, hlisted]
  nList := by
    unfold AggCell.after
    cases c.cost <;> cases hlisted : c.listed <;> simp [h.nList, hlisted, countP_append]
  basis := by
    have hafter : (cell.after total c).basis = if c.cost = none then cell.basis else some (basisOf c.sourceKind.text) := by
      unfold AggCell.after
      cases hcost : c.cost with
      | none => cases c.listed <;> simp
      | some cost =>
        have hbasis := c.basis_eq (by simp [hcost])
        cases c.listed <;> simp [hbasis]
    rw [hafter, h.basis]
    simp only [mem_append, mem_singleton, or_imp, forall_and, forall_eq]
    by_cases hcost : c.cost = none <;> simp [hcost]
  fetched := by
    rw [map_append, map_singleton, foldr_max_append, ← h.fetched]
    unfold AggCell.after
    cases c.cost <;> cases c.listed <;> rfl

theorem usage_after (cell : AggCell) (total : UsageBuckets) (c : AggCall) : (cell.after total c).usage = total := by
  unfold AggCell.after
  cases c.cost <;> cases c.listed <;> rfl

theorem AmountSums.unique {kind : Label} {cell' : AggCell} (hp : l.Perm l')
    (h : AmountSums kind l cell) (h' : AmountSums kind l' cell') (hu : cell.usage = cell'.usage) : cell = cell' := by
  have h1 : cell.cost = cell'.cost := by rw [h.cost, h'.cost, (hp.map _).sum_eq]
  have h2 : cell.nCost = cell'.nCost := by rw [h.nCost, h'.nCost, hp.countP_eq]
  have h3 : cell.listed = cell'.listed := by rw [h.listed, h'.listed, (hp.map _).sum_eq]
  have h4 : cell.nList = cell'.nList := by rw [h.nList, h'.nList, hp.countP_eq]
  have h5 : cell.basis = cell'.basis := by
    rw [h.basis, h'.basis]
    exact if_congr (forall_congr' fun c => imp_congr_left hp.mem_iff) rfl rfl
  have h6 : cell.fetchedMs = cell'.fetchedMs := by rw [h.fetched, h'.fetched, foldr_max_perm (hp.map _)]
  cases cell
  cases cell'
  simp_all

/-- What the cell of a key of usage holds. -/
structure AggSums (l : List AggCall) (cell : AggCell) : Prop where
  usage : UsageSums l cell.usage
  amounts : ∃ kind, (∀ c ∈ l, c.sourceKind = kind) ∧ AmountSums kind l cell
  ne : l ≠ []

theorem AggSums.unique {cell' : AggCell} (hp : l.Perm l') (h : AggSums l cell) (h' : AggSums l' cell') : cell = cell' := by
  obtain ⟨kind, hkind, hamounts⟩ := h.amounts
  obtain ⟨kind', hkind', hamounts'⟩ := h'.amounts
  obtain ⟨c, hc⟩ := exists_mem_of_ne_nil l h.ne
  obtain rfl : kind = kind' := (hkind c hc).symm.trans (hkind' c (hp.mem_iff.mp hc))
  exact hamounts.unique hp hamounts' (h.usage.unique hp h'.usage)

/-! ### Cells of costs -/

/-- What the cell of a cost line holds. -/
structure CostSums (l : List CostCall) (cell : CostCell) : Prop where
  amount : cell.amount = (l.map (·.amount)).sum
  listed : cell.listed = (l.map fun c => c.listed.getD 0).sum
  nList : cell.nList = l.countP fun c => c.listed.isSome
  fetched : cell.fetchedMs = (l.map (·.fetchedMs)).foldr max 0
  rows : cell.rows = l.length

theorem CostSums.nil : CostSums [] {} := ⟨rfl, rfl, rfl, rfl, rfl⟩

theorem CostSums.add {l : List CostCall} {cell : CostCell} (h : CostSums l cell) (c : CostCall) :
    CostSums (l ++ [c]) (cell.after c) where
  amount := by
    unfold CostCell.after
    cases c.listed <;> simp [h.amount]
  listed := by
    unfold CostCell.after
    cases hlisted : c.listed <;> simp [h.listed, hlisted]
  nList := by
    unfold CostCell.after
    cases hlisted : c.listed <;> simp [h.nList, hlisted, countP_append]
  fetched := by
    rw [map_append, map_singleton, foldr_max_append, ← h.fetched]
    unfold CostCell.after
    cases c.listed <;> rfl
  rows := by
    unfold CostCell.after
    cases c.listed <;> simp [h.rows]

theorem CostSums.unique {l l' : List CostCall} {cell cell' : CostCell} (hp : l.Perm l') (h : CostSums l cell)
    (h' : CostSums l' cell') : cell = cell' := by
  have h1 : cell.amount = cell'.amount := by rw [h.amount, h'.amount, (hp.map _).sum_eq]
  have h2 : cell.listed = cell'.listed := by rw [h.listed, h'.listed, (hp.map _).sum_eq]
  have h3 : cell.nList = cell'.nList := by rw [h.nList, h'.nList, hp.countP_eq]
  have h4 : cell.fetchedMs = cell'.fetchedMs := by rw [h.fetched, h'.fetched, foldr_max_perm (hp.map _)]
  have h5 : cell.rows = cell'.rows := by rw [h.rows, h'.rows, hp.length_eq]
  cases cell
  cases cell'
  simp_all

end TokenBill.VendorCosts

/-!
## The ids of vendor costs are distinct

The parts of an id are joined with a separator that no label has. A provider code is copied as it is and may have it,
but it stands between as many parts on each side in every key.
-/

namespace TokenBill.General

open List

variable {α : Type} {sep : α}

/-- Parts that end with the separator are told apart from what follows. -/
theorem terminated_inj {us vs : List (List α)} {x y : List α} (hu : ∀ u ∈ us, sep ∉ u) (hv : ∀ v ∈ vs, sep ∉ v)
    (hlen : us.length = vs.length) (h : us.flatMap (· ++ [sep]) ++ x = vs.flatMap (· ++ [sep]) ++ y) :
    us = vs ∧ x = y := by
  induction us generalizing vs with
  | nil =>
    obtain rfl := eq_nil_of_length_eq_zero hlen.symm
    exact ⟨rfl, h⟩
  | cons u us ih =>
    cases vs with
    | nil => cases hlen
    | cons v vs =>
      simp only [flatMap_cons, append_assoc, singleton_append] at h
      obtain ⟨rfl, hrest⟩ := append_sep_inj (hu u mem_cons_self) (hv v mem_cons_self) h
      obtain ⟨rfl, rfl⟩ := ih (fun w hw => hu w (mem_cons_of_mem _ hw))
        (fun w hw => hv w (mem_cons_of_mem _ hw)) (Nat.succ.inj hlen) hrest
      exact ⟨rfl, rfl⟩

theorem intercalate_cons_eq (d : List α) (ss : List (List α)) :
    [sep].intercalate (d :: ss) = d ++ ss.flatMap (sep :: ·) := by
  induction ss generalizing d with
  | nil => simp
  | cons s ss ih =>
    rw [intercalate_cons_cons, ih, flatMap_cons]
    simp

theorem intercalate_append_cons (ps : List (List α)) (d : List α) (ss : List (List α)) :
    [sep].intercalate (ps ++ d :: ss) = ps.flatMap (· ++ [sep]) ++ [sep].intercalate (d :: ss) := by
  induction ps with
  | nil => rfl
  | cons p ps ih =>
    obtain ⟨q, qs, hq⟩ := exists_cons_of_ne_nil (append_ne_nil_of_right_ne_nil ps (cons_ne_nil d ss))
    rw [cons_append, hq, intercalate_cons_cons, ← hq, ih, flatMap_cons]
    simp only [append_assoc]

/-- A part that may hold the separator is told apart between as many parts that do not. -/
theorem intercalate_inj_around {ps qs ss ts : List (List α)} {d e : List α} (hp : ∀ p ∈ ps, sep ∉ p)
    (hq : ∀ q ∈ qs, sep ∉ q) (hs : ∀ s ∈ ss, sep ∉ s) (ht : ∀ t ∈ ts, sep ∉ t) (hpq : ps.length = qs.length)
    (hst : ss.length = ts.length) (h : [sep].intercalate (ps ++ d :: ss) = [sep].intercalate (qs ++ e :: ts)) :
    ps = qs ∧ d = e ∧ ss = ts := by
  rw [intercalate_append_cons, intercalate_append_cons] at h
  obtain ⟨rfl, htail⟩ := terminated_inj hp hq hpq h
  -- the parts behind are those in front when the text is read backwards
  have hback : ∀ (d : List α) (ss : List (List α)), ([sep].intercalate (d :: ss)).reverse =
      ((ss.map List.reverse).reverse).flatMap (· ++ [sep]) ++ d.reverse := by
    intro d ss
    rw [intercalate_cons_eq, reverse_append]
    congr 1
    induction ss with
    | nil => rfl
    | cons s ss ih =>
      rw [flatMap_cons, reverse_append, ih, map_cons, reverse_cons, reverse_cons,
        flatMap_append]
      simp
  have hfree : ∀ {ss : List (List α)}, (∀ s ∈ ss, sep ∉ s) → ∀ s ∈ (ss.map List.reverse).reverse, sep ∉ s := by
    intro ss hs s hmem
    obtain ⟨s', hs', rfl⟩ := mem_map.mp (mem_reverse.mp hmem)
    exact fun hsep => hs s' hs' (mem_reverse.mp hsep)
  have hread := congrArg List.reverse htail
  rw [hback, hback] at hread
  obtain ⟨hss, hd⟩ := terminated_inj (hfree hs) (hfree ht) (by simpa using hst) hread
  exact ⟨rfl, reverse_injective hd,
    (map_injective_iff.mpr reverse_injective) (reverse_injective hss)⟩

end TokenBill.General

namespace TokenBill.VendorCosts

open General Copilot.Seats List

/-! ### Orders of keys -/

theorem Label.ext_text {a b : Label} (h : a.text = b.text) : a = b := by
  cases a
  cases b
  simpa using h

theorem DimName.ext_text {a b : DimName} (h : a.text = b.text) : a = b := by
  cases a
  cases b
  simpa using h

theorem dimOrder_injective : Function.Injective dimOrder := by
  rintro ⟨a, b⟩ ⟨a', b'⟩ h
  obtain ⟨h1, h2⟩ := Prod.mk.inj (toLex_inj.mp h)
  exact Prod.ext (DimName.ext_text h1) (Label.ext_text h2)

theorem AggKey.order_injective : Function.Injective AggKey.order := by
  rintro ⟨kind, start, fin, dims⟩ ⟨kind', start', fin', dims'⟩ h
  obtain ⟨hkind, h⟩ := Prod.mk.inj (toLex_inj.mp h)
  obtain ⟨hstart, h⟩ := Prod.mk.inj (toLex_inj.mp h)
  obtain ⟨hfin, h⟩ := Prod.mk.inj (toLex_inj.mp h)
  have hdims := (map_injective_iff.mpr dimOrder_injective) h
  dsimp only at hkind hstart hfin hdims
  rw [Label.ext_text hkind, hstart, hfin, hdims]

theorem textOr_injective : Function.Injective textOr := by
  intro a b h
  cases a with
  | none =>
    cases b with
    | none => rfl
    | some b => exact absurd h.symm b.ne
  | some a =>
    cases b with
    | none => exact absurd h a.ne
    | some b => exact congrArg some (Label.ext_text h)

theorem codeOr_injective {a b : Option Code} (h : (a.map Code.text).getD "" = (b.map Code.text).getD "") : a = b := by
  cases a with
  | none =>
    cases b with
    | none => rfl
    | some b => exact absurd h.symm b.ne
  | some a =>
    cases b with
    | none => exact absurd h a.ne
    | some b =>
      obtain ⟨text, _⟩ := a
      obtain ⟨text', _⟩ := b
      obtain rfl : text = text' := h
      rfl

theorem pseudonymOr_injective {a b : Option Pseudonym}
    (h : (a.map fun p => "p_" ++ p.hex).getD "" = (b.map fun p => "p_" ++ p.hex).getD "") : a = b := by
  have hne : ∀ p : Pseudonym, "p_" ++ p.hex ≠ "" := fun p he => by
    have := congrArg String.toList he
    rw [String.toList_append] at this
    cases this
  cases a with
  | none =>
    cases b with
    | none => rfl
    | some b => exact absurd h.symm (hne b)
  | some a =>
    cases b with
    | none => exact absurd h (hne a)
    | some b =>
      obtain ⟨hex, _⟩ := a
      obtain ⟨hex', _⟩ := b
      have h : "p_" ++ hex = "p_" ++ hex' := h
      rw [← String.toList_inj, String.toList_append, String.toList_append] at h
      obtain rfl := String.toList_inj.mp (append_cancel_left h)
      rfl

theorem CostKey.parts_injective : Function.Injective CostKey.parts := by
  intro a b h
  unfold CostKey.parts at h
  simp only [List.cons.injEq, and_true] at h
  obtain ⟨h1, h2, h3, h4, h5, h6, h7, h8, h9, h10, h11, h12, h13⟩ := h
  have h1 := Label.ext_text h1
  have h2 := isoDate_injective h2
  have h3 := Label.ext_text h3
  have h4 := textOr_injective h4
  have h5 := textOr_injective h5
  have h6 := textOr_injective h6
  have h7 := codeOr_injective h7
  have h8 := textOr_injective h8
  have h9 := textOr_injective h9
  have h10 := textOr_injective h10
  have h11 := textOr_injective h11
  have h12 := textOr_injective h12
  have h13 := pseudonymOr_injective h13
  cases a
  cases b
  simp_all

/-! ### Texts of ids -/

theorem sepFree_toString (n : Nat) : SepFree (toString n) := by
  intro hmem
  have hdigit := Decimal.isDigit_of_mem_digits (n := n) (by simpa [Decimal.digits] using hmem)
  revert hdigit
  decide

theorem sepFree_textOr (l : Option Label) : SepFree (textOr l) := by
  cases l with
  | none => exact not_mem_nil
  | some l => exact l.clean

theorem sepFree_parts (k : AggKey) : ∀ p ∈ k.parts, SepFree p := by
  unfold AggKey.parts
  simp only [cons_append, nil_append, mem_cons, mem_map]
  rintro p (rfl | rfl | rfl | ⟨d, -, rfl⟩)
  · exact k.sourceKind.clean
  · exact sepFree_toString _
  · exact sepFree_toString _
  · unfold SepFree
    rw [String.toList_append, String.toList_append]
    simp only [mem_append, not_or]
    exact ⟨⟨d.1.clean, by decide⟩, d.2.clean⟩

theorem dimText_injective : Function.Injective fun d : DimName × Label => d.1.text ++ "=" ++ d.2.text := by
  rintro ⟨a, b⟩ ⟨a', b'⟩ h
  rw [← String.toList_inj] at h
  simp only [String.toList_append, append_assoc] at h
  have heq : "=".toList = ['='] := rfl
  rw [heq, singleton_append, singleton_append] at h
  obtain ⟨ha, hb⟩ := append_sep_inj a.plain a'.plain h
  exact Prod.ext (DimName.ext_text (String.toList_inj.mp ha)) (Label.ext_text (String.toList_inj.mp hb))

theorem toString_nat_injective {m n : Nat} (h : toString m = toString n) : m = n :=
  Int.ofNat.inj (toString_int_injective h)

/-- Aggregates are told apart by the texts of their ids. -/
theorem AggKey.text_injective {k k' : AggKey} (h : "\x1f".intercalate k.parts = "\x1f".intercalate k'.parts) :
    k = k' := by
  have hparts := parts_inj (sepFree_parts k) (sepFree_parts k') (cons_ne_nil _ _) (cons_ne_nil _ _) h
  unfold AggKey.parts at hparts
  simp only [cons_append, nil_append, List.cons.injEq] at hparts
  obtain ⟨hkind, hstart, hfin, hdims⟩ := hparts
  have hdims := (map_injective_iff.mpr dimText_injective) hdims
  obtain ⟨kind, start, fin, dims⟩ := k
  obtain ⟨kind', start', fin', dims'⟩ := k'
  dsimp only at hkind hstart hfin hdims
  rw [Label.ext_text hkind, toString_nat_injective hstart, toString_nat_injective hfin, hdims]

def CostKey.front (k : CostKey) : List String :=
  [k.sourceKind.text, isoDate k.dateUtc, k.channel.text, textOr k.workspaceId, textOr k.description, textOr k.model]

def CostKey.back (k : CostKey) : List String :=
  [textOr k.tokenType, textOr k.sku, textOr k.serviceTier, textOr k.inferenceGeo, textOr k.endpointScope,
    (k.principal.map fun p => "p_" ++ p.hex).getD ""]

theorem CostKey.parts_eq (k : CostKey) : k.parts = k.front ++ (k.costType.map Code.text).getD "" :: k.back := rfl

theorem sepFree_front (k : CostKey) : ∀ p ∈ k.front, SepFree p := by
  intro p hp
  simp only [CostKey.front, mem_cons, not_mem_nil, or_false] at hp
  rcases hp with rfl | rfl | rfl | rfl | rfl | rfl
  · exact k.sourceKind.clean
  · exact sepFree_isoDate k.dateUtc
  · exact k.channel.clean
  all_goals exact sepFree_textOr _

theorem sepFree_back (k : CostKey) : ∀ p ∈ k.back, SepFree p := by
  intro p hp
  simp only [CostKey.back, mem_cons, not_mem_nil, or_false] at hp
  rcases hp with rfl | rfl | rfl | rfl | rfl | rfl
  case inr.inr.inr.inr.inr =>
    cases k.principal with
    | none => exact not_mem_nil
    | some p =>
      change '\x1f' ∉ ("p_" ++ p.hex).toList
      rw [String.toList_append, mem_append, not_or]
      exact ⟨by decide, p.clean⟩
  all_goals exact sepFree_textOr _

/-- Cost lines are told apart by the texts of their ids. -/
theorem CostKey.text_injective {k k' : CostKey} (h : "\x1f".intercalate k.parts = "\x1f".intercalate k'.parts) :
    k = k' := by
  have hfree : ∀ {ps : List String}, (∀ p ∈ ps, SepFree p) → ∀ p ∈ ps.map String.toList, '\x1f' ∉ p := by
    intro ps hps p hp
    obtain ⟨s, hs, rfl⟩ := mem_map.mp hp
    exact hps s hs
  have htexts : Function.Injective (List.map String.toList) :=
    map_injective_iff.mpr fun _ _ h => String.toList_inj.mp h
  rw [← String.toList_inj, String.toList_intercalate, String.toList_intercalate, CostKey.parts_eq, CostKey.parts_eq,
    map_append, map_append, map_cons, map_cons] at h
  obtain ⟨hfront, hcode, hback⟩ := intercalate_inj_around (hfree (sepFree_front k)) (hfree (sepFree_front k'))
    (hfree (sepFree_back k)) (hfree (sepFree_back k')) (by simp [CostKey.front]) (by simp [CostKey.back]) h
  refine CostKey.parts_injective ?_
  rw [CostKey.parts_eq, CostKey.parts_eq, htexts hfront, String.toList_inj.mp hcode, htexts hback]

end TokenBill.VendorCosts
