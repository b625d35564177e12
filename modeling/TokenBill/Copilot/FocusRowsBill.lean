import TokenBill.Copilot.FocusRows
import TokenBill.Outputs.FocusSafe

/-!
# The FOCUS rows of Copilot equal GitHub's bill

Every row stands for a part of the emitted lines: one allocation group of a charge identity, or the
groups of an identity that are not shown. A row holds the sums of its part, so the sums over the rows
are those of the lines; the quantities are exact as long as no running sum needs more digits than
`Decimal`'s default context has. A row that names a team or a cost center stands for `k` principals or
for no known one, but for the row of an identity that is withheld: its entity may be a capped cost
center, which the row names (`focusRows_iff`).
-/

namespace TokenBill.Copilot.FocusRows

open General Kanon List
open Focus (FocusError FocusRow FocusSpec orEmpty tagsText)

/-! ### Sums of lines -/

def principals (lines : List CostLine) : Finset Principal := (lines.filterMap (·.principal)).toFinset

def quantityOf (line : CostLine) : ℚ := (dec line.quantity).toRat

/-- An accumulator holds the sums of some lines. -/
structure Holds (acc : Acc) (lines : List CostLine) : Prop where
  gross : acc.gross = (lines.map grossOf).sum
  net : acc.net = (lines.map (·.amountNano)).sum
  split : acc.pool + acc.other + acc.unclassified = acc.gross - acc.net
  users : acc.users = principals lines

theorem holds_nil : Holds {} [] := ⟨rfl, rfl, rfl, rfl⟩

theorem principals_append (xs ys : List CostLine) : principals (xs ++ ys) = principals xs ∪ principals ys := by
  unfold principals
  rw [filterMap_append, toFinset_append]

theorem shares_add (f : Facts) (line : CostLine) :
    (if discountKind f line = .pool then discountOf line else 0) +
      (if discountKind f line = .other then discountOf line else 0) +
      (if discountKind f line = .unclassified then discountOf line else 0) = discountOf line := by
  cases discountKind f line <;> simp

theorem Holds.addLine {acc : Acc} {lines : List CostLine} (h : Holds acc lines) (f : Facts) (line : CostLine) :
    Holds (acc.addLine f line) (lines ++ [line]) where
  gross := by
    rw [map_append, sum_append, ← h.gross]
    simp [Acc.addLine]
  net := by
    rw [map_append, sum_append, ← h.net]
    simp [Acc.addLine]
  split := by
    have hshares := shares_add f line
    have hsplit := h.split
    unfold discountOf at hshares
    simp only [Acc.addLine, discountOf]
    omega
  users := by
    rw [principals_append, ← h.users]
    cases hp : line.principal with
    | none =>
      have hone : principals [line] = ∅ := by simp [principals, hp]
      simp [Acc.addLine, hp, hone]
    | some principal =>
      have hone : principals [line] = {principal} := by simp [principals, hp]
      simp [Acc.addLine, hp, hone]

theorem Holds.foldl {acc : Acc} {done : List CostLine} (h : Holds acc done) (f : Facts) (lines : List CostLine) :
    Holds (lines.foldl (fun acc line => acc.addLine f line) acc) (done ++ lines) := by
  induction lines generalizing acc done with
  | nil => rwa [append_nil]
  | cons line lines ih =>
    have := ih (h.addLine f line)
    rwa [append_assoc] at this

theorem Holds.merge {a o : Acc} {xs ys : List CostLine} (ha : Holds a xs) (ho : Holds o ys) :
    Holds (a.merge o) (xs ++ ys) where
  gross := by
    rw [map_append, sum_append, ← ha.gross, ← ho.gross]
    rfl
  net := by
    rw [map_append, sum_append, ← ha.net, ← ho.net]
    rfl
  split := by
    have := ha.split
    have := ho.split
    simp only [Acc.merge]
    omega
  users := by
    rw [principals_append, ← ha.users, ← ho.users]
    rfl

theorem quantity_foldl (f : Facts) (acc : Acc) (lines : List CostLine) :
    (lines.foldl (fun acc line => acc.addLine f line) acc).quantity =
      (lines.map fun line => dec line.quantity).foldl defaultContext.add acc.quantity := by
  induction lines generalizing acc with
  | nil => rfl
  | cons line lines ih => exact ih (acc.addLine f line)

theorem quantity_merge (acc : Acc) (accs : List Acc) :
    (accs.foldl Acc.merge acc).quantity = (accs.map (·.quantity)).foldl defaultContext.add acc.quantity := by
  induction accs generalizing acc with
  | nil => rfl
  | cons o accs ih => exact ih (acc.merge o)

/-! ### Groups -/

def linesOf (capped : List String) (lines : List CostLine) (ident : Ident) (alloc : Alloc) : List CostLine :=
  lines.filter fun line => decide (identOf capped line = ident ∧ allocOf line = alloc)

def identLines (capped : List String) (lines : List CostLine) (ident : Ident) : List CostLine :=
  lines.filter fun line => decide (identOf capped line = ident)

variable {f : Facts} {k : Nat} {lines : List CostLine}

variable {e : Alloc × Acc} {group : Group} {ident : Ident} {cs : List Charge} {parts : List (List CostLine)}

theorem acc_of_mem (hg : (ident, group) ∈ groups f lines) (he : e ∈ group) :
    e.2 = (linesOf f.capped lines ident e.1).foldl (fun acc line => acc.addLine f line) {} := by
  obtain ⟨x, rest, hx, hacc⟩ := mem_mem_collectTwice hg he
  unfold linesOf
  rw [hx, ← hacc]
  rfl

theorem holds_of_mem (hg : (ident, group) ∈ groups f lines)
    (he : e ∈ group) : Holds e.2 (linesOf f.capped lines ident e.1) := by
  rw [acc_of_mem hg he]
  exact holds_nil.foldl f _

theorem allocs_nodup (hg : (ident, group) ∈ groups f lines) : (group.map (·.1)).Nodup := by
  rw [mem_collectTwice hg]
  exact nodup_collect _ _ _

theorem groupLines_perm (hg : (ident, group) ∈ groups f lines) :
    (group.flatMap fun e => linesOf f.capped lines ident e.1).Perm (identLines f.capped lines ident) := by
  have hkeys : group.map (fun e => linesOf f.capped lines ident e.1) =
      (group.map (·.1)).map fun alloc => (identLines f.capped lines ident).filter fun line =>
        decide (allocOf line = alloc) := by
    rw [map_map]
    refine map_congr_left fun e _ => ?_
    simp only [linesOf, identLines, Function.comp_apply, filter_filter]
    refine filter_congr fun line _ => ?_
    rw [Bool.eq_iff_iff, Bool.and_eq_true, decide_eq_true_eq, decide_eq_true_eq, decide_eq_true_eq, and_comm]
  rw [flatMap_def, hkeys]
  refine flatten_fibres_perm allocOf (allocs_nodup hg) fun line hline => ?_
  rw [mem_collectTwice hg]
  exact mem_keys_collect.mpr ⟨line, hline, rfl⟩

theorem identLines_perm (f : Facts) (lines : List CostLine) :
    ((groups f lines).flatMap fun g => identLines f.capped lines g.1).Perm lines := by
  have hkeys : (groups f lines).map (fun g => identLines f.capped lines g.1) =
      ((groups f lines).map (·.1)).map fun ident => lines.filter fun line =>
        decide (identOf f.capped line = ident) := by
    rw [map_map]
    rfl
  rw [flatMap_def, hkeys]
  exact flatten_fibres_perm (identOf f.capped) (nodup_collect _ _ _) fun line hline =>
    mem_keys_collect.mpr ⟨line, hline, rfl⟩

/-! ### What a row stands for -/

/-- A row and the allocation groups of its identity that it stands for. -/
inductive Shows (k : Nat) (ident : Ident) (group : Group) : Group → Charge → Prop where
  /-- A group of `k` users, or of no known user. -/
  | alone {e : Alloc × Acc} : k ≤ e.2.users.card ∨ e.2.users.card = 0 → Shows k ident group [e] ⟨ident, e.1, e.2, 0⟩
  /-- The groups that are not shown: one has `k` users, or no group of the identity has, and those that are
  shown have none. -/
  | merged {hidden : Group} {shown : List String} {team : Option String} {suppressed : Nat} :
      shownTexts k (sortedGroup group) = .ok shown →
      hidden = ((sortedGroup group).filter fun e => decide (allocText e.1 ∉ shown)) →
      (team = some (otherLabel k) ∧ ∃ e ∈ hidden, k ≤ e.2.users.card) ∨
        (team = none ∧ ∀ e ∈ group, e ∉ hidden → e.2.users = ∅) →
      Shows k ident group hidden ⟨ident, ⟨team, none⟩, (hidden.map (·.2)).foldl Acc.merge {}, suppressed⟩

theorem allocText_inj {a b : Alloc} (h : allocText a = allocText b) : a = b := by
  have htext := congrArg String.toList h
  simp only [allocText, String.toList_ofList, cons_append, append_assoc, List.cons.injEq, true_and,
    nil_append] at htext
  obtain ⟨ht, htext⟩ := JsonText.optional_inj JsonText.readString_asciiQuote htext
  simp only [List.cons.injEq, true_and] at htext
  obtain ⟨hc, -⟩ := JsonText.optional_inj JsonText.readString_asciiQuote htext
  cases a
  cases b
  exact congr (congrArg Alloc.mk ht) hc

theorem allocText_ne_label (a : Alloc) (k : Nat) : allocText a ≠ otherLabel k := by
  intro h
  have htext := congrArg (fun s => s.toList.head?) h
  simp [allocText, otherLabel] at htext

theorem sortedGroup_perm (group : Group) : (sortedGroup group).Perm group := perm_insertionSort _ group

theorem shownTexts_spec {keys : Group} {shown : List String} (hn : (keys.map (·.1)).Nodup)
    (h : shownTexts k keys = .ok shown) :
    (∀ e ∈ keys, allocText e.1 ∈ shown → k ≤ e.2.users.card ∨ e.2.users.card = 0) ∧
      (otherLabel k ∈ shown → ∃ e ∈ keys, allocText e.1 ∉ shown ∧ k ≤ e.2.users.card) ∧
      (otherLabel k ∉ shown → (∀ e ∈ keys, allocText e.1 ∈ shown) ∨ ∀ e ∈ keys, e.2.users.card < k) := by
  obtain ⟨pub, hpub, h⟩ := bind_eq_ok.mp h
  obtain rfl := pure_eq_ok.mp h
  have hpub := Focus.mapError_eq_ok.mp hpub
  have hflat : Flat "allocation" (keys.map allocRow) := by
    refine ⟨fun r hr => ?_, ?_⟩
    · obtain ⟨e, -, rfl⟩ := mem_map.mp hr
      rfl
    · have hvalues : (keys.map allocRow).map valueOf = (keys.map (·.1)).map allocText := by
        rw [map_map, map_map]
        rfl
      rw [hvalues]
      exact hn.map fun a b => allocText_inj
  have hlabel : ∀ r ∈ keys.map allocRow, valueOf r ≠ otherLabel k := by
    intro r hr
    obtain ⟨e, -, rfl⟩ := mem_map.mp hr
    exact allocText_ne_label e.1 k
  obtain ⟨hshown, hrow, horg⟩ := publish_flat rfl hflat hlabel hpub
  have hvalue : ∀ e : Alloc × Acc, valueOf (allocRow e) = allocText e.1 := fun _ => rfl
  have htexts : (pub.rows.map fun row => (row.dims.head?.bind (·.2)).getD "") = pub.rows.map valueOf := rfl
  rw [htexts]
  refine ⟨fun e he hs => ?_, fun hl => ?_, fun hl => ?_⟩
  · exact hshown _ (mem_map_of_mem he) hs
  · obtain ⟨r, hr, hnot, hk⟩ := hrow hl
    obtain ⟨e, he, rfl⟩ := mem_map.mp hr
    exact ⟨e, he, hnot, hk⟩
  · refine (horg hl).imp (fun hall e he => ?_) fun hall e he => ?_
    · exact hall _ (mem_map_of_mem he)
    · exact hall _ (mem_map_of_mem he)

/-- The groups of an identity that are shown alone, and the others. -/
theorem publishGroup_spec {out : List Charge} (hn : (group.map (·.1)).Nodup)
    (h : publishGroup k ident group = .ok out) :
    ∃ parts : List Group, parts.flatten.Perm group ∧ List.Forall₂ (Shows k ident group) parts out := by
  have hp := sortedGroup_perm group
  obtain ⟨shown, hshown, h⟩ := bind_eq_ok.mp h
  obtain ⟨halone, hlabel, horg⟩ := shownTexts_spec ((hp.map _).nodup_iff.mpr hn) hshown
  have hpart : ((sortedGroup group).filter (fun e => decide (allocText e.1 ∈ shown)) ++
      (sortedGroup group).filter fun e => decide (allocText e.1 ∉ shown)).Perm group := by
    have := filter_append_perm (fun e : Alloc × Acc => decide (allocText e.1 ∈ shown)) (sortedGroup group)
    refine List.Perm.trans ?_ hp
    simpa only [decide_not] using this
  have hkeep : List.Forall₂ (Shows k ident group)
      (((sortedGroup group).filter fun e => decide (allocText e.1 ∈ shown)).map fun e => [e])
      (((sortedGroup group).filter fun e => decide (allocText e.1 ∈ shown)).map fun e => ⟨ident, e.1, e.2, 0⟩) := by
    refine forall₂_map_left_iff.mpr (forall₂_map_right_iff.mpr (forall₂_same.mpr fun e he => ?_))
    obtain ⟨he, hs⟩ := mem_filter.mp he
    exact .alone (halone e he (of_decide_eq_true hs))
  have hflatten : (((sortedGroup group).filter fun e => decide (allocText e.1 ∈ shown)).map fun e => [e]).flatten =
      (sortedGroup group).filter fun e => decide (allocText e.1 ∈ shown) := by
    rw [← flatMap_def]
    exact flatMap_singleton' _
  dsimp only at h
  split at h
  · rename_i hnone
    obtain rfl := pure_eq_ok.mp h
    rw [hnone, append_nil] at hpart
    exact ⟨_, by rwa [hflatten], hkeep⟩
  · rename_i hsome
    obtain rfl := pure_eq_ok.mp h
    refine ⟨_ ++ [(sortedGroup group).filter fun e => decide (allocText e.1 ∉ shown)], ?_,
      rel_append hkeep (.cons (.merged hshown rfl ?_) .nil)⟩
    · rwa [flatten_append, hflatten, flatten_cons, flatten_nil, append_nil]
    · split
      · rename_i hl
        obtain ⟨e, he, hnot, hk⟩ := hlabel hl
        exact .inl ⟨rfl, e, mem_filter.mpr ⟨he, decide_eq_true hnot⟩, hk⟩
      · rename_i hl
        refine .inr ⟨rfl, fun e he hnot => ?_⟩
        have he := hp.mem_iff.mpr he
        have hs : allocText e.1 ∈ shown := by
          by_contra hs
          exact hnot (mem_filter.mpr ⟨he, decide_eq_true hs⟩)
        rcases horg hl with hall | hall
        · obtain ⟨x, hx⟩ := exists_mem_of_ne_nil _ hsome
          obtain ⟨hx, hnx⟩ := mem_filter.mp hx
          exact absurd (hall x hx) (of_decide_eq_true hnx)
        · have hlt := hall e he
          have := halone e he hs
          exact Finset.card_eq_zero.mp (by omega)

/-! ### Parts of the lines -/

/-- The running sums of quantities that are formed need no more digits than the context has: those of the
lines of an allocation group, and those of the groups of an identity that become one row. -/
structure QuantitiesFit (k : Nat) (f : Facts) (lines : List CostLine) : Prop where
  alone : ∀ ident alloc, Decimal.SumsFit 28 0 ((linesOf f.capped lines ident alloc).map quantityOf)
  merged : ∀ g ∈ groups f lines, ∀ shown, shownTexts k (sortedGroup g.2) = .ok shown →
    Decimal.SumsFit 28 0 (((sortedGroup g.2).filter fun e => decide (allocText e.1 ∉ shown)).map fun e =>
      ((linesOf f.capped lines g.1 e.1).map quantityOf).sum)

/-- A row that stands for some lines. -/
structure Stands (k : Nat) (f : Facts) (lines part : List CostLine) (c : Charge) : Prop where
  holds : Holds c.acc part
  ident : ∀ line ∈ part, identOf f.capped line = c.ident
  quantity : QuantitiesFit k f lines → c.acc.quantity.toRat = (part.map quantityOf).sum
  /-- It has `k` principals or none, unless it names no allocation and all principals of its identity are its. -/
  covers : (k ≤ c.acc.users.card ∨ c.acc.users = ∅) ∨
    c.alloc = ⟨none, none⟩ ∧ principals part = principals (identLines f.capped lines c.ident)

theorem quantity_of_mem (hq : QuantitiesFit k f lines) (hg : (ident, group) ∈ groups f lines) (he : e ∈ group) :
    e.2.quantity.toRat = ((linesOf f.capped lines ident e.1).map quantityOf).sum := by
  have hzero : (Decimal.ofInt 0).toRat = 0 := by
    simp [Decimal.toRat, Decimal.ofInt]
  have hmap : (((linesOf f.capped lines ident e.1).map fun line => dec line.quantity).map Decimal.toRat) =
      (linesOf f.capped lines ident e.1).map quantityOf := by
    rw [map_map]
    rfl
  rw [acc_of_mem hg he, quantity_foldl, defaultContext.toRat_foldl, hmap]
  · rw [show ({} : Acc).quantity = Decimal.ofInt 0 from rfl, hzero, zero_add]
  · rw [hmap, show ({} : Acc).quantity = Decimal.ofInt 0 from rfl, hzero]
    exact hq.alone ident e.1

theorem holds_merge {hidden : Group} (hg : (ident, group) ∈ groups f lines) (hsub : ∀ e ∈ hidden, e ∈ group) :
    Holds ((hidden.map (·.2)).foldl Acc.merge {}) (hidden.flatMap fun e => linesOf f.capped lines ident e.1) := by
  have hrun : ∀ (hidden : Group) (acc : Acc) (done : List CostLine), Holds acc done → (∀ e ∈ hidden, e ∈ group) →
      Holds ((hidden.map (·.2)).foldl Acc.merge acc)
        (done ++ hidden.flatMap fun e => linesOf f.capped lines ident e.1) := by
    intro hidden
    induction hidden with
    | nil =>
      intro acc done h _
      rwa [flatMap_nil, append_nil]
    | cons e hidden ih =>
      intro acc done h hsub
      have he := holds_of_mem hg (hsub e mem_cons_self)
      have := ih (acc.merge e.2) _ (h.merge he) fun e' he' => hsub e' (mem_cons_of_mem _ he')
      rwa [append_assoc] at this
  exact hrun hidden {} [] holds_nil hsub

/-- The quantity of groups that become one row. -/
theorem quantity_merged (hq : QuantitiesFit k f lines) {hidden : Group} {shown : List String}
    (hg : (ident, group) ∈ groups f lines) (hshown : shownTexts k (sortedGroup group) = .ok shown)
    (hhidden : hidden = (sortedGroup group).filter fun e => decide (allocText e.1 ∉ shown))
    (hsub : ∀ e ∈ hidden, e ∈ group) :
    ((hidden.map (·.2)).foldl Acc.merge {}).quantity.toRat =
      ((hidden.flatMap fun e => linesOf f.capped lines ident e.1).map quantityOf).sum := by
  have hzero : ({} : Acc).quantity.toRat = 0 := by
    simp [Decimal.toRat, Decimal.ofInt]
  have hmap : (((hidden.map (·.2)).map (·.quantity)).map Decimal.toRat) =
      hidden.map fun e => ((linesOf f.capped lines ident e.1).map quantityOf).sum := by
    rw [map_map, map_map]
    exact map_congr_left fun e he => quantity_of_mem hq hg (hsub e he)
  have hfit := hq.merged _ hg shown hshown
  rw [← hhidden] at hfit
  rw [quantity_merge, defaultContext.toRat_foldl, hmap, hzero, zero_add, map_flatMap, flatMap_def, sum_flatten,
    map_map]
  · rfl
  · rw [hmap, hzero]
    exact hfit

theorem stands_of_shows {part : Group} {c : Charge} (hg : (ident, group) ∈ groups f lines)
    (hshows : Shows k ident group part c) (hsub : ∀ e ∈ part, e ∈ group) :
    Stands k f lines (part.flatMap fun e => linesOf f.capped lines ident e.1) c := by
  have hident : ∀ line ∈ part.flatMap fun e => linesOf f.capped lines ident e.1,
      identOf f.capped line = ident := by
    intro line hline
    obtain ⟨e, -, hline⟩ := mem_flatMap.mp hline
    exact (of_decide_eq_true (mem_filter.mp hline).2).1
  cases hshows with
  | @alone e hor =>
    have he := hsub e mem_cons_self
    have hpart : ([e].flatMap fun e => linesOf f.capped lines ident e.1) = linesOf f.capped lines ident e.1 :=
      flatMap_singleton _ _
    rw [hpart] at hident ⊢
    exact ⟨holds_of_mem hg he, hident, fun hq => quantity_of_mem hq hg he,
      .inl (hor.imp_right Finset.card_eq_zero.mp)⟩
  | merged hshown hhidden hor =>
    have hholds := holds_merge hg hsub
    have huser : ∀ {p : Principal} {part : List CostLine}, p ∈ principals part ↔ ∃ l ∈ part, l.principal = some p := by
      intro p part
      simp [principals]
    refine ⟨hholds, hident, fun hq => quantity_merged hq hg hshown hhidden hsub, ?_⟩
    rcases hor with ⟨-, e, he, hk⟩ | ⟨rfl, hrest⟩
    · refine .inl (.inl (hk.trans (Finset.card_le_card fun p hp => ?_)))
      rw [(holds_of_mem hg (hsub e he)).users, huser] at hp
      obtain ⟨line, hline, hp⟩ := hp
      rw [hholds.users, huser]
      exact ⟨line, mem_flatMap.mpr ⟨e, he, hline⟩, hp⟩
    · refine .inr ⟨rfl, Finset.ext fun p => ?_⟩
      rw [huser, huser]
      refine ⟨fun ⟨line, hline, hp⟩ => ?_, fun ⟨line, hline, hp⟩ => ?_⟩
      · obtain ⟨e, he, hline⟩ := mem_flatMap.mp hline
        obtain ⟨hline, hkey⟩ := mem_filter.mp hline
        exact ⟨line, mem_filter.mpr ⟨hline, decide_eq_true (of_decide_eq_true hkey).1⟩, hp⟩
      · obtain ⟨e, he, hline⟩ := mem_flatMap.mp ((groupLines_perm hg).mem_iff.mpr hline)
        refine ⟨line, mem_flatMap.mpr ⟨e, ?_, hline⟩, hp⟩
        by_contra hnot
        have hnone := hrest e he hnot
        rw [(holds_of_mem hg he).users] at hnone
        have hmem := huser.mpr ⟨line, hline, hp⟩
        rw [hnone] at hmem
        cases hmem

theorem charges_spec (h : charges k f lines = .ok cs) :
    ∃ parts : List (List CostLine), parts.flatten.Perm lines ∧ List.Forall₂ (Stands k f lines) parts cs := by
  obtain ⟨out, hout, hflat⟩ := bind_eq_ok.mp h
  clear h
  obtain rfl := pure_eq_ok.mp hflat
  have hsorted := perm_insertionSort (fun a b : Ident × Group => a.1.key ≤ b.1.key) (groups f lines)
  have hmem : ∀ g ∈ (groups f lines).insertionSort fun a b => a.1.key ≤ b.1.key, g ∈ groups f lines := fun g hg =>
    hsorted.mem_iff.mp hg
  have hlines := (hsorted.flatMap_right fun g => identLines f.capped lines g.1).trans (identLines_perm f lines)
  have hrun := mapM_eq_ok.mp hout
  clear hout hsorted hflat
  generalize (groups f lines).insertionSort (fun a b => a.1.key ≤ b.1.key) = gs at hmem hlines hrun
  suffices hsplit : ∃ parts : List (List CostLine),
      parts.flatten.Perm (gs.flatMap fun g => identLines f.capped lines g.1) ∧
        List.Forall₂ (Stands k f lines) parts out.flatten by
    obtain ⟨parts, hparts, hstands⟩ := hsplit
    exact ⟨parts, hparts.trans hlines, hstands⟩
  clear hlines
  induction hrun with
  | nil => exact ⟨[], .refl _, .nil⟩
  | @cons g cs gs out hg _ ih =>
    obtain ⟨rest, hrest, hstands⟩ := ih fun g' hg' => hmem g' (mem_cons_of_mem _ hg')
    have hgroup := hmem g mem_cons_self
    obtain ⟨parts, hparts, hshows⟩ := publishGroup_spec (allocs_nodup hgroup) hg
    refine ⟨(parts.map fun part => part.flatMap fun e => linesOf f.capped lines g.1 e.1) ++ rest, ?_, ?_⟩
    · rw [flatten_append, flatMap_cons]
      refine List.Perm.append ?_ hrest
      refine List.Perm.trans (List.Perm.of_eq ?_) ((hparts.flatMap_right _).trans (groupLines_perm hgroup))
      rw [flatMap_def, map_flatten, flatten_flatten, map_map]
      rfl
    · rw [flatten_cons]
      refine rel_append (forall₂_map_left_iff.mpr ?_) hstands
      refine forall₂_imp_of_mem hshows fun part hpart c _ hshow => ?_
      exact stands_of_shows hgroup hshow fun e he => hparts.mem_iff.mp (mem_flatten.mpr ⟨part, hpart, he⟩)

/-! ### The text of a row -/

def amount (row : FocusRow) (column : String) : ℚ := amountOfText ((row.columns.lookup column).getD "")

theorem amountOfText_nano (nano : Int) : amountOfText (nanoToUsdStr nano) = nano / 10 ^ 9 := by
  rw [nanoToUsdStr_eq, amountOfText_text, Decimal.toRat_ofScaled]

/-- The amounts of a row are those of its sums. -/
structure Shown (c : Charge) (row : FocusRow) : Prop where
  channel : row.channel = c.ident.channel
  gross : amount row "ListCost" = c.acc.gross / 10 ^ 9
  net : amount row "ContractedCost" = c.acc.net / 10 ^ 9
  quantity : amount row "PricingQuantity" = c.acc.quantity.toRat
  pool : amount row "x_DiscountPool" = c.acc.pool / 10 ^ 9
  other : amount row "x_DiscountOther" = c.acc.other / 10 ^ 9
  unclassified : amount row "x_DiscountUnclassified" = c.acc.unclassified / 10 ^ 9
  account : row.columns.lookup "BillingAccountId" = some ("github/" ++ c.ident.entity)
  tags : row.columns.lookup "Tags" = some (tagsText (tagsOf c))

theorem rowOf_shown {spec : FocusSpec} {role : String} {reconciledChannels : List String} {c : Charge}
    {row : FocusRow} (h : rowOf spec role reconciledChannels c = .ok row) : Shown c row := by
  obtain ⟨bounds, -, h⟩ := bind_eq_ok.mp h
  obtain ⟨tomorrow, -, h⟩ := bind_eq_ok.mp h
  obtain rfl := pure_eq_ok.mp h
  exact ⟨rfl, amountOfText_nano _, amountOfText_nano _, amountOfText_text _, amountOfText_nano _,
    amountOfText_nano _, amountOfText_nano _, rfl, rfl⟩

/-! ### The bill and the small groups -/

/-- The rows of a channel have the amounts of its lines, and a row's discounts are what it is below list. -/
structure EqualsBill (lines : List CostLine) (rows : List FocusRow) : Prop where
  gross : ∀ channel, ((rows.filter fun r => decide (r.channel = channel)).map (amount · "ListCost")).sum =
    ((lines.filter fun l => decide (l.channel = channel)).map grossOf).sum / 10 ^ 9
  net : ∀ channel, ((rows.filter fun r => decide (r.channel = channel)).map (amount · "ContractedCost")).sum =
    ((lines.filter fun l => decide (l.channel = channel)).map (·.amountNano)).sum / 10 ^ 9
  quantity : ∀ channel, ((rows.filter fun r => decide (r.channel = channel)).map (amount · "PricingQuantity")).sum =
    ((lines.filter fun l => decide (l.channel = channel)).map quantityOf).sum
  split : ∀ row ∈ rows, amount row "x_DiscountPool" + amount row "x_DiscountOther" +
    amount row "x_DiscountUnclassified" = amount row "ListCost" - amount row "ContractedCost"

/-- A row names a team or a cost center: in its tags, or as its entity. -/
def Charge.names (c : Charge) : Bool :=
  ((tagsOf c).lookup "team").isSome || ((tagsOf c).lookup "cost_center").isSome || startsWith c.ident.entity "cc:"

/-- A row that names a team or a cost center stands for `k` principals, or for no known one. -/
def HidesSmall (k : Nat) (cs : List Charge) : Prop :=
  ∀ c ∈ cs, c.names = true → k ≤ c.acc.users.card ∨ c.acc.users = ∅

/-- Every charge identity of a capped cost center has `k` principals, or no known one. -/
def CappedCovered (k : Nat) (capped : List String) (lines : List CostLine) : Prop :=
  ∀ line ∈ lines, startsWith (entityOf capped line.costCenter) "cc:" = true →
    k ≤ (principals (identLines capped lines (identOf capped line))).card ∨
      principals (identLines capped lines (identOf capped line)) = ∅

theorem sum_channel {column : String} {g : CostLine → ℚ} {rows : List FocusRow} (hp : parts.flatten.Perm lines)
    (h : List.Forall₂ (fun part row => (∀ l ∈ part, l.channel = row.channel) ∧
      amount row column = (part.map g).sum) parts rows) (channel : String) :
    ((rows.filter fun r => decide (r.channel = channel)).map (amount · column)).sum =
      ((lines.filter fun l => decide (l.channel = channel)).map g).sum := by
  rw [← ((hp.filter _).map g).sum_eq]
  exact sum_regroup h channel

theorem equalsBill {rows : List FocusRow}
    (hp : parts.flatten.Perm lines) (hstands : List.Forall₂ (Stands k f lines) parts cs)
    (hshown : List.Forall₂ Shown cs rows) (hq : QuantitiesFit k f lines) : EqualsBill lines rows := by
  have hrows : List.Forall₂ (fun part row => ∃ c, Stands k f lines part c ∧ Shown c row) parts rows := by
    clear hp
    induction hstands generalizing rows with
    | nil =>
      cases hshown
      exact .nil
    | cons hc _ ih =>
      cases hshown with
      | cons hr hshown => exact .cons ⟨_, hc, hr⟩ (ih hshown)
  have hchannel : ∀ {part c row}, Stands k f lines part c → Shown c row → ∀ l ∈ part, l.channel = row.channel := by
    intro part c row hc hr l hl
    rw [hr.channel, ← hc.ident l hl]
    rfl
  have hcast : ∀ (g : CostLine → ℤ) (xs : List CostLine),
      (xs.map fun l => (g l : ℚ) / 10 ^ 9).sum = (((xs.map g).sum : ℤ) : ℚ) / 10 ^ 9 := by
    intro g xs
    induction xs with
    | nil => simp
    | cons x xs ih => rw [map_cons, sum_cons, ih, map_cons, sum_cons, Int.cast_add, add_div]
  refine ⟨fun channel => ?_, fun channel => ?_, fun channel => ?_, fun row hrow => ?_⟩
  · rw [← hcast]
    refine sum_channel hp (hrows.imp fun part row ⟨c, hc, hr⟩ => ⟨hchannel hc hr, ?_⟩) channel
    rw [hr.gross, hc.holds.gross, hcast]
  · rw [← hcast]
    refine sum_channel hp (hrows.imp fun part row ⟨c, hc, hr⟩ => ⟨hchannel hc hr, ?_⟩) channel
    rw [hr.net, hc.holds.net, hcast]
  · refine sum_channel hp (hrows.imp fun part row ⟨c, hc, hr⟩ => ⟨hchannel hc hr, ?_⟩) channel
    rw [hr.quantity, hc.quantity hq]
  · obtain ⟨part, -, c, hc, hr⟩ := exists_of_mem_right hrows hrow
    rw [hr.pool, hr.other, hr.unclassified, hr.gross, hr.net, ← add_div, ← add_div, ← sub_div]
    have hsplit : ((c.acc.pool + c.acc.other + c.acc.unclassified : ℤ) : ℚ) = (c.acc.gross - c.acc.net : ℤ) := by
      rw [hc.holds.split]
    push_cast at hsplit
    rw [hsplit]

/-- The rows hide small groups exactly when the charge identities of capped cost centers are covered. -/
theorem hidesSmall_iff (hp : parts.flatten.Perm lines) (hstands : List.Forall₂ (Stands k f lines) parts cs) :
    HidesSmall k cs ↔ CappedCovered k f.capped lines := by
  have huser : ∀ {p : Principal} {part : List CostLine}, p ∈ principals part ↔ ∃ l ∈ part, l.principal = some p := by
    intro p part
    simp [principals]
  constructor
  · intro hhides line hline hcc
    by_contra hnot
    rw [not_or] at hnot
    obtain ⟨p, hmem⟩ := Finset.nonempty_iff_ne_empty.mpr hnot.2
    obtain ⟨other, hother, hprincipal⟩ := huser.mp hmem
    obtain ⟨hother, hident⟩ := mem_filter.mp hother
    have hident := of_decide_eq_true hident
    obtain ⟨part, hpart, hin⟩ := mem_flatten.mp (hp.mem_iff.mpr hother)
    obtain ⟨c, hc, hstand⟩ := exists_of_mem_left hstands hpart
    have hci : c.ident = identOf f.capped line := by rw [← hstand.ident other hin, hident]
    have hentity : c.ident.entity = entityOf f.capped line.costCenter := by
      rw [hci]
      rfl
    have hnames : c.names = true := by
      unfold Charge.names
      rw [hentity, hcc, Bool.or_true]
    have husers := hstand.holds.users
    rcases hhides c hc hnames with hk | hempty
    · refine hnot.1 (hk.trans (Finset.card_le_card fun q hq => ?_))
      rw [husers, huser] at hq
      obtain ⟨l, hl, hq⟩ := hq
      refine huser.mpr ⟨l, mem_filter.mpr ⟨hp.mem_iff.mp (mem_flatten.mpr ⟨part, hpart, hl⟩), ?_⟩, hq⟩
      exact decide_eq_true ((hstand.ident l hl).trans hci)
    · have hq := huser.mpr ⟨other, hin, hprincipal⟩
      rw [← husers, hempty] at hq
      cases hq
  · intro hcovered c hc hnames
    obtain ⟨part, hpart, hstand⟩ := exists_of_mem_right hstands hc
    rcases hstand.covers with hdone | ⟨halloc, hall⟩
    · exact hdone
    · have hcc : startsWith c.ident.entity "cc:" = true := by
        have hteam : (tagsOf c).lookup "team" = none ∧ (tagsOf c).lookup "cost_center" = none := by
          unfold tagsOf
          rw [halloc]
          by_cases hw : c.ident.workload = "" <;> by_cases he : c.ident.entity = "" <;>
            simp [hw, he, lookup_cons]
        unfold Charge.names at hnames
        rw [hteam.1, hteam.2] at hnames
        simpa using hnames
      rw [hstand.holds.users, hall]
      cases part with
      | nil => exact .inr (by rw [← hall]; rfl)
      | cons line part =>
        have hident := hstand.ident line mem_cons_self
        have hline : line ∈ lines := hp.mem_iff.mp (mem_flatten.mpr ⟨_, hpart, mem_cons_self⟩)
        rw [← hident] at hcc ⊢
        exact hcovered line hline hcc

/-- Where no running sum of quantities is rounded, the rows equal the bill, and they hide small groups exactly when
every charge identity of a capped cost center has `k` principals or no known one. -/
theorem focusRows_iff {decimal : ReadDecimal} {spec : FocusSpec} {pool : Pool} {a : FocusInputs} {f : Facts}
    {out : FocusRowList} (hf : factsOf decimal pool a = .ok f) (h : focusRows decimal spec pool a = .ok out)
    (hq : QuantitiesFit a.k f (emitted a)) :
    ∃ cs parts, charges a.k f (emitted a) = .ok cs ∧ List.Forall₂ Shown cs out.rows ∧
      parts.flatten.Perm (emitted a) ∧
      List.Forall₂ (fun part c => c.acc.users = principals part ∧ ∀ line ∈ part, identOf f.capped line = c.ident)
        parts cs ∧
      (EqualsBill (emitted a) out.rows ∧ HidesSmall a.k cs ↔ CappedCovered a.k f.capped (emitted a)) := by
  obtain ⟨⟨⟩, -, h⟩ := bind_eq_ok.mp h
  obtain ⟨f', hf', h⟩ := bind_eq_ok.mp h
  obtain rfl : f = f' := Except.ok.inj (hf.symm.trans hf')
  obtain ⟨cs, hcs, h⟩ := bind_eq_ok.mp h
  obtain ⟨rows, hrows, h⟩ := bind_eq_ok.mp h
  obtain rfl := pure_eq_ok.mp h
  obtain ⟨parts, hp, hstands⟩ := charges_spec hcs
  have hshown : List.Forall₂ Shown cs rows := (mapM_eq_ok.mp hrows).imp fun _ _ => rowOf_shown
  have hbill := equalsBill hp hstands hshown hq
  refine ⟨cs, parts, hcs, hshown, hp, hstands.imp fun part c hc => ⟨hc.holds.users, hc.ident⟩, ?_⟩
  rw [← hidesSmall_iff hp hstands]
  exact and_iff_right hbill

/-- Minutes of Actions that a person of a team used. -/
def minutes (lineId team : String) (principal : Option Principal) (quantity : String) : CostLine where
  lineId := lineId
  sourceKind := "github.billing_usage"
  dateUtc := 20454
  channel := "github_actions"
  workspaceId := some "acme"
  description := "actions minutes"
  model := none
  costType := some "actions"
  tokenType := none
  sku := some "actions_linux"
  serviceTier := none
  inferenceGeo := none
  endpointScope := none
  amountNano := 8000000
  principal := principal
  quantity := some quantity
  costCenter := some "Atlas"
  team := some team

def atlasInputs (lines : List CostLine) : FocusInputs where
  costLines := lines
  config := [⟨1767225600000, "github.cost_centers", "cost_center", "cc:Atlas",
    [("pool_enabled", .bool true), ("pool_target_credits", .int 1000)], 0⟩]
  reconciledChannels := ["github_actions"]
  k := 2

def noSeats : Pool := ⟨fun _ _ _ => .ok [], fun _ _ _ _ => .ok []⟩

def aiSpec : FocusSpec := ⟨[], "AI and Machine Learning"⟩

def pairInputs : FocusInputs := atlasInputs
  [minutes "l1" "web" (some (.p "0123456789abcdef0123")) "60", minutes "l2" "web" (some (.p "0123456789abcdef0124")) "0.5"]

theorem pair_fits : QuantitiesFit 2 ⟨["Atlas"], [], []⟩ (emitted pairInputs) := by
  have hfit : Decimal.SumsFit 28 0 ((emitted pairInputs).map quantityOf) := by
    have hquantities : (emitted pairInputs).map quantityOf = [60, 1 / 2] := by decide +kernel
    rw [hquantities]
    exact ⟨⟨60, 0, by decide, by norm_num⟩, ⟨605, -1, by decide, by norm_num⟩, trivial⟩
  have hkeys : ∀ ident alloc, linesOf ["Atlas"] (emitted pairInputs) ident alloc = emitted pairInputs ∨
      linesOf ["Atlas"] (emitted pairInputs) ident alloc = [] := by
    intro ident alloc
    have hone : ∀ l ∈ emitted pairInputs, ∀ l' ∈ emitted pairInputs,
        identOf ["Atlas"] l = identOf ["Atlas"] l' ∧ allocOf l = allocOf l' := by decide
    rcases hl : linesOf ["Atlas"] (emitted pairInputs) ident alloc with _ | ⟨l, rest⟩
    · exact .inr rfl
    · rw [← hl]
      have hmem : l ∈ linesOf ["Atlas"] (emitted pairInputs) ident alloc := hl ▸ mem_cons_self
      obtain ⟨hmem, hkey⟩ := mem_filter.mp hmem
      have hkey := of_decide_eq_true hkey
      refine .inl (filter_eq_self.mpr fun l' hl' => decide_eq_true ?_)
      obtain ⟨hi, ha⟩ := hone l' hl' l hmem
      exact ⟨hi.trans hkey.1, ha.trans hkey.2⟩
  refine ⟨fun ident alloc => ?_, fun g hg shown _ => ?_⟩
  · rcases hkeys ident alloc with h | h
    · rw [h]
      exact hfit
    · rw [h]
      trivial
  · have hlength : (sortedGroup g.2).length ≤ 1 := by
      rw [(sortedGroup_perm g.2).length_eq]
      exact (by decide : ∀ g ∈ groups ⟨["Atlas"], [], []⟩ (emitted pairInputs), g.2.length ≤ 1) g hg
    have hfilter := (length_filter_le (fun e => decide (allocText e.1 ∉ shown)) (sortedGroup g.2)).trans hlength
    generalize (sortedGroup g.2).filter (fun e => decide (allocText e.1 ∉ shown)) = hidden at hfilter
    rcases hidden with _ | ⟨e, rest⟩
    · trivial
    · obtain rfl : rest = [] := eq_nil_of_length_eq_zero (by simpa using hfilter)
      refine ⟨?_, trivial⟩
      show Decimal.Fits 28 (0 + ((linesOf ["Atlas"] (emitted pairInputs) g.1 e.1).map quantityOf).sum)
      rcases hkeys g.1 e.1 with h | h
      · have hsum : ((emitted pairInputs).map quantityOf).sum = 121 / 2 := by decide +kernel
        rw [h, hsum]
        exact ⟨605, -1, by decide, by norm_num⟩
      · rw [h]
        exact ⟨0, 0, by decide, by norm_num⟩

theorem focusRows_iff_pair : ∃ (out : FocusRowList) (cs : List Charge) (parts : List (List CostLine)), charges 2 ⟨["Atlas"], [], []⟩ (emitted pairInputs) = .ok cs ∧
    List.Forall₂ Shown cs out.rows ∧ parts.flatten.Perm (emitted pairInputs) ∧
    List.Forall₂ (fun part c => c.acc.users = principals part ∧ ∀ line ∈ part, identOf ["Atlas"] line = c.ident)
      parts cs ∧
    (EqualsBill (emitted pairInputs) out.rows ∧ HidesSmall 2 cs ↔ CappedCovered 2 ["Atlas"] (emitted pairInputs)) := by
  have hf : factsOf (fun _ => none) noSeats pairInputs = .ok ⟨["Atlas"], [], []⟩ :=
    toOption_eq_some.mp (by decide)
  have hok : (focusRows (fun _ => none) aiSpec noSeats pairInputs).toOption.isSome = true := by decide
  obtain ⟨out, hout⟩ := Option.isSome_iff_exists.mp hok
  have hiff := focusRows_iff hf (toOption_eq_some.mp hout) pair_fits
  exact ⟨out, hiff⟩

def oneInputs (principal : Option Principal) (quantity : String) : FocusInputs :=
  atlasInputs [minutes "l1" "web" principal quantity]

/-- The row of one person names the cost center, and a quantity of 30 digits is rounded. -/
theorem rows_name_one :
    (∃ out cs, focusRows (fun _ => none) aiSpec noSeats (oneInputs (some (.p "0123456789abcdef0123")) "60") = .ok out ∧
      charges 2 ⟨["Atlas"], [], []⟩ (emitted (oneInputs (some (.p "0123456789abcdef0123")) "60")) = .ok cs ∧
      List.Forall₂ Shown cs out.rows ∧ ¬ HidesSmall 2 cs) ∧
    ∃ out, focusRows (fun _ => none) aiSpec noSeats (oneInputs none "12345678901234567890.1234567891") = .ok out ∧
      ¬ EqualsBill (emitted (oneInputs none "12345678901234567890.1234567891")) out.rows := by
  constructor
  · have hok : (focusRows (fun _ => none) aiSpec noSeats
        (oneInputs (some (.p "0123456789abcdef0123")) "60")).toOption.isSome = true := by decide +kernel
    obtain ⟨out, hout⟩ := Option.isSome_iff_exists.mp hok
    have hout := toOption_eq_some.mp hout
    obtain ⟨⟨⟩, -, h⟩ := bind_eq_ok.mp hout
    obtain ⟨f, hf, h⟩ := bind_eq_ok.mp h
    have hfacts : factsOf (fun _ => none) noSeats (oneInputs (some (.p "0123456789abcdef0123")) "60") =
        .ok ⟨["Atlas"], [], []⟩ := toOption_eq_some.mp (by decide +kernel)
    obtain rfl := Except.ok.inj (hf.symm.trans hfacts)
    obtain ⟨cs, hcs, h⟩ := bind_eq_ok.mp h
    obtain ⟨rows, hrows, h⟩ := bind_eq_ok.mp h
    obtain rfl := pure_eq_ok.mp h
    refine ⟨_, cs, hout, hcs, (mapM_eq_ok.mp hrows).imp fun _ _ => rowOf_shown, fun hhides => ?_⟩
    have hone : (charges 2 ⟨["Atlas"], [], []⟩
        (emitted (oneInputs (some (.p "0123456789abcdef0123")) "60"))).toOption.any (fun cs =>
          cs.any fun c => c.names && decide (c.acc.users.card = 1)) = true := by decide
    have hcs : charges 2 ⟨["Atlas"], [], []⟩ (emitted (oneInputs (some (.p "0123456789abcdef0123")) "60")) = .ok cs := hcs
    rw [hcs] at hone
    obtain ⟨c, hc, hnames⟩ := any_eq_true.mp hone
    obtain ⟨hnames, hcard⟩ := Bool.and_eq_true_iff.mp hnames
    have hcard := of_decide_eq_true hcard
    rcases hhides c hc hnames with hk | hempty
    · omega
    · rw [hempty] at hcard
      cases hcard
  · have hok : (focusRows (fun _ => none) aiSpec noSeats
        (oneInputs none "12345678901234567890.1234567891")).toOption.any (fun out =>
          decide (((out.rows.filter fun r => decide (r.channel = "github_actions")).map
            (amount · "PricingQuantity")).sum ≠ 12345678901234567890.1234567891)) = true := by decide +kernel
    obtain ⟨out, hout, hne⟩ := (Option.any_eq_true _ _).mp hok
    refine ⟨out, toOption_eq_some.mp hout, fun hbill => of_decide_eq_true hne ?_⟩
    rw [hbill.quantity]
    decide +kernel

end TokenBill.Copilot.FocusRows
