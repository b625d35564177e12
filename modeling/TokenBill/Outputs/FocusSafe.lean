import TokenBill.Core.JsonText
import TokenBill.Core.PublishFlat
import TokenBill.Outputs.Focus
import Mathlib.Algebra.BigOperators.Group.List.Lemmas

/-!
# The FOCUS export conserves the ledger and hides small groups

The cells of an export are the groups of its rows, one for each charge identity and allocation,
with the sums of their amounts. The cells of an identity are partitioned along the values that
`publish` gave back, so every row of the file stands for a part of the groups: for one group of `k`
or of unknown users, or for all that are merged, which keep a cost center or a project only when
one of them has `k` users. Summing over the parts gives the sums over the rows.
-/

namespace TokenBill.Focus

open General Kanon List

/-! ### Groups -/

/-- A charge identity with an allocation. -/
structure Group where
  identity : List String
  (team costCenter project : Option String)
  deriving DecidableEq

def groupOf (row : LedgerCostRow) : Group := ⟨identity row, row.team, row.costCenter, row.project⟩

def Cell.group (c : Cell) : Group := ⟨c.identity, c.team, c.costCenter, c.project⟩

def rowsOf (kept : List LedgerCostRow) (part : List Group) : List LedgerCostRow :=
  kept.filter fun r => decide (groupOf r ∈ part)

theorem value_inj {a b : Option String} {s t : List Char}
    (h : (Json.ofStr? a).render ++ s = (Json.ofStr? b).render ++ t) : a = b ∧ s = t := by
  have hvalue : ∀ x, (Json.ofStr? x).render = (x.map Json.quote).getD "null".toList := by
    rintro (_ | x) <;> rfl
  rw [hvalue, hvalue] at h
  exact JsonText.optional_inj (fun x => JsonText.readString_quote x.toList) h

theorem allocKey_inj {t c p t' c' p' : Option String} (h : allocKey t c p = allocKey t' c' p') :
    t = t' ∧ c = c' ∧ p = p' := by
  have htext := congrArg String.toList h
  simp only [allocKey, String.toList_ofList, cons_append, append_assoc, List.cons.injEq,
    true_and, nil_append] at htext
  obtain ⟨ht, htext⟩ := value_inj htext
  simp only [List.cons.injEq, true_and] at htext
  obtain ⟨hc, htext⟩ := value_inj htext
  simp only [List.cons.injEq, true_and] at htext
  exact ⟨ht, hc, (value_inj htext).1⟩

/-! ### Cells -/

/-- Four amounts: the quantity, the list cost and the ends of the estimate. -/
abbrev CellAmounts : Type := ℤ × ℤ × ℤ × ℤ

def rowAmounts (r : LedgerCostRow) : CellAmounts :=
  (r.quantity, r.pricedNano, r.estimatedLowNano, r.estimatedHighNano)

def Cell.amounts (c : Cell) : CellAmounts := (c.quantity, c.priced, c.low, c.high)

/-- A cell holds the sums of some rows, and the largest of their user counts. -/
structure Sums (cell : Cell) (rows : List LedgerCostRow) : Prop where
  amounts : cell.amounts = (rows.map rowAmounts).sum
  le : ∀ r ∈ rows, r.nUsers ≤ cell.nUsers
  largest : cell.nUsers = 0 ∨ ∃ r ∈ rows, r.nUsers = cell.nUsers

variable {contracted recoverable : Option AmountTable}

theorem Sums.addRow {cell : Cell} {rows : List LedgerCostRow} (h : Sums cell rows) (r : LedgerCostRow) :
    Sums (cell.addRow contracted recoverable r) (rows ++ [r]) where
  amounts := by
    rw [map_append, sum_append, ← h.amounts]
    simp [Cell.amounts, Cell.addRow, rowAmounts]
  le x hx := by
    show x.nUsers ≤ ((max cell.nUsers r.nUsers.toNat : ℕ) : ℤ)
    rcases mem_append.mp hx with hx | hx
    · have := h.le x hx
      omega
    · obtain rfl := mem_singleton.mp hx
      omega
  largest := by
    show max cell.nUsers r.nUsers.toNat = 0 ∨ ∃ x ∈ rows ++ [r], x.nUsers = ((max cell.nUsers r.nUsers.toNat : ℕ) : ℤ)
    by_cases hr : r.nUsers.toNat ≤ cell.nUsers
    · rw [max_eq_left hr]
      exact h.largest.imp_right fun ⟨x, hx, he⟩ => ⟨x, mem_append_left _ hx, he⟩
    · exact .inr ⟨r, mem_append_right _ (mem_singleton.mpr rfl), by omega⟩

theorem sums_foldl {r : LedgerCostRow} {rest : List LedgerCostRow} {cell : Cell}
    (h : rest.foldl (fun held x => ((some held).getD (startCell x)).addRow contracted recoverable x)
      ((none.getD (startCell r)).addRow contracted recoverable r) = cell) :
    Sums cell (r :: rest) ∧ cell.group = groupOf r := by
  have hrun : ∀ (rest done : List LedgerCostRow) (c : Cell), Sums c done → c.group = groupOf r →
      Sums (rest.foldl (fun held x => ((some held).getD (startCell x)).addRow contracted recoverable x) c)
        (done ++ rest) ∧
      (rest.foldl (fun held x => ((some held).getD (startCell x)).addRow contracted recoverable x) c).group =
        groupOf r := by
    intro rest
    induction rest with
    | nil => exact fun done c hc hg => ⟨by rwa [append_nil], hg⟩
    | cons x rest ih =>
      intro done c hc hg
      rw [foldl_cons, append_cons]
      exact ih _ _ (hc.addRow x) hg
  subst h
  refine hrun rest [r] _ ?_ rfl
  have hstart : Sums (startCell r) [] := ⟨rfl, fun _ h => absurd h not_mem_nil, .inl rfl⟩
  exact hstart.addRow r

theorem group_eq_iff {r : LedgerCostRow} {c : Cell} :
    groupOf r = c.group ↔ identity r = c.identity ∧ rowAlloc r = allocKey c.team c.costCenter c.project := by
  constructor
  · intro h
    obtain ⟨hi, ht, hc, hp⟩ := Group.mk.inj h
    exact ⟨hi, by rw [rowAlloc, ht, hc, hp]⟩
  · rintro ⟨hi, ha⟩
    obtain ⟨ht, hc, hp⟩ := allocKey_inj ha
    rw [groupOf, hi, ht, hc, hp]
    rfl

theorem group_of_mem {rows : List LedgerCostRow} {ident : List String} {group : List (String × Cell)}
    (h : (ident, group) ∈ cells contracted recoverable rows) :
    group = collect rowAlloc (fun cell row => (cell.getD (startCell row)).addRow contracted recoverable row)
      (rows.filter fun r => decide (identity r = ident)) := by
  obtain ⟨x, rest, hrows, hgroup⟩ := mem_collect h
  rw [hrows, ← hgroup]
  rfl

/-- A cell of the two tables has its identity and its key, and is made of the rows of its group. -/
theorem cell_of_mem {rows : List LedgerCostRow} {ident : List String} {group : List (String × Cell)}
    (h : (ident, group) ∈ cells contracted recoverable rows) {akey : String} {c : Cell}
    (hc : (akey, c) ∈ group) :
    c.identity = ident ∧ akey = allocKey c.team c.costCenter c.project ∧
      ∃ x rest, rows.filter (fun r => decide (groupOf r = c.group)) = x :: rest ∧
        rest.foldl (fun held x => ((some held).getD (startCell x)).addRow contracted recoverable x)
          ((none.getD (startCell x)).addRow contracted recoverable x) = c := by
  rw [group_of_mem h] at hc
  obtain ⟨x, rest, hrows, hcell⟩ := mem_collect hc
  obtain ⟨-, hgroup⟩ := sums_foldl hcell
  have hx : x ∈ (rows.filter fun r => decide (identity r = ident)).filter fun r => decide (rowAlloc r = akey) :=
    hrows ▸ mem_cons_self
  obtain ⟨hx, hkey⟩ := mem_filter.mp hx
  obtain ⟨hx, hident⟩ := mem_filter.mp hx
  obtain ⟨hci, hca⟩ := group_eq_iff.mp hgroup.symm
  have hident := hci.symm.trans (of_decide_eq_true hident)
  have hkey := (of_decide_eq_true hkey).symm.trans hca
  refine ⟨hident, hkey, x, rest, ?_, hcell⟩
  rw [← hrows, filter_filter]
  refine filter_congr fun r _ => ?_
  rw [Bool.eq_iff_iff, Bool.and_eq_true, decide_eq_true_eq, decide_eq_true_eq, decide_eq_true_eq,
    group_eq_iff, hident, ← hkey]
  exact and_comm

theorem mem_cells {rows : List LedgerCostRow} {ident : List String} {group : List (String × Cell)}
    (h : (ident, group) ∈ cells contracted recoverable rows) {akey : String} {c : Cell}
    (hc : (akey, c) ∈ group) :
    c.identity = ident ∧ akey = allocKey c.team c.costCenter c.project ∧
      Sums c (rows.filter fun r => decide (groupOf r = c.group)) ∧ ∃ r ∈ rows, groupOf r = c.group := by
  obtain ⟨hident, hkey, x, rest, hrows, hcell⟩ := cell_of_mem h hc
  obtain ⟨hsums, hgroup⟩ := sums_foldl hcell
  have hx : x ∈ rows.filter fun r => decide (groupOf r = c.group) := hrows ▸ mem_cons_self
  refine ⟨hident, hkey, ?_, x, mem_of_mem_filter hx, hgroup.symm⟩
  rw [hrows]
  exact hsums

def allCells (contracted recoverable : Option AmountTable) (rows : List LedgerCostRow) : List Cell :=
  (cells contracted recoverable rows).flatMap fun g => g.2.map (·.2)

theorem sums_of_mem {rows : List LedgerCostRow} {c : Cell} (h : c ∈ allCells contracted recoverable rows) :
    Sums c (rows.filter fun r => decide (groupOf r = c.group)) := by
  obtain ⟨⟨ident, group⟩, hg, hmem⟩ := mem_flatMap.mp h
  obtain ⟨⟨akey, c⟩, hc, rfl⟩ := mem_map.mp hmem
  exact (mem_cells hg hc).2.2.1

theorem groups_allCells (rows : List LedgerCostRow) :
    ((allCells contracted recoverable rows).map Cell.group).Perm (rows.map groupOf).dedup := by
  refine (perm_ext_iff_of_nodup ?_ (nodup_dedup _)).mpr fun g => ?_
  · unfold allCells
    rw [map_flatMap]
    refine nodup_flatMap.mpr ⟨fun ⟨ident, group⟩ hg => ?_, ?_⟩
    · have hn : (group.map (·.1)).Nodup := by
        rw [group_of_mem hg]
        exact nodup_collect _ _ _
      rw [map_map]
      refine (nodup_map_iff_inj_on hn.of_map).mpr fun e he e' he' heq => ?_
      obtain ⟨akey, c⟩ := e
      obtain ⟨akey', c'⟩ := e'
      refine inj_on_of_nodup_map hn he he' ?_
      obtain ⟨-, ht, hc, hp⟩ := Group.mk.inj heq
      rw [(mem_cells hg he).2.1, (mem_cells hg he').2.1]
      rw [ht, hc, hp]
    · have hkeys := nodup_collect identity (addToGroup contracted recoverable) rows
      refine (pairwise_map.mp hkeys).imp_of_mem fun {e e'} he he' hne => ?_
      refine disjoint_left.mpr fun g hg hg' => hne ?_
      obtain ⟨c, hmem, rfl⟩ := mem_map.mp hg
      obtain ⟨c', hmem', heq⟩ := mem_map.mp hg'
      obtain ⟨⟨akey, c⟩, hc, rfl⟩ := mem_map.mp hmem
      obtain ⟨⟨akey', c'⟩, hc', rfl⟩ := mem_map.mp hmem'
      rw [← (mem_cells he hc).1, ← (mem_cells he' hc').1]
      exact (Group.mk.inj heq).1.symm
  · rw [mem_dedup, mem_map, mem_map]
    constructor
    · rintro ⟨c, hall, rfl⟩
      obtain ⟨⟨ident, group⟩, hg, hmem⟩ := mem_flatMap.mp hall
      obtain ⟨⟨akey, c⟩, hc, rfl⟩ := mem_map.mp hmem
      exact (mem_cells hg hc).2.2.2
    · rintro ⟨r, hr, rfl⟩
      have hidents : identity r ∈ (cells contracted recoverable rows).map (·.1) :=
        mem_keys_collect.mpr ⟨r, hr, rfl⟩
      obtain ⟨⟨ident, group⟩, hg, hident⟩ := mem_map.mp hidents
      have hident : ident = identity r := hident
      have hkeys : rowAlloc r ∈ group.map (·.1) := by
        rw [group_of_mem hg]
        exact mem_keys_collect.mpr ⟨r, mem_filter.mpr ⟨hr, decide_eq_true hident.symm⟩, rfl⟩
      obtain ⟨⟨akey, c⟩, hc, hkey⟩ := mem_map.mp hkeys
      refine ⟨c, mem_flatMap.mpr ⟨_, hg, mem_map.mpr ⟨_, hc, rfl⟩⟩, ?_⟩
      obtain ⟨hci, hca, -⟩ := mem_cells hg hc
      exact (group_eq_iff.mpr ⟨hident.symm.trans hci.symm, hkey.symm.trans hca⟩).symm

/-! ### What is published of an identity -/

/-- A published cell with the cells it stands for. -/
inductive Shows (k : Nat) : List Cell → Cell → Prop where
  /-- A cell of `k` users, or of unknown users. -/
  | alone {c : Cell} : k ≤ c.nUsers ∨ c.nUsers = 0 → Shows k [c] c
  /-- The merge of some cells, of which one has `k` users unless nothing is said of them. -/
  | merged {first : Cell} {rest : List Cell} {orgLevel : Bool} :
      (orgLevel = false → ∃ c ∈ first :: rest, k ≤ c.nUsers) →
      Shows k (first :: rest) (merge first rest k orgLevel)

theorem allocKey_ne_label (t c p : Option String) (k : Nat) : allocKey t c p ≠ otherLabel k := by
  intro h
  have htext := congrArg (fun s => s.toList.head?) h
  simp [allocKey, otherLabel] at htext

theorem valueOf_carrier (c : Cell) : valueOf (carrier c) = allocKey c.team c.costCenter c.project := by
  simp only [valueOf, carrier, head?_cons, Option.bind_some, Option.getD_some]

theorem mapError_eq_ok {ε ε' α : Type} {f : ε → ε'} {x : Except ε α} {a : α} :
    x.mapError f = .ok a ↔ x = .ok a := by
  cases x <;> simp [Except.mapError]

/-- The cells of an identity are partitioned over the published ones. -/
theorem publishGroup_spec {group : List (String × Cell)} {k : Nat} {out : List Cell}
    (hkey : ∀ g ∈ group, g.1 = allocKey g.2.team g.2.costCenter g.2.project)
    (hn : (group.map (·.1)).Nodup) (h : publishGroup group k = .ok out) :
    ∃ parts : List (List Cell), parts.flatten.Perm (group.map (·.2)) ∧ List.Forall₂ (Shows k) parts out := by
  obtain ⟨published, hpub, h⟩ := bind_eq_ok.mp h
  have hpub : publish ⟨["allocation"], group.map fun g => carrier g.2, (0, 0)⟩ k = .ok published := by
    exact mapError_eq_ok.mp hpub
  have hvalue : ∀ g ∈ group, valueOf (carrier g.2) = g.1 := fun g hg => by
    rw [valueOf_carrier, hkey g hg]
  have hflat : Flat "allocation" (group.map fun g => carrier g.2) := by
    refine ⟨fun r hr => ?_, ?_⟩
    · obtain ⟨g, -, rfl⟩ := mem_map.mp hr
      rfl
    · have hkeys : group.map (fun g => valueOf (carrier g.2)) = group.map (·.1) := map_congr_left hvalue
      rw [← hkeys] at hn
      rwa [map_map]
  have hlabel : ∀ r ∈ group.map fun g => carrier g.2, valueOf r ≠ otherLabel k := by
    intro r hr
    obtain ⟨g, -, rfl⟩ := mem_map.mp hr
    rw [valueOf_carrier]
    exact allocKey_ne_label _ _ _ k
  obtain ⟨hshown, hrow, -⟩ := publish_flat rfl hflat hlabel hpub
  have hvalues : (published.rows.map fun row => (row.dims.head?.bind (·.2)).getD "") =
      published.rows.map valueOf := rfl
  rw [hvalues] at h
  dsimp only at h
  generalize published.rows.map valueOf = values at hshown hrow h
  generalize hs : values.filter (· ≠ otherLabel k) = shown at h
  have hmem : ∀ g ∈ group, g.1 ∈ shown ↔ g.1 ∈ values := fun g hg => by
    rw [← hs, mem_filter]
    refine and_iff_left (decide_eq_true ?_)
    rw [hkey g hg]
    exact allocKey_ne_label _ _ _ k
  have hkeep : ∀ c ∈ (group.filter fun g => decide (g.1 ∈ shown)).map (·.2), k ≤ c.nUsers ∨ c.nUsers = 0 := by
    intro c hc
    obtain ⟨g, hg, rfl⟩ := mem_map.mp hc
    obtain ⟨hg, hgs⟩ := mem_filter.mp hg
    refine hshown _ (mem_map_of_mem (f := fun g : String × Cell => carrier g.2) hg) ?_
    rw [hvalue g hg]
    exact (hmem g hg).mp (of_decide_eq_true hgs)
  have hperm : ((group.filter fun g => decide (g.1 ∈ shown)).map (·.2) ++
      (group.filter fun g => decide (g.1 ∉ shown)).map (·.2)).Perm (group.map (·.2)) := by
    rw [← map_append]
    refine List.Perm.map _ ?_
    have := filter_append_perm (fun g : String × Cell => decide (g.1 ∈ shown)) group
    simpa only [decide_not] using this
  have hcovers : otherLabel k ∈ values →
      ∃ c ∈ (group.filter fun g => decide (g.1 ∉ shown)).map (·.2), k ≤ c.nUsers := fun hl => by
    obtain ⟨r, hr, hnot, hk⟩ := hrow hl
    obtain ⟨g, hg, rfl⟩ := mem_map.mp hr
    rw [hvalue g hg] at hnot
    refine ⟨g.2, mem_map_of_mem (mem_filter.mpr ⟨hg, decide_eq_true ?_⟩), hk⟩
    exact fun hin => hnot ((hmem g hg).mp hin)
  generalize (group.filter fun g => decide (g.1 ∈ shown)).map (·.2) = keep at h hkeep hperm
  generalize (group.filter fun g => decide (g.1 ∉ shown)).map (·.2) = rest at h hperm hcovers
  have halone : List.Forall₂ (Shows k) (keep.map fun c => [c]) keep := by
    refine forall₂_map_left_iff.mpr (forall₂_same.mpr fun c hc => .alone (hkeep c hc))
  have hflatten : (keep.map fun c => [c]).flatten = keep := by
    rw [← flatMap_def]
    exact flatMap_singleton' keep
  cases rest with
  | nil =>
    obtain rfl := pure_eq_ok.mp h
    exact ⟨_, by rwa [hflatten, ← append_nil keep], halone⟩
  | cons first rest =>
    obtain rfl := pure_eq_ok.mp h
    refine ⟨(keep.map fun c => [c]) ++ [first :: rest], ?_, ?_⟩
    · rwa [flatten_append, hflatten, flatten_cons, flatten_nil, append_nil]
    · refine rel_append halone (.cons (.merged fun ho => hcovers ?_) .nil)
      simpa using ho

/-- The loop of a merge adds the amounts and leaves the rest. -/
theorem foldl_absorb (cs : List Cell) (base : Cell) :
    (cs.foldl Cell.absorb base).amounts = base.amounts + (cs.map Cell.amounts).sum ∧
      (cs.foldl Cell.absorb base).team = base.team ∧
      (cs.foldl Cell.absorb base).costCenter = base.costCenter ∧
      (cs.foldl Cell.absorb base).project = base.project ∧ (cs.foldl Cell.absorb base).row = base.row := by
  induction cs generalizing base with
  | nil => exact ⟨(add_zero _).symm, rfl, rfl, rfl, rfl⟩
  | cons c cs ih =>
    obtain ⟨hamounts, ht, hc, hp, hr⟩ := ih (base.absorb c)
    refine ⟨?_, ht, hc, hp, hr⟩
    rw [foldl_cons, hamounts, map_cons, sum_cons, ← add_assoc]
    rfl

/-- A published cell holds the amounts of the cells it stands for. -/
theorem Shows.amounts {k : Nat} {part : List Cell} {c : Cell} (h : Shows k part c) :
    c.amounts = (part.map Cell.amounts).sum := by
  cases h with
  | alone => simp
  | merged => exact (foldl_absorb _ _).1.trans (zero_add _)

theorem Shows.ne_nil {k : Nat} {part : List Cell} {c : Cell} (h : Shows k part c) : part ≠ [] := by
  cases h <;> exact cons_ne_nil _ _

/-- The cells of some identities are partitioned over what is published of them. -/
theorem publishGroups_spec {groups : List (List String × List (String × Cell))} {k : Nat}
    {outs : List (List Cell)}
    (hgroups : ∀ g ∈ groups, (g.2.map (·.1)).Nodup ∧
      ∀ e ∈ g.2, e.1 = allocKey e.2.team e.2.costCenter e.2.project ∧ e.2.identity = g.1)
    (h : List.Forall₂ (fun g out => publishGroup g.2 k = .ok out) groups outs) :
    ∃ parts : List (List Cell), parts.flatten.Perm (groups.flatMap fun g => g.2.map (·.2)) ∧
      (∀ part ∈ parts, ∃ ident, ∀ x ∈ part, x.identity = ident) ∧
      List.Forall₂ (Shows k) parts outs.flatten := by
  induction h with
  | nil => exact ⟨[], .refl _, nofun, .nil⟩
  | @cons g out groups outs hg _ ih =>
    obtain ⟨hn, hkey⟩ := hgroups _ mem_cons_self
    obtain ⟨first, hfirst, hshows⟩ := publishGroup_spec (fun e he => (hkey e he).1) hn hg
    obtain ⟨rest, hrest, hidents, hshowsRest⟩ := ih fun g hg => hgroups g (mem_cons_of_mem _ hg)
    refine ⟨first ++ rest, ?_, forall_mem_append.mpr ⟨fun part hpart => ⟨g.1, fun x hx => ?_⟩, hidents⟩, ?_⟩
    · rw [flatten_append, flatMap_cons]
      exact hfirst.append hrest
    · obtain ⟨e, he, rfl⟩ := mem_map.mp (hfirst.mem_iff.mp (mem_flatten.mpr ⟨part, hpart, hx⟩))
      exact (hkey e he).2
    · rw [flatten_cons]
      exact rel_append hshows hshowsRest

theorem exportCells_spec {args : FocusArgs} {kept : List LedgerCostRow} {out : List Cell}
    (h : exportCells args kept = .ok out) :
    ∃ parts : List (List Cell), parts.flatten.Perm (allCells args.contracted args.recoverableByScope kept) ∧
      (∀ part ∈ parts, ∃ ident, ∀ x ∈ part, x.identity = ident) ∧ List.Forall₂ (Shows args.k) parts out := by
  obtain ⟨outs, houts, h⟩ := bind_eq_ok.mp h
  obtain rfl := pure_eq_ok.mp h
  obtain ⟨parts, hperm, hidents, hshows⟩ := publishGroups_spec (fun ⟨_, group⟩ hg => by
    refine ⟨?_, fun ⟨_, _⟩ he => ⟨(mem_cells hg he).2.1, (mem_cells hg he).1⟩⟩
    rw [group_of_mem hg]
    exact nodup_collect _ _ _) (mapM_eq_ok.mp houts)
  have hsort : (outs.flatten.insertionSort fun a b =>
      sortKey (otherLabel args.k) a ≤ sortKey (otherLabel args.k) b).Perm outs.flatten :=
    perm_insertionSort _ _
  obtain ⟨sorted, hsorted, hp⟩ := perm_comp_forall₂ hsort hshows.flip
  exact ⟨sorted, hp.flatten.trans hperm, fun part hpart => hidents part (hp.mem_iff.mp hpart), hsorted.flip⟩

/-! ### What a row of the file says -/

def field (header line : List String) (column : String) : String := ((header.zip line).lookup column).getD ""

theorem field_lineOf {header : List String} {values : List (String × String)} {column : String}
    (h : column ∈ header) : field header (lineOf header values) column =
      cellText column ((values.lookup column).getD "") := by
  unfold field lineOf
  induction header with
  | nil => cases h
  | cons c header ih =>
    rw [map_cons, zip_cons_cons, lookup_cons]
    by_cases hc : column = c
    · rw [hc, beq_self_eq_true]
      rfl
    · rw [beq_false_of_ne hc]
      exact ih ((mem_cons.mp h).resolve_left hc)

/-- The values of a row that its amounts and its names are read from. -/
theorem ledgerRow_values {py : Python} {spec : FocusSpec} {cell : Cell} {role rateCardSha : String}
    {reconciled : Bool} {report : Option (List Recon.ReconRow)} {findings : List Finding}
    {values : List (String × String)}
    (h : ledgerRow py spec cell role reconciled rateCardSha report findings = .ok values) :
    values.lookup "ConsumedQuantity" = some (toString cell.quantity) ∧
      values.lookup "ListCost" = some (nanoToUsdStr cell.priced) ∧
      values.lookup "Tags" = some (tagsText (tagsOf cell)) ∧
      values.lookup "x_EstimatedCostLow" =
        some (if cell.low ≠ 0 ∨ cell.high ≠ 0 then nanoToUsdStr cell.low else "") ∧
      values.lookup "x_EstimatedCostHigh" =
        some (if cell.low ≠ 0 ∨ cell.high ≠ 0 then nanoToUsdStr cell.high else "") := by
  obtain ⟨day, -, h⟩ := bind_eq_ok.mp h
  obtain ⟨⟨periodStart, periodEnd⟩, -, h⟩ := bind_eq_ok.mp h
  obtain ⟨tomorrow, -, h⟩ := bind_eq_ok.mp h
  obtain ⟨contracted, -, h⟩ := bind_eq_ok.mp h
  obtain ⟨listUnitPrice, -, h⟩ := bind_eq_ok.mp h
  obtain ⟨contractedUnitPrice, -, h⟩ := bind_eq_ok.mp h
  obtain ⟨delta, -, h⟩ := bind_eq_ok.mp h
  obtain rfl := pure_eq_ok.mp h
  exact ⟨rfl, rfl, rfl, rfl, rfl⟩

theorem text_printable (d : Decimal) : ∀ c ∈ d.text, Textsafe.within 0x20 0x7e c := by
  have hdigit : ∀ c : Char, c.isDigit → Textsafe.within 0x20 0x7e c := fun c hc => by
    obtain ⟨h0, h9⟩ : 48 ≤ c.toNat ∧ c.toNat ≤ 57 := Char.isDigit_iff_toNat.mp hc
    simp only [Textsafe.within, Bool.and_eq_true, decide_eq_true_eq]
    omega
  intro c hc
  rcases mem_append.mp hc with hc | hc
  · rcases mem_append.mp hc with hc | hc
    · split at hc
      · obtain rfl := mem_singleton.mp hc
        rfl
      · cases hc
    · exact hdigit c (Decimal.isDigit_of_mem_digits hc)
  · split at hc
    · cases hc
    · rcases mem_cons.mp hc with rfl | hc
      · rfl
      · exact hdigit c (Decimal.isDigit_of_mem_padded hc)

theorem amountOfText_cellText {column : String} (h : column ∈ numericColumns) (d : Decimal) :
    amountOfText (cellText column (String.ofList d.text)) = d.toRat := by
  unfold cellText
  rw [Textsafe.sanitize_ascii (by rw [String.toList_ofList]; exact text_printable d)]
  rw [if_neg fun hc => hc.1 h, amountOfText_text]

theorem amount_int {column : String} (h : column ∈ numericColumns) (n : Int) :
    amountOfText (cellText column (toString n)) = n := by
  rw [toString_int_eq, amountOfText_cellText h]
  exact (Decimal.toRat_ofScaled n 0).trans (by rw [pow_zero, div_one])

theorem amount_nano {column : String} (h : column ∈ numericColumns) (nano : Int) :
    amountOfText (cellText column (nanoToUsdStr nano)) = nano / 10 ^ 9 := by
  rw [nanoToUsdStr_eq, amountOfText_cellText h, Decimal.toRat_ofScaled]

/-- An end of an estimate shows nothing when both are zero. -/
theorem amount_estimate {column : String} (h : column ∈ numericColumns) {nano low high : Int}
    (h0 : low = 0 → high = 0 → nano = 0) :
    amountOfText (cellText column (if low ≠ 0 ∨ high ≠ 0 then nanoToUsdStr nano else "")) = nano / 10 ^ 9 := by
  split
  · exact amount_nano h nano
  · rename_i hz
    rw [not_or, not_not, not_not] at hz
    rw [h0 hz.1 hz.2]
    have hempty : cellText column "" = "" := by
      unfold cellText
      rw [if_neg fun hc => hc.1 h]
      rfl
    rw [hempty, Int.cast_zero, zero_div]
    rfl

/-- What the tags of a row may name, when the row stands for some groups: the names of one group of
`k` users or of unknown users, or the label, with a cost center or a project that all groups share
and of which some row has `k` users. -/
def Hides (k : Nat) (kept : List LedgerCostRow) (part : List Group) (tags : List (String × String)) : Prop :=
  (∃ g, part = [g] ∧ tags.lookup "team" = g.team.filter (· ≠ "") ∧
    tags.lookup "cost_center" = g.costCenter.filter (· ≠ "") ∧
    tags.lookup "project" = g.project.filter (· ≠ "") ∧
    ((∃ r ∈ rowsOf kept [g], (k : ℤ) ≤ r.nUsers) ∨ ∀ r ∈ rowsOf kept [g], r.nUsers ≤ 0)) ∨
  (tags.lookup "team" = some (otherLabel k) ∧
    (∀ v, tags.lookup "cost_center" = some v →
      (∀ g ∈ part, g.costCenter = some v) ∧ ∃ r ∈ rowsOf kept part, (k : ℤ) ≤ r.nUsers) ∧
    ∀ v, tags.lookup "project" = some v →
      (∀ g ∈ part, g.project = some v) ∧ ∃ r ∈ rowsOf kept part, (k : ℤ) ≤ r.nUsers)

/-- A line of the file that stands for some groups: it has their amounts, and names what it may. -/
structure Exported (k : Nat) (kept : List LedgerCostRow) (header : List String) (part : List Group)
    (line : List String) : Prop where
  ne : part ≠ []
  quantity : amountOfText (field header line "ConsumedQuantity") =
    ((rowsOf kept part).map (·.quantity)).sum
  listCost : amountOfText (field header line "ListCost") =
    ((rowsOf kept part).map (·.pricedNano)).sum / 10 ^ 9
  low : amountOfText (field header line "x_EstimatedCostLow") =
    ((rowsOf kept part).map (·.estimatedLowNano)).sum / 10 ^ 9
  high : amountOfText (field header line "x_EstimatedCostHigh") =
    ((rowsOf kept part).map (·.estimatedHighNano)).sum / 10 ^ 9
  tags : ∃ tags, field header line "Tags" = cellText "Tags" (tagsText tags) ∧ Hides k kept part tags

theorem lookup_tagsOf (c : Cell) : (tagsOf c).lookup "team" = c.team.filter (· ≠ "") ∧
    (tagsOf c).lookup "cost_center" = c.costCenter.filter (· ≠ "") ∧
    (tagsOf c).lookup "project" = c.project.filter (· ≠ "") := by
  have hlookup := lookup_filterMap (fun v : Option String => v.filter (· ≠ ""))
    (l := [("team", c.team), ("cost_center", c.costCenter), ("project", c.project),
      ("workload_class", some c.row.workloadClass), ("agent_product", c.row.agentProduct),
      ("billing_path", some c.row.billingPath)]) (by simp only [map_cons, map_nil]; decide)
  exact ⟨hlookup "team", hlookup "cost_center", hlookup "project"⟩

variable {kept : List LedgerCostRow} {k : Nat} {part : List Cell} {c : Cell}

theorem Shows.rows (h : Shows k part c) (hmem : ∀ x ∈ part, x ∈ allCells contracted recoverable kept)
    (hn : (part.map Cell.group).Nodup) :
    c.amounts = ((rowsOf kept (part.map Cell.group)).map rowAmounts).sum := by
  rw [h.amounts, rowsOf, sum_of_keys groupOf rowAmounts kept hn, map_map]
  exact congrArg List.sum (map_congr_left fun x hx => (sums_of_mem (hmem x hx)).amounts)

theorem mem_rowsOf_group {x : Cell} {r : LedgerCostRow} :
    r ∈ rowsOf kept [x.group] ↔ r ∈ kept.filter fun r => decide (groupOf r = x.group) := by
  unfold rowsOf
  simp only [mem_singleton]

/-- A cell of `k` users has a row of them. -/
theorem exists_users {x : Cell} (hx : x ∈ allCells contracted recoverable kept) (hk : 1 ≤ k)
    (hu : k ≤ x.nUsers) : ∃ r ∈ rowsOf kept [x.group], (k : ℤ) ≤ r.nUsers := by
  obtain ⟨r, hr, he⟩ := (sums_of_mem hx).largest.resolve_left (by omega)
  exact ⟨r, mem_rowsOf_group.mpr hr, by omega⟩

theorem unknown_users {x : Cell} (hx : x ∈ allCells contracted recoverable kept) (hu : x.nUsers = 0) :
    ∀ r ∈ rowsOf kept [x.group], r.nUsers ≤ 0 := fun r hr => by
  have := (sums_of_mem hx).le r (mem_rowsOf_group.mp hr)
  omega

/-- A value that a merge keeps is shared, and something is said of the merged cells. -/
theorem merge_values {first : Cell} {rest : List Cell} {orgLevel : Bool} :
    (merge first rest k orgLevel).team = some (otherLabel k) ∧
      (∀ v, (merge first rest k orgLevel).costCenter = some v →
        orgLevel = false ∧ ∀ x ∈ first :: rest, x.costCenter = some v) ∧
      ∀ v, (merge first rest k orgLevel).project = some v →
        orgLevel = false ∧ ∀ x ∈ first :: rest, x.project = some v := by
  have hsame : ∀ (attr : Cell → Option String) (v : String),
      (if (!orgLevel && (first :: rest).all fun c => attr c == attr first) = true then attr first else none) =
        some v → orgLevel = false ∧ ∀ x ∈ first :: rest, attr x = some v := by
    intro attr v h
    split at h
    · rename_i hall
      obtain ⟨horg, hall⟩ := Bool.and_eq_true_iff.mp hall
      refine ⟨by simpa using horg, fun x hx => ?_⟩
      rw [← h]
      exact eq_of_beq (all_eq_true.mp hall x hx)
    · cases h
  obtain ⟨-, ht, hc, hp, -⟩ := foldl_absorb (first :: rest)
    { identity := first.identity, team := some (otherLabel k)
      costCenter := if (!orgLevel && (first :: rest).all fun c => c.costCenter == first.costCenter) = true then
        first.costCenter else none
      project := if (!orgLevel && (first :: rest).all fun c => c.project == first.project) = true then
        first.project else none
      row := first.row, methodId := first.methodId, methodDetails := first.methodDetails }
  exact ⟨ht, fun v h => hsame (·.costCenter) v (hc.symm.trans h),
    fun v h => hsame (·.project) v (hp.symm.trans h)⟩

/-- The tags of a published cell name what they may. -/
theorem Shows.hides (h : Shows k part c) (hk : 1 ≤ k)
    (hmem : ∀ x ∈ part, x ∈ allCells contracted recoverable kept) :
    Hides k kept (part.map Cell.group) (tagsOf c) := by
  obtain ⟨hteam, hcost, hproject⟩ := lookup_tagsOf c
  cases h with
  | alone hor =>
    have hx := hmem c mem_cons_self
    exact .inl ⟨c.group, rfl, hteam, hcost, hproject, hor.imp (exists_users hx hk) (unknown_users hx)⟩
  | @merged first rest orgLevel hcovers =>
    obtain ⟨ht, hc, hp⟩ : (merge first rest k orgLevel).team = some (otherLabel k) ∧ _ := merge_values
    have hrows : orgLevel = false →
        ∃ r ∈ rowsOf kept ((first :: rest).map Cell.group), (k : ℤ) ≤ r.nUsers := fun ho => by
      obtain ⟨x, hx, hu⟩ := hcovers ho
      obtain ⟨r, hr, hrk⟩ := exists_users (hmem x hx) hk hu
      obtain ⟨hr, hg⟩ := mem_filter.mp hr
      refine ⟨r, mem_filter.mpr ⟨hr, decide_eq_true ?_⟩, hrk⟩
      rw [mem_singleton.mp (of_decide_eq_true hg)]
      exact mem_map_of_mem hx
    have hgroups : ∀ {attr : Cell → Option String} {attr' : Group → Option String} {v : String},
        (∀ x : Cell, attr' x.group = attr x) → (∀ x ∈ first :: rest, attr x = some v) →
          ∀ g ∈ (first :: rest).map Cell.group, attr' g = some v := by
      intro attr attr' v hattr hall g hg
      obtain ⟨x, hx, rfl⟩ := mem_map.mp hg
      rw [hattr, hall x hx]
    refine .inr ⟨?_, fun v hv => ?_, fun v hv => ?_⟩
    · rw [hteam, ht, Option.filter_some, if_pos]
      exact decide_eq_true fun he => absurd (congrArg (·.toList.head?) he) (by simp [otherLabel])
    · rw [hcost] at hv
      obtain ⟨ho, hall⟩ := hc v (Option.eq_some_of_filter_eq_some hv)
      exact ⟨hgroups (fun _ => rfl) hall, hrows ho⟩
    · rw [hproject] at hv
      obtain ⟨ho, hall⟩ := hp v (Option.eq_some_of_filter_eq_some hv)
      exact ⟨hgroups (fun _ => rfl) hall, hrows ho⟩

/-- The line of a published cell. -/
def lineOfCell (py : Python) (spec : FocusSpec) (args : FocusArgs) (header : List String) (cell : Cell) :
    Except FocusError (List String) := do
  let values ← ledgerRow py spec cell args.role (decide (cell.row.channel ∈ args.reconciledChannels))
    args.rateCardSha args.reconciliation args.findings
  pure (lineOf header values)

/-- The line of a published cell is that of its part. -/
theorem Shows.exported {py : Python} {spec : FocusSpec} {args : FocusArgs} {reconciled : Bool}
    {header line : List String} (h : Shows k part c) (hk : 1 ≤ k)
    (hmem : ∀ x ∈ part, x ∈ allCells contracted recoverable kept) (hn : (part.map Cell.group).Nodup)
    (hcol : ∀ c ∈ focusColumnNames ++ xColumnNames, c ∈ header)
    (hline : (do
      let values ← ledgerRow py spec c args.role reconciled args.rateCardSha args.reconciliation args.findings
      pure (lineOf header values)) = Except.ok line) :
    Exported k kept header (part.map Cell.group) line := by
  obtain ⟨values, hvalues, hline⟩ := bind_eq_ok.mp hline
  obtain rfl := pure_eq_ok.mp hline
  obtain ⟨hquantity, hlist, htags, hlow, hhigh⟩ := ledgerRow_values hvalues
  have hfield : ∀ {column text : String}, column ∈ focusColumnNames ++ xColumnNames →
      values.lookup column = some text → field header (lineOf header values) column = cellText column text :=
    fun hc ht => by rw [field_lineOf (hcol _ hc), ht, Option.getD_some]
  have hrows := h.rows hmem hn
  have hsum : ∀ (xs : List LedgerCostRow), (xs.map rowAmounts).sum = ((xs.map (·.quantity)).sum,
      (xs.map (·.pricedNano)).sum, (xs.map (·.estimatedLowNano)).sum, (xs.map (·.estimatedHighNano)).sum) := by
    intro xs
    induction xs with
    | nil => rfl
    | cons x xs ih =>
      rw [map_cons, sum_cons, ih]
      rfl
  rw [hsum] at hrows
  obtain ⟨hq, hpriced, hl, hh⟩ : c.quantity = _ ∧ c.priced = _ ∧ c.low = _ ∧ c.high = _ := by
    simpa only [Cell.amounts, Prod.mk.injEq] using hrows
  refine ⟨fun he => h.ne_nil (map_eq_nil_iff.mp he), ?_, ?_, ?_, ?_, tagsOf c, ?_, h.hides hk hmem⟩
  · rw [hfield (by decide) hquantity, amount_int (by decide), hq]
  · rw [hfield (by decide) hlist, amount_nano (by decide), hpriced]
  · rw [hfield (by decide) hlow, amount_estimate (by decide) fun h _ => h, hl]
  · rw [hfield (by decide) hhigh, amount_estimate (by decide) fun _ h => h, hh]
  · exact hfield (by decide) htags

/-- The lines of the published cells. -/
theorem exported_lines {py : Python} {spec : FocusSpec} {args : FocusArgs} {header : List String}
    {parts : List (List Cell)} {cs : List Cell} {ledger : List (List String)} (hk : 1 ≤ k)
    (hcol : ∀ c ∈ focusColumnNames ++ xColumnNames, c ∈ header)
    (hcells : ∀ part ∈ parts, (∀ x ∈ part, x ∈ allCells contracted recoverable kept) ∧
      (part.map Cell.group).Nodup)
    (hshows : List.Forall₂ (Shows k) parts cs)
    (hlines : List.Forall₂ (fun cell line => lineOfCell py spec args header cell = .ok line) cs ledger) :
    List.Forall₂ (Exported k kept header) (parts.map fun part => part.map Cell.group) ledger := by
  induction hshows generalizing ledger with
  | nil =>
    cases hlines
    exact .nil
  | cons hshow _ ih =>
    cases hlines with
    | cons hline hlines =>
      obtain ⟨hmem, hn⟩ := hcells _ mem_cons_self
      exact .cons (hshow.exported hk hmem hn hcol hline)
        (ih (fun part hpart => hcells part (mem_cons_of_mem _ hpart)) hlines)

/-! ### The export -/

/-- The amounts of the ledger rows of a file add up to those of the rows they were made from. -/
structure Conserves (kept : List LedgerCostRow) (t : FocusTable) : Prop where
  quantity : (t.ledger.map fun line => amountOfText (field t.header line "ConsumedQuantity")).sum =
    (kept.map (·.quantity)).sum
  listCost : (t.ledger.map fun line => amountOfText (field t.header line "ListCost")).sum =
    (kept.map (·.pricedNano)).sum / 10 ^ 9
  low : (t.ledger.map fun line => amountOfText (field t.header line "x_EstimatedCostLow")).sum =
    (kept.map (·.estimatedLowNano)).sum / 10 ^ 9
  high : (t.ledger.map fun line => amountOfText (field t.header line "x_EstimatedCostHigh")).sum =
    (kept.map (·.estimatedHighNano)).sum / 10 ^ 9

theorem sum_lines {parts : List (List Group)} {lines : List (List String)} {amount : List String → ℚ}
    {f : LedgerCostRow → ℤ} {unit : ℚ} (hp : parts.flatten.Perm (kept.map groupOf).dedup)
    (h : List.Forall₂ (fun part line => amount line = ((rowsOf kept part).map f).sum / unit) parts lines) :
    (lines.map amount).sum = (kept.map f).sum / unit := by
  have hlines : (lines.map amount).sum = ((parts.map fun part => ((rowsOf kept part).map f).sum).sum : ℤ) / unit := by
    clear hp
    induction h with
    | nil => simp
    | cons hl _ ih =>
      rw [map_cons, sum_cons, ih, hl, map_cons, sum_cons, Int.cast_add, add_div]
  rw [hlines]
  congr 2
  exact sum_of_parts groupOf f kept hp

/-- A file has a line for each published cell. -/
theorem writeFocus_spec {py : Python} {spec : FocusSpec} {args : FocusArgs} {rows : List LedgerCostRow}
    {t : FocusTable} (h : writeFocus py spec args rows = .ok t) :
    1 ≤ args.k ∧ (∀ c ∈ focusColumnNames ++ xColumnNames, c ∈ t.header) ∧
      ∃ cs, exportCells args (rows.filter (keep args)) = .ok cs ∧
        List.Forall₂ (fun cell line => lineOfCell py spec args t.header cell = .ok line) cs t.ledger := by
  obtain ⟨⟨⟩, hargs, h⟩ := bind_eq_ok.mp h
  obtain ⟨columns, hcolumns, h⟩ := bind_eq_ok.mp h
  obtain ⟨⟨⟩, -, h⟩ := bind_eq_ok.mp h
  obtain ⟨cs, hcs, h⟩ := bind_eq_ok.mp h
  obtain ⟨⟨⟩, -, h⟩ := bind_eq_ok.mp h
  obtain ⟨ledger, hledger, h⟩ := bind_eq_ok.mp h
  obtain rfl := pure_eq_ok.mp h
  refine ⟨?_, ?_, cs, hcs, mapM_eq_ok.mp hledger⟩
  · unfold checkArgs at hargs
    split at hargs
    · cases hargs
    · split at hargs
      · cases hargs
      · omega
  · have hnames : columns = focusColumnNames := by
      unfold focusColumns at hcolumns
      split at hcolumns
      · exact (Except.ok.inj hcolumns).symm
      · cases hcolumns
    intro c hc
    rw [hnames]
    unfold headerOf
    simp only [mem_append] at hc ⊢
    tauto

theorem groups_of_parts {parts : List (List Cell)} (hparts : parts.flatten.Perm (allCells contracted recoverable kept)) :
    (parts.map fun part => part.map Cell.group).flatten.Perm (kept.map groupOf).dedup ∧
      ∀ part ∈ parts, (∀ x ∈ part, x ∈ allCells contracted recoverable kept) ∧ (part.map Cell.group).Nodup := by
  have hgroups : (parts.map fun part => part.map Cell.group).flatten.Perm (kept.map groupOf).dedup := by
    rw [← map_flatten]
    exact (hparts.map _).trans (groups_allCells kept)
  refine ⟨hgroups, fun part hpart => ⟨fun x hx => hparts.mem_iff.mp (mem_flatten.mpr ⟨part, hpart, hx⟩), ?_⟩⟩
  exact (nodup_flatten.mp (hgroups.nodup_iff.mpr (nodup_dedup _))).1 _ (mem_map_of_mem hpart)

/-- A file has the amounts of the rows it was made from. Each of its ledger rows stands for a part of
their groups, with the amounts of the part, and names nobody of a group below `k`. -/
theorem focus_conserves_and_hides {py : Python} {spec : FocusSpec} {args : FocusArgs}
    {rows : List LedgerCostRow} {t : FocusTable} (h : writeFocus py spec args rows = .ok t) :
    Conserves (rows.filter (keep args)) t ∧
      ∃ parts : List (List Group),
        parts.flatten.Perm ((rows.filter (keep args)).map groupOf).dedup ∧
          List.Forall₂ (Exported args.k (rows.filter (keep args)) t.header) parts t.ledger := by
  obtain ⟨hk, hcol, cs, hcs, hledger⟩ := writeFocus_spec h
  generalize rows.filter (keep args) = kept at hcs ⊢
  obtain ⟨parts, hparts, -, hshows⟩ := exportCells_spec hcs
  obtain ⟨hgroups, hcells⟩ := groups_of_parts hparts
  have hlines := exported_lines hk hcol hcells hshows hledger
  refine ⟨⟨?_, ?_, ?_, ?_⟩, _, hgroups, hlines⟩
  · rw [← div_one (((kept.map (·.quantity)).sum : ℤ) : ℚ)]
    exact sum_lines hgroups (hlines.imp fun _ _ hl => hl.quantity.trans (div_one _).symm)
  · exact sum_lines hgroups (hlines.imp fun _ _ hl => hl.listCost)
  · exact sum_lines hgroups (hlines.imp fun _ _ hl => hl.low)
  · exact sum_lines hgroups (hlines.imp fun _ _ hl => hl.high)

/-- A ledger row of a team. -/
def teamRow (team : String) (nUsers pricedNano : Int) : LedgerCostRow where
  dateUtc := "2026-01-05"
  provider := "anthropic"
  channel := "anthropic_api"
  model := "claude-opus-4-5"
  bucket := "output"
  team := some team
  costCenter := some "R&D"
  project := none
  workspaceId := none
  laneKind := "interactive"
  workloadClass := "developer"
  agentProduct := none
  billingPath := "api"
  quantity := 1000
  pricedNano := pricedNano
  estimatedLowNano := 0
  estimatedHighNano := 0
  basis := .list
  rateRowId := none
  nUsers := nUsers

def channelArgs : FocusArgs where
  reconciledChannels := ["anthropic_api"]
  allowUnreconciled := false
  rateCardSha := ""

theorem focus_conserves_and_hides_teams :
    ∃ t, t.ledger.length = 2 ∧ Conserves [teamRow "web" 2 70, teamRow "core" 7 25000000, teamRow "ops" 0 5] t ∧
      ∃ parts : List (List Group), parts.flatten.Perm
          ([teamRow "web" 2 70, teamRow "core" 7 25000000, teamRow "ops" 0 5].map groupOf).dedup ∧
        List.Forall₂ (Exported 5 [teamRow "web" 2 70, teamRow "core" 7 25000000, teamRow "ops" 0 5] t.header)
          parts t.ledger := by
  have hok : (writeFocus ⟨fun s => if s = "2026-01-05" then some ⟨2026, 1, 5⟩ else none, fun _ => none, id⟩
      ⟨focusColumnNames, "AI and Machine Learning"⟩ channelArgs
      [teamRow "web" 2 70, teamRow "core" 7 25000000, teamRow "ops" 0 5]).toOption.any
        (fun t => decide (t.ledger.length = 2)) = true := by decide
  have hkept : [teamRow "web" 2 70, teamRow "core" 7 25000000, teamRow "ops" 0 5].filter (keep channelArgs) =
      [teamRow "web" 2 70, teamRow "core" 7 25000000, teamRow "ops" 0 5] := by decide
  obtain ⟨t, ht, hlen⟩ := (Option.any_eq_true _ _).mp hok
  have h := focus_conserves_and_hides (toOption_eq_some.mp ht)
  rw [hkept] at h
  exact ⟨t, of_decide_eq_true hlen, h⟩

end TokenBill.Focus
