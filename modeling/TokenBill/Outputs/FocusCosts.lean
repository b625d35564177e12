import TokenBill.Outputs.FocusSafe

/-!
# Contracted and recoverable amounts of the FOCUS export

A contracted amount is looked up by the key of a row, and a row that has none counts its price. The
cells of the export add up the amounts that are there, and a cell without any counts its price. So the
rows of an identity have to be all in the contract or all out of it: else a merge counts the amounts
that are there and drops the prices of the others. A recoverable amount is looked up for each row.
-/

namespace TokenBill.Focus

open General Kanon List

/-! ### Amounts that may be missing -/

/-- How many amounts there are, and their sum. -/
abbrev Found : Type := ℕ × ℤ

def found (amount : Option Int) : Found := amount.elim 0 fun value => (1, value)

/-- A sum of amounts that is missing when they all are. -/
structure Reads (total : Option Int) (p : Found) : Prop where
  value : total = if p.1 = 0 then none else some p.2
  zero : p.1 = 0 → p.2 = 0

theorem reads_found (amount : Option Int) : Reads amount (found amount) := by
  cases amount with
  | none => exact ⟨rfl, fun _ => rfl⟩
  | some value => exact ⟨rfl, fun h => absurd h one_ne_zero⟩

/-- `_add_opt` adds the amounts that are there. -/
theorem Reads.add {a b : Option Int} {p q : Found} (ha : Reads a p) (hb : Reads b q) :
    Reads (addOptInt a b) (p + q) := by
  have hsplit : (p + q).1 = 0 ↔ p.1 = 0 ∧ q.1 = 0 := Nat.add_eq_zero_iff
  refine ⟨?_, fun h => ?_⟩
  · rw [ha.value, hb.value]
    by_cases hp : p.1 = 0
    · by_cases hq : q.1 = 0
      · rw [if_pos hp, if_pos hq, if_pos (hsplit.mpr ⟨hp, hq⟩)]
        rfl
      · rw [if_pos hp, if_neg hq, if_neg fun h => hq (hsplit.mp h).2, Prod.snd_add, ha.zero hp, zero_add]
        rfl
    · rw [if_neg hp, if_neg fun h => hp (hsplit.mp h).1]
      by_cases hq : q.1 = 0
      · rw [if_pos hq, Prod.snd_add, hb.zero hq, add_zero]
        rfl
      · rw [if_neg hq]
        rfl
  · obtain ⟨hp, hq⟩ := hsplit.mp h
    rw [Prod.snd_add, ha.zero hp, hb.zero hq, add_zero]

theorem Reads.getD {total : Option Int} {p : Found} (h : Reads total p) : total.getD 0 = p.2 := by
  rw [h.value]
  split
  · rename_i hp
    exact (h.zero hp).symm
  · rfl

/-! ### Amounts of cells -/

def rowFound (contracted recoverable : Option AmountTable) (r : LedgerCostRow) : Found × Found :=
  (found ((contracted.getD []).lookup (rowKey r)), found (recoverableOf r recoverable))

/-- A cell has the amounts of some rows. -/
structure Finds (cell : Cell) (p : Found × Found) : Prop where
  contracted : Reads cell.contracted p.1
  recoverable : Reads cell.recoverable p.2

variable {contracted recoverable : Option AmountTable}

theorem finds_start (r : LedgerCostRow) : Finds (startCell r) 0 := ⟨⟨rfl, fun _ => rfl⟩, ⟨rfl, fun _ => rfl⟩⟩

theorem Finds.addRow {cell : Cell} {p : Found × Found} (h : Finds cell p) (r : LedgerCostRow) :
    Finds (cell.addRow contracted recoverable r) (p + rowFound contracted recoverable r) := by
  refine ⟨?_, h.recoverable.add (reads_found _)⟩
  have hadd := h.contracted.add (reads_found ((contracted.getD []).lookup (rowKey r)))
  have hcell : (cell.addRow contracted recoverable r).contracted =
      addOptInt cell.contracted ((contracted.getD []).lookup (rowKey r)) := by
    unfold Cell.addRow
    cases (contracted.getD []).lookup (rowKey r) with
    | none => cases cell.contracted <;> rfl
    | some value => rfl
  rw [hcell]
  exact hadd

/-- The cell of some rows has their amounts, and stands for the first of them. -/
theorem finds_foldl (r : LedgerCostRow) (rest : List LedgerCostRow) :
    Finds (rest.foldl (fun held x => ((some held).getD (startCell x)).addRow contracted recoverable x)
        ((none.getD (startCell r)).addRow contracted recoverable r))
        (((r :: rest).map (rowFound contracted recoverable)).sum) ∧
      (rest.foldl (fun held x => ((some held).getD (startCell x)).addRow contracted recoverable x)
        ((none.getD (startCell r)).addRow contracted recoverable r)).row = r := by
  have hrun : ∀ (rest : List LedgerCostRow) (c : Cell) (p : Found × Found), Finds c p → c.row = r →
      Finds (rest.foldl (fun held x => ((some held).getD (startCell x)).addRow contracted recoverable x) c)
          (p + (rest.map (rowFound contracted recoverable)).sum) ∧
        (rest.foldl (fun held x => ((some held).getD (startCell x)).addRow contracted recoverable x) c).row = r := by
    intro rest
    induction rest with
    | nil =>
      intro c p hc hr
      rw [map_nil, sum_nil, add_zero]
      exact ⟨hc, hr⟩
    | cons x rest ih =>
      intro c p hc hr
      rw [foldl_cons, map_cons, sum_cons, ← add_assoc]
      exact ih _ _ (hc.addRow x) hr
  rw [map_cons, sum_cons]
  have hstart : Finds _ (0 + rowFound contracted recoverable r) := (finds_start r).addRow r
  rw [zero_add] at hstart
  exact hrun rest _ _ hstart rfl

variable {rows : List LedgerCostRow}

theorem finds_of_mem {c : Cell} (h : c ∈ allCells contracted recoverable rows) :
    Finds c (((rows.filter fun r => decide (groupOf r = c.group)).map (rowFound contracted recoverable)).sum) ∧
      c.row ∈ rows ∧ groupOf c.row = c.group := by
  obtain ⟨⟨ident, group⟩, hg, hmem⟩ := mem_flatMap.mp h
  obtain ⟨⟨akey, c⟩, hc, rfl⟩ := mem_map.mp hmem
  obtain ⟨-, -, x, rest, hrows, hcell⟩ := cell_of_mem hg hc
  obtain ⟨hfinds, hrow⟩ := @finds_foldl contracted recoverable x rest
  rw [hcell] at hfinds hrow
  have hx : x ∈ rows.filter fun r => decide (groupOf r = c.group) := hrows ▸ mem_cons_self
  rw [hrows, hrow]
  exact ⟨hfinds, mem_of_mem_filter hx, of_decide_eq_true (mem_filter.mp hx).2⟩

/-- A merge adds up the amounts of its cells. -/
theorem finds_foldl_absorb {p : Cell → Found × Found} {cs : List Cell} (hcs : ∀ c ∈ cs, Finds c (p c)) (base : Cell)
    (q : Found × Found) (hbase : Finds base q) : Finds (cs.foldl Cell.absorb base) (q + (cs.map p).sum) := by
  induction cs generalizing base q with
  | nil =>
    rw [map_nil, sum_nil, add_zero]
    exact hbase
  | cons c cs ih =>
    obtain ⟨hc, hcs⟩ := forall_mem_cons.mp hcs
    rw [foldl_cons, map_cons, sum_cons, ← add_assoc]
    exact ih hcs _ _ ⟨hbase.contracted.add hc.contracted, hbase.recoverable.add hc.recoverable⟩

variable {kept : List LedgerCostRow} {k : Nat} {part : List Cell} {c : Cell}

theorem Shows.finds (h : Shows k part c) (hmem : ∀ x ∈ part, x ∈ allCells contracted recoverable kept)
    (hn : (part.map Cell.group).Nodup) :
    Finds c ((rowsOf kept (part.map Cell.group)).map (rowFound contracted recoverable)).sum := by
  rw [rowsOf, sum_of_keys groupOf (rowFound contracted recoverable) kept hn, map_map]
  have hcells : ∀ x ∈ part, Finds x (((kept.filter fun r => decide (groupOf r = x.group)).map
      (rowFound contracted recoverable)).sum) := fun x hx => (finds_of_mem (hmem x hx)).1
  cases h with
  | alone =>
    rw [map_singleton, sum_singleton]
    exact hcells c mem_cons_self
  | merged =>
    have hmerge := finds_foldl_absorb hcells
    rw [← zero_add (List.sum _)]
    exact hmerge _ 0 ⟨⟨rfl, fun _ => rfl⟩, ⟨rfl, fun _ => rfl⟩⟩

theorem Shows.row (h : Shows k part c) (hmem : ∀ x ∈ part, x ∈ allCells contracted recoverable kept) :
    c.row ∈ kept ∧ ∃ x ∈ part, identity c.row = x.identity := by
  have hcell : ∀ x ∈ part, x.row ∈ kept ∧ identity x.row = x.identity := fun x hx =>
    ⟨(finds_of_mem (hmem x hx)).2.1, (Group.mk.inj (finds_of_mem (hmem x hx)).2.2).1⟩
  cases h with
  | alone => exact ⟨(hcell c mem_cons_self).1, c, mem_cons_self, (hcell c mem_cons_self).2⟩
  | @merged first rest orgLevel hsaid =>
    have hrow : (merge first rest k orgLevel).row = first.row := (foldl_absorb _ _).2.2.2.2
    rw [hrow]
    exact ⟨(hcell first mem_cons_self).1, first, mem_cons_self, (hcell first mem_cons_self).2⟩

/-! ### What a line says of them -/

/-- What a row of the ledger counts: its contracted amount, or its price where the contract has none. -/
def rowCost (contracted : Option AmountTable) (r : LedgerCostRow) : Int :=
  ((contracted.getD []).lookup (rowKey r)).getD r.pricedNano

/-- The rows of the list basis of an identity are all in the contract, or all out of it. -/
def Unmixed (contracted : Option AmountTable) (kept : List LedgerCostRow) : Prop :=
  ∀ r ∈ kept, ∀ r' ∈ kept, r.basis = .list → identity r = identity r' →
    (((contracted.getD []).lookup (rowKey r)).isSome ↔ ((contracted.getD []).lookup (rowKey r')).isSome)

instance (contracted : Option AmountTable) (kept : List LedgerCostRow) : Decidable (Unmixed contracted kept) :=
  inferInstanceAs (Decidable (∀ r ∈ kept, ∀ r' ∈ kept, r.basis = .list → identity r = identity r' →
    (((contracted.getD []).lookup (rowKey r)).isSome ↔ ((contracted.getD []).lookup (rowKey r')).isSome)))

theorem contractedCost_list {cell : Cell} (h : cell.row.basis = .list) :
    contractedCost cell = .ok (cell.contracted.getD cell.priced) := by
  unfold contractedCost
  rw [h]
  cases cell.contracted <;> rfl

/-- The other values of a row that its amounts are read from. -/
theorem ledgerRow_costs {py : Python} {spec : FocusSpec} {cell : Cell} {role rateCardSha : String}
    {reconciled : Bool} {report : Option (List Recon.ReconRow)} {findings : List Finding}
    {values : List (String × String)}
    (h : ledgerRow py spec cell role reconciled rateCardSha report findings = .ok values) :
    (∃ contracted, contractedCost cell = .ok contracted ∧
        values.lookup "ContractedCost" = some (nanoToUsdStr contracted)) ∧
      values.lookup "x_PriceBasis" = some (basisValue cell.row.basis) ∧
      values.lookup "x_RecoverableCost" = some ((cell.recoverable.map nanoToUsdStr).getD "") := by
  obtain ⟨day, -, h⟩ := bind_eq_ok.mp h
  obtain ⟨⟨periodStart, periodEnd⟩, -, h⟩ := bind_eq_ok.mp h
  obtain ⟨tomorrow, -, h⟩ := bind_eq_ok.mp h
  obtain ⟨contracted, hcontracted, h⟩ := bind_eq_ok.mp h
  obtain ⟨listUnitPrice, -, h⟩ := bind_eq_ok.mp h
  obtain ⟨contractedUnitPrice, -, h⟩ := bind_eq_ok.mp h
  obtain ⟨delta, -, h⟩ := bind_eq_ok.mp h
  obtain rfl := pure_eq_ok.mp h
  exact ⟨⟨contracted, hcontracted, rfl⟩, rfl, rfl⟩

theorem amount_recoverable (recoverable : Option Int) :
    amountOfText (cellText "x_RecoverableCost" ((recoverable.map nanoToUsdStr).getD "")) =
      (recoverable.getD 0 : ℤ) / 10 ^ 9 := by
  cases recoverable with
  | none => rw [Option.getD_none, Int.cast_zero, zero_div]; rfl
  | some value => exact amount_nano (by decide) value

theorem cellText_basis (b : Basis) : cellText "x_PriceBasis" (basisValue b) = basisValue b := by
  cases b <;> decide

theorem basisValue_inj {a b : Basis} (h : basisValue a = basisValue b) : a = b := by
  cases a <;> cases b <;> first | rfl | exact absurd h (by decide)

theorem basis_of_identity {r r' : LedgerCostRow} (h : identity r = identity r') : r.basis = r'.basis := by
  unfold identity at h
  simp only [List.cons.injEq] at h
  exact basisValue_inj h.2.2.2.2.2.1

/-- Rows that are all in the contract count what the contract has for them. -/
theorem found_of_isSome {f : LedgerCostRow → Option Int} {price : LedgerCostRow → Int} {rs : List LedgerCostRow}
    (h : ∀ r ∈ rs, (f r).isSome) :
    (rs.map fun r => found (f r)).sum = (rs.length, (rs.map fun r => (f r).getD (price r)).sum) := by
  induction rs with
  | nil => rfl
  | cons r rs ih =>
    obtain ⟨hr, hrs⟩ := forall_mem_cons.mp h
    obtain ⟨value, hvalue⟩ := Option.isSome_iff_exists.mp hr
    rw [map_cons, sum_cons, ih hrs, hvalue, map_cons, sum_cons, hvalue, length_cons]
    exact Prod.ext (Nat.add_comm 1 _) rfl

theorem found_of_isNone {f : LedgerCostRow → Option Int} {rs : List LedgerCostRow} (h : ∀ r ∈ rs, f r = none) :
    (rs.map fun r => found (f r)).sum = 0 := by
  refine sum_eq_zero fun p hp => ?_
  obtain ⟨r, hr, rfl⟩ := mem_map.mp hp
  rw [h r hr]
  rfl

/-- Sums of pairs are pairs of sums. -/
theorem sum_rowFound (rs : List LedgerCostRow) :
    (rs.map (rowFound contracted recoverable)).sum =
      ((rs.map fun r => found ((contracted.getD []).lookup (rowKey r))).sum,
        (rs.map fun r => found (recoverableOf r recoverable)).sum) := by
  induction rs with
  | nil => rfl
  | cons r rs ih =>
    rw [map_cons, sum_cons, ih]
    rfl

theorem snd_sum_found (f : LedgerCostRow → Option Int) (rs : List LedgerCostRow) :
    (rs.map fun r => found (f r)).sum.2 = (rs.map fun r => (f r).getD 0).sum := by
  induction rs with
  | nil => rfl
  | cons r rs ih =>
    rw [map_cons, sum_cons, Prod.snd_add, ih, map_cons, sum_cons]
    cases f r <;> rfl

/-- A cell whose rows are all in the contract or all out of it counts what they count. -/
theorem Finds.cost {rs : List LedgerCostRow} (h : Finds c (rs.map (rowFound contracted recoverable)).sum)
    (hpriced : c.priced = (rs.map (·.pricedNano)).sum)
    (hmix : (∀ r ∈ rs, ((contracted.getD []).lookup (rowKey r)).isSome) ∨
      ∀ r ∈ rs, (contracted.getD []).lookup (rowKey r) = none) :
    c.contracted.getD c.priced = (rs.map (rowCost contracted)).sum := by
  have hread := h.contracted
  rw [sum_rowFound] at hread
  rcases hmix with hall | hnone
  · rw [@found_of_isSome _ (·.pricedNano) _ hall] at hread
    rw [hread.value]
    split
    · rename_i hlength
      obtain rfl := length_eq_zero_iff.mp hlength
      rw [Option.getD_none, hpriced]
      rfl
    · rfl
  · rw [found_of_isNone hnone] at hread
    have hmissing : c.contracted = none := hread.value.trans (if_pos rfl)
    rw [hmissing, Option.getD_none, hpriced]
    refine congrArg List.sum (map_congr_left fun r hr => ?_)
    unfold rowCost
    rw [hnone r hr]
    rfl

/-- A line has one basis, the recoverable amounts of its rows and, at the list basis, what they count. -/
structure CostLine (args : FocusArgs) (kept : List LedgerCostRow) (header : List String) (part : List Group)
    (line : List String) : Prop where
  basis : ∀ r ∈ rowsOf kept part, field header line "x_PriceBasis" = basisValue r.basis
  cost : field header line "x_PriceBasis" = "list" →
    amountOfText (field header line "ContractedCost") =
      ((rowsOf kept part).map (rowCost args.contracted)).sum / 10 ^ 9
  recoverable : amountOfText (field header line "x_RecoverableCost") =
    ((rowsOf kept part).map fun r => (recoverableOf r args.recoverableByScope).getD 0).sum / 10 ^ 9

theorem Shows.costLine {py : Python} {spec : FocusSpec} {args : FocusArgs} {header line : List String}
    (h : Shows k part c) (hmix : Unmixed args.contracted kept)
    (hmem : ∀ x ∈ part, x ∈ allCells args.contracted args.recoverableByScope kept)
    (hn : (part.map Cell.group).Nodup) (hident : ∃ ident, ∀ x ∈ part, x.identity = ident)
    (hcol : ∀ c ∈ focusColumnNames ++ xColumnNames, c ∈ header)
    (hline : lineOfCell py spec args header c = .ok line) :
    CostLine args kept header (part.map Cell.group) line := by
  obtain ⟨values, hvalues, hline⟩ := bind_eq_ok.mp hline
  obtain rfl := pure_eq_ok.mp hline
  obtain ⟨⟨cost, hcost, hcostText⟩, hbasisText, hrecoverableText⟩ := ledgerRow_costs hvalues
  have hfield : ∀ {column text : String}, column ∈ focusColumnNames ++ xColumnNames →
      values.lookup column = some text → field header (lineOf header values) column = cellText column text :=
    fun hc ht => by rw [field_lineOf (hcol _ hc), ht, Option.getD_some]
  have hbasis : field header (lineOf header values) "x_PriceBasis" = basisValue c.row.basis := by
    rw [hfield (by decide) hbasisText, cellText_basis]
  obtain ⟨ident, hident⟩ := hident
  obtain ⟨hkept, x, hx, hrow⟩ := h.row hmem
  have hsame : ∀ r ∈ rowsOf kept (part.map Cell.group), r ∈ kept ∧ identity c.row = identity r := fun r hr => by
    obtain ⟨hr, hgroup⟩ := mem_filter.mp hr
    obtain ⟨y, hy, heq⟩ := mem_map.mp (of_decide_eq_true hgroup)
    refine ⟨hr, ?_⟩
    rw [hrow, hident x hx, ← hident y hy]
    exact (Group.mk.inj heq).1
  have hfinds := h.finds hmem hn
  refine ⟨fun r hr => ?_, fun hlist => ?_, ?_⟩
  · rw [hbasis, basis_of_identity (hsame r hr).2]
  · rw [hbasis] at hlist
    have hlist : c.row.basis = .list := basisValue_inj hlist
    rw [contractedCost_list hlist] at hcost
    obtain rfl := Except.ok.inj hcost
    have hpriced : c.priced = ((rowsOf kept (part.map Cell.group)).map (·.pricedNano)).sum := by
      have hamounts := congrArg (fun a : CellAmounts => a.2.1) (h.rows hmem hn)
      refine hamounts.trans ?_
      generalize rowsOf kept (part.map Cell.group) = rs
      induction rs with
      | nil => rfl
      | cons r rs ih =>
        rw [map_cons, map_cons, sum_cons, sum_cons, ← ih]
        rfl
    rw [hfield (by decide) hcostText, amount_nano (by decide), hfinds.cost hpriced]
    by_cases hin : ((args.contracted.getD []).lookup (rowKey c.row)).isSome
    · exact .inl fun r hr => (hmix _ hkept r (hsame r hr).1 hlist (hsame r hr).2).mp hin
    · exact .inr fun r hr => Option.not_isSome_iff_eq_none.mp fun hsome =>
        hin ((hmix _ hkept r (hsame r hr).1 hlist (hsame r hr).2).mpr hsome)
  · rw [hfield (by decide) hrecoverableText, amount_recoverable, hfinds.recoverable.getD, sum_rowFound, snd_sum_found]

/-! ### The export -/

/-- The lines at the list basis count what their rows count, and all lines what the rows can recover. -/
structure CountsCosts (args : FocusArgs) (kept : List LedgerCostRow) (t : FocusTable) : Prop where
  contracted : ((t.ledger.filter fun line => decide (field t.header line "x_PriceBasis" = "list")).map fun line =>
      amountOfText (field t.header line "ContractedCost")).sum =
    ((kept.filter fun r => decide (r.basis = .list)).map (rowCost args.contracted)).sum / 10 ^ 9
  recoverable : (t.ledger.map fun line => amountOfText (field t.header line "x_RecoverableCost")).sum =
    (kept.map fun r => (recoverableOf r args.recoverableByScope).getD 0).sum / 10 ^ 9

theorem sum_map_filter {α M : Type} [AddCommMonoid M] (f : α → M) (p : α → Bool) (l : List α) :
    ((l.filter p).map f).sum = (l.map fun x => if p x then f x else 0).sum := by
  induction l with
  | nil => rfl
  | cons x l ih =>
    rw [map_cons, sum_cons, ← ih]
    by_cases hp : p x
    · rw [filter_cons_of_pos hp, map_cons, sum_cons, if_pos hp]
    · rw [filter_cons_of_neg hp, if_neg hp, zero_add]

def oneDay : Python := ⟨fun s => if s = "2026-01-05" then some ⟨2026, 1, 5⟩ else none, fun _ => none, id⟩

def contractArgs (contracted recoverable : AmountTable) (k : Nat) : FocusArgs :=
  { channelArgs with contracted := some contracted, recoverableByScope := some recoverable, k := k }

def columnOf (args : FocusArgs) (rows : List LedgerCostRow) (column : String) : Option (List String) :=
  (writeFocus oneDay ⟨focusColumnNames, "AI and Machine Learning"⟩ args rows).toOption.map fun t =>
    t.ledger.map fun line => field t.header line column

end TokenBill.Focus
