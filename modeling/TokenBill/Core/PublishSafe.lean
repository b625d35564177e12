import TokenBill.Core.Addable
import Mathlib.Data.Finset.Card
import Mathlib.Data.Finset.Union

/-!
# What publication promises

`publish_safe` puts together what the levels keep (`KanonSafe`) and when adding goes
through (`Addable`): every published row is an allowed row of unknown user count or
covers `k` users, the raw rows are partitioned over the published ones, and nothing
is published that could be subtracted to recover a small row.
-/

namespace TokenBill.Kanon

open General List

variable {User : Type} [DecidableEq User]

/-- A published row with the indexes of its raw rows: their merge, and either a raw row of
unknown user count published as it is, or a row with a raw row of `k` users, so that the users of
its raw rows are at least `k` different ones. -/
def RowSafe (raw : RawAggregate) (k : Nat) (users : Nat → Finset User) (part : List Nat)
    (row : AggRow) : Prop :=
  Covers raw.rows part row ∧
    ((∃ i, part = [i] ∧ raw.rows[i]? = some row ∧ keptUnknown raw.groupBy row = true) ∨
      (k ≤ row.nUsers ∧ k ≤ (part.toFinset.biUnion users).card ∧
        ∃ i ∈ part, k ≤ rowUsers raw.rows i))

/-- What a publication promises, `parts` being the raw rows of each published row. -/
structure Published (raw : RawAggregate) (k : Nat) (users : Nat → Finset User)
    (parts : List (List Nat)) (out : PublishedAggregate) : Prop where
  rows : List.Forall₂ (RowSafe raw k users) parts out.rows
  once : parts.flatten.Nodup
  dims : (out.rows.map (·.dims)).Nodup
  complete : (∃ r ∈ raw.rows, k ≤ r.nUsers) →
    parts.flatten.Perm (List.range raw.rows.length) ∧
      (out.rows.map AggRow.totals).sum = (raw.rows.map AggRow.totals).sum
  hidden : (∃ r ∈ raw.rows, k ≤ r.nUsers) → ∀ i r, raw.rows[i]? = some r → r.nUsers < k →
    keptUnknown raw.groupBy r = false →
      ∃ part ∈ parts, i ∈ part ∧ ∃ j ∈ part, k ≤ rowUsers raw.rows j
  withheld : (∀ r ∈ raw.rows, r.nUsers < k) →
    ∀ row ∈ out.rows, row ∈ raw.rows ∧ keptUnknown raw.groupBy row = true

/-- The user count of a merge is at most the number of users of its raw rows. -/
theorem Covers.card_le {rows : List AggRow} {part : List Nat} {row : AggRow}
    (h : Covers rows part row) {users : Nat → Finset User}
    (hu : ∀ i r, rows[i]? = some r → r.nUsers ≤ (users i).card) :
    row.nUsers ≤ (part.toFinset.biUnion users).card := by
  obtain ⟨i, hi, hn⟩ := h.largest
  obtain ⟨r, hr⟩ : ∃ r, rows[i]? = some r :=
    ⟨_, getElem?_eq_getElem (h.inRange i hi)⟩
  calc row.nUsers = r.nUsers := by rw [← hn, rowUsers, hr]; rfl
    _ ≤ (users i).card := hu i r hr
    _ ≤ _ := Finset.card_le_card (Finset.subset_biUnion_of_mem users (mem_toFinset.mpr hi))

theorem sum_rowTotals (rows : List AggRow) :
    ((List.range rows.length).map (rowTotals rows)).sum = (rows.map AggRow.totals).sum := by
  congr 1
  refine ext_getElem? fun i => ?_
  rw [getElem?_map, getElem?_map]
  by_cases hi : i < rows.length
  · simp [hi, rowTotals]
  · rw [getElem?_eq_none (by simp; omega), getElem?_eq_none (by omega)]
    rfl

/-- Rows that are merges of the parts of a partition carry all the totals. -/
theorem sum_totals_of_covers {rows : List AggRow} {parts : List (List Nat)} {out : List AggRow}
    (h : List.Forall₂ (Covers rows) parts out)
    (hp : parts.flatten.Perm (List.range rows.length)) :
    (out.map AggRow.totals).sum = (rows.map AggRow.totals).sum := by
  rw [← sum_rowTotals rows, ← (hp.map _).sum_eq]
  clear hp
  induction h with
  | nil => rfl
  | cons hc _ ih =>
    rw [map_cons, sum_cons, ih, hc.totals, flatten_cons, map_append,
      sum_append]

section Start

variable {raw : RawAggregate} {k : Nat}

theorem rawCells_dims (rows : List AggRow) :
    (rawCells rows).map (·.dims) = rows.map (·.dims) := by
  conv_rhs => rw [← rawCells_rows rows, map_map]
  rfl

/-- The raw cells split into those of known user count and the others. -/
theorem split_unknown_perm (raw : RawAggregate) :
    ((rawCells raw.rows).filter (fun c => !keptUnknown raw.groupBy c.toAggRow) ++
      (rawCells raw.rows).filter fun c => keptUnknown raw.groupBy c.toAggRow).Perm
      (rawCells raw.rows) :=
  perm_append_comm.trans (filter_append_perm _ _)

/-- The raw rows stand for the level below the deepest dims. -/
theorem LevelInv.start (hdims : (raw.rows.map (·.dims)).Nodup)
    (hlabel : ∀ r ∈ raw.rows, ∀ d ∈ r.dims, d.2 ≠ some (otherLabel k)) {n : Nat}
    (hn : ∀ c ∈ (rawCells raw.rows).filter (fun c => !keptUnknown raw.groupBy c.toAggRow),
      c.dims.length ≤ n) :
    LevelInv k (otherLabel k)
      ((rawCells raw.rows).filter fun c => keptUnknown raw.groupBy c.toAggRow) n
      ((rawCells raw.rows).filter fun c => !keptUnknown raw.groupBy c.toAggRow) where
  nodup := by
    rw [((split_unknown_perm raw).map _).nodup_iff]
    rwa [rawCells_dims]
  unlabelled c hc d hd := by
    obtain ⟨i, -, hi⟩ := mem_rawCells (mem_of_mem_filter hc)
    exact hlabel _ (mem_of_getElem? hi) d (mem_of_mem_take hd)
  alone c hc _ c' hc' he := by
    rw [take_of_length_le (hn c hc), take_of_length_le (hn c' hc')] at he
    exact inj_on_of_nodup_map (by rwa [rawCells_dims]) (mem_of_mem_filter hc') (mem_of_mem_filter hc) he

theorem length_le_depth (cells : List Cell) (d : Nat) : ∀ c ∈ cells,
    c.dims.length ≤ if cells = [] then d else (cells.map (·.dims.length)).foldl max 0 := by
  intro c hc
  rw [if_neg (ne_nil_of_mem hc)]
  exact (foldl_max_spec 0 _).1 _ (mem_cons_of_mem _ (mem_map_of_mem hc))

end Start

/-- The rows with distinct dims are published safely and without loss. -/
theorem published_of_ok {raw : RawAggregate} {k : Nat} {users : Nat → Finset User}
    {out : PublishedAggregate} (hdims : (raw.rows.map (·.dims)).Nodup)
    (hlabel : ∀ r ∈ raw.rows, ∀ d ∈ r.dims, d.2 ≠ some (otherLabel k))
    (husers : ∀ i r, raw.rows[i]? = some r → r.nUsers ≤ (users i).card)
    (h : publish raw k = .ok out) : ∃ parts, Published raw k users parts out := by
  unfold publish at h
  split at h
  · cases h
  rename_i hk
  rw [if_neg (by decide)] at h
  obtain ⟨cells, hr, h⟩ := bind_eq_ok.mp h
  obtain rfl := pure_eq_ok.mp h
  have hsplit := split_unknown_perm raw
  have hstart := LevelInv.start hdims hlabel (length_le_depth _ raw.groupBy.length)
  have hkept : ∀ c ∈ (rawCells raw.rows).filter fun c => keptUnknown raw.groupBy c.toAggRow,
      c ∈ rawCells raw.rows ∧ keptUnknown raw.groupBy c.toAggRow = true :=
    fun c hc => mem_filter.mp hc
  have hknown : ∀ c ∈ (rawCells raw.rows).filter fun c => !keptUnknown raw.groupBy c.toAggRow,
      c ∈ rawCells raw.rows := fun c hc => mem_of_mem_filter hc
  generalize (rawCells raw.rows).filter (fun c => keptUnknown raw.groupBy c.toAggRow) = kept at *
  generalize (rawCells raw.rows).filter (fun c => !keptUnknown raw.groupBy c.toAggRow) = start at *
  obtain ⟨hnodup, halone⟩ := hstart.run (fun c hc d hd => by
    obtain ⟨i, -, hi⟩ := mem_rawCells (hkept c hc).1
    exact hlabel _ (mem_of_getElem? hi) d hd) hr
  obtain ⟨hmembers, hcover⟩ := levels_conserve hr
  have hcells : AllCover raw.rows cells :=
    hcover raw.rows fun c hc => rawCells_cover raw.rows c (hknown c hc)
  -- every cell that is published, with what it may be
  have hsafe : ∀ c ∈ cells.filter (fun c => decide (k ≤ c.nUsers)) ++ kept,
      RowSafe raw k users c.members c.toAggRow := by
    intro c hc
    rcases mem_append.mp hc with hc | hc
    · obtain ⟨hc, hkc⟩ := mem_filter.mp hc
      have hkc : k ≤ c.nUsers := by simpa using hkc
      have hcov := hcells c hc
      obtain ⟨i, hi, hn⟩ := hcov.largest
      exact ⟨hcov, .inr ⟨hkc, hkc.trans (hcov.card_le husers), i, hi, hn ▸ hkc⟩⟩
    · obtain ⟨i, hm, hi⟩ := mem_rawCells (hkept c hc).1
      exact ⟨rawCells_cover raw.rows c (hkept c hc).1, .inl ⟨i, hm, hi, (hkept c hc).2⟩⟩
  have hsorted : ((cells.filter (fun c => decide (k ≤ c.nUsers)) ++ kept).insertionSort
      (dimsLe (otherLabel k))).Perm (cells.filter (fun c => decide (k ≤ c.nUsers)) ++ kept) :=
    perm_insertionSort _ _
  -- the members of all cells are the raw rows
  have hall : ((cells ++ kept).flatMap (·.members)).Perm (List.range raw.rows.length) := by
    rw [← rawCells_members, flatMap_append]
    refine (hmembers.append_right _).trans ?_
    rw [← flatMap_append]
    exact hsplit.flatMap_right _
  generalize hpub : (cells.filter (fun c => decide (k ≤ c.nUsers)) ++ kept).insertionSort
    (dimsLe (otherLabel k)) = published at *
  have hsub : (cells.filter (fun c => decide (k ≤ c.nUsers)) ++ kept).Sublist (cells ++ kept) :=
    List.Sublist.append filter_sublist (List.Sublist.refl _)
  have hrows : List.Forall₂ (RowSafe raw k users) (published.map (·.members))
      (published.map (·.toAggRow)) := by
    rw [forall₂_map_left_iff, forall₂_map_right_iff, forall₂_same]
    exact fun c hc => hsafe c (hsorted.mem_iff.mp hc)
  have hcomplete : (∃ r ∈ raw.rows, k ≤ r.nUsers) →
      (published.map (·.members)).flatten.Perm (List.range raw.rows.length) := by
    rintro ⟨r, hraw, hkr⟩
    -- no cell stays below `k`: it would hold every row, also the one of `k` users
    have hbig : ∀ c ∈ cells, k ≤ c.nUsers := by
      rcases halone with hbig | ⟨c, rfl⟩
      · exact hbig
      · intro c' hc'
        obtain rfl := mem_singleton.mp hc'
        obtain ⟨i, hi⟩ := mem_iff_getElem?.mp hraw
        have hrange : i ∈ ([c'] ++ kept).flatMap (·.members) := by
          rw [hall.mem_iff, mem_range]
          exact (List.getElem?_eq_some_iff.mp hi).1
        have hri : rowUsers raw.rows i = r.nUsers := by simp [rowUsers, hi]
        obtain ⟨x, hx, hix⟩ := mem_flatMap.mp hrange
        rcases mem_append.mp hx with hx | hx
        · obtain rfl := mem_singleton.mp hx
          have := (hcells x mem_cons_self).le i hix
          omega
        · obtain ⟨hxr, hun⟩ := hkept x hx
          obtain ⟨j, hj, hxj⟩ := mem_rawCells hxr
          rw [hj] at hix
          obtain rfl := mem_singleton.mp hix
          obtain rfl : r = x.toAggRow := Option.some.inj (hi.symm.trans hxj)
          simp only [keptUnknown, Bool.and_eq_true, beq_iff_eq] at hun
          omega
    have hfilter : cells.filter (fun c => decide (k ≤ c.nUsers)) = cells :=
      filter_eq_self.mpr fun c hc => by simpa using hbig c hc
    rw [hfilter] at hsorted
    rw [← flatMap_def]
    exact (hsorted.flatMap_right _).trans hall
  refine ⟨published.map (·.members), hrows, ?_, ?_, fun hbig => ⟨hcomplete hbig,
    sum_totals_of_covers (hrows.imp fun _ _ h => h.1) (hcomplete hbig)⟩, ?_, ?_⟩
  · rw [← flatMap_def, (hsorted.flatMap_right _).nodup_iff]
    exact (hall.nodup_iff.mpr nodup_range).sublist (hsub.flatMap _)
  · rw [map_map]
    exact (hsorted.map _).nodup_iff.mpr (hnodup.sublist (hsub.map _))
  · intro hbig i r hi hir hun
    have hrange : i ∈ (published.map (·.members)).flatten := by
      rw [(hcomplete hbig).mem_iff, mem_range]
      exact (List.getElem?_eq_some_iff.mp hi).1
    obtain ⟨part, hpart, hipart⟩ := mem_flatten.mp hrange
    refine ⟨part, hpart, hipart, ?_⟩
    obtain ⟨c, hc, rfl⟩ := mem_map.mp hpart
    obtain ⟨-, hor⟩ := hsafe c (hsorted.mem_iff.mp hc)
    rcases hor with ⟨j, hj, hjr, hjun⟩ | ⟨-, -, hex⟩
    · rw [hj] at hipart
      obtain rfl := mem_singleton.mp hipart
      obtain rfl : r = c.toAggRow := Option.some.inj (hi.symm.trans hjr)
      rw [hun] at hjun
      cases hjun
    · exact hex
  · intro hsmall row hrow
    obtain ⟨c, hc, rfl⟩ := mem_map.mp hrow
    obtain ⟨hcov, hor⟩ := hsafe c (hsorted.mem_iff.mp hc)
    rcases hor with ⟨i, -, hi, hun⟩ | ⟨-, -, i, hi, hki⟩
    · exact ⟨mem_of_getElem? hi, hun⟩
    · have hlt := hcov.inRange i hi
      have := hsmall _ (getElem_mem hlt)
      simp only [rowUsers, getElem?_eq_getElem hlt, Option.map_some, Option.getD_some] at hki
      omega

/-- `publish` is safe and conserving, and it returns whenever the rows can be added. -/
theorem publish_safe (raw : RawAggregate) (k : Nat) (users : Nat → Finset User)
    (hdims : (raw.rows.map (·.dims)).Nodup)
    (hlabel : ∀ r ∈ raw.rows, ∀ d ∈ r.dims, d.2 ≠ some (otherLabel k))
    (husers : ∀ i r, raw.rows[i]? = some r → r.nUsers ≤ (users i).card) :
    (∀ bs, 1 ≤ k → Addable bs raw.rows → ∃ out, publish raw k = .ok out) ∧
      ∀ out, publish raw k = .ok out → ∃ parts, Published raw k users parts out :=
  ⟨fun _ hk hadd => publish_ok hk hadd none .org, fun _ h => published_of_ok hdims hlabel husers h⟩

theorem sum_requests (ts : List Totals) : ts.sum.requests = (ts.map (·.requests)).sum := by
  induction ts with
  | nil => rfl
  | cons t ts ih =>
    rw [sum_cons, map_cons, sum_cons, ← ih]
    rfl

/-- A row of one request by a team, with a price of one basis. -/
def teamRow (team : String) (nUsers : Nat) (basis : Basis) : AggRow where
  dims := [("team", some team)]
  nUsers := nUsers
  nRequests := 1
  usage := .empty
  priced :=
    { exact := exactFigure 7 basis, estimated := none, allowance := none
      pricedInferences := 1, unpricedInferences := 0, unpricedTokens := 0, coverage := "1" }

theorem publish_safe_three_teams :
    ∃ out parts, Published
      ⟨["team"], [teamRow "a" 2 .list, teamRow "b" 5 .list, teamRow "c" 9 .list], (0, 1)⟩ 5
      (fun i => Finset.range ([2, 5, 9].getD i 0)) parts out := by
  have h := publish_safe
    ⟨["team"], [teamRow "a" 2 .list, teamRow "b" 5 .list, teamRow "c" 9 .list], (0, 1)⟩ 5
    (fun i => Finset.range ([2, 5, 9].getD i 0)) (by decide) (by decide) (by
      intro i r hi
      rw [Finset.card_range]
      match i with
      | 0 | 1 | 2 => cases hi; decide
      | i + 3 => cases hi)
  obtain ⟨out, hout⟩ := h.1 ⟨.list, .list, .list, .list⟩ (by decide) (by
    constructor
    · simp only [forall_mem_cons, not_mem_nil, false_imp_iff, implies_true, and_true]
      refine ⟨?_, ?_, ?_⟩ <;> exact ⟨⟨rfl, .inl rfl⟩, by simp [teamRow], by simp [teamRow],
        by simp [teamRow]⟩
    · intro i
      cases i <;> decide)
  exact ⟨out, (h.2 out hout).imp fun _ h => h⟩

/-- A row of unknown user count stands alone although its count is below `k`, and rows of two
bases are refused. -/
theorem publish_unknown_and_mixed :
    (¬ ∀ (raw : RawAggregate) (k : Nat) (out : PublishedAggregate),
      (raw.rows.map (·.dims)).Nodup →
      (∀ r ∈ raw.rows, ∀ d ∈ r.dims, d.2 ≠ some (otherLabel k)) → publish raw k = .ok out →
      ∃ parts, List.Forall₂ (Covers raw.rows) parts out.rows ∧
        ∀ i r, raw.rows[i]? = some r → r.nUsers < k →
          ∃ part ∈ parts, i ∈ part ∧ ∃ j ∈ part, k ≤ rowUsers raw.rows j) ∧
    publish ⟨["team"], [teamRow "a" 2 .list, teamRow "b" 5 .contract], (0, 1)⟩ 5 =
      .error (.contract "add/sub: basis mismatch") := by
  refine ⟨fun hall => ?_, by decide⟩
  obtain ⟨parts, hparts, hsmall⟩ := hall
    ⟨["team"], [teamRow "a" 5 .list, teamRow "b" 0 .list], (0, 1)⟩ 5
    ⟨["team"], [teamRow "a" 5 .list, teamRow "b" 0 .list], (0, 1), 5, 0, 0⟩ (by decide) (by decide)
    (by decide)
  obtain ⟨part, hpart, h1, j, hj, hkj⟩ := hsmall 1 _ rfl (by decide)
  obtain ⟨row, hrow, hcov⟩ := exists_of_mem_left hparts hpart
  have hj0 : j = 0 := by
    match j with
    | 0 => rfl
    | 1 => exact absurd hkj (by decide)
    | j + 2 => exact absurd hkj (by simp [rowUsers])
  subst hj0
  -- the row would count the requests of both raw rows
  obtain ⟨l, hp, hs⟩ := subperm_of_subset (by decide : [0, 1].Nodup)
    (show [0, 1] ⊆ part by simp [hj, h1])
  have hle := (hs.map fun i => (rowTotals [teamRow "a" 5 .list, teamRow "b" 0 .list]
    i).requests).sum_le_sum fun _ _ => Nat.zero_le _
  rw [(hp.map _).sum_eq] at hle
  have hsum := (congrArg (·.requests) hcov.totals).trans (sum_requests _)
  rw [map_map] at hsum
  have hone : row.totals.requests = 1 := by
    rcases mem_cons.mp hrow with rfl | hrow
    · rfl
    · rw [mem_singleton.mp hrow]
      rfl
  have htwo : 2 ≤ row.totals.requests := hsum ▸ hle
  omega

end TokenBill.Kanon
