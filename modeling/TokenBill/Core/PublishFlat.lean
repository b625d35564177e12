import TokenBill.Core.KanonSafe

/-!
# Publication of rows with one dim

An aggregate grouped by one dim has one level: either nothing is merged, or every small row is
withheld, or the small rows and one of `k` users become the row of the label. So a value that is
published is that of a row of `k` users or of an unknown number, and the label is published for
rows one of which has `k` users.
-/

namespace TokenBill.Kanon

open General List

def valueOf (row : AggRow) : String := (row.dims.head?.bind (·.2)).getD ""

/-- Rows of one dim each, with distinct values. -/
structure Flat (name : String) (rows : List AggRow) : Prop where
  dims : ∀ r ∈ rows, r.dims = [(name, some (valueOf r))]
  distinct : (rows.map valueOf).Nodup

variable {k : Nat} {name : String} {rows : List AggRow}

theorem Merges.small {cells : List Cell} {m : Cell} (h : Merges cells m) (hs : ∀ c ∈ cells, c.nUsers < k) :
    m.nUsers < k := by
  obtain ⟨c, hc, hn⟩ := h.largest
  exact hn ▸ hs c hc

/-- Merging two cells with different values gives the label. -/
theorem mergeDims_flat {v w label : String} (h : v ≠ w) :
    mergeDims [(name, some v)] [[(name, some w)]] label = [(name, some label)] := by
  have hvw : ¬ w = v := fun he => h he.symm
  simp [mergeDims, hvw]

theorem mergeDims_one (name v label : String) (others : List Dims) :
    ∃ u, mergeDims [(name, some v)] others label = [(name, some u)] ∧ (u = v ∨ u = label) := by
  unfold mergeDims
  rw [mapIdx_cons, mapIdx_nil]
  split
  · exact ⟨v, rfl, .inl rfl⟩
  · exact ⟨label, rfl, .inr rfl⟩

/-- What becomes of the cells of a flat aggregate that may not stay small. -/
inductive FlatCells (k : Nat) (label : String) (cells : List Cell) : List Cell → Prop where
  /-- No cell is below `k`. -/
  | all {out : List Cell} : out.Perm cells → (∀ c ∈ cells, k ≤ c.nUsers) → FlatCells k label cells out
  /-- All of them are, and the one they become is too. -/
  | withheld {m : Cell} : (∀ c ∈ cells, c.nUsers < k) → m.nUsers < k → FlatCells k label cells [m]
  /-- The small cells and one of `k` users become the cell of the label. -/
  | merged {m x : Cell} {small big : List Cell} : (small ++ x :: big).Perm cells →
      (∀ y ∈ x :: big, k ≤ y.nUsers) → k ≤ m.nUsers → valueOf m.toAggRow = label →
      FlatCells k label cells (big ++ [m])

theorem groupKeys_top {cells : List Cell} (h : cells ≠ []) : groupKeys (List.take 0) cells = [[]] := by
  obtain ⟨c, rest, rfl⟩ := exists_cons_of_ne_nil h
  have hp := groupKeys_perm (List.take 0) (c :: rest)
  have hall : ∀ key ∈ groupKeys (List.take 0) (c :: rest), key = [] := fun key hkey => by
    obtain ⟨d, -, hd⟩ := mem_map.mp (mem_dedup.mp (hp.mem_iff.mp hkey))
    exact hd.symm
  have hmem : [] ∈ groupKeys (List.take 0) (c :: rest) :=
    hp.mem_iff.mpr (mem_dedup.mpr (mem_map.mpr ⟨c, mem_cons_self, rfl⟩))
  have hn := groupKeys_nodup (List.take 0) (c :: rest)
  generalize groupKeys (List.take 0) (c :: rest) = keys at hall hmem hn
  obtain ⟨key, keys, rfl⟩ := exists_cons_of_ne_nil (ne_nil_of_mem hmem)
  obtain rfl := hall key mem_cons_self
  cases keys with
  | nil => rfl
  | cons key' keys =>
    have hkey' := hall key' (mem_cons_of_mem _ mem_cons_self)
    exact absurd (hkey' ▸ mem_cons_self) (nodup_cons.mp hn).1

theorem resolveLevels_flat {label : String} {cells out : List Cell}
    (hd : Flat name (cells.map (·.toAggRow))) (hl : ∀ c ∈ cells, valueOf c.toAggRow ≠ label)
    (h : resolveLevels k label [List.take 0] cells = .ok out) : FlatCells k label cells out := by
  unfold resolveLevels at h
  split at h
  · rename_i hall
    obtain rfl := pure_eq_ok.mp h
    exact .all (.refl _) fun c hc => of_decide_eq_true (all_eq_true.mp hall c hc)
  · rename_i hall
    have hne : cells ≠ [] := fun he => hall (by rw [he]; rfl)
    obtain ⟨outs, houts, h⟩ := bind_eq_ok.mp h
    obtain rfl := pure_eq_ok.mp h
    have hlevel := level_spec houts
    rw [groupKeys_top hne] at hlevel
    obtain ⟨out, houtsEq, hres⟩ : ∃ out, outs = [out] ∧ Resolved k label cells out := by
      cases hlevel with
      | cons hres hrest =>
        cases hrest
        refine ⟨_, rfl, ?_⟩
        rwa [filter_eq_self.mpr fun c _ => by simp] at hres
    rw [houtsEq, flatten_cons, flatten_nil, append_nil]
    have hdims : ∀ c ∈ cells, c.dims = [(name, some (valueOf c.toAggRow))] := fun c hc =>
      hd.dims _ (mem_map_of_mem hc)
    cases hres with
    | unchanged hp hk => exact .all hp hk
    | merged hp hsmall hbig hm hmd hor =>
      rename_i c m small big
      have hlt := hm.small hsmall
      obtain rfl := hor.resolve_left (by omega)
      rw [append_nil] at hp
      exact .withheld (fun x hx => hsmall x (hp.mem_iff.mpr hx)) hlt
    | complemented hp hsmall hbig hm hmd hm' hmd' =>
      rename_i c m x m' small big
      have hc := hp.mem_iff.mp (mem_append_left _ mem_cons_self)
      have hx := hp.mem_iff.mp (mem_append_right _ mem_cons_self)
      refine .merged hp hbig ?_ ?_
      · exact (hbig x mem_cons_self).trans (hm'.le x (by simp))
      -- the two values differ, so the label is put in their place
      have hvalue : ∃ u, m.dims = [(name, some u)] ∧ u ≠ valueOf x.toAggRow := by
        obtain ⟨u, hu, hor⟩ := mergeDims_one name (valueOf c.toAggRow) label (small.map (·.dims))
        refine ⟨u, by rw [hmd, hdims c hc, hu], ?_⟩
        rcases hor with rfl | rfl
        · intro he
          have hn := ((hp.map _).map valueOf).nodup_iff.mpr
            (by simpa only [map_map] using hd.distinct : ((cells.map (·.toAggRow)).map valueOf).Nodup)
          rw [map_append, map_append] at hn
          have hdisjoint := (nodup_append'.mp hn).2.2
          exact hdisjoint (mem_cons_self : valueOf c.toAggRow ∈ _) (he ▸ mem_cons_self)
        · exact fun he => hl x hx he.symm
      obtain ⟨u, hu, hne⟩ := hvalue
      rw [hu, hdims x hx, mergeDims_flat hne] at hmd'
      show (m'.dims.head?.bind (·.2)).getD "" = label
      rw [hmd']
      rfl

theorem depth_flat {cells : List Cell} (h : Flat name (cells.map (·.toAggRow))) :
    (if cells = [] then [name].length else (cells.map (·.dims.length)).foldl max 0) = 1 := by
  have hrun : ∀ lengths : List Nat, (∀ n ∈ lengths, n = 1) → lengths.foldl max 1 = 1 := by
    intro lengths
    induction lengths with
    | nil => exact fun _ => rfl
    | cons n lengths ih =>
      intro hall
      obtain rfl := hall n mem_cons_self
      exact ih fun n hn => hall n (mem_cons_of_mem _ hn)
  have hone : ∀ c ∈ cells, c.dims.length = 1 := fun c hc => by
    rw [h.dims _ (mem_map_of_mem hc)]
    rfl
  split
  · rfl
  · rename_i hne
    obtain ⟨c, rest, rfl⟩ := exists_cons_of_ne_nil hne
    rw [map_cons, foldl_cons, hone c mem_cons_self]
    refine hrun _ fun n hn => ?_
    obtain ⟨d, hd, rfl⟩ := mem_map.mp hn
    exact hone d (mem_cons_of_mem _ hd)

/-- A flat publication shows rows of `k` users or of none, its row of the label stands for a row of `k`
users that it does not show, and without the label it shows all rows or none has `k` users. -/
theorem publish_flat {window : Int × Int} {out : PublishedAggregate} (hn : usersUnknownOk [name] = true)
    (hf : Flat name rows) (hl : ∀ r ∈ rows, valueOf r ≠ otherLabel k)
    (h : publish ⟨[name], rows, window⟩ k = .ok out) :
    (∀ r ∈ rows, valueOf r ∈ out.rows.map valueOf → k ≤ r.nUsers ∨ r.nUsers = 0) ∧
      (otherLabel k ∈ out.rows.map valueOf →
        ∃ r ∈ rows, valueOf r ∉ out.rows.map valueOf ∧ k ≤ r.nUsers) ∧
      (otherLabel k ∉ out.rows.map valueOf →
        (∀ r ∈ rows, valueOf r ∈ out.rows.map valueOf) ∨ ∀ r ∈ rows, r.nUsers < k) := by
  unfold publish at h
  split at h
  · cases h
  rename_i hk
  rw [if_neg (by decide)] at h
  obtain ⟨resolved, hlev, h⟩ := bind_eq_ok.mp h
  obtain rfl := pure_eq_ok.mp h
  have hkept : ∀ c : Cell, keptUnknown [name] c.toAggRow = (c.nUsers == 0) := fun c => by
    unfold keptUnknown
    rw [hn, Bool.true_and]
  have hraw : ∀ c ∈ rawCells rows, c.toAggRow ∈ rows := fun c hc => by
    have := mem_map_of_mem (f := Cell.toAggRow) hc
    rwa [rawCells_rows] at this
  have hsame : ∀ c ∈ rawCells rows, ∀ r ∈ rows, valueOf c.toAggRow = valueOf r → c.toAggRow = r :=
    fun c hc r hr => inj_on_of_nodup_map hf.distinct (hraw c hc) hr
  have hsub : (((rawCells rows).filter fun c => !keptUnknown [name] c.toAggRow).map
      (·.toAggRow)).Sublist rows := by
    have := (filter_sublist (p := fun c : Cell => !keptUnknown [name] c.toAggRow)
      (l := rawCells rows)).map Cell.toAggRow
    rwa [rawCells_rows] at this
  have hmem : ∀ c ∈ (rawCells rows).filter fun c => !keptUnknown [name] c.toAggRow, c ∈ rawCells rows :=
    fun c hc => (mem_filter.mp hc).1
  have hflat : Flat name (((rawCells rows).filter fun c => !keptUnknown [name] c.toAggRow).map
      (·.toAggRow)) :=
    ⟨fun r hr => hf.dims r (hsub.subset hr), hf.distinct.sublist (hsub.map _)⟩
  generalize hcells : (rawCells rows).filter (fun c => !keptUnknown [name] c.toAggRow) = cells
    at hlev hflat hmem
  have hlevels : levelsOf none (if cells = [] then [name].length
      else (cells.map (·.dims.length)).foldl max 0) = [List.take 0] := by
    rw [depth_flat hflat]
    rfl
  rw [hlevels] at hlev
  have hout := resolveLevels_flat hflat (fun c hc => hl _ (hraw c (hmem c hc))) hlev
  -- a published row is a resolved cell of `k` users, or a row of unknown users
  have hpub : ∀ v, v ∈ ((((resolved.filter fun c => decide (k ≤ c.nUsers)) ++
      (rawCells rows).filter fun c => keptUnknown [name] c.toAggRow).insertionSort
        (dimsLe (otherLabel k))).map (·.toAggRow)).map valueOf ↔
      (∃ c ∈ resolved, k ≤ c.nUsers ∧ valueOf c.toAggRow = v) ∨
        ∃ c ∈ rawCells rows, c.nUsers = 0 ∧ valueOf c.toAggRow = v := by
    intro v
    rw [map_map, mem_map]
    simp only [mem_insertionSort, mem_append, mem_filter, decide_eq_true_eq, hkept,
      beq_iff_eq, Function.comp_apply]
    constructor
    · rintro ⟨c, ⟨hc, hk⟩ | ⟨hc, hk⟩, hv⟩
      · exact .inl ⟨c, hc, hk, hv⟩
      · exact .inr ⟨c, hc, hk, hv⟩
    · rintro (⟨c, hc, hk, hv⟩ | ⟨c, hc, hk, hv⟩)
      · exact ⟨c, .inl ⟨hc, hk⟩, hv⟩
      · exact ⟨c, .inr ⟨hc, hk⟩, hv⟩
  have hunknown : ∀ r ∈ rows, ∀ c ∈ rawCells rows, c.nUsers = 0 → valueOf c.toAggRow = valueOf r →
      r.nUsers = 0 := fun r hr c hc h0 hv => by
    rw [← hsame c hc r hr hv]
    exact h0
  have hlabel : ∀ c ∈ rawCells rows, valueOf c.toAggRow ≠ otherLabel k := fun c hc => hl _ (hraw c hc)
  have hcell : ∀ r ∈ rows, ∃ c ∈ rawCells rows, c.toAggRow = r ∧ (c.nUsers = 0 ∨ c ∈ cells) := fun r hr => by
    rw [← rawCells_rows rows] at hr
    obtain ⟨c, hc, rfl⟩ := mem_map.mp hr
    refine ⟨c, hc, rfl, ?_⟩
    by_cases h0 : c.nUsers = 0
    · exact .inl h0
    · rw [← hcells]
      exact .inr (mem_filter.mpr ⟨hc, by rw [hkept, beq_false_of_ne h0]; rfl⟩)
  simp only [hpub]
  cases hout with
  | all hp hbig =>
    refine ⟨fun r hr h => ?_, fun h => ?_, fun _ => .inl fun r hr => ?_⟩
    · rcases h with ⟨c, hc, hkc, hv⟩ | ⟨c, hc, h0, hv⟩
      · rw [← hsame c (hmem c (hp.mem_iff.mp hc)) r hr hv]
        exact .inl hkc
      · exact .inr (hunknown r hr c hc h0 hv)
    · rcases h with ⟨c, hc, -, hv⟩ | ⟨c, hc, -, hv⟩
      · exact absurd hv (hlabel c (hmem c (hp.mem_iff.mp hc)))
      · exact absurd hv (hlabel c hc)
    · obtain ⟨c, hc, rfl, h0 | hcells⟩ := hcell r hr
      · exact .inr ⟨c, hc, h0, rfl⟩
      · exact .inl ⟨c, hp.mem_iff.mpr hcells, hbig c hcells, rfl⟩
  | withheld hsmall hm =>
    refine ⟨fun r hr h => ?_, fun h => ?_, fun _ => .inr fun r hr => ?_⟩
    · rcases h with ⟨c, hc, hkc, -⟩ | ⟨c, hc, h0, hv⟩
      · obtain rfl := mem_singleton.mp hc
        omega
      · exact .inr (hunknown r hr c hc h0 hv)
    · rcases h with ⟨c, hc, hkc, -⟩ | ⟨c, hc, -, hv⟩
      · obtain rfl := mem_singleton.mp hc
        omega
      · exact absurd hv (hlabel c hc)
    · obtain ⟨c, -, rfl, h0 | hcells⟩ := hcell r hr
      · omega
      · exact hsmall c hcells
  | @merged m x small big hp hbig hmk hm =>
    have hmemBig : ∀ c ∈ x :: big, c ∈ rawCells rows := fun c hc =>
      hmem c (hp.mem_iff.mp (mem_append_right _ hc))
    have hx := hmemBig x mem_cons_self
    refine ⟨fun r hr h => ?_, fun _ => ⟨x.toAggRow, hraw x hx, ?_, hbig x mem_cons_self⟩, fun hnot => ?_⟩
    · rcases h with ⟨c, hc, hkc, hv⟩ | ⟨c, hc, h0, hv⟩
      · rcases mem_append.mp hc with hc | hc
        · rw [← hsame c (hmemBig c (mem_cons_of_mem _ hc)) r hr hv]
          exact .inl hkc
        · obtain rfl := mem_singleton.mp hc
          exact absurd (hv.symm.trans hm) (hl r hr)
      · exact .inr (hunknown r hr c hc h0 hv)
    · rintro (⟨c, hc, hkc, hv⟩ | ⟨c, hc, h0, hv⟩)
      · rcases mem_append.mp hc with hc | hc
        · have hnodup := ((hp.map Cell.toAggRow).map valueOf).nodup_iff.mpr hflat.distinct
          rw [map_append, map_append] at hnodup
          refine (nodup_cons.mp (nodup_append'.mp hnodup).2.1).1 ?_
          rw [← hv]
          exact mem_map_of_mem (mem_map_of_mem hc)
        · obtain rfl := mem_singleton.mp hc
          exact absurd (hv.symm.trans hm) (hl _ (hraw x hx))
      · have := hunknown x.toAggRow (hraw x hx) c hc h0 hv
        have := hbig x mem_cons_self
        omega
    · exact absurd (.inl ⟨m, mem_append_right _ (mem_singleton.mpr rfl), hmk, hm⟩) hnot

end TokenBill.Kanon
