import TokenBill.Core.Totals

/-!
# Publication is safe and conserving

What `publish` promises for every list of rows with distinct dims. The level loop
keeps an invariant: after the level that groups by the first `n` dims, the dims are
distinct, no merge label stands in the first `n` of them, and a cell below `k` is
alone with its first `n` dims. At the last level a cell below `k` is therefore the
only cell. What merging conserves (members, totals, the largest user count) is
proved apart from the dims.
-/

namespace TokenBill.Kanon

open General List

/-! ### What a merge conserves -/

def rowTotals (rows : List AggRow) (i : Nat) : Totals := (rows[i]?.map AggRow.totals).getD 0

def rowUsers (rows : List AggRow) (i : Nat) : Nat := (rows[i]?.map AggRow.nUsers).getD 0

/-- The row is the merge of the raw rows with these indexes: their totals added, and the user
count of the largest. -/
structure Covers (rows : List AggRow) (members : List Nat) (r : AggRow) : Prop where
  ne : members ≠ []
  inRange : ∀ i ∈ members, i < rows.length
  totals : r.totals = (members.map (rowTotals rows)).sum
  le : ∀ i ∈ members, rowUsers rows i ≤ r.nUsers
  largest : ∃ i ∈ members, rowUsers rows i = r.nUsers

/-- The cell is the merge of these cells. -/
structure Merges (cells : List Cell) (d : Cell) : Prop where
  members : d.members.Perm (cells.flatMap (·.members))
  totals : d.totals = (cells.map (·.totals)).sum
  le : ∀ c ∈ cells, c.nUsers ≤ d.nUsers
  largest : ∃ c ∈ cells, c.nUsers = d.nUsers

theorem foldl_max_spec (n : Nat) (l : List Nat) :
    (∀ m ∈ n :: l, m ≤ l.foldl max n) ∧ l.foldl max n ∈ n :: l := by
  induction l generalizing n with
  | nil => simp
  | cons a l ih =>
    obtain ⟨hle, hmem⟩ := ih (max n a)
    have hstart := hle _ mem_cons_self
    refine ⟨fun m hm => ?_, ?_⟩
    · rcases mem_cons.mp hm with rfl | hm
      · exact (le_max_left _ _).trans hstart
      · rcases mem_cons.mp hm with rfl | hm
        · exact (le_max_right _ _).trans hstart
        · exact hle m (mem_cons_of_mem _ hm)
    · rcases mem_cons.mp hmem with h | h
      · rw [foldl_cons, h]
        rcases max_choice n a with h | h <;> simp [h]
      · exact mem_cons_of_mem _ (mem_cons_of_mem _ h)

variable {c d : Cell} {first : Dims} {others : List Dims} {out : List Cell} {outs : List (List Cell)}
  {parent : Dims → Dims}

theorem mergeCells_spec {cells : List Cell} {label : String} (h : mergeCells c cells label = .ok d) :
    Merges (c :: cells) d ∧ d.dims = mergeDims c.dims (cells.map (·.dims)) label := by
  have ht := totals_mergeCells h
  obtain ⟨⟨usage, priced⟩, -, h⟩ := bind_eq_ok.mp h
  obtain rfl := pure_eq_ok.mp h
  obtain ⟨hle, hmem⟩ := foldl_max_spec c.nUsers (cells.map (·.nUsers))
  rw [← map_cons (f := fun c : Cell => c.nUsers)] at hle hmem
  obtain ⟨x, hx, hxn⟩ := mem_map.mp hmem
  exact ⟨⟨perm_insertionSort _ _, ht, fun x hx => hle _ (mem_map_of_mem hx), x, hx, hxn⟩,
    rfl⟩

theorem Merges.trans {cells more : List Cell} (h : Merges cells c)
    (h' : Merges (c :: more) d) : Merges (cells ++ more) d where
  members := by
    rw [flatMap_append]
    refine h'.members.trans ?_
    rw [flatMap_cons]
    exact h.members.append_right _
  totals := by
    rw [h'.totals, map_cons, sum_cons, h.totals, map_append, sum_append]
  le x hx := by
    rcases mem_append.mp hx with hx | hx
    · exact (h.le x hx).trans (h'.le c mem_cons_self)
    · exact h'.le x (mem_cons_of_mem _ hx)
  largest := by
    obtain ⟨x, hx, hn⟩ := h'.largest
    rcases mem_cons.mp hx with rfl | hx
    · obtain ⟨y, hy, hyn⟩ := h.largest
      exact ⟨y, mem_append_left _ hy, hyn.trans hn⟩
    · exact ⟨x, mem_append_right _ hx, hn⟩

def AllCover (rows : List AggRow) (cells : List Cell) : Prop :=
  ∀ c ∈ cells, Covers rows c.members c.toAggRow

theorem Merges.covers {rows : List AggRow} {cells : List Cell} (h : Merges cells d)
    (hc : AllCover rows cells) : Covers rows d.members d.toAggRow where
  ne hd := by
    obtain ⟨c, hc', -⟩ := h.largest
    obtain ⟨i, hi⟩ := exists_mem_of_ne_nil _ (hc c hc').ne
    have hi' : i ∈ d.members := h.members.mem_iff.mpr (mem_flatMap.mpr ⟨c, hc', hi⟩)
    rw [hd] at hi'
    cases hi'
  inRange i hi := by
    obtain ⟨c, hc', hi⟩ := mem_flatMap.mp (h.members.mem_iff.mp hi)
    exact (hc c hc').inRange i hi
  totals := by
    rw [h.totals, (h.members.map _).sum_eq]
    clear h
    induction cells with
    | nil => rfl
    | cons c cells ih =>
      have hrest : AllCover rows cells := fun x hx => hc x (mem_cons_of_mem _ hx)
      rw [map_cons, sum_cons, ih hrest, (hc c mem_cons_self).totals,
        flatMap_cons, map_append, sum_append]
  le i hi := by
    obtain ⟨c, hc', hi⟩ := mem_flatMap.mp (h.members.mem_iff.mp hi)
    exact ((hc c hc').le i hi).trans (h.le c hc')
  largest := by
    obtain ⟨c, hc', hn⟩ := h.largest
    obtain ⟨i, hi, hin⟩ := (hc c hc').largest
    exact ⟨i, h.members.mem_iff.mpr (mem_flatMap.mpr ⟨c, hc', hi⟩), hin.trans hn⟩

/-! ### Merged dims -/

theorem mergeDims_length (first : Dims) (others : List Dims) (label : String) :
    (mergeDims first others label).length = first.length := by simp [mergeDims]

theorem mergeDims_getElem? (first : Dims) (others : List Dims) (label : String) (i : Nat) :
    (mergeDims first others label)[i]? = first[i]?.map fun d =>
      (d.1, if others.all (fun o => o[i]? == some d) then d.2 else some label) := by
  simp [mergeDims, getElem?_mapIdx]

theorem mergeDims_take {n : Nat} (label : String) (h : ∀ d ∈ others, d.take n = first.take n) :
    (mergeDims first others label).take n = first.take n := by
  refine ext_getElem? fun i => ?_
  rw [getElem?_take, getElem?_take, mergeDims_getElem?]
  by_cases hi : i < n
  · rw [if_pos hi, if_pos hi]
    cases hf : first[i]? with
    | none => rfl
    | some d =>
      have hall : (others.all fun o => o[i]? == some d) = true := by
        refine all_eq_true.mpr fun c hc => ?_
        have := congrArg (·[i]?) (h c hc)
        simp only [getElem?_take, if_pos hi, hf] at this
        simp [this]
      rw [Option.map_some, if_pos hall]
  · rw [if_neg hi, if_neg hi]

/-- A first cell that has no further dims keeps its own. -/
theorem mergeDims_of_short {n : Nat} (label : String)
    (hn : first.length ≤ n) (h : ∀ d ∈ others, d.take n = first.take n) : mergeDims first others label = first := by
  have := mergeDims_take label h
  rwa [take_of_length_le hn, take_of_length_le (by rwa [mergeDims_length])] at this

/-- The label stands where the cells first differ. -/
theorem mergeDims_label {o : Dims} {n : Nat} (label : String)
    (hn : n < first.length) (ho : o ∈ others) (heq : o.take n = first.take n)
    (hne : o.take (n + 1) ≠ first.take (n + 1)) :
    ∃ name, (mergeDims first others label)[n]? = some (name, some label) := by
  have hd : o[n]? ≠ first[n]? := by
    intro h
    apply hne
    rw [take_add_one, take_add_one, heq, h]
  rw [mergeDims_getElem?]
  rw [getElem?_eq_getElem hn] at hd ⊢
  have hall : (others.all fun o => o[n]? == some first[n]) = false := by
    refine all_eq_false.mpr ⟨o, ho, ?_⟩
    simpa using hd
  refine ⟨first[n].1, ?_⟩
  rw [Option.map_some, if_neg (by simp [hall])]

/-! ### One parent group -/

variable {k : Nat} {label : String}

/-- What a group of cells becomes: some cells, with all that are below `k`, become one, and the
rest stay. -/
inductive Resolved (k : Nat) (label : String) (cells : List Cell) : List Cell → Prop where
  /-- No cell is below `k`. -/
  | unchanged {out : List Cell} : out.Perm cells → (∀ c ∈ cells, k ≤ c.nUsers) →
      Resolved k label cells out
  /-- The small cells become one that reaches `k`, or the only one. -/
  | merged {c m : Cell} {small big : List Cell} : (c :: small ++ big).Perm cells →
      (∀ x ∈ c :: small, x.nUsers < k) → (∀ x ∈ big, k ≤ x.nUsers) → Merges (c :: small) m →
      m.dims = mergeDims c.dims (small.map (·.dims)) label → k ≤ m.nUsers ∨ big = [] →
      Resolved k label cells (big ++ [m])
  /-- The small cells and a large one become one. -/
  | complemented {c m x m' : Cell} {small big : List Cell} : (c :: small ++ x :: big).Perm cells →
      (∀ x ∈ c :: small, x.nUsers < k) → (∀ y ∈ x :: big, k ≤ y.nUsers) →
      Merges (c :: small) m → m.dims = mergeDims c.dims (small.map (·.dims)) label →
      Merges [m, x] m' → m'.dims = mergeDims m.dims [x.dims] label →
      Resolved k label cells (big ++ [m'])

theorem small_big_perm (k : Nat) (group : List Cell) :
    (group.filter (fun c => decide (c.nUsers < k)) ++
      group.filter fun c => decide (k ≤ c.nUsers)).Perm group := by
  have hp := filter_append_perm (fun c : Cell => decide (c.nUsers < k)) group
  refine List.Perm.trans (List.Perm.append_left _ (List.Perm.of_eq ?_)) hp
  refine filter_congr fun c _ => ?_
  simp [← decide_not]

theorem resolveGroup_spec {cells : List Cell} (h : resolveGroup k label cells = .ok out) :
    Resolved k label cells out := by
  unfold resolveGroup at h
  have hsort : (cells.insertionSort (dimsLe label)).Perm cells := perm_insertionSort _ _
  generalize cells.insertionSort (dimsLe label) = group at h hsort
  have hparts := (small_big_perm k group).trans hsort
  have hsmall : ∀ x ∈ group.filter fun c => decide (c.nUsers < k), x.nUsers < k := fun x hx => by
    simpa using (mem_filter.mp hx).2
  have hbig : ∀ x ∈ group.filter fun c => decide (k ≤ c.nUsers), k ≤ x.nUsers := fun x hx => by
    simpa using (mem_filter.mp hx).2
  dsimp only at h
  generalize group.filter (fun c => decide (k ≤ c.nUsers)) = big at h hparts hbig
  generalize group.filter (fun c => decide (c.nUsers < k)) = small at h hparts hsmall
  cases small with
  | nil =>
    obtain rfl := pure_eq_ok.mp h
    exact .unchanged hsort fun c hc => hbig c (hparts.mem_iff.mpr hc)
  | cons c small =>
    obtain ⟨m, hm, h⟩ := bind_eq_ok.mp h
    obtain ⟨hmerge, hdims⟩ := mergeCells_spec hm
    split at h
    · split at h
      · rename_i hnone
        obtain rfl := pure_eq_ok.mp h
        rw [popMin_eq_none] at hnone
        subst hnone
        exact .merged hparts hsmall hbig hmerge hdims (.inr rfl)
      · rename_i x rest hpop
        obtain ⟨m', hm', h⟩ := bind_eq_ok.mp h
        obtain rfl := pure_eq_ok.mp h
        have hperm := popMin_perm hpop
        obtain ⟨hmerge', hdims'⟩ := mergeCells_spec hm'
        exact .complemented ((hperm.append_left _).trans hparts) hsmall
          (fun y hy => hbig y (hperm.mem_iff.mp hy)) hmerge hdims hmerge' hdims'
    · obtain rfl := pure_eq_ok.mp h
      exact .merged hparts hsmall hbig hmerge hdims (.inl (by omega))

/-- A group keeps its raw rows, and its cells stay merges of their members. -/
theorem Resolved.conserves {cells : List Cell} (h : Resolved k label cells out) :
    (out.flatMap (·.members)).Perm (cells.flatMap (·.members)) ∧
      ∀ rows, AllCover rows cells → AllCover rows out := by
  cases h with
  | unchanged hp _ => exact ⟨hp.flatMap_right _, fun rows hc c hx => hc c (hp.mem_iff.mp hx)⟩
  | @merged c m small big hp _ _ hm _ _ =>
    constructor
    · rw [flatMap_append]
      refine List.Perm.trans ?_ (hp.flatMap_right _)
      rw [flatMap_append, flatMap_singleton]
      exact perm_append_comm.trans (hm.members.append_right _)
    · intro rows hc x hx
      have hc' : AllCover rows (c :: small ++ big) := fun x hx => hc x (hp.mem_iff.mp hx)
      rcases mem_append.mp hx with hx | hx
      · exact hc' x (mem_append_right _ hx)
      · obtain rfl := mem_singleton.mp hx
        exact hm.covers fun x hx => hc' x (mem_append_left _ hx)
  | @complemented c m x m' small big hp _ _ hm _ hm' _ =>
    have hm := hm.trans hm'
    have hp' : ((c :: small ++ [x]) ++ big).Perm cells := by simpa using hp
    constructor
    · rw [flatMap_append]
      refine List.Perm.trans ?_ (hp'.flatMap_right _)
      rw [flatMap_append, flatMap_singleton]
      exact perm_append_comm.trans (hm.members.append_right _)
    · intro rows hc y hy
      have hc' : AllCover rows ((c :: small ++ [x]) ++ big) := fun y hy => hc y (hp'.mem_iff.mp hy)
      rcases mem_append.mp hy with hy | hy
      · exact hc' y (mem_append_right _ hy)
      · obtain rfl := mem_singleton.mp hy
        exact hm.covers fun x hx => hc' x (mem_append_left _ hx)

theorem Resolved.totals {cells : List Cell} (h : Resolved k label cells out) :
    (out.map (·.totals)).sum = (cells.map (·.totals)).sum := by
  cases h with
  | unchanged hp _ => exact (hp.map _).sum_eq
  | @merged c m small big hp _ _ hm _ _ =>
    rw [← (hp.map _).sum_eq, map_append, sum_append, map_append, sum_append,
      map_singleton, sum_singleton, hm.totals, add_comm]
  | @complemented c m x m' small big hp _ _ hm _ hm' _ =>
    have hp' : ((c :: small ++ [x]) ++ big).Perm cells := by simpa using hp
    rw [← (hp'.map _).sum_eq, map_append, sum_append,
      @map_append _ _ _ _ big, sum_append,
      map_singleton, sum_singleton, (hm.trans hm').totals, add_comm]

/-- After a group is resolved its cells reach `k`, or there is only one. -/
theorem Resolved.alone {cells out : List Cell} (h : Resolved k label cells out) :
    (∀ c ∈ out, k ≤ c.nUsers) ∨ ∃ c, out = [c] := by
  cases h with
  | unchanged hp hbig => exact .inl fun c hc => hbig c (hp.mem_iff.mp hc)
  | @merged c m small big _ _ hbig _ _ hor =>
    rcases hor with hm | rfl
    · left
      intro x hx
      rcases mem_append.mp hx with hx | hx
      · exact hbig x hx
      · obtain rfl := mem_singleton.mp hx
        exact hm
    · exact .inr ⟨m, rfl⟩
  | @complemented c m x m' small big _ _ hbig _ _ hm' _ =>
    left
    intro y hy
    rcases mem_append.mp hy with hy | hy
    · exact hbig y (mem_cons_of_mem _ hy)
    · obtain rfl := mem_singleton.mp hy
      exact (hbig x mem_cons_self).trans (hm'.le x (by simp))

/-! ### The dims of one parent group -/

/-- The dims of the cells of one group, before the level that groups by `n` dims resolves it. -/
structure GroupDims (k : Nat) (label : String) (n : Nat) (key : Dims) (cells : List Cell) :
    Prop where
  key : ∀ c ∈ cells, c.dims.take n = key
  nodup : (cells.map (·.dims)).Nodup
  unlabelled : ∀ c ∈ cells, ∀ d ∈ c.dims.take (n + 1), d.2 ≠ some label
  alone : ∀ c ∈ cells, c.nUsers < k → ∀ c' ∈ cells,
    c'.dims.take (n + 1) = c.dims.take (n + 1) → c' = c

/-- The merge label stands at dimension `n`. -/
def Labelled (label : String) (n : Nat) (dims : Dims) : Prop :=
  ∃ name, dims[n]? = some (name, some label)

theorem Labelled.mem_take {n : Nat} {dims : Dims} (h : Labelled label n dims) :
    ∃ d ∈ dims.take (n + 1), d.2 = some label := by
  obtain ⟨name, h⟩ := h
  refine ⟨(name, some label), mem_of_getElem? (i := n) ?_, rfl⟩
  rw [getElem?_take, if_pos (Nat.lt_succ_self n), h]

theorem Labelled.lt {n : Nat} {dims : Dims} (h : Labelled label n dims) : n < dims.length := by
  obtain ⟨_, h⟩ := h
  exact (List.getElem?_eq_some_iff.mp h).1

section Group

variable {n : Nat} {key : Dims} {cells : List Cell}

theorem GroupDims.perm {cells' : List Cell} (h : GroupDims k label n key cells)
    (hp : cells'.Perm cells) : GroupDims k label n key cells' where
  key c hc := h.key c (hp.mem_iff.mp hc)
  nodup := (hp.map _).nodup_iff.mpr h.nodup
  unlabelled c hc := h.unlabelled c (hp.mem_iff.mp hc)
  alone c hc hk c' hc' := h.alone c (hp.mem_iff.mp hc) hk c' (hp.mem_iff.mp hc')

/-- The small cells merge to the dims of the first, or to a label at `n`. -/
theorem GroupDims.small {c : Cell} {small rest : List Cell}
    (h : GroupDims k label n key (c :: small ++ rest)) (hk : ∀ x ∈ c :: small, x.nUsers < k) :
    (mergeDims c.dims (small.map (·.dims)) label).take n = key ∧
      (mergeDims c.dims (small.map (·.dims)) label = c.dims ∨
        Labelled label n (mergeDims c.dims (small.map (·.dims)) label)) := by
  have hc : c ∈ c :: small ++ rest := mem_append_left _ mem_cons_self
  have hsmall : ∀ x ∈ small, x ∈ c :: small ++ rest := fun x hx =>
    mem_append_left _ (mem_cons_of_mem _ hx)
  have heq : ∀ d ∈ small.map (·.dims), d.take n = c.dims.take n := by
    intro d hd
    obtain ⟨x, hx, rfl⟩ := mem_map.mp hd
    rw [h.key x (hsmall x hx), h.key c hc]
  refine ⟨(mergeDims_take label heq).trans (h.key c hc), ?_⟩
  rcases Nat.lt_or_ge n c.dims.length with hn | hn
  · cases hs : small with
    | nil => exact .inl (mergeDims_of_short label (le_refl _) (by simp))
    | cons o others =>
      right
      have ho : o ∈ small := by rw [hs]; exact mem_cons_self
      have hne : o.dims ≠ c.dims := by
        have hd := h.nodup
        rw [cons_append, map_cons, nodup_cons] at hd
        intro he
        exact hd.1 (mem_map.mpr ⟨o, mem_append_left _ ho, he⟩)
      rw [← hs]
      refine mergeDims_label label hn (mem_map_of_mem ho) (heq _ (mem_map_of_mem ho)) ?_
      intro he
      have := h.alone c hc (hk c mem_cons_self) o (hsmall o ho) he
      exact hne (by rw [this])
  · exact .inl (mergeDims_of_short label hn heq)

/-- So does their merge with a large cell. -/
theorem GroupDims.complement {c m x : Cell} {small big : List Cell}
    (h : GroupDims k label n key (c :: small ++ x :: big)) (hk : ∀ y ∈ c :: small, y.nUsers < k)
    (hkx : k ≤ x.nUsers) (hm : m.dims = mergeDims c.dims (small.map (·.dims)) label) :
    (mergeDims m.dims [x.dims] label).take n = key ∧
      (mergeDims m.dims [x.dims] label = c.dims ∨
        Labelled label n (mergeDims m.dims [x.dims] label)) := by
  obtain ⟨hkey, hor⟩ := h.small hk
  rw [← hm] at hkey hor
  have hc : c ∈ c :: small ++ x :: big := mem_append_left _ mem_cons_self
  have hx : x ∈ c :: small ++ x :: big := mem_append_right _ mem_cons_self
  have heq : ∀ d ∈ [x.dims], d.take n = m.dims.take n := by
    intro d hd
    obtain rfl := mem_singleton.mp hd
    rw [hkey, h.key x hx]
  refine ⟨(mergeDims_take label heq).trans hkey, ?_⟩
  have hxd := heq _ mem_cons_self
  rcases hor with hor | hor
  · rcases Nat.lt_or_ge n m.dims.length with hn | hn
    · right
      refine mergeDims_label label hn mem_cons_self hxd fun he => ?_
      rw [hor] at he
      have := h.alone c hc (hk c mem_cons_self) x hx he
      have := hk c mem_cons_self
      subst x
      omega
    · exact .inl ((mergeDims_of_short label hn heq).trans hor)
  · right
    refine mergeDims_label label hor.lt mem_cons_self hxd fun he => ?_
    obtain ⟨d, hd, hl⟩ := hor.mem_take
    rw [← he] at hd
    exact h.unlabelled x hx d hd hl

theorem GroupDims.append_merged {absorbed big : List Cell} {m : Cell}
    (h : GroupDims k label n key (absorbed ++ big)) (hm : m.dims.take n = key)
    (hor : (∃ c ∈ absorbed, m.dims = c.dims) ∨ Labelled label n m.dims) :
    (∀ c ∈ big ++ [m], c.dims.take n = key) ∧ ((big ++ [m]).map (·.dims)).Nodup ∧
      ∀ c ∈ big ++ [m], c.dims ∈ (absorbed ++ big).map (·.dims) ∨ Labelled label n c.dims := by
  have hbig : ∀ c ∈ big, c ∈ absorbed ++ big := fun c hc => mem_append_right _ hc
  have hd := h.nodup
  rw [map_append] at hd
  obtain ⟨-, hnodup, hdisj⟩ := nodup_append'.mp hd
  refine ⟨fun c hc => ?_, ?_, fun c hc => ?_⟩
  · rcases mem_append.mp hc with hc | hc
    · exact h.key c (hbig c hc)
    · rw [mem_singleton.mp hc]
      exact hm
  · rw [map_append]
    refine nodup_append'.mpr ⟨hnodup, by simp, ?_⟩
    intro d hd hd'
    obtain ⟨y, hy, rfl⟩ := mem_map.mp hd
    have hym : y.dims = m.dims := by simpa using hd'
    rcases hor with ⟨c, hc, he⟩ | hl
    · exact hdisj (mem_map_of_mem hc) (he ▸ hym ▸ hd)
    · obtain ⟨d, hd, hl⟩ := hl.mem_take
      rw [← hym] at hd
      exact h.unlabelled y (hbig y hy) d hd hl
  · rcases mem_append.mp hc with hc | hc
    · exact .inl (mem_map_of_mem (hbig c hc))
    · obtain rfl := mem_singleton.mp hc
      rcases hor with ⟨x, hx, he⟩ | hl
      · exact .inl (he ▸ mem_map_of_mem (mem_append_left _ hx))
      · exact .inr hl

/-- A resolved group keeps its key, its dims stay distinct and are old or labelled. -/
theorem Resolved.dims {out : List Cell} (h : Resolved k label cells out)
    (hg : GroupDims k label n key cells) :
    (∀ c ∈ out, c.dims.take n = key) ∧ (out.map (·.dims)).Nodup ∧
      ∀ c ∈ out, c.dims ∈ cells.map (·.dims) ∨ Labelled label n c.dims := by
  cases h with
  | unchanged hp _ =>
    have hg := hg.perm hp
    exact ⟨hg.key, hg.nodup, fun c hc => .inl (mem_map_of_mem (hp.mem_iff.mp hc))⟩
  | @merged c m small big hp hk _ _ hd _ =>
    have hg := hg.perm hp
    obtain ⟨hkey, hor⟩ := hg.small hk
    rw [← hd] at hkey hor
    have hres := hg.append_merged hkey (hor.imp (fun h => ⟨c, mem_cons_self, h⟩) id)
    exact ⟨hres.1, hres.2.1, fun x hx =>
      (hres.2.2 x hx).imp_left fun h => (hp.map _).mem_iff.mp h⟩
  | @complemented c m x m' small big hp hk hbig _ hd _ hd' =>
    have hg := hg.perm hp
    obtain ⟨hkey, hor⟩ := hg.complement hk (hbig x mem_cons_self) hd
    rw [← hd'] at hkey hor
    have hp' : ((c :: small ++ [x]) ++ big).Perm (c :: small ++ x :: big) := by simp
    have hres := (hg.perm hp').append_merged hkey
      (hor.imp (fun h => ⟨c, mem_append_left _ mem_cons_self, h⟩) id)
    exact ⟨hres.1, hres.2.1, fun y hy =>
      (hres.2.2 y hy).imp_left fun h => ((hp'.trans hp).map _).mem_iff.mp h⟩

end Group

/-! ### The raw cells -/

theorem rawCells_rows (rows : List AggRow) : (rawCells rows).map (·.toAggRow) = rows := by
  refine ext_getElem? fun i => ?_
  rw [getElem?_map, rawCells, getElem?_mapIdx]
  cases rows[i]? <;> rfl

theorem rawCells_members (rows : List AggRow) :
    (rawCells rows).flatMap (·.members) = List.range rows.length := by
  have h : (rawCells rows).map (·.members) = (List.range rows.length).map fun i => [i] := by
    refine ext_getElem? fun i => ?_
    rw [getElem?_map, getElem?_map, rawCells, getElem?_mapIdx]
    by_cases hi : i < rows.length
    · simp [hi]
    · rw [getElem?_eq_none (by omega), getElem?_eq_none (by simp; omega)]
      rfl
  rw [flatMap_def, h, ← flatMap_def]
  simp

theorem mem_rawCells {rows : List AggRow} (h : c ∈ rawCells rows) :
    ∃ i, c.members = [i] ∧ rows[i]? = some c.toAggRow := by
  obtain ⟨i, hi⟩ := mem_iff_getElem?.mp h
  rw [rawCells, getElem?_mapIdx] at hi
  obtain ⟨r, hr, rfl⟩ := Option.map_eq_some_iff.mp hi
  exact ⟨i, rfl, hr⟩

theorem rawCells_cover (rows : List AggRow) : AllCover rows (rawCells rows) := by
  intro c hc
  obtain ⟨i, hm, hi⟩ := mem_rawCells hc
  rw [hm]
  refine ⟨by simp, fun j hj => ?_, ?_, fun j hj => ?_, i, by simp, ?_⟩
  · rw [mem_singleton.mp hj]
    exact (List.getElem?_eq_some_iff.mp hi).1
  · simp [rowTotals, hi]
  · rw [mem_singleton.mp hj]
    simp [rowUsers, hi]
  · simp [rowUsers, hi]

/-! ### The levels -/

/-- The keys `groupCells` groups by. -/
def groupKeys (parent : Dims → Dims) (cells : List Cell) : List Dims :=
  (cells.map fun c => parent c.dims).dedup.insertionSort fun a b => reprDims a ≤ reprDims b

theorem groupKeys_perm (parent : Dims → Dims) (cells : List Cell) :
    (groupKeys parent cells).Perm (cells.map fun c => parent c.dims).dedup :=
  perm_insertionSort _ _

theorem groupKeys_nodup (parent : Dims → Dims) (cells : List Cell) :
    (groupKeys parent cells).Nodup :=
  (groupKeys_perm parent cells).nodup_iff.mpr (nodup_dedup _)

theorem groupCells_perm (parent : Dims → Dims) (cells : List Cell) :
    (groupCells parent cells).flatten.Perm cells :=
  flatten_fibres_dedup_perm _ cells (groupKeys_perm parent cells)

theorem level_spec {cells : List Cell} (h : (groupCells parent cells).mapM (resolveGroup k label) = .ok outs) :
    List.Forall₂ (fun key out =>
      Resolved k label (cells.filter fun c => decide (parent c.dims = key)) out)
      (groupKeys parent cells) outs := by
  have h := mapM_eq_ok.mp h
  rw [show groupCells parent cells = (groupKeys parent cells).map fun key =>
    cells.filter fun c => decide (parent c.dims = key) from rfl, forall₂_map_left_iff] at h
  exact h.imp fun _ _ => resolveGroup_spec

theorem level_conserves {cells : List Cell} (h : (groupCells parent cells).mapM (resolveGroup k label) = .ok outs) :
    (outs.flatten.flatMap (·.members)).Perm (cells.flatMap (·.members)) ∧
      ∀ rows, AllCover rows cells → AllCover rows outs.flatten := by
  have h' := mapM_eq_ok.mp h
  constructor
  · refine List.Perm.trans ?_ ((groupCells_perm parent cells).flatMap_right _)
    rw [flatten_eq_flatMap, flatten_eq_flatMap, flatMap_assoc, flatMap_assoc]
    exact flatMap_perm_of_forall₂ (h'.imp fun _ _ hr => (resolveGroup_spec hr).conserves.1)
  · intro rows hc c hmem
    obtain ⟨out, hout, hmem⟩ := mem_flatten.mp hmem
    obtain ⟨group, hgroup, hr⟩ := exists_of_mem_right h' hout
    refine (resolveGroup_spec hr).conserves.2 rows (fun x hx => hc x ?_) c hmem
    exact (groupCells_perm parent cells).mem_iff.mp (mem_flatten.mpr ⟨group, hgroup, hx⟩)

theorem level_totals {cells : List Cell} (h : (groupCells parent cells).mapM (resolveGroup k label) = .ok outs) :
    (outs.flatten.map (·.totals)).sum = (cells.map (·.totals)).sum := by
  have h' := mapM_eq_ok.mp h
  rw [← ((groupCells_perm parent cells).map (·.totals)).sum_eq]
  generalize groupCells parent cells = groups at h'
  clear h
  induction h' with
  | nil => rfl
  | cons hr _ ih =>
    rw [flatten_cons, flatten_cons, map_append, map_append, sum_append,
      sum_append, ih, (resolveGroup_spec hr).totals]

/-- The cells after the level that groups by `n` dims, beside the rows kept aside. -/
structure LevelInv (k : Nat) (label : String) (kept : List Cell) (n : Nat) (cells : List Cell) :
    Prop where
  nodup : ((cells ++ kept).map (·.dims)).Nodup
  unlabelled : ∀ c ∈ cells, ∀ d ∈ c.dims.take n, d.2 ≠ some label
  alone : ∀ c ∈ cells, c.nUsers < k → ∀ c' ∈ cells, c'.dims.take n = c.dims.take n → c' = c

section Levels

variable {kept : List Cell} {n : Nat}

theorem LevelInv.group {cells : List Cell} (h : LevelInv k label kept (n + 1) cells) (key : Dims) :
    GroupDims k label n key (cells.filter fun c => decide (c.dims.take n = key)) where
  key c hc := by simpa using (mem_filter.mp hc).2
  nodup := by
    have hd := h.nodup
    rw [map_append] at hd
    exact (nodup_append'.mp hd).1.sublist (filter_sublist.map _)
  unlabelled c hc := h.unlabelled c (mem_of_mem_filter hc)
  alone c hc hk c' hc' := h.alone c (mem_of_mem_filter hc) hk c' (mem_of_mem_filter hc')

/-- The level that groups by `n` dims. -/
theorem LevelInv.step {cells : List Cell} {outs : List (List Cell)}
    (h : LevelInv k label kept (n + 1) cells)
    (hkept : ∀ c ∈ kept, ∀ d ∈ c.dims, d.2 ≠ some label)
    (hr : (groupCells (List.take n) cells).mapM (resolveGroup k label) = .ok outs) :
    LevelInv k label kept n outs.flatten := by
  have hspec := level_spec hr
  have hkeys := groupKeys_nodup (List.take n) cells
  have hdims : List.Forall₂ (fun key out => (∀ c ∈ out, c.dims.take n = key) ∧
      (out.map (·.dims)).Nodup ∧ ∀ c ∈ out, c.dims ∈ cells.map (·.dims) ∨ Labelled label n c.dims)
      (groupKeys (List.take n) cells) outs := by
    refine hspec.imp fun key out hres => ?_
    obtain ⟨h1, h2, h3⟩ := hres.dims (h.group key)
    refine ⟨h1, h2, fun c hc => (h3 c hc).imp_left fun h => ?_⟩
    exact (filter_sublist.map _).subset h
  -- a cell of the level, with the group it comes from
  have hmem : ∀ c ∈ outs.flatten, ∃ out ∈ outs, c ∈ out ∧
      c.dims.take n ∈ groupKeys (List.take n) cells ∧
      (c.dims ∈ cells.map (·.dims) ∨ Labelled label n c.dims) := by
    intro c hc
    obtain ⟨out, hout, hc⟩ := mem_flatten.mp hc
    obtain ⟨key, hkey, h1, -, h3⟩ := exists_of_mem_right hdims hout
    exact ⟨out, hout, hc, h1 c hc ▸ hkey, h3 c hc⟩
  constructor
  · have hd := h.nodup
    rw [map_append] at hd ⊢
    obtain ⟨-, hk, hdisj⟩ := nodup_append'.mp hd
    refine nodup_append'.mpr ⟨?_, hk, ?_⟩
    · rw [map_flatten]
      refine nodup_flatten_of_keys (f := List.take n) ?_ hkeys
      rw [forall₂_map_right_iff]
      refine hdims.imp fun key out ⟨h1, h2, _⟩ => ⟨h2, fun d hd => ?_⟩
      obtain ⟨c, hc, rfl⟩ := mem_map.mp hd
      exact h1 c hc
    · intro d hd hd'
      obtain ⟨c, hc, rfl⟩ := mem_map.mp hd
      obtain ⟨c', hc', he⟩ := mem_map.mp hd'
      obtain ⟨-, -, -, -, hor⟩ := hmem c hc
      rcases hor with hold | hl
      · exact hdisj hold hd'
      · obtain ⟨d, hd, hl⟩ := hl.mem_take
        exact hkept c' hc' d (he ▸ mem_of_mem_take hd) hl
  · intro c hc d hd
    obtain ⟨-, -, -, hkey, -⟩ := hmem c hc
    rw [(groupKeys_perm _ _).mem_iff, mem_dedup] at hkey
    obtain ⟨x, hx, he⟩ := mem_map.mp hkey
    rw [← he] at hd
    exact h.unlabelled x hx d (take_subset_take_left _ (Nat.le_succ n) hd)
  · intro c hc hk c' hc' he
    obtain ⟨out, hout, hc, -, -⟩ := hmem c hc
    obtain ⟨out', hout', hc', -, -⟩ := hmem c' hc'
    obtain rfl : out' = out := eq_of_same_key (f := fun c : Cell => c.dims.take n)
      (hdims.imp fun _ _ h => h.1) hkeys hout' hout hc' hc he
    obtain ⟨group, -, hr⟩ := exists_of_mem_right hspec hout
    rcases hr.alone with hbig | ⟨x, rfl⟩
    · have := hbig c hc
      omega
    · rw [mem_singleton.mp hc, mem_singleton.mp hc']

/-- The remaining levels leave cells that all reach `k`, or a single one. -/
theorem LevelInv.run {cells out : List Cell} (h : LevelInv k label kept n cells)
    (hkept : ∀ c ∈ kept, ∀ d ∈ c.dims, d.2 ≠ some label)
    (hr : resolveLevels k label (levelsOf none n) cells = .ok out) :
    ((out ++ kept).map (·.dims)).Nodup ∧ ((∀ c ∈ out, k ≤ c.nUsers) ∨ ∃ c, out = [c]) := by
  induction n generalizing cells with
  | zero =>
    obtain rfl := pure_eq_ok.mp hr
    refine ⟨h.nodup, ?_⟩
    by_cases hall : ∀ c ∈ cells, k ≤ c.nUsers
    · exact .inl hall
    · right
      push Not at hall
      obtain ⟨c, hc, hk⟩ := hall
      have hd := h.nodup
      rw [map_append] at hd
      have hnodup : cells.Nodup := List.Nodup.of_map _ (nodup_append'.mp hd).1
      refine ⟨c, perm_singleton.mp ?_⟩
      rw [perm_ext_iff_of_nodup hnodup (by simp)]
      intro x
      rw [mem_singleton]
      exact ⟨fun hx => h.alone c hc hk x hx (by simp), fun hx => hx ▸ hc⟩
  | succ n ih =>
    have hlevels : levelsOf none (n + 1) = List.take n :: levelsOf none n := by
      simp [levelsOf, range_succ]
    rw [hlevels] at hr
    unfold resolveLevels at hr
    split at hr
    · rename_i hall
      obtain rfl := pure_eq_ok.mp hr
      exact ⟨h.nodup, .inl (by simpa using hall)⟩
    · obtain ⟨outs, houts, hr⟩ := bind_eq_ok.mp hr
      exact ih (h.step hkept houts) hr

/-- All levels together keep the raw rows. -/
theorem levels_conserve {levels : List (Dims → Dims)} {cells out : List Cell}
    (hr : resolveLevels k label levels cells = .ok out) :
    (out.flatMap (·.members)).Perm (cells.flatMap (·.members)) ∧
      ∀ rows, AllCover rows cells → AllCover rows out := by
  induction levels generalizing cells with
  | nil =>
    obtain rfl := pure_eq_ok.mp hr
    exact ⟨.refl _, fun _ h => h⟩
  | cons parent levels ih =>
    unfold resolveLevels at hr
    split at hr
    · obtain rfl := pure_eq_ok.mp hr
      exact ⟨.refl _, fun _ h => h⟩
    · obtain ⟨outs, houts, hr⟩ := bind_eq_ok.mp hr
      obtain ⟨hp, hc⟩ := level_conserves houts
      obtain ⟨hp', hc'⟩ := ih hr
      exact ⟨hp'.trans hp, fun rows h => hc' rows (hc rows h)⟩

end Levels

end TokenBill.Kanon
