import TokenBill.Store.ClusterRuns
import TokenBill.Verify.Panel
import Mathlib.Algebra.BigOperators.Group.List.Lemmas
import Mathlib.Data.Finset.Card
import Mathlib.Tactic.IntervalCases

/-!
# The panel and the ledger

The ledger counts a request in the cluster its id names, also where the id is empty; the
panel takes an empty id for none. So the two agree on a window exactly if none of its
requests with a billable inference has an empty cluster id: then each row of the panel
has the billed nano-USD and the developers of its cluster and day, every cluster day has
its row, no two rows are of one cluster and day, and `check_rows` accepts them.

A store is taken in any state a run without a retention reaches, with every inference
priced by the pricer of the panel's actual costs.
-/

namespace TokenBill.Verify

open General Store List

/-! ### Dates -/

theorem ofDigits_lt {cs : List Char} (h : ∀ c ∈ cs, c.isDigit) : Decimal.ofDigits cs < 10 ^ cs.length := by
  have hrun : ∀ (cs : List Char) (n : Nat), (∀ c ∈ cs, c.isDigit) →
      Nat.ofDigitChars 10 cs n < (n + 1) * 10 ^ cs.length := by
    intro cs
    induction cs with
    | nil => intro n _; simp
    | cons c cs ih =>
      intro n hcs
      have hc : c.toNat - '0'.toNat ≤ 9 := by
        have := hcs c mem_cons_self
        simp only [Char.isDigit, ge_iff_le, Bool.and_eq_true, decide_eq_true_eq] at this
        have h2 : c.val.toNat ≤ 57 := this.2
        show c.val.toNat - 48 ≤ 9
        omega
      rw [Nat.ofDigitChars_cons]
      refine (ih _ fun c hc => hcs c (mem_cons_of_mem _ hc)).trans_le ?_
      rw [length_cons, pow_succ', ← mul_assoc]
      refine Nat.mul_le_mul_right _ ?_
      omega
  exact (hrun cs 0 h).trans_eq (by rw [zero_add, one_mul])

theorem daysBeforeMonth_add_le {year month day : Nat} (hm : month ≤ 12) (h1 : 1 ≤ month)
    (hd : day ≤ daysInMonth year month) :
    daysBeforeMonth year month + day ≤ if isLeap year then 366 else 365 := by
  unfold daysBeforeMonth daysInMonth at *
  interval_cases month <;> cases h : isLeap year <;> simp [range_succ, h] at * <;> omega

theorem dayNumber_le {year month day : Nat} (hy : year ≤ 9999) (hm : month ≤ 12) (h1 : 1 ≤ month)
    (hd : day ≤ daysInMonth year month) : dayNumber year month day ≤ lastDate := by
  have hdays := daysBeforeMonth_add_le hm h1 hd
  unfold dayNumber lastDate daysBeforeYear
  dsimp only
  by_cases hlast : year = 9999
  · subst hlast
    have : isLeap 9999 = false := by decide
    rw [this] at hdays
    simp at hdays
    omega
  · have : daysBeforeMonth year month + day ≤ 366 := hdays.trans (by split <;> omega)
    omega

theorem parseDate_le {text : String} {d : Int} (h : parseDate text = some d) : d ≤ lastDate := by
  unfold parseDate at h
  split at h
  · split at h
    · rename_i y1 y2 y3 y4 m1 m2 d1 d2 _ hdigits
      dsimp only at h
      split at h
      · rename_i hvalid
        obtain rfl := Option.some.inj h
        refine dayNumber_le ?_ hvalid.2.2.1 hvalid.2.1 hvalid.2.2.2.2
        have hlt := @ofDigits_lt [y1, y2, y3, y4] fun c hc =>
          all_eq_true.mp hdigits c (mem_append_left [m1, m2, d1, d2] hc)
        simp only [length_cons, length_nil] at hlt
        omega
      · cases h
    · cases h
  · cases h
/-! ### Sums over groups -/

section Groups

variable {α κ ν : Type} [DecidableEq κ] (key : α → κ) (user : α → Option Principal) (sums : List α → ν)

/-- The groups of the keys `p` selects. -/
def groupCells (p : κ → Bool) (items : List α) : List (List α) :=
  ((items.map key).dedup.filter p).map fun k => items.filter fun i => decide (key i = k)

theorem filter_groupRows (p : κ → Bool) (items : List α) :
    (groupRows key user sums items).filter (fun r => p r.key) =
      ((items.map key).dedup.filter p).map fun k =>
        let cell := items.filter fun i => decide (key i = k)
        ⟨k, (cell.filterMap user).dedup.length, sums cell⟩ := by
  unfold groupRows
  rw [filter_map]
  rfl

theorem groupCells_perm (p : κ → Bool) (items : List α) :
    (groupCells key p items).flatten.Perm (items.filter fun i => p (key i)) := by
  have hcells : groupCells key p items = ((items.map key).dedup.filter p).map fun k =>
      (items.filter fun i => p (key i)).filter fun i => decide (key i = k) := by
    refine map_congr_left fun k hk => ?_
    rw [filter_filter]
    refine filter_congr fun i _ => ?_
    by_cases he : key i = k
    · simp [he, (mem_filter.mp hk).2]
    · simp [he]
  rw [hcells]
  refine flatten_fibres_perm key ((nodup_dedup _).filter p) fun i hi => ?_
  obtain ⟨hi, hp⟩ := mem_filter.mp hi
  exact mem_filter.mpr ⟨mem_dedup.mpr (mem_map_of_mem hi), hp⟩

theorem sum_groupRows {M : Type} [AddCommMonoid M] (amount : α → M) (get : ν → M)
    (hget : ∀ cell, get (sums cell) = (cell.map amount).sum) (p : κ → Bool) (items : List α) :
    (((groupRows key user sums items).filter fun r => p r.key).map fun r => get r.sums).sum =
      ((items.filter fun i => p (key i)).map amount).sum := by
  have hrows : ((groupRows key user sums items).filter fun r => p r.key).map (fun r => get r.sums) =
      (groupCells key p items).map fun cell => (cell.map amount).sum := by
    rw [filter_groupRows, groupCells, map_map, map_map]
    exact map_congr_left fun k _ => hget _
  calc _ = ((groupCells key p items).map fun cell => (cell.map amount).sum).sum := by rw [hrows]
    _ = ((groupCells key p items).flatten.map amount).sum := by
      rw [map_flatten, sum_flatten, map_map]
      rfl
    _ = _ := ((groupCells_perm key p items).map amount).sum_eq

theorem length_dedup_append_le {β : Type} [DecidableEq β] (xs ys : List β) :
    (xs ++ ys).dedup.length ≤ xs.dedup.length + ys.dedup.length := by
  simp only [← card_toFinset, toFinset_append]
  exact Finset.card_union_le _ _

theorem length_dedup_flatten_le {β : Type} [DecidableEq β] (user : α → Option β) (cells : List (List α)) :
    (cells.flatten.filterMap user).dedup.length ≤
      (cells.map fun cell => (cell.filterMap user).dedup.length).sum := by
  induction cells with
  | nil => simp
  | cons cell cells ih =>
    rw [flatten_cons, filterMap_append, map_cons, sum_cons]
    exact (length_dedup_append_le _ _).trans (Nat.add_le_add_left ih _)

theorem users_groupRows (p : κ → Bool) (items : List α) :
    let rows := (groupRows key user sums items).filter fun r => p r.key
    let users := ((items.filter fun i => p (key i)).filterMap user).dedup.length
    users ≤ (rows.map (·.activeUsers)).sum ∧
      (rows.length ≤ 1 → (rows.map (·.activeUsers)).sum = users) := by
  dsimp only
  have hrows : ((groupRows key user sums items).filter fun r => p r.key).map (·.activeUsers) =
      (groupCells key p items).map fun cell => (cell.filterMap user).dedup.length := by
    rw [filter_groupRows, groupCells, map_map, map_map]
    rfl
  have hlength : ((groupRows key user sums items).filter fun r => p r.key).length =
      (groupCells key p items).length := by
    rw [filter_groupRows, groupCells, length_map, length_map]
  have husers : ((groupCells key p items).flatten.filterMap user).dedup.length =
      ((items.filter fun i => p (key i)).filterMap user).dedup.length :=
    ((groupCells_perm key p items).filterMap user).dedup.length_eq
  rw [hrows, hlength, ← husers]
  refine ⟨length_dedup_flatten_le user _, fun hone => ?_⟩
  generalize groupCells key p items = cells at hone
  cases cells with
  | nil => rfl
  | cons cell rest =>
    cases rest with
    | nil => simp
    | cons next rest => simp at hone

end Groups

/-! ### The ledger's requests -/

/-- A pricer puts what is not billed on a list-equivalent basis (`RateCard._basis`). -/
def KeepsBasis (pricer : Pricer) : Prop :=
  ∀ inf ts, billingClass (some inf.pricing.billingPath) ≠ .billed →
    (pricer.priceInference inf ts).figure.basis = .listEquivalent

/-- Every stored request has the prices `pricer` gives its inferences. -/
def PricedBy (pricer : Pricer) (db : Db) : Prop :=
  ∀ r ∈ db.requests, r.inferences = inferenceRows r.request (priceColumns (some pricer))

/-- The requests of a cluster and day that have a billable inference. -/
def activeRows (db : Db) (kind : ClusterKind) (cluster : String) (d : Nat) : List RequestRow :=
  db.requests.filter fun r => decide (r.dateUtc = d) && r.inferences.any billable &&
    decide (clusterField kind r.request.attribution = some cluster)

variable {db : Db} {kind : ClusterKind} {pricer : Pricer}

theorem filter_billable_inferenceRows (req : Request) (priced : Inference → Nat → PricedColumns) :
    (inferenceRows req priced).filter billable = (activeInferences req).map fun i =>
      ⟨i.1, i.2, req.attribution.principal, priced i.1 i.2⟩ := by
  unfold inferenceRows activeInferences
  rw [filter_flatMap, map_flatMap]
  refine flatMap_congr fun a _ => ?_
  rw [filter_map, map_map]
  rfl

theorem PricedBy.any_billable (hp : PricedBy pricer db) {r : RequestRow} (hr : r ∈ db.requests) :
    r.inferences.any billable = !(activeInferences r.request).isEmpty := by
  have hfilter := filter_billable_inferenceRows r.request (priceColumns (some pricer))
  rw [← hp r hr] at hfilter
  have hnil : r.inferences.filter billable = [] ↔ activeInferences r.request = [] := by
    rw [hfilter, map_eq_nil_iff]
  rw [Bool.eq_iff_iff, Bool.not_eq_true', isEmpty_eq_false_iff, ne_eq, ← hnil,
    filter_eq_nil_iff, any_eq_true]
  push Not
  rfl

def billedExact (r : RequestRow) : Int :=
  ((r.inferences.filter billable).map fun i => billed (·.exactNano) i.priced).sum

theorem billed_priceColumns (hb : KeepsBasis pricer) {i : Inference} (ts : Nat)
    (hi : i.billable ≠ some false) : billed (·.exactNano) (priceColumns (some pricer) i ts) =
      if billingClass (some i.pricing.billingPath) = .billed then
        costs (pricer.priceInference i ts) .billed else 0 := by
  have hbasis := hb i ts
  have hcols : priceColumns (some pricer) i ts =
      pricedTuple (pricer.priceInference i ts) (some pricer.rateCardSha256) := if_neg hi
  rw [hcols]
  generalize pricer.priceInference i ts = priced at hbasis
  unfold pricedTuple costs billed
  cases hn : priced.figure.nano with
  | none => simp
  | some nano =>
    by_cases hclass : billingClass (some i.pricing.billingPath) = .billed
    · by_cases hle : priced.figure.basis = .listEquivalent <;> simp [hclass, hle]
    · simp [hclass, hbasis hclass]

theorem billedExact_eq (hp : PricedBy pricer db) (hb : KeepsBasis pricer) {r : RequestRow}
    (hr : r ∈ db.requests) : billedExact r = requestCost pricer .billed r.request := by
  unfold billedExact requestCost
  rw [hp r hr, filter_billable_inferenceRows, map_map]
  have hactive : ∀ i ∈ activeInferences r.request, i.1.billable ≠ some false := by
    intro i hi
    obtain ⟨a, -, hi⟩ := mem_flatMap.mp hi
    obtain ⟨inf, hinf, rfl⟩ := mem_map.mp hi
    simpa using (mem_filter.mp hinf).2
  generalize activeInferences r.request = active at hactive
  induction active with
  | nil => rfl
  | cons i rest ih =>
    have ih := ih fun j hj => hactive j (mem_cons_of_mem _ hj)
    rw [map_cons, sum_cons, ih, filter_cons, Function.comp_apply]
    dsimp only
    rw [billed_priceColumns hb i.2 (hactive i mem_cons_self)]
    split
    · rename_i hclass
      rw [if_pos (decide_eq_true hclass), map_cons, sum_cons]
    · rename_i hclass
      rw [if_neg (by simpa using hclass), zero_add]

/-! ### Cluster days -/

/-- A key of `cluster_day` is of a cluster. -/
def ofCluster (kind : ClusterKind) (cluster : String) (k : ClusterKey) : Bool :=
  decide (k.clusterKind = kind) && decide (k.clusterId = cluster)

theorem filter_clustersOf (r : RequestRow) (kind : ClusterKind) (cluster : String) (d : Nat) :
    ((clustersOf r).filter fun i => ofCluster kind cluster (clusterKey d i)).map (·.row) =
      if clusterField kind r.request.attribution = some cluster then [r] else [] := by
  unfold clustersOf clusterField ofCluster clusterKey
  dsimp only
  generalize r.request.attribution.team = team
  generalize r.request.attribution.workspaceId = workspace
  generalize r.request.attribution.extra.lookup "mdm_group" = mdmGroup
  generalize r.request.attribution.extra.lookup "gateway" = gateway
  cases kind <;> cases team <;> cases workspace <;> cases mdmGroup <;> cases gateway <;>
    simp [filter_cons] <;> split <;> simp [*]

theorem items_of_cluster (db : Db) (kind : ClusterKind) (cluster : String) (d : Nat) :
    ((((dayView db d).flatMap fun r => clustersOf r.1).filter
      fun i => ofCluster kind cluster (clusterKey d i)).map (·.row)) = activeRows db kind cluster d := by
  unfold dayView activeRows
  rw [flatMap_map, filter_flatMap, map_flatMap]
  simp only [filter_clustersOf]
  induction db.requests with
  | nil => rfl
  | cons r rows ih =>
    by_cases hday : (decide (r.dateUtc = d) && r.inferences.any billable) = true
    · by_cases hc : clusterField kind r.request.attribution = some cluster <;>
        simp [hday, hc, ih]
    · simp [hday, ih]

/-- The rows of a cluster and day in `cluster_day`. -/
def clusterDayRows (db : Db) (kind : ClusterKind) (cluster : String) (d : Nat) :
    List (RollupRow ClusterKey ClusterSums) :=
  (clusterRows db d).filter fun r => ofCluster kind cluster r.key

theorem sum_clusterDayRows (db : Db) (kind : ClusterKind) (cluster : String) (d : Nat) :
    ((clusterDayRows db kind cluster d).map (·.sums.exactNano)).sum =
      ((activeRows db kind cluster d).map billedExact).sum := by
  have hsum := sum_groupRows (clusterKey d) (·.row.principal) clusterSums (fun i => billedExact i.row)
    (·.exactNano) (fun _ => rfl) (ofCluster kind cluster) ((dayView db d).flatMap fun r => clustersOf r.1)
  rw [← items_of_cluster, map_map]
  exact hsum

theorem users_clusterDayRows (db : Db) (kind : ClusterKind) (cluster : String) (d : Nat) :
    let users := ((activeRows db kind cluster d).filterMap (·.principal)).dedup.length
    users ≤ ((clusterDayRows db kind cluster d).map (·.activeUsers)).sum ∧
      ((clusterDayRows db kind cluster d).length ≤ 1 →
        ((clusterDayRows db kind cluster d).map (·.activeUsers)).sum = users) := by
  have husers := users_groupRows (clusterKey d) (·.row.principal) clusterSums (ofCluster kind cluster)
    ((dayView db d).flatMap fun r => clustersOf r.1)
  dsimp only at husers ⊢
  rw [← items_of_cluster, filterMap_map]
  exact husers

variable {cluster : String} {d : Nat}

theorem clusterDayRows_eq_nil_iff {db : Db} {kind : ClusterKind} :
    clusterDayRows db kind cluster d = [] ↔ activeRows db kind cluster d = [] := by
  unfold clusterDayRows clusterRows
  rw [filter_groupRows, map_eq_nil_iff, ← items_of_cluster, map_eq_nil_iff,
    filter_eq_nil_iff, filter_eq_nil_iff]
  constructor
  · exact fun h i hi => h _ (mem_dedup.mpr (mem_map_of_mem hi))
  · intro h k hk
    obtain ⟨i, hi, rfl⟩ := mem_map.mp (mem_dedup.mp hk)
    exact h i hi

/-- The rows of a cluster and day among those `cluster_days` returns. -/
theorem filter_clusterDays_cell (hf : ClusterFresh db) (readOnly : Bool) (kind : ClusterKind)
    (lo hi : Nat) (cluster : String) (d : Nat) :
    ((clusterDays db readOnly kind lo hi).2.filter fun r =>
        decide ((r.key.clusterId, r.key.dateUtc) = (cluster, d))) =
      if lo ≤ d ∧ d < hi then clusterDayRows db kind cluster d else [] := by
  have hdate := hf.clusterDays readOnly kind lo hi d
  have hsplit : ((clusterDays db readOnly kind lo hi).2.filter fun r =>
      decide ((r.key.clusterId, r.key.dateUtc) = (cluster, d))) =
      ((clusterDays db readOnly kind lo hi).2.filter fun r => decide (r.key.dateUtc = d)).filter
        fun r => decide (r.key.clusterId = cluster) := by
    rw [filter_filter]
    refine filter_congr fun r _ => ?_
    simp only [Prod.mk.injEq, Bool.decide_and]
  rw [hsplit, hdate]
  split
  · rw [filter_filter, clusterDayRows]
    refine filter_congr fun r _ => ?_
    exact Bool.and_comm _ _
  · rfl

/-! ### Cells -/

section Cells

variable {baseline : Pricer} {cls : BillingClass} {days : List (RollupRow ClusterKey ClusterSums)}
  {requests : List CellRequest}

/-- The days and the requests of a cell add up to what it holds. -/
theorem mem_cellsOf {k : CellKey} {x : Int × Int × Nat}
    (h : (k, x) ∈ cellsOf baseline pricer cls days requests) :
    x.2.1 = ((requests.filter fun r => decide (r.key = k)).map fun r => requestCost pricer cls r.request).sum ∧
      x.2.2 = ((days.filter fun r => decide ((r.key.clusterId, r.key.dateUtc) = k)).map (·.activeUsers)).sum ∧
      ((∃ r ∈ days, (r.key.clusterId, r.key.dateUtc) = k) ∨ ∃ r ∈ requests, r.key = k) := by
  have hamount := mem_tally.mp h
  unfold amountOf at hamount
  split at hamount
  · rename_i hk
    obtain rfl := Option.some.inj hamount
    have hproj {M : Type} [AddCommMonoid M] (f : Int × Int × Nat →+ M) := map_list_sum f
    refine ⟨?_, ?_, ?_⟩
    · refine (hproj ((AddMonoidHom.fst _ _).comp (AddMonoidHom.snd _ _)) _).trans ?_
      rw [cellEntries, filter_append, filter_map, filter_map]
      simp [Function.comp_def]
    · refine (hproj ((AddMonoidHom.snd _ _).comp (AddMonoidHom.snd _ _)) _).trans ?_
      rw [cellEntries, filter_append, filter_map, filter_map]
      simp [Function.comp_def]
    · simpa [cellEntries] using hk
  · cases hamount

theorem exists_cell {r : RollupRow ClusterKey ClusterSums} (hr : r ∈ days) :
    ∃ x, ((r.key.clusterId, r.key.dateUtc), x) ∈ cellsOf baseline pricer cls days requests := by
  have hk : (r.key.clusterId, r.key.dateUtc) ∈ (cellEntries baseline pricer cls days requests).map (·.1) := by
    rw [cellEntries, map_append, map_map]
    exact mem_append_left _ (mem_map.mpr ⟨r, hr, rfl⟩)
  exact ⟨_, mem_tally.mpr (if_pos hk)⟩

end Cells

def cellRows (db : Db) (kind : ClusterKind) (cluster : String) (d : Nat) : List RequestRow :=
  db.requests.filter fun r =>
    decide (r.dateUtc = d) && decide (clusterField kind r.request.attribution = some cluster)

theorem filter_cellRequests (kind : ClusterKind) (requests : List Request) (cluster : String) (d : Nat) :
    ((cellRequests kind requests).filter fun r => decide (r.key = (cluster, d))).map (·.request) =
      requests.filter fun r => decide (dayOf r.tsStartMs = d) && decide (clusterOf r kind = some cluster) := by
  unfold cellRequests
  induction requests with
  | nil => rfl
  | cons r requests ih =>
    cases hc : clusterOf r kind with
    | none => simp [hc, ih]
    | some id =>
      by_cases hid : id = cluster <;> by_cases hd : dayOf r.tsStartMs = d <;> simp [hc, hid, hd, ih]

theorem clusterOf_eq_some_iff {request : Request} {kind : ClusterKind} :
    clusterOf request kind = some cluster ↔
      clusterField kind request.attribution = some cluster ∧ cluster ≠ "" := by
  unfold clusterOf
  rw [Option.filter_eq_some_iff]
  simp

theorem window_iff {lo hi : Int} {ts : Nat} :
    (lo * dayMs ≤ ts ∧ (ts : Int) < hi * dayMs) ↔ lo ≤ dayOf ts ∧ (dayOf ts : Int) < hi := by
  unfold dayOf dayMs
  omega

/-- The panel's requests of a cluster and day of its window are the ledger's. -/
theorem cellRequests_perm (db : Db) (kind : ClusterKind) {lo hi : Int}
    (hc : cluster ≠ "") (hd : lo ≤ d ∧ (d : Int) < hi) :
    (((cellRequests kind (iterRequests db lo hi)).filter fun r => decide (r.key = (cluster, d))).map
      (·.request)).Perm ((cellRows db kind cluster d).map (·.request)) := by
  rw [filter_cellRequests]
  unfold iterRequests
  refine (((perm_insertionSort _ _).map _).filter _).trans (List.Perm.of_eq ?_)
  rw [filter_map, filter_filter, cellRows]
  congr 1
  refine filter_congr fun r _ => ?_
  have hday : r.dateUtc = dayOf r.request.tsStartMs := rfl
  simp only [Function.comp_apply, clusterOf_eq_some_iff, hc, ne_eq, not_false_eq_true, and_true, hday]
  by_cases he : dayOf r.request.tsStartMs = d
  · have hin : lo * dayMs ≤ r.request.tsStartMs ∧ (r.request.tsStartMs : Int) < hi * dayMs :=
      window_iff.mpr (he ▸ hd)
    simp [he, hin]
  · simp [he]

/-- A request of the panel is in its window. -/
theorem mem_cellRequests {kind : ClusterKind} {lo hi : Int} {r : CellRequest}
    (h : r ∈ cellRequests kind (iterRequests db lo hi)) :
    r.key.1 ≠ "" ∧ lo ≤ r.key.2 ∧ (r.key.2 : Int) < hi := by
  obtain ⟨request, hr, he⟩ := mem_filterMap.mp h
  obtain ⟨cluster, hc, rfl⟩ := Option.map_eq_some_iff.mp he
  obtain ⟨row, hrow, rfl⟩ := mem_map.mp hr
  have hwindow := (mem_filter.mp ((mem_insertionSort _).mp hrow)).2
  exact ⟨(clusterOf_eq_some_iff.mp hc).2, window_iff.mp (by simpa using hwindow)⟩

/-! ### What `build_panel` and `check_rows` do -/

theorem isoDate_le {text name : String} {d : Int} (h : isoDate text name = .ok d) : d ≤ lastDate := by
  unfold isoDate at h
  split at h
  · rename_i day hd
    exact Except.ok.inj h ▸ parseDate_le hd
  · cases h

theorem checkWindow_spec {since until_ : String} {lo hi : Int}
    (h : checkWindow since until_ = .ok (lo, hi)) : lo < hi ∧ hi ≤ lastDate := by
  unfold checkWindow at h
  obtain ⟨a, -, h⟩ := bind_eq_ok.mp h
  obtain ⟨b, hb, h⟩ := bind_eq_ok.mp h
  by_cases hle : b ≤ a
  · rw [if_pos hle] at h
    cases h
  · rw [if_neg hle] at h
    cases h
    exact ⟨not_le.mp hle, isoDate_le hb⟩

theorem checkRows_eq_ok_iff {rows : List PanelRow} :
    checkRows rows = .ok rows ↔ ∀ r ∈ rows, r.clusterId ≠ "" ∧ (r.dateUtc : Int) ≤ lastDate := by
  have hrow (r : PanelRow) : checkRow r = .ok () ↔ r.clusterId ≠ "" ∧ (r.dateUtc : Int) ≤ lastDate := by
    unfold checkRow
    by_cases hid : r.clusterId = ""
    · simp [hid]
    · by_cases hdate : lastDate < r.dateUtc
      · simp [hid, hdate]
      · simp [hid, hdate, not_lt.mp hdate]
  have hall : checkRows rows = .ok rows ↔ rows.forM checkRow = .ok () := by
    unfold checkRows
    cases rows.forM checkRow with
    | ok u => simp [bind, Except.bind, pure, Except.pure]
    | error e => simp [bind, Except.bind]
  rw [hall, forM_eq_ok]
  exact forall₂_congr fun r _ => hrow r

/-- What `build_panel` returns: a row for each cell. -/
theorem buildPanel_spec {readOnly : Bool} {since until_ : String} {lo hi : Int} {baseline : Pricer}
    {arms : List (String × String)} {rows : List PanelRow} (hw : checkWindow since until_ = .ok (lo, hi))
    (h : buildPanel db readOnly kind since until_ baseline pricer arms = .ok rows) :
    let days := (sortedClusterDays db readOnly kind lo hi).2
    let requests := cellRequests kind (iterRequests db lo hi)
    ∃ outcomePrs assigned, rows.Perm ((cellsOf baseline pricer .billed days requests).map
      (panelRow outcomePrs assigned days requests)) := by
  have hreq : iterRequests (sortedClusterDays db readOnly kind lo hi).1 lo hi = iterRequests db lo hi := by
    unfold iterRequests sortedClusterDays clusterDays
    cases readOnly <;> rfl
  unfold buildPanel at h
  rw [hw] at h
  obtain ⟨window, hwindow, h⟩ := bind_eq_ok.mp h
  obtain rfl := Except.ok.inj hwindow
  obtain ⟨assigned, -, h⟩ := bind_eq_ok.mp h
  dsimp only at h ⊢
  generalize sortedClusterDays db readOnly kind lo hi = answer at h hreq ⊢
  obtain ⟨refreshed, days⟩ := answer
  obtain rfl := Except.ok.inj h
  dsimp only at hreq ⊢
  rw [hreq]
  exact ⟨_, assigned, (perm_insertionSort _ _).map _⟩

/-! ### Refinement -/

/-- The rows of a panel give what the ledger's cluster days of the window, and the requests under
them, say of each cluster and day. -/
structure Refines (db : Db) (kind : ClusterKind) (days : List (RollupRow ClusterKey ClusterSums))
    (rows : List PanelRow) : Prop where
  /-- The actual cost is what the rows of the cluster and day bill exactly. -/
  cost : ∀ row ∈ rows, row.costActualNano = ((days.filter fun r =>
    decide ((r.key.clusterId, r.key.dateUtc) = (row.clusterId, row.dateUtc))).map (·.sums.exactNano)).sum
  /-- The developers are the distinct principals with a billable inference, where each has one. -/
  developers : ∀ row ∈ rows,
    (∀ r ∈ activeRows db kind row.clusterId row.dateUtc, r.principal ≠ none) →
    row.activeDevDays =
      ((activeRows db kind row.clusterId row.dateUtc).filterMap (·.principal)).dedup.length
  /-- No cluster day is lost. -/
  complete : ∀ r ∈ days, ∃ row ∈ rows, row.clusterId = r.key.clusterId ∧ row.dateUtc = r.key.dateUtc
  /-- None is there twice. -/
  distinct : (rows.map fun row => (row.clusterId, row.dateUtc)).Nodup
  /-- The rows pass `check_rows`. -/
  accepted : checkRows rows = .ok rows

/-- No request of the window with a billable inference has an empty cluster id. -/
def NoEmptyId (db : Db) (kind : ClusterKind) (lo hi : Int) : Prop :=
  ∀ r ∈ db.requests, lo ≤ r.dateUtc → (r.dateUtc : Int) < hi → r.inferences.any billable = true →
    clusterField kind r.request.attribution ≠ some ""

section Window

variable {lo hi : Int} {readOnly : Bool}

variable {d : Nat}

theorem toNat_window : (lo.toNat ≤ d ∧ d < hi.toNat) ↔ (lo ≤ d ∧ (d : Int) < hi) := by omega

theorem sortedClusterDays_perm (db : Db) (readOnly : Bool) (kind : ClusterKind) (lo hi : Int) :
    (sortedClusterDays db readOnly kind lo hi).2.Perm (clusterDays db readOnly kind lo.toNat hi.toNat).2 :=
  perm_insertionSort _ _

/-- The rows of a cell that `cluster_days` returns, in order. -/
theorem sortedClusterDays_cell (hf : ClusterFresh db) {cluster : String} (hd : lo ≤ d ∧ (d : Int) < hi) :
    (((sortedClusterDays db readOnly kind lo hi).2.filter fun r =>
        decide ((r.key.clusterId, r.key.dateUtc) = (cluster, d)))).Perm
      (clusterDayRows db kind cluster d) := by
  refine ((sortedClusterDays_perm db readOnly kind lo hi).filter _).trans (List.Perm.of_eq ?_)
  rw [filter_clusterDays_cell hf, if_pos (toNat_window.mpr hd)]

theorem active_of_day (hf : ClusterFresh db) {r : RollupRow ClusterKey ClusterSums}
    (hr : r ∈ (clusterDays db readOnly kind lo.toNat hi.toNat).2) :
    (lo ≤ r.key.dateUtc ∧ (r.key.dateUtc : Int) < hi) ∧
      activeRows db kind r.key.clusterId r.key.dateUtc ≠ [] := by
  have hcell : r ∈ (clusterDays db readOnly kind lo.toNat hi.toNat).2.filter fun x =>
      decide ((x.key.clusterId, x.key.dateUtc) = (r.key.clusterId, r.key.dateUtc)) :=
    mem_filter.mpr ⟨hr, decide_eq_true rfl⟩
  rw [filter_clusterDays_cell hf] at hcell
  split at hcell
  · rename_i hd
    exact ⟨toNat_window.mp hd, fun h => ne_nil_of_mem hcell (clusterDayRows_eq_nil_iff.mpr h)⟩
  · cases hcell

theorem day_of_active (hf : ClusterFresh db) {cluster : String} (hd : lo ≤ d ∧ (d : Int) < hi)
    (h : activeRows db kind cluster d ≠ []) :
    ∃ r ∈ (clusterDays db readOnly kind lo.toNat hi.toNat).2, r.key.clusterId = cluster ∧ r.key.dateUtc = d := by
  obtain ⟨r, hr⟩ := exists_mem_of_ne_nil _ (mt clusterDayRows_eq_nil_iff.mp h)
  have hcell := filter_clusterDays_cell hf readOnly kind lo.toNat hi.toNat cluster d
  rw [if_pos (toNat_window.mpr hd)] at hcell
  obtain ⟨hr, hk⟩ := mem_filter.mp (hcell ▸ hr)
  exact ⟨r, hr, by simpa using hk⟩

end Window

/-! ### Costs and developers of a cell -/

theorem activeRows_eq (db : Db) (kind : ClusterKind) (cluster : String) (d : Nat) :
    activeRows db kind cluster d = (cellRows db kind cluster d).filter fun r => r.inferences.any billable := by
  unfold activeRows cellRows
  rw [filter_filter]
  refine filter_congr fun r _ => ?_
  cases decide (r.dateUtc = d) <;> simp [Bool.and_comm]

theorem activeOf_perm (hp : PricedBy pricer db) {lo hi : Int} (hc : cluster ≠ "") (hd : lo ≤ d ∧ (d : Int) < hi) :
    (activeOf (cellRequests kind (iterRequests db lo hi)) (cluster, d)).Perm
      ((activeRows db kind cluster d).map (·.request)) := by
  have hcell := (cellRequests_perm db kind hc hd).filter fun r => !(activeInferences r).isEmpty
  rw [filter_map, filter_filter, filter_map] at hcell
  refine (List.Perm.of_eq ?_).trans (hcell.trans (List.Perm.of_eq ?_))
  · unfold activeOf
    congr 1
    exact filter_congr fun r _ => Bool.and_comm _ _
  · rw [activeRows_eq]
    congr 1
    refine filter_congr fun r hr => ?_
    exact (hp.any_billable (mem_of_mem_filter hr)).symm

theorem requestCost_inactive {cls : BillingClass} {request : Request}
    (h : (activeInferences request).isEmpty) : requestCost pricer cls request = 0 := by
  unfold requestCost
  rw [List.isEmpty_iff.mp h]
  rfl

/-- The panel's actual cost of a cell is what the ledger bills. -/
theorem cell_cost (hp : PricedBy pricer db) (hb : KeepsBasis pricer) {lo hi : Int}
    (hc : cluster ≠ "") (hd : lo ≤ d ∧ (d : Int) < hi) :
    (((cellRequests kind (iterRequests db lo hi)).filter fun r => decide (r.key = (cluster, d))).map
      fun r => requestCost pricer .billed r.request).sum =
      ((clusterDayRows db kind cluster d).map (·.sums.exactNano)).sum := by
  have hzero : ∀ rows : List RequestRow, (∀ r ∈ rows, r ∈ db.requests) →
      (rows.map fun r => requestCost pricer .billed r.request).sum =
        ((rows.filter fun r => r.inferences.any billable).map billedExact).sum := by
    intro rows hrows
    induction rows with
    | nil => rfl
    | cons r rows ih =>
      have hr := hrows r mem_cons_self
      have ih := ih fun r' hr' => hrows r' (mem_cons_of_mem _ hr')
      rw [map_cons, sum_cons, ih, filter_cons]
      split
      · rw [map_cons, sum_cons, billedExact_eq hp hb hr]
      · rename_i hnot
        rw [hp.any_billable hr] at hnot
        rw [requestCost_inactive (by simpa using hnot), zero_add]
  have hperm := (cellRequests_perm db kind hc hd).map (requestCost pricer .billed)
  rw [map_map, map_map] at hperm
  have hcells := hzero (cellRows db kind cluster d) fun r hr => mem_of_mem_filter hr
  rw [sum_clusterDayRows, activeRows_eq, ← hcells]
  exact hperm.sum_eq

theorem cell_developers (hf : ClusterFresh db) (hp : PricedBy pricer db) {lo hi : Int} (readOnly : Bool)
    (hc : cluster ≠ "") (hd : lo ≤ d ∧ (d : Int) < hi)
    (hall : ∀ r ∈ activeRows db kind cluster d, r.principal ≠ none) :
    let days := (sortedClusterDays db readOnly kind lo hi).2
    devDays days (cellRequests kind (iterRequests db lo hi)) (cluster, d)
      ((days.filter fun r => decide ((r.key.clusterId, r.key.dateUtc) = (cluster, d))).map
        (·.activeUsers)).sum =
      ((activeRows db kind cluster d).filterMap (·.principal)).dedup.length := by
  intro days
  have hcell : (days.filter fun r => decide ((r.key.clusterId, r.key.dateUtc) = (cluster, d))).Perm
      (clusterDayRows db kind cluster d) := sortedClusterDays_cell hf hd
  obtain ⟨hle, hone⟩ := users_clusterDayRows db kind cluster d
  have hactive : (activeOf (cellRequests kind (iterRequests db lo hi)) (cluster, d)).Perm
      ((activeRows db kind cluster d).map (·.request)) := activeOf_perm hp hc hd
  have hpeople : (principalsOf (activeOf (cellRequests kind (iterRequests db lo hi)) (cluster, d))).length =
      ((activeRows db kind cluster d).filterMap (·.principal)).dedup.length := by
    have hperm := (hactive.filterMap (·.attribution.principal)).dedup
    rw [filterMap_map] at hperm
    exact hperm.length_eq
  unfold devDays
  dsimp only
  rw [(hcell.map _).sum_eq, hcell.length_eq]
  split
  · rw [hpeople]
    exact min_eq_right hle
  · rename_i hnot
    refine hone (not_lt.mp fun hmany => hnot ⟨hmany, fun r hr => ?_, fun hnil => ?_⟩)
    · obtain ⟨row, hrow, rfl⟩ := mem_map.mp (hactive.mem_iff.mp hr)
      exact hall row hrow
    · have hne : activeRows db kind cluster d ≠ [] := fun h => by
        rw [clusterDayRows_eq_nil_iff.mpr h] at hmany
        cases hmany
      obtain ⟨row, hrow⟩ := exists_mem_of_ne_nil _ hne
      obtain ⟨p, hprincipal⟩ := Option.ne_none_iff_exists'.mp (hall row hrow)
      rw [hnil, length_nil] at hpeople
      have hmem : p ∈ ((activeRows db kind cluster d).filterMap (·.principal)).dedup :=
        mem_dedup.mpr (mem_filterMap.mpr ⟨row, hrow, hprincipal⟩)
      exact ne_nil_of_mem hmem (length_eq_zero_iff.mp hpeople.symm)

/-! ### The panel refines the ledger -/

section Main

variable {lo hi : Int} {readOnly : Bool} {baseline : Pricer}

/-- The cell of a panel is in its window, and its id is not empty where no active request's is. -/
theorem cell_spec (hf : ClusterFresh db) (hne : NoEmptyId db kind lo hi) {k : CellKey}
    {x : Int × Int × Nat}
    (hx : (k, x) ∈ cellsOf baseline pricer .billed (sortedClusterDays db readOnly kind lo hi).2
      (cellRequests kind (iterRequests db lo hi))) :
    k.1 ≠ "" ∧ lo ≤ k.2 ∧ (k.2 : Int) < hi := by
  rcases (mem_cellsOf hx).2.2 with ⟨r, hr, rfl⟩ | ⟨r, hr, rfl⟩
  · obtain ⟨hd, hactive⟩ := active_of_day hf ((sortedClusterDays_perm db readOnly kind lo hi).mem_iff.mp hr)
    refine ⟨fun hempty => ?_, hd⟩
    obtain ⟨row, hrow⟩ := exists_mem_of_ne_nil _ hactive
    obtain ⟨hrow, hkey⟩ := mem_filter.mp hrow
    simp only [Bool.and_eq_true, decide_eq_true_eq] at hkey
    obtain ⟨⟨hday, hany⟩, hfield⟩ := hkey
    exact hne row hrow (hday ▸ hd.1) (hday ▸ hd.2) hany (hfield.trans (congrArg some hempty))
  · exact mem_cellRequests hr

theorem refines_iff (hf : ClusterFresh db) (hp : PricedBy pricer db) (hb : KeepsBasis pricer)
    {since until_ : String} {arms : List (String × String)} {rows : List PanelRow}
    (hw : checkWindow since until_ = .ok (lo, hi))
    (h : buildPanel db readOnly kind since until_ baseline pricer arms = .ok rows) :
    Refines db kind (clusterDays db readOnly kind lo.toNat hi.toNat).2 rows ↔ NoEmptyId db kind lo hi := by
  obtain ⟨outcomePrs, assigned, hrows⟩ := buildPanel_spec hw h
  have hdays := sortedClusterDays_perm db readOnly kind lo hi
  -- the cell of a row, and the row of a cell
  have hcell : ∀ row ∈ rows, ∃ x, ((row.clusterId, row.dateUtc), x) ∈ cellsOf baseline pricer .billed
      (sortedClusterDays db readOnly kind lo hi).2 (cellRequests kind (iterRequests db lo hi)) ∧
      row = panelRow outcomePrs assigned (sortedClusterDays db readOnly kind lo hi).2
        (cellRequests kind (iterRequests db lo hi)) ((row.clusterId, row.dateUtc), x) := by
    intro row hrow
    obtain ⟨⟨k, x⟩, hx, rfl⟩ := mem_map.mp (hrows.mem_iff.mp hrow)
    exact ⟨x, hx, rfl⟩
  have hrow : ∀ r ∈ (clusterDays db readOnly kind lo.toNat hi.toNat).2,
      ∃ row ∈ rows, row.clusterId = r.key.clusterId ∧ row.dateUtc = r.key.dateUtc := by
    intro r hr
    obtain ⟨x, hx⟩ := @exists_cell pricer baseline .billed _
      (cellRequests kind (iterRequests db lo hi)) r (hdays.mem_iff.mpr hr)
    exact ⟨_, hrows.mem_iff.mpr (mem_map_of_mem hx), rfl, rfl⟩
  constructor
  · -- an empty id is a cluster of the ledger, whose row `check_rows` refuses
    intro href r hr hlo hhi hany hfield
    have hactive : activeRows db kind "" r.dateUtc ≠ [] :=
      ne_nil_of_mem (mem_filter.mpr ⟨hr, by simp [hany, hfield]⟩)
    obtain ⟨day, hday, hid, -⟩ := day_of_active hf ⟨hlo, hhi⟩ hactive
    obtain ⟨row, hmem, hrowid, -⟩ := hrow day hday
    exact (checkRows_eq_ok_iff.mp href.accepted row hmem).1 (hrowid.trans hid)
  · intro hne
    refine ⟨fun row hmem => ?_, fun row hmem hall => ?_, hrow, ?_, ?_⟩
    · obtain ⟨x, hx, he⟩ := hcell row hmem
      obtain ⟨hid, hd⟩ := cell_spec hf hne hx
      have hcost : row.costActualNano = x.2.1 := congrArg PanelRow.costActualNano he
      rw [hcost, (mem_cellsOf hx).1, cell_cost hp hb hid hd, filter_clusterDays_cell hf,
        if_pos (toNat_window.mpr hd)]
    · obtain ⟨x, hx, he⟩ := hcell row hmem
      obtain ⟨hid, hd⟩ := cell_spec hf hne hx
      have hdevs : row.activeDevDays = _ := congrArg PanelRow.activeDevDays he
      have husers := (mem_cellsOf hx).2.1
      rw [hdevs]
      refine Eq.trans ?_ (cell_developers hf hp readOnly hid hd hall)
      rw [← husers]
      rfl
    · have hkeys : (rows.map fun row => (row.clusterId, row.dateUtc)).Perm
          ((cellsOf baseline pricer .billed (sortedClusterDays db readOnly kind lo hi).2
            (cellRequests kind (iterRequests db lo hi))).map (·.1)) := by
        refine (hrows.map _).trans (List.Perm.of_eq ?_)
        rw [map_map]
        rfl
      exact hkeys.nodup_iff.mpr (nodup_tally _)
    · refine checkRows_eq_ok_iff.mpr fun row hmem => ?_
      obtain ⟨x, hx, -⟩ := hcell row hmem
      obtain ⟨hid, hd⟩ := cell_spec hf hne hx
      exact ⟨hid, hd.2.le.trans (checkWindow_spec hw).2⟩

end Main

/-- In every state a run without a retention reaches, priced by the pricer of its actual costs, a
panel refines the ledger exactly if no active request of its window has an empty cluster id. -/
theorem panel_refines_iff (cfg : Config) (nameKeyId : Option String) (ops : List Op)
    (hops : ∀ op ∈ ops, op.Unretained) (pricer : Pricer) (hb : KeepsBasis pricer)
    (hp : PricedBy pricer (run cfg (.create cfg nameKeyId) ops).db) (readOnly : Bool)
    (kind : ClusterKind) (since until_ : String) (lo hi : Int)
    (hw : checkWindow since until_ = .ok (lo, hi)) (baseline : Pricer) (arms : List (String × String))
    (rows : List PanelRow) (h : buildPanel (run cfg (.create cfg nameKeyId) ops).db readOnly kind since
      until_ baseline pricer arms = .ok rows) :
    Refines (run cfg (.create cfg nameKeyId) ops).db kind
        (clusterDays (run cfg (.create cfg nameKeyId) ops).db readOnly kind lo.toNat hi.toNat).2 rows ↔
      NoEmptyId (run cfg (.create cfg nameKeyId) ops).db kind lo hi :=
  refines_iff (run_clusterFresh cfg nameKeyId hops) hp hb hw h

/-! ### A panel of one request -/

/-- A rate card at 7 nano-USD an inference. -/
def flatPricer : Pricer where
  rateCardSha256 := "flat"
  basis := .list
  priceInference inf _ :=
    { figure := exactFigure 7 (if billingClass (some inf.pricing.billingPath) = .billed then .list
        else .listEquivalent)
      lines := [], exactNano := 7, estimated := none, unpricedReason := none }

def teamRequest (team : String) : Request :=
  let r := sampleRequest "r" (some (.r "dev"))
  { r with attribution := { r.attribution with team := some team } }

def oneRequest (team : String) : List Op :=
  [.ingest 0 { source := sampleSource "a", requests := [teamRequest team] } (some flatPricer)]

def teamDb (team : String) : Db := (run sampleConfig sampleStore (oneRequest team)).db

def teamPanel (team : String) : List PanelRow :=
  (buildPanel (teamDb team) false .team "1970-01-01" "1970-01-02" flatPricer flatPricer).toOption.getD []


theorem flatPricer_keepsBasis : KeepsBasis flatPricer := fun _ _ h => if_neg h

theorem priced_teamDb (team : String) (h : (teamDb team).requests.all fun r =>
    decide (r.inferences = inferenceRows r.request (priceColumns (some flatPricer)))) :
    PricedBy flatPricer (teamDb team) := fun r hr => of_decide_eq_true (all_eq_true.mp h r hr)

/-- The panel of a team's request refines the ledger. -/
theorem panel_refines_iff_team :
    Refines (teamDb "t") .team (clusterDays (teamDb "t") false .team 0 1).2 (teamPanel "t") ↔
      NoEmptyId (teamDb "t") .team 0 1 :=
  panel_refines_iff sampleConfig none (oneRequest "t") (fun op hop => by
      obtain rfl := mem_singleton.mp hop
      trivial)
    flatPricer flatPricer_keepsBasis (priced_teamDb "t" (by decide)) false .team "1970-01-01"
    "1970-01-02" 0 1 (toOption_eq_some.mp (by decide)) flatPricer [] (teamPanel "t")
    (toOption_eq_some.mp (by decide))

/-- A request of the empty team is a cluster day of the ledger; the panel has a row for it, without its
cost, that `check_rows` refuses. -/
theorem empty_team_refused :
    (∀ op ∈ oneRequest "", op.Unretained) ∧ PricedBy flatPricer (teamDb "") ∧
      (clusterDays (teamDb "") false .team 0 1).2.map (·.sums.exactNano) = [7] ∧
      (teamPanel "").map (fun r => (r.clusterId, r.dateUtc, r.costActualNano)) = [("", 0, 0)] ∧
      ¬ Refines (teamDb "") .team (clusterDays (teamDb "") false .team 0 1).2 (teamPanel "") := by
  have hrows : (teamPanel "").map (fun r => (r.clusterId, r.dateUtc, r.costActualNano)) = [("", 0, 0)] := by
    decide
  refine ⟨fun op hop => ?_, priced_teamDb "" (by decide), by decide, hrows, fun h => ?_⟩
  · obtain rfl := mem_singleton.mp hop
    trivial
  · have hrefused : (checkRows (teamPanel "")).isOk = false := by decide
    rw [h.accepted] at hrefused
    cases hrefused

end TokenBill.Verify
