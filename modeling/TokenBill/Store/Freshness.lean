import TokenBill.Store.Rules

/-!
# Rollup freshness

For every date that is not stale, the rollup rows are what the stored requests and lanes
give. A rollup of a date reads the date's view, its requests with the kinds of their
lanes, so an operation keeps freshness if it marks every date whose view it changes.

Writes of the merge engine do; so do deletions and repricing. A lane shell changes the
kind of its lane and marks no date: freshness needs that every shell leaves the kind of
its lane, or that all stored requests of the lane are on stale dates.
-/

namespace TokenBill.Store

open General List

/-! ### The rows of a date -/

theorem dayView_congr {db db' : Db} (hr : db'.requests = db.requests)
    (hk : ∀ key, db'.laneKind key = db.laneKind key) (d : Nat) : dayView db' d = dayView db d := by
  simp only [dayView, hr, hk]

theorem dailyRows_congr {db db' : Db} {d : Nat} (hv : dayView db' d = dayView db d) :
    dailyRows db' d = dailyRows db d := by
  simp only [dailyRows, hv]

theorem clusterRows_congr {db db' : Db} {d : Nat} (hv : dayView db' d = dayView db d) :
    clusterRows db' d = clusterRows db d := by
  simp only [clusterRows, hv]

theorem key_mem_groupRows {α κ ν : Type} [DecidableEq κ] {key : α → κ} {user : α → Option Principal}
    {sums : List α → ν} {items : List α} {row : RollupRow κ ν}
    (h : row ∈ groupRows key user sums items) : ∃ i ∈ items, key i = row.key := by
  obtain ⟨k, hk, rfl⟩ := mem_map.mp h
  exact mem_map.mp (mem_dedup.mp hk)

theorem date_of_mem_dailyRows {db : Db} {d : Nat} {row : RollupRow DailyKey DailySums}
    (h : row ∈ dailyRows db d) : row.key.dateUtc = d := by
  obtain ⟨i, -, hk⟩ := key_mem_groupRows h
  rw [← hk]
  rfl

theorem date_of_mem_clusterRows {db : Db} {d : Nat} {row : RollupRow ClusterKey ClusterSums}
    (h : row ∈ clusterRows db d) : row.key.dateUtc = d := by
  obtain ⟨i, -, hk⟩ := key_mem_groupRows h
  rw [← hk]
  rfl

/-- The rows of a date in a table that is laid out date by date. -/
theorem filter_flatMap_dates {α : Type} (date : α → Nat) {rows : Nat → List α}
    (hrows : ∀ d, ∀ r ∈ rows d, date r = d) {dates : List Nat} (hn : dates.Nodup) (d : Nat) :
    (dates.flatMap rows).filter (fun r => decide (date r = d)) =
      if d ∈ dates then rows d else [] := by
  induction dates with
  | nil => rfl
  | cons d' dates ih =>
    obtain ⟨hnot, hn⟩ := nodup_cons.mp hn
    rw [flatMap_cons, filter_append, ih hn]
    by_cases hd : d = d'
    · subst hd
      have hall : (rows d).filter (fun r => decide (date r = d)) = rows d :=
        filter_eq_self.mpr fun r hr => by simpa using hrows d r hr
      simp [hall, hnot]
    · have hnone : (rows d').filter (fun r => decide (date r = d)) = [] :=
        filter_eq_nil_iff.mpr fun r hr => by
          simpa [hrows d' r hr] using fun h => hd h.symm
      simp [hnone, hd]

theorem mem_sortedDates {dates : List Nat} {d : Nat} : d ∈ sortedDates dates ↔ d ∈ dates := by
  unfold sortedDates
  rw [(perm_insertionSort _ _).mem_iff, mem_dedup]

theorem nodup_sortedDates (dates : List Nat) : (sortedDates dates).Nodup :=
  (perm_insertionSort _ _).nodup_iff.mpr (nodup_dedup _)

theorem keepUsers_key {κ ν : Type} [DecidableEq κ] (old : List (RollupRow κ ν))
    (row : RollupRow κ ν) : (keepUsers old row).key = row.key := by
  unfold keepUsers
  split <;> rfl

theorem filter_refreshTable {κ ν : Type} [DecidableEq κ] (dateUtc : κ → Nat)
    {fresh : Nat → List (RollupRow κ ν)} (hfresh : ∀ d, ∀ r ∈ fresh d, dateUtc r.key = d)
    (retained : Option Nat) {wanted : List Nat} (hn : wanted.Nodup) (old : List (RollupRow κ ν))
    (d : Nat) :
    (refreshTable dateUtc fresh retained wanted old).filter (fun r => decide (dateUtc r.key = d)) =
      if d ∈ wanted then
        if retained.any (d < ·) then (fresh d).map (keepUsers old) else fresh d
      else old.filter fun r => decide (dateUtc r.key = d) := by
  have hrows : ∀ d, ∀ r ∈ if retained.any (d < ·) then (fresh d).map (keepUsers old) else fresh d,
      dateUtc r.key = d := by
    intro d r hr
    split at hr
    · obtain ⟨r', hr', rfl⟩ := mem_map.mp hr
      rw [keepUsers_key]
      exact hfresh d r' hr'
    · exact hfresh d r hr
  have hnew := filter_flatMap_dates (fun r : RollupRow κ ν => dateUtc r.key) hrows hn d
  unfold refreshTable
  rw [filter_append, hnew, filter_filter]
  split
  · rename_i hd
    rw [filter_eq_nil_iff.mpr, nil_append]
    simp only [Bool.and_eq_true, decide_eq_true_eq, not_and, not_not]
    rintro r - rfl
    exact hd
  · rename_i hd
    rw [append_nil]
    refine filter_congr fun r _ => ?_
    by_cases hr : dateUtc r.key = d <;> simp [hr, hd]

/-! ### Lanes -/

theorem laneKind_of_shell {db db' : Db}
    (h : ∀ key, (db'.lanes.find? fun l => decide (l.laneKey = key)).bind (·.shell) =
      (db.lanes.find? fun l => decide (l.laneKey = key)).bind (·.shell)) (key : String) :
    db'.laneKind key = db.laneKind key := by
  unfold Db.laneKind
  rw [h key]

theorem laneKind_upsert (db : Db) {l : LaneRow}
    (hs : l.shell = (db.lanes.find? fun x => decide (x.laneKey = l.laneKey)).bind (·.shell))
    (key : String) :
    ({ db with lanes := upsert (·.laneKey) l db.lanes } : Db).laneKind key = db.laneKind key := by
  refine laneKind_of_shell (fun key => ?_) key
  rw [find?_upsert]
  split
  · rename_i hk
    rw [← hk, ← hs]
    rfl
  · rfl

theorem refreshLane_requests (db : Db) (key : String) : (refreshLane db key).requests = db.requests := by
  unfold refreshLane
  dsimp only
  split
  · split
    · rfl
    · split <;> rfl
  · rfl

theorem laneKey_of_find {lanes : List LaneRow} {key : String} {l : LaneRow}
    (h : lanes.find? (fun l => decide (l.laneKey = key)) = some l) : l.laneKey = key := by
  simpa using find?_some h

theorem refreshLane_laneKind (db : Db) (key key' : String) :
    (refreshLane db key).laneKind key' = db.laneKind key' := by
  unfold refreshLane
  dsimp only
  split
  · split
    · rfl
    · rename_i l hl
      split
      · rename_i hs
        -- a placeholder that goes had no kind
        refine laneKind_of_shell (fun key' => ?_) key'
        by_cases hk : key' = key
        · subst hk
          have hnone : (db.lanes.filter fun x => decide (x.laneKey ≠ key')).find?
              (fun x => decide (x.laneKey = key')) = none := by
            rw [find?_eq_none]
            intro x hx
            simpa using (mem_filter.mp hx).2
          rw [hnone, hl]
          simpa using (Option.isNone_iff_eq_none.mp hs).symm
        · rw [find?_filter_ne _ hk]
      · exact laneKind_upsert db (by rw [laneKey_of_find hl, hl]; rfl) key'
  · refine laneKind_upsert db ?_ key'
    cases hl : db.lanes.find? fun l => decide (l.laneKey = key) with
    | none => simp [hl]
    | some l => simp [laneKey_of_find hl, hl]

theorem refreshLanes_spec (db : Db) (keys : List String) :
    (refreshLanes db keys).requests = db.requests ∧
      ∀ key, (refreshLanes db keys).laneKind key = db.laneKind key := by
  refine foldl_inv (I := fun db' : Db => db'.requests = db.requests ∧
    ∀ key, db'.laneKind key = db.laneKind key) (fun db' h key _ => ?_) ⟨rfl, fun _ => rfl⟩
  exact ⟨(refreshLane_requests db' key).trans h.1,
    fun key' => (refreshLane_laneKind db' key key').trans (h.2 key')⟩

theorem refreshLanes_frame (db : Db) (keys : List String) :
    ∃ lanes, refreshLanes db keys = { db with lanes } := by
  refine foldl_inv (I := fun db' : Db => ∃ lanes, db' = { db with lanes })
    (fun db' h key _ => ?_) ⟨db.lanes, rfl⟩
  obtain ⟨lanes, rfl⟩ := h
  unfold refreshLane
  dsimp only
  split
  · split
    · exact ⟨lanes, rfl⟩
    · split <;> exact ⟨_, rfl⟩
  · exact ⟨_, rfl⟩

/-! ### Tracked changes -/

/-- The stale dates of a work: those of the database and those it will mark. -/
def Work.stale (w : Work) : List Nat := w.db.info.rollupsDirty ++ w.dirty

/-- The `daily_rollup` rows of a date. -/
def Db.dailyOf (db : Db) (d : Nat) : List (RollupRow DailyKey DailySums) :=
  db.dailyRollup.filter fun r => decide (r.key.dateUtc = d)

/-- The `cluster_day` rows of a date. -/
def Db.clusterOf (db : Db) (d : Nat) : List (RollupRow ClusterKey ClusterSums) :=
  db.clusterDay.filter fun r => decide (r.key.dateUtc = d)

/-- The rollups of every date that is not stale are fresh, and no principals were retained. -/
structure Fresh (db : Db) : Prop where
  retained : db.info.identityRetainedBefore = none
  daily : ∀ d, d ∉ db.info.rollupsDirty → db.dailyOf d = dailyRows db d
  cluster : ∀ d, d ∉ db.info.rollupsDirty → db.clusterOf d = clusterRows db d

/-- A work left the rollups of `db` and marked every date whose view it changed. -/
structure Tracks (db : Db) (w : Work) : Prop where
  daily : w.db.dailyRollup = db.dailyRollup
  cluster : w.db.clusterDay = db.clusterDay
  retained : w.db.info.identityRetainedBefore = db.info.identityRetainedBefore
  stale : ∀ d ∈ db.info.rollupsDirty, d ∈ w.stale
  view : ∀ d, d ∉ w.stale → dayView w.db d = dayView db d

namespace Tracks

variable {db : Db} {w w' : Work}

theorem start (w : Work) : Tracks w.db w where
  daily := rfl
  cluster := rfl
  retained := rfl
  stale _ h := mem_append_left _ h
  view _ _ := rfl

/-- A step that leaves the rollups, keeps what is stale and marks what it changes. -/
theorem step (h : Tracks db w) (hd : w'.db.dailyRollup = w.db.dailyRollup)
    (hc : w'.db.clusterDay = w.db.clusterDay)
    (hr : w'.db.info.identityRetainedBefore = w.db.info.identityRetainedBefore)
    (hs : ∀ d ∈ w.stale, d ∈ w'.stale)
    (hv : ∀ d, d ∉ w'.stale → dayView w'.db d = dayView w.db d) : Tracks db w' where
  daily := hd.trans h.daily
  cluster := hc.trans h.cluster
  retained := hr.trans h.retained
  stale d hd := hs d (h.stale d hd)
  view d hd := (hv d hd).trans (h.view d fun hw => hd (hs d hw))

/-- A step that touches neither requests nor lanes. -/
theorem aside (h : Tracks db w) (hd : w'.db.dailyRollup = w.db.dailyRollup)
    (hc : w'.db.clusterDay = w.db.clusterDay)
    (hr : w'.db.info.identityRetainedBefore = w.db.info.identityRetainedBefore)
    (hs : w'.stale = w.stale) (hreq : w'.db.requests = w.db.requests)
    (hlanes : w'.db.lanes = w.db.lanes) : Tracks db w' :=
  h.step hd hc hr (fun d hd => hs ▸ hd) fun d _ =>
    dayView_congr hreq (fun key => by unfold Db.laneKind; rw [hlanes]) d

theorem finish (h : Tracks db w) : Tracks db w.finish := by
  obtain ⟨lanes, hl⟩ := refreshLanes_frame w.db w.touchedLanes
  have hspec := refreshLanes_spec w.db w.touchedLanes
  have hdb : w.finish.db = markDirty (refreshLanes w.db w.touchedLanes) w.dirty := rfl
  refine h.step ?_ ?_ ?_ (fun d hd => ?_) fun d _ => dayView_congr hspec.1 hspec.2 d
  · rw [hdb, hl]
    rfl
  · rw [hdb, hl]
    rfl
  · rw [hdb, hl]
    rfl
  · refine mem_append_left _ (mem_sortedDates.mpr ?_)
    rw [hl]
    exact hd

theorem dayView_filter {db db' : Db} {p : RequestRow → Bool} {d : Nat}
    (hr : db'.requests = db.requests.filter p) (hk : ∀ key, db'.laneKind key = db.laneKind key)
    (hd : ∀ r ∈ db.requests, p r = false → r.dateUtc ≠ d) : dayView db' d = dayView db d := by
  simp only [dayView, hr, hk, filter_filter]
  congr 1
  refine filter_congr fun r hmem => ?_
  by_cases hkeep : p r = true
  · simp [hkeep]
  · have := hd r hmem (by simpa using hkeep)
    simp [this]

/-- Every write of the merge engine marks the dates it changes. -/
theorem workInv (h : Hashes) (pricer : Option Pricer) (db : Db) :
    WorkInv h pricer (fun _ => True) AnyPrice (Tracks db) where
  stored _ _ _ _ := trivial
  storedPrices _ _ _ _ _ := trivial
  grows _ _ := trivial
  priced _ _ _ := trivial
  free _ := trivial
  index ht _ _ _ _ := ht.aside rfl rfl rfl rfl rfl rfl
  basis {w} ht := by
    unfold Work.recordBasis
    split
    · exact ht
    · split
      · exact ht
      · exact ht.aside rfl rfl rfl rfl rfl rfl
  delete {w} ht gids members := by
    refine ht.step rfl rfl rfl (fun d hd => ?_) fun d hd => ?_
    · rcases mem_append.mp hd with hd | hd
      · exact mem_append_left _ hd
      · exact mem_append_right _ (mem_append_left _ hd)
    · refine dayView_filter (p := fun r => decide (r.requestId ∉ gids)) rfl (fun _ => rfl) ?_
      rintro r hr hgone rfl
      have hmem : r ∈ w.db.requests.filter fun r => decide (r.requestId ∈ gids) :=
        mem_filter.mpr ⟨hr, by simpa using hgone⟩
      exact hd (mem_append_right _ (mem_append_right _ (mem_map_of_mem hmem)))
  rows {w w' entries} ht _ hw := by
    obtain rfl := Work.writeRows_cases hw
    refine ht.step rfl rfl rfl (fun d hd => ?_) fun d hd => ?_
    · rcases mem_append.mp hd with hd | hd
      · exact mem_append_left _ hd
      · exact mem_append_right _ (mem_append_left _ hd)
    · have hnone : entries.filter (fun r => decide (r.dateUtc = d) && r.inferences.any billable) = [] := by
        rw [filter_eq_nil_iff]
        intro r hr
        simp only [Bool.and_eq_true, decide_eq_true_eq, not_and]
        rintro rfl
        exact absurd (mem_append_right _ (mem_append_right _ (mem_map_of_mem hr))) hd
      simp only [dayView, filter_append, hnone, append_nil]
      rfl
  members ht _ := ht.aside rfl rfl rfl rfl rfl rfl

end Tracks

/-- Tracked changes keep freshness. -/
theorem Fresh.of_tracks {db : Db} {w : Work} (hf : Fresh db) (ht : Tracks db w) (hd : w.dirty = []) :
    Fresh w.db where
  retained := ht.retained.trans hf.retained
  daily d hw := by
    have hs : d ∉ w.stale := by simpa [Work.stale, hd] using hw
    rw [dailyRows_congr (ht.view d hs), ← hf.daily d fun h => hs (ht.stale d h), Db.dailyOf, ht.daily]
    rfl
  cluster d hw := by
    have hs : d ∉ w.stale := by simpa [Work.stale, hd] using hw
    rw [clusterRows_congr (ht.view d hs), ← hf.cluster d fun h => hs (ht.stale d h), Db.clusterOf,
      ht.cluster]
    rfl

end TokenBill.Store
