import TokenBill.Store.RunRules

/-!
# Freshness over runs

Each operation but a retention keeps the rollups fresh, provided an ingest's shells keep
the kinds of lanes with stored requests on fresh dates. A read of fresh rollups is the
rollup of the ledger from scratch.
-/

namespace TokenBill.Store

open General List

/-! ### Shells -/

def replacesShell (db : Db) (shell : Lane) : Bool :=
  !((db.lanes.find? fun l => decide (l.laneKey = shell.laneKey)).bind shellOf).any fun old =>
    decide (shellRank old ≤ shellRank shell)

/-- A shell that replaces what the store has leaves the kind of its lane, or no stored request of
the lane with a billable inference is on a date that is not stale. -/
def ShellOk (db : Db) (stale : List Nat) (shell : Lane) : Prop :=
  replacesShell db shell = true → db.laneKind shell.laneKey = shell.kind ∨
    ∀ r ∈ db.requests, r.request.laneKey = shell.laneKey → r.inferences.any billable = true →
      r.dateUtc ∈ stale

/-- What a shell writes. -/
theorem putShell_cases (w : Work) (s : Lane) : putShell w s = w ∨ replacesShell w.db s = true ∧
    ∃ l : LaneRow, l.laneKey = s.laneKey ∧ l.shell.map (·.kind) = some s.kind ∧
      putShell w s = { w with
        db := { w.db with lanes := upsert (·.laneKey) l w.db.lanes }
        touchedLanes := w.touchedLanes ++ [s.laneKey] } := by
  unfold putShell replacesShell
  dsimp only
  split
  · exact .inl rfl
  · rename_i hr
    refine .inr ⟨by simpa using hr, _, ?_, ?_, rfl⟩
    · cases hl : w.db.lanes.find? fun l => decide (l.laneKey = s.laneKey) with
      | none => rfl
      | some l =>
        show l.laneKey = s.laneKey
        exact laneKey_of_find hl
    · rfl

variable {d cut : Nat} {db : Db} {w : Work}

/-- Two databases with the same requests whose lanes differ only in the kind of one lane. -/
theorem dayView_lane {db' : Db} (hr : db'.requests = db.requests) (key : String)
    (hk : ∀ key', key' ≠ key → db'.laneKind key' = db.laneKind key')
    (hd : ∀ r ∈ db.requests, r.request.laneKey = key → r.inferences.any billable = true →
      r.dateUtc ≠ d) : dayView db' d = dayView db d := by
  simp only [dayView, hr]
  refine map_congr_left fun r hmem => ?_
  obtain ⟨hmem, hb⟩ := mem_filter.mp hmem
  simp only [Bool.and_eq_true, decide_eq_true_eq] at hb
  rw [hk]
  exact fun he => hd r hmem he hb.2 hb.1

theorem laneKind_upsert_self {l : LaneRow} {kind : LaneKind} (hk : l.shell.map (·.kind) = some kind) (key : String) :
    ({ db with lanes := upsert (·.laneKey) l db.lanes } : Db).laneKind key =
      if l.laneKey = key then kind else db.laneKind key := by
  obtain ⟨shell, hs, rfl⟩ := Option.map_eq_some_iff.mp hk
  unfold Db.laneKind
  rw [find?_upsert]
  by_cases hkey : l.laneKey = key
  · rw [if_pos hkey, if_pos hkey, Option.bind_some, hs]
  · rw [if_neg hkey, if_neg hkey]

theorem Tracks.putShell (ht : Tracks db w) {s : Lane} (hs : ShellOk w.db w.stale s) : Tracks db (putShell w s) := by
  rcases putShell_cases w s with he | ⟨hrep, l, hkey, hkind, he⟩
  · rwa [he]
  · rw [he]
    refine ht.step rfl rfl rfl (fun d hd => hd) fun d hd => ?_
    have hreq : ({ w.db with lanes := upsert (·.laneKey) l w.db.lanes } : Db).requests =
        w.db.requests := rfl
    rcases hs hrep with hsame | hstale
    · refine dayView_congr hreq (fun key => ?_) d
      rw [laneKind_upsert_self hkind]
      split
      · rename_i hk
        rw [← hk, hkey, hsame]
      · rfl
    · refine dayView_lane hreq s.laneKey (fun key' hne => ?_) fun r hr hlane hb => ?_
      · rw [laneKind_upsert_self hkind, if_neg (fun hk => hne (hk.symm.trans hkey))]
      · rintro rfl
        exact hd (hstale r hr hlane hb)

/-- A shell of one lane leaves the conditions of the shells of other lanes. -/
theorem ShellOk.putShell {s t : Lane} (ht : ShellOk w.db w.stale t)
    (hne : s.laneKey ≠ t.laneKey) : ShellOk (putShell w s).db (putShell w s).stale t := by
  rcases putShell_cases w s with he | ⟨-, l, hkey, hkind, he⟩
  · rwa [he]
  · rw [he]
    have hl : l.laneKey ≠ t.laneKey := hkey ▸ hne
    have hfind := find?_upsert (·.laneKey) l t.laneKey w.db.lanes
    rw [if_neg hl] at hfind
    intro hrep
    rw [laneKind_upsert_self hkind, if_neg hl]
    refine ht ?_
    unfold replacesShell at hrep ⊢
    rwa [hfind] at hrep

theorem laneKey_of_mem_bestShells {shells : List Lane} :
    (bestShells shells).Pairwise fun a b => a.laneKey ≠ b.laneKey := by
  refine List.Pairwise.filterMap _ (R := (· ≠ ·)) (fun k k' hne a ha b hb => ?_)
    ((perm_insertionSort _ _).nodup_iff.mpr (nodup_dedup _))
  have key : ∀ {k : String} {a : Lane},
      a ∈ (shells.filter fun s => decide (s.laneKey = k)).argmin shellRank → a.laneKey = k :=
    fun h => by simpa using (mem_filter.mp (argmin_mem h)).2
  rwa [key ha, key hb]

theorem Tracks.foldl_putShell {shells : List Lane}
    (hp : shells.Pairwise fun a b => a.laneKey ≠ b.laneKey) (ht : Tracks db w)
    (hs : ∀ s ∈ shells, ShellOk w.db w.stale s) : Tracks db (shells.foldl Store.putShell w) := by
  induction shells generalizing w with
  | nil => exact ht
  | cons s shells ih =>
    obtain ⟨hne, hp⟩ := pairwise_cons.mp hp
    exact ih hp (ht.putShell (hs s mem_cons_self)) fun t hmem =>
      (hs t (mem_cons_of_mem _ hmem)).putShell (hne t hmem)

/-! ### Deletion -/

theorem Tracks.drops (db : Db) (which : RequestRow → Bool) : Tracks db (dropWork db which) := by
  refine ⟨rfl, rfl, rfl, fun d hd => mem_append_left _ hd, fun d hd => ?_⟩
  refine Tracks.dayView_filter (p := fun r => !which r) rfl (fun _ => rfl) ?_
  rintro r hr hgone rfl
  exact hd (mem_append_right _ (mem_map_of_mem
    (mem_filter.mpr ⟨hr, by simpa using hgone⟩)))

/-- The rows of a date in a table without those before `cut`, where there are none of the date if it
is one of these. -/
theorem rowsOf_dropBefore {κ ν : Type} (date : κ → Nat) {rows : List (RollupRow κ ν)}
    {fresh : List (RollupRow κ ν)} (h : rows.filter (fun r => decide (date r.key = d)) = fresh)
    (hnone : d < cut → fresh = []) :
    (rows.filter fun r => decide (cut ≤ date r.key)).filter (fun r => decide (date r.key = d)) = fresh := by
  rw [filter_filter]
  by_cases hlt : d < cut
  · rw [hnone hlt, filter_eq_nil_iff]
    intro r _
    simp only [Bool.and_eq_true, decide_eq_true_eq, not_and]
    omega
  · rw [← h]
    refine filter_congr fun r _ => ?_
    by_cases he : date r.key = d <;> simp [he]
    omega

theorem dayView_before (hreq : ∀ r ∈ db.requests, cut ≤ r.dateUtc) (hlt : d < cut) : dayView db d = [] := by
  rw [dayView, map_eq_nil_iff, filter_eq_nil_iff]
  intro r hmem
  have := hreq r hmem
  simp only [Bool.and_eq_true, decide_eq_true_eq, not_and]
  omega

/-- Without requests on the dates before `cut`, dropping their rollup rows keeps freshness. -/
theorem Fresh.dropBefore {db' : Db} (hf : Fresh db)
    (hreq : ∀ r ∈ db.requests, cut ≤ r.dateUtc) (hd : DropsBefore cut db db') : Fresh db' := by
  have hview : ∀ d, dayView db' d = dayView db d := dayView_congr hd.requests fun key => by
    unfold Db.laneKind
    rw [hd.lanes]
  refine ⟨hd.info ▸ hf.retained, fun d hs => ?_, fun d hs => ?_⟩
  · rw [dailyRows_congr (hview d), Db.dailyOf, hd.daily]
    refine rowsOf_dropBefore DailyKey.dateUtc (hf.daily d (hd.info ▸ hs)) fun hlt => ?_
    simp only [dailyRows, dayView_before hreq hlt]
    rfl
  · rw [clusterRows_congr (hview d), Db.clusterOf, hd.cluster]
    refine rowsOf_dropBefore ClusterKey.dateUtc (hf.cluster d (hd.info ▸ hs)) fun hlt => ?_
    simp only [clusterRows, dayView_before hreq hlt]
    rfl

/-! ### Refresh -/

/-- The `daily_rollup` rows of a date after a refresh of some dates. -/
theorem dailyOf_refreshDates (db : Db) (dates : List Nat) (d : Nat) :
    (refreshDates db dates).dailyOf d =
      if d ∈ dates then
        if db.info.identityRetainedBefore.any (d < ·) then
          (dailyRows db d).map (keepUsers db.dailyRollup)
        else dailyRows db d
      else db.dailyOf d := by
  have h := filter_refreshTable (·.dateUtc) (fun d _ hr => @date_of_mem_dailyRows db d _ hr)
    db.info.identityRetainedBefore (nodup_sortedDates dates) db.dailyRollup d
  simp only [mem_sortedDates] at h
  exact h

/-- The `cluster_day` rows of a date after a refresh of some dates. -/
theorem clusterOf_refreshDates (db : Db) (dates : List Nat) (d : Nat) :
    (refreshDates db dates).clusterOf d =
      if d ∈ dates then
        if db.info.identityRetainedBefore.any (d < ·) then
          (clusterRows db d).map (keepUsers db.clusterDay)
        else clusterRows db d
      else db.clusterOf d := by
  have h := filter_refreshTable (·.dateUtc) (fun d _ hr => @date_of_mem_clusterRows db d _ hr)
    db.info.identityRetainedBefore (nodup_sortedDates dates) db.clusterDay d
  simp only [mem_sortedDates] at h
  exact h

theorem mem_dirty_refreshDates {dates : List Nat} :
    d ∈ (refreshDates db dates).info.rollupsDirty ↔ d ∈ db.info.rollupsDirty ∧ d ∉ dates := by
  simp [refreshDates, mem_filter, mem_sortedDates]

theorem Fresh.refreshed (hf : Fresh db) (dates : List Nat) (hd : d ∉ (refreshDates db dates).info.rollupsDirty) :
    (refreshDates db dates).dailyOf d = dailyRows db d ∧
      (refreshDates db dates).clusterOf d = clusterRows db d := by
  rw [mem_dirty_refreshDates, not_and_not_right] at hd
  rw [dailyOf_refreshDates, clusterOf_refreshDates, hf.retained]
  by_cases hin : d ∈ dates
  · simp [hin]
  · have hs : d ∉ db.info.rollupsDirty := fun h => hin (hd h)
    simp [hin, hf.daily d hs, hf.cluster d hs]

theorem refreshDates_fresh (hf : Fresh db) (dates : List Nat) : Fresh (refreshDates db dates) :=
  ⟨hf.retained, fun _ hd => (hf.refreshed dates hd).1, fun _ hd => (hf.refreshed dates hd).2⟩

/-! ### Repricing -/

theorem any_billable_repriceRow (p : Pricer) (inWindow : RequestRow → Bool) (r : RequestRow) :
    (repriceRow p inWindow r).inferences.any billable = r.inferences.any billable := by
  unfold repriceRow
  split
  · simp only [any_map]
    refine congrArg (r.inferences.any ·) (funext fun i => ?_)
    simp only [Function.comp]
    split <;> rfl
  · rfl

theorem date_repriceRow (p : Pricer) (inWindow : RequestRow → Bool) (r : RequestRow) :
    (repriceRow p inWindow r).dateUtc = r.dateUtc := by
  unfold repriceRow
  split <;> rfl

/-- Repricing marks the dates of the requests it reprices. -/
theorem Tracks.reprice (ht : Tracks db w) (p : Pricer)
    (inWindow : RequestRow → Bool) : Tracks db (w.reprice p inWindow) := by
  unfold Work.reprice
  dsimp only
  split
  · exact ht
  · have hbasis : ∃ info mem, w.recordBasis (some p) = { w with db := { w.db with info }, mem } ∧
        info.rollupsDirty = w.db.info.rollupsDirty ∧
        info.identityRetainedBefore = w.db.info.identityRetainedBefore := by
      unfold Work.recordBasis
      dsimp only
      split <;> exact ⟨_, _, rfl, rfl, rfl⟩
    obtain ⟨info, mem, he, hdirty, hret⟩ := hbasis
    rw [he]
    refine ht.step rfl rfl hret (fun d hd => ?_) fun d hd => ?_
    · rcases mem_append.mp hd with hd | hd
      · refine mem_append_left _ (mem_sortedDates.mpr (mem_append_left _ ?_))
        exact hdirty.symm ▸ hd
      · exact mem_append_right _ hd
    · -- a request of the date that counts is not in the window
      have hsame : ∀ r ∈ w.db.requests, (decide (r.dateUtc = d) && r.inferences.any billable) = true →
          Store.repriceRow p inWindow r = r := by
        intro r hr hb
        simp only [Bool.and_eq_true, decide_eq_true_eq] at hb
        unfold repriceRow
        split
        · rename_i hin
          refine absurd (mem_append_left _ (mem_sortedDates.mpr (mem_append_right _
            (mem_map.mpr ⟨r, mem_filter.mpr ⟨hr, ?_⟩, hb.1⟩)))) hd
          rw [hin, hb.2]
          rfl
        · rfl
      simp only [dayView, markDirty, filter_map, map_map]
      have hp : (fun r : RequestRow => decide (r.dateUtc = d) && r.inferences.any billable) ∘
          Store.repriceRow p inWindow =
          fun r => decide (r.dateUtc = d) && r.inferences.any billable := by
        funext r
        rw [Function.comp, date_repriceRow, any_billable_repriceRow]
      rw [hp]
      refine map_congr_left fun r hr => ?_
      obtain ⟨hr, hb⟩ := mem_filter.mp hr
      rw [Function.comp, hsame r hr hb]
      rfl

/-! ### Runs -/

theorem Tracks.runInv : RunInv Tracks Fresh where
  work := Tracks.workInv
  start := Tracks.start
  aside ht hs hstale := ht.aside hs.daily hs.cluster hs.retained hstale hs.requests hs.lanes
  finish ht := ht.finish
  drops := Tracks.drops
  reprice ht p inWindow := ht.reprice p inWindow
  tracked hf ht hd := hf.of_tracks ht hd
  refresh hf dates := refreshDates_fresh hf dates
  dropBefore hf hreq hd := hf.dropBefore hreq hd

/-- The condition of an ingest: unless it is skipped, its shells keep what is fresh. -/
def ShellsOk (db : Db) (result : IngestResult) : Prop :=
  ingested db result.source = false →
    ∀ shell ∈ bestShells (allShells result), ShellOk db db.info.rollupsDirty shell

theorem ShellsOk.tracked {result : IngestResult} (hs : ShellsOk db result) : ShellsTracked Tracks db result := by
  intro hnew w ht hreq hlanes hstale
  have hkind : ∀ key, w.db.laneKind key = db.laneKind key := fun key => by
    unfold Db.laneKind
    rw [hlanes]
  refine ht.foldl_putShell laneKey_of_mem_bestShells fun shell hshell hrep => ?_
  rw [hkind, hreq, hstale]
  refine hs hnew shell hshell ?_
  unfold replacesShell at hrep ⊢
  rwa [hlanes] at hrep

/-- What an operation must meet to keep the rollups fresh: the shells of an ingest keep the kinds of
lanes whose requests are on fresh dates, and it is no retention. -/
def Op.KeepsFresh (s : SqliteStore) : Op → Prop
  | .ingest _ result _ => ShellsOk s.db result
  | .retention _ _ => False
  | _ => True

theorem step_fresh {cfg : Config} {s : SqliteStore} (hf : Fresh s.db) {op : Op}
    (hop : op.KeepsFresh s) : Fresh (step cfg s op).db := by
  refine Tracks.runInv.step hf ?_
  cases op with
  | ingest now result pricer => exact ShellsOk.tracked hop
  | retention now days => exact hop.elim
  | _ => trivial

theorem create_fresh (cfg : Config) (nameKeyId : Option String) :
    Fresh (SqliteStore.create cfg nameKeyId).db where
  retained := rfl
  daily _ _ := rfl
  cluster _ _ := rfl

/-- The daily rows of a date, as a reader finds them: after a refresh of the stale dates. -/
def readDaily (db : Db) (d : Nat) : List (RollupRow DailyKey DailySums) :=
  (refreshRollups db).dailyOf d

def readCluster (db : Db) (d : Nat) : List (RollupRow ClusterKey ClusterSums) :=
  (refreshRollups db).clusterOf d

/-- The rows of a date that `cluster_days` returns: a read-only store computes those of a stale date. -/
theorem filter_clusterDays (db : Db) (readOnly : Bool) (kind : ClusterKind) (since until_ d : Nat) :
    ((clusterDays db readOnly kind since until_).2.filter fun r => decide (r.key.dateUtc = d)) =
      if since ≤ d ∧ d < until_ then
        (if readOnly = true ∧ d ∈ db.info.rollupsDirty then clusterRows db d
          else readCluster db d).filter fun r => decide (r.key.clusterKind = kind)
      else [] := by
  have hwindow : ∀ (rows : List (RollupRow ClusterKey ClusterSums)) (q : Nat → Bool),
      ((rows.filter fun r => q r.key.dateUtc).filter fun r => decide (r.key.clusterKind = kind)).filter
        (fun r => decide (r.key.dateUtc = d)) =
      if q d = true then (rows.filter fun r => decide (r.key.dateUtc = d)).filter
        fun r => decide (r.key.clusterKind = kind) else [] := fun rows q => by
    rw [filter_filter, filter_filter]
    split
    · rename_i hq
      rw [filter_filter]
      refine filter_congr fun r _ => ?_
      by_cases he : r.key.dateUtc = d <;> simp [he, hq]
    · rename_i hq
      rw [filter_eq_nil_iff]
      intro r _
      by_cases he : r.key.dateUtc = d <;> simp [he, hq]
  have hcomm : ∀ rows : List (RollupRow ClusterKey ClusterSums),
      (rows.filter fun r => decide (r.key.clusterKind = kind)).filter
        (fun r => decide (r.key.dateUtc = d)) =
      (rows.filter fun r => decide (r.key.dateUtc = d)).filter
        fun r => decide (r.key.clusterKind = kind) := fun rows => by
    rw [filter_filter, filter_filter]
    exact filter_congr fun r _ => Bool.and_comm _ _
  have hread : readCluster db d = if d ∈ db.info.rollupsDirty then readCluster db d
      else db.clusterOf d := by
    split
    · rfl
    · rename_i hs
      rw [readCluster, refreshRollups, clusterOf_refreshDates, if_neg hs]
  unfold clusterDays
  cases readOnly with
  | true =>
    rw [if_pos rfl]
    rw [filter_append, hwindow db.clusterDay fun date => decide (since ≤ date ∧ date < until_) &&
      !decide (date ∈ db.info.rollupsDirty.filter fun d => decide (since ≤ d ∧ d < until_))]
    have hstale := filter_flatMap_dates (fun r : RollupRow ClusterKey ClusterSums => r.key.dateUtc)
      (fun d _ hr => @date_of_mem_clusterRows db d _ hr)
      (nodup_sortedDates (db.info.rollupsDirty.filter fun d => decide (since ≤ d ∧ d < until_))) d
    rw [hcomm, hstale, hread]
    unfold Db.clusterOf
    simp only [mem_sortedDates, mem_filter]
    by_cases hin : since ≤ d ∧ d < until_ <;> by_cases hs : d ∈ db.info.rollupsDirty <;>
      simp [hin, hs]
  | false =>
    rw [if_neg Bool.false_ne_true]
    rw [hwindow _ fun date => decide (since ≤ date ∧ date < until_)]
    by_cases hin : since ≤ d ∧ d < until_
    · rw [if_pos (by simpa using hin), if_pos hin, if_neg (by simp), readCluster, refreshRollups,
        clusterOf_refreshDates]
      refine congrArg _ ((clusterOf_refreshDates db _ d).trans ?_)
      simp only [mem_filter, hin, decide_true, and_true, and_self]
    · rw [if_neg (by simpa using hin), if_neg hin]

theorem Fresh.read (hf : Fresh db) (d : Nat) :
    readDaily db d = dailyRows db d ∧ readCluster db d = clusterRows db d :=
  hf.refreshed _ fun h => (mem_dirty_refreshDates.mp h).2 (mem_dirty_refreshDates.mp h).1

/-- What fresh rollups give their readers, whatever is refreshed first. -/
structure ReadsFresh (db : Db) : Prop where
  /-- The rows of a date that is not stale are what the ledger gives. -/
  stored : ∀ d, d ∉ db.info.rollupsDirty → db.dailyOf d = dailyRows db d ∧ db.clusterOf d = clusterRows db d
  /-- So are the rows of every date after the stale dates are refreshed. -/
  refreshed : ∀ d, readDaily db d = dailyRows db d ∧ readCluster db d = clusterRows db d
  /-- So are the rows `cluster_days` returns. -/
  clusterDays : ∀ readOnly kind since until_ d,
    ((clusterDays db readOnly kind since until_).2.filter fun r => decide (r.key.dateUtc = d)) =
      if since ≤ d ∧ d < until_ then
        (clusterRows db d).filter fun r => decide (r.key.clusterKind = kind)
      else []

/-- In every run of operations that meet the condition, the rollups of every date that is not stale
are fresh in every state reached, and so is every read of them. -/
theorem rollups_fresh (cfg : Config) (nameKeyId : Option String) (ops : List Op)
    (hops : EachStep cfg (fun s op => op.KeepsFresh s) (.create cfg nameKeyId) ops) :
    ReadsFresh (run cfg (.create cfg nameKeyId) ops).db := by
  have hf : Fresh (run cfg (.create cfg nameKeyId) ops).db :=
    run_inv (I := fun s => Fresh s.db) (fun s op hs hop => step_fresh hs hop)
      (create_fresh cfg nameKeyId) hops
  refine ⟨fun d hd => ⟨hf.daily d hd, hf.cluster d hd⟩, hf.read, fun readOnly kind since until_ d => ?_⟩
  rw [filter_clusterDays, (hf.read d).2, ite_self]

/-- A request and the shell of its lane in one ingest, then a refresh. -/
theorem rollups_fresh_shell_first :
    ReadsFresh (run sampleConfig (.create sampleConfig none)
      [.ingest 0 { source := sampleSource "a", requests := [sampleRequest "r" none]
                   sessions := [sampleSession {}] } none, .refresh none]).db :=
  rollups_fresh sampleConfig none _
    ⟨fun _ _ _ _ => .inr fun _ hr => (nomatch hr), trivial, trivial⟩

def lateShell : List Op :=
  [.ingest 0 { source := sampleSource "a", requests := [sampleRequest "r" none] } none, .refresh none,
   .ingest 0 { source := sampleSource "b", sessions := [sampleSession {}] } none]

/-- A late shell changes the kind of a lane and leaves the date's rollup as fresh as it was. -/
theorem rollups_stale_late_shell :
    (∀ op ∈ lateShell, ∀ now days, op ≠ .retention now days) ∧
      ¬ ReadsFresh (run sampleConfig sampleStore lateShell).db := by
  refine ⟨by simp [lateShell], fun h => ?_⟩
  have hd : 0 ∉ (run sampleConfig sampleStore lateShell).db.info.rollupsDirty := by decide
  exact absurd (h.stored 0 hd).1 (by decide)

end TokenBill.Store
