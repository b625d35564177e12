import TokenBill.Store.Retained

/-!
# Rollups that outlive their requests

A retention with a longer period for rollups than for requests should leave the rollups
of the dates between the two cuts. It marks the dates of the requests it deletes stale,
so the next refresh recomputes them without requests: a date keeps its rollup exactly
when it had no requests left to delete, or no rollup.
-/

namespace TokenBill.Store

open General List

/-! ### Reads of a date -/

/-- A date without requests, with the rows `daily` and `cluster` to be read: both empty where the date
is stale. -/
structure Idle (d : Nat) (daily : List (RollupRow DailyKey DailySums))
    (cluster : List (RollupRow ClusterKey ClusterSums)) (db : Db) : Prop where
  none : ∀ r ∈ db.requests, r.dateUtc ≠ d
  stale : d ∈ db.info.rollupsDirty → daily = [] ∧ cluster = []
  fresh : d ∉ db.info.rollupsDirty → db.dailyOf d = daily ∧ db.clusterOf d = cluster

theorem dayView_eq_nil {db : Db} {d : Nat} :
    dayView db d = [] ↔ ∀ r ∈ db.requests, r.dateUtc = d → r.inferences.any billable = false := by
  simp [dayView, filter_eq_nil_iff]

theorem dailyRows_nil {db : Db} {d : Nat} (hv : dayView db d = []) : dailyRows db d = [] := by
  simp only [dailyRows, hv]
  rfl

theorem clusterRows_nil {db : Db} {d : Nat} (hv : dayView db d = []) : clusterRows db d = [] := by
  simp only [clusterRows, hv]
  rfl

theorem dailyRows_eq_nil {db : Db} {d : Nat} : dailyRows db d = [] ↔ dayView db d = [] := by
  refine ⟨fun h => ?_, dailyRows_nil⟩
  unfold dailyRows groupRows at h
  rw [map_eq_nil_iff] at h
  have hitems : dayItems (dayView db d) = [] := by
    by_contra hne
    obtain ⟨i, hi⟩ := exists_mem_of_ne_nil _ hne
    have := mem_dedup.mpr (mem_map_of_mem (f := dailyKey d) hi)
    rw [h] at this
    cases this
  rw [dayView_eq_nil]
  intro r hr hd
  by_contra hb
  rw [Bool.not_eq_false] at hb
  obtain ⟨i, hi, hib⟩ := any_eq_true.mp hb
  have hmem : (⟨r, db.laneKind r.request.laneKey, i⟩ : DayItem) ∈ dayItems (dayView db d) := by
    refine mem_flatMap.mpr ⟨(r, db.laneKind r.request.laneKey), ?_, ?_⟩
    · exact mem_map.mpr ⟨r, mem_filter.mpr ⟨hr, by simp [hd, hb]⟩, rfl⟩
    · exact mem_map.mpr ⟨i, mem_filter.mpr ⟨hi, hib⟩, rfl⟩
  rw [hitems] at hmem
  cases hmem

namespace Idle

variable {d : Nat} {daily : List (RollupRow DailyKey DailySums)}
  {cluster : List (RollupRow ClusterKey ClusterSums)} {db : Db}

theorem view (hi : Idle d daily cluster db) : dayView db d = [] :=
  dayView_eq_nil.mpr fun r hr hd => absurd hd (hi.none r hr)

/-- The rows of the date after a refresh of stale dates. -/
theorem refreshed (hi : Idle d daily cluster db) {dates : List Nat}
    (hsub : ∀ d ∈ dates, d ∈ db.info.rollupsDirty) (hd : d ∈ db.info.rollupsDirty → d ∈ dates) :
    (refreshDates db dates).dailyOf d = daily ∧ (refreshDates db dates).clusterOf d = cluster := by
  rw [dailyOf_refreshDates, clusterOf_refreshDates, dailyRows_nil hi.view, clusterRows_nil hi.view]
  by_cases hin : d ∈ dates
  · obtain ⟨rfl, rfl⟩ := hi.stale (hsub d hin)
    simp [hin]
  · simpa [hin] using hi.fresh fun h => hin (hd h)

theorem read (hi : Idle d daily cluster db) : readDaily db d = daily ∧ readCluster db d = cluster :=
  hi.refreshed (fun _ h => h) fun h => h

/-- A refresh of stale dates leaves what the date is to show. -/
theorem refreshDates (hi : Idle d daily cluster db) {dates : List Nat}
    (hsub : ∀ d ∈ dates, d ∈ db.info.rollupsDirty) : Idle d daily cluster (refreshDates db dates) where
  none := hi.none
  stale h := hi.stale (mem_dirty_refreshDates.mp h).1
  fresh h := by
    refine hi.refreshed hsub fun hd => ?_
    by_contra hin
    exact h (mem_dirty_refreshDates.mpr ⟨hd, hin⟩)

end Idle

/-- A later read: a refresh of the stale dates, or a read of the clusters. -/
def Op.IsRead : Op → Prop
  | .refresh none => True
  | .clusterDays _ _ _ _ => True
  | _ => False

/-- Reads leave what a date without requests is to show. -/
theorem Idle.run {d : Nat} {daily : List (RollupRow DailyKey DailySums)}
    {cluster : List (RollupRow ClusterKey ClusterSums)} (cfg : Config) {s : SqliteStore}
    (hi : Idle d daily cluster s.db) {ops : List Op} (hops : ∀ op ∈ ops, op.IsRead) :
    Idle d daily cluster (run cfg s ops).db := by
  induction ops generalizing s with
  | nil => exact hi
  | cons op ops ih =>
    refine ih ?_ fun op' h => hops op' (mem_cons_of_mem _ h)
    have hop := hops op mem_cons_self
    cases op with
    | refresh dates =>
      cases dates with
      | none => exact hi.refreshDates fun _ h => h
      | some dates => exact hop.elim
    | clusterDays readOnly kind since until_ =>
      show Idle d daily cluster (clusterDays s.db readOnly kind since until_).1
      unfold clusterDays
      split
      · exact hi
      · exact hi.refreshDates fun _ h => mem_of_mem_filter h
    | _ => exact hop.elim

/-! ### Retention -/

/-- Whether a date has nothing to lose: no rollup row, or, where it is stale, no billable inference
that would make one. -/
def NoRollup (db : Db) (d : Nat) : Prop :=
  if d ∈ db.info.rollupsDirty then
    ∀ r ∈ db.requests, r.dateUtc = d → r.inferences.any billable = false
  else db.dailyOf d = [] ∧ db.clusterOf d = []

theorem read_eq_nil {db : Db} {d : Nat} :
    (readDaily db d = [] ∧ readCluster db d = []) ↔ NoRollup db d := by
  unfold NoRollup readDaily readCluster refreshRollups
  rw [dailyOf_refreshDates, clusterOf_refreshDates]
  split
  · rw [← dayView_eq_nil]
    constructor
    · intro h
      have hd := h.1
      split at hd
      · exact dailyRows_eq_nil.mp (map_eq_nil_iff.mp hd)
      · exact dailyRows_eq_nil.mp hd
    · intro hv
      rw [dailyRows_nil hv, clusterRows_nil hv]
      simp
  · rfl

/-- The rollups of the dates between two cuts outlive a retention: every later read, after any reads,
returns what a read before it would have. -/
def Outlives (cfg : Config) (before : Db) (after : SqliteStore) (c : Cuts) : Prop :=
  ∀ ops : List Op, (∀ op ∈ ops, op.IsRead) → ∀ d, c.rollup ≤ d → d < c.request →
    readDaily (run cfg after ops).db d = readDaily before d ∧
    readCluster (run cfg after ops).db d = readCluster before d ∧
    ∀ readOnly kind since until_, since ≤ d → d < until_ →
      ((clusterDays (run cfg after ops).db readOnly kind since until_).2.filter fun r =>
        decide (r.key.dateUtc = d)) =
        (readCluster before d).filter fun r => decide (r.key.clusterKind = kind)

/-- A date between the cuts after a retention: what it had to show, or nothing if it had requests. -/
theorem idle_of_retained {db db' : Db} {c : Cuts} {members : List MemberRow}
    (hr : Retained db c members db') {d : Nat} (hroll : c.rollup ≤ d) (hreq : d < c.request) :
    ((∃ r ∈ db.requests, r.dateUtc = d) → Idle d [] [] db') ∧
      ((∀ r ∈ db.requests, r.dateUtc ≠ d) → Idle d (readDaily db d) (readCluster db d) db') := by
  have hnone : ∀ r ∈ db'.requests, r.dateUtc ≠ d := by
    rw [hr.requests]
    rintro r hmem rfl
    obtain ⟨r', hr', rfl⟩ := mem_map.mp hmem
    have := (mem_filter.mp hr').2
    rw [date_nullRequest] at hreq
    simp only [decide_eq_true_eq] at this
    omega
  have htable : db'.dailyOf d = (refreshedFirst db c.identity).dailyOf d ∧
      db'.clusterOf d = (refreshedFirst db c.identity).clusterOf d := by
    unfold Db.dailyOf Db.clusterOf
    rw [hr.daily, hr.cluster, filter_filter, filter_filter]
    constructor <;>
    · refine filter_congr fun r _ => ?_
      by_cases he : r.key.dateUtc = d <;> simp [he, hroll]
  constructor
  · rintro ⟨r, hmem, hd⟩
    exact ⟨hnone, fun _ => ⟨rfl, rfl⟩, fun hs =>
      absurd ((hr.dirty d).mpr (.inr ⟨r, hmem, hd ▸ hreq, hd⟩)) hs⟩
  · intro hfree
    have hidle : Idle d (readDaily db d) (readCluster db d) db := by
      have hv : dayView db d = [] := dayView_eq_nil.mpr fun r hmem hd => absurd hd (hfree r hmem)
      refine ⟨hfree, fun hs => read_eq_nil.mpr ?_, fun hs => ?_⟩
      · rw [NoRollup, if_pos hs]
        exact dayView_eq_nil.mp hv
      · unfold readDaily readCluster refreshRollups
        rw [dailyOf_refreshDates, clusterOf_refreshDates, if_neg hs, if_neg hs]
        exact ⟨rfl, rfl⟩
    have hsub : d ∈ retainedDates db c.identity → d ∈ db.info.rollupsDirty := by
      intro hd
      rcases mem_append.mp hd with hd | hd
      · obtain ⟨r, hmem, he⟩ := mem_map.mp hd
        exact absurd he (hfree r (mem_of_mem_filter hmem))
      · exact mem_of_mem_filter hd
    have hdirty : d ∈ db'.info.rollupsDirty ↔
        d ∈ db.info.rollupsDirty ∧ d ∉ retainedDates db c.identity := by
      rw [hr.dirty]
      exact or_iff_left fun ⟨r, hmem, _, he⟩ => hfree r hmem he
    refine ⟨hnone, fun hs => hidle.stale (hdirty.mp hs).1, fun hs => ?_⟩
    rw [htable.1, htable.2]
    unfold refreshedFirst
    rw [dailyOf_refreshDates, clusterOf_refreshDates, dailyRows_nil hidle.view,
      clusterRows_nil hidle.view]
    simp only [mem_sortedDates]
    by_cases hin : d ∈ retainedDates db c.identity
    · obtain ⟨h1, h2⟩ := hidle.stale (hsub hin)
      simp [hin, h1, h2]
    · simpa [hin] using hidle.fresh fun h => hs (hdirty.mpr ⟨h, hin⟩)

/-- What an idle date shows to every reader. -/
theorem Idle.clusterDays {d : Nat} {daily : List (RollupRow DailyKey DailySums)}
    {cluster : List (RollupRow ClusterKey ClusterSums)} {db : Db} (hi : Idle d daily cluster db)
    (readOnly : Bool) (kind : ClusterKind) {since until_ : Nat} (h1 : since ≤ d) (h2 : d < until_) :
    ((Store.clusterDays db readOnly kind since until_).2.filter fun r => decide (r.key.dateUtc = d)) =
      cluster.filter fun r => decide (r.key.clusterKind = kind) := by
  rw [filter_clusterDays, if_pos ⟨h1, h2⟩, hi.read.2, clusterRows_nil hi.view]
  split
  · rename_i hs
    rw [(hi.stale hs.2).2]
  · rfl

def refreshedRequest : List Op :=
  [.ingest 0 { source := sampleSource "a", requests := [sampleRequest "r" none] } none, .refresh none]

def longRollups : RetentionDays := { rollupDays := 800 }

end TokenBill.Store
