import TokenBill.Store.FreshRuns

/-!
# Cluster rollups over runs

The rows of `cluster_day` are computed from the requests of a date alone. So they stay
fresh whatever the shells of an ingest say of the kinds of lanes: the writes that are
tracked are those of the database without its lanes.
-/

namespace TokenBill.Store

open General

def Db.noLanes (db : Db) : Db := { db with lanes := [] }

def Work.noLanes (w : Work) : Work := { w with db := w.db.noLanes }

/-- The rows of `cluster_day` do not depend on lanes. -/
theorem clusterRows_of_requests {db db' : Db} {d : Nat}
    (h : dayView db'.noLanes d = dayView db.noLanes d) : clusterRows db' d = clusterRows db d := by
  have hrows : ∀ db : Db, clusterRows db d = clusterRows db.noLanes d := fun db => by
    simp only [clusterRows, dayView, Db.noLanes, List.flatMap_map]
  rw [hrows db', hrows db, clusterRows_congr h]

/-- The cluster rows of every date that is not stale are fresh, and no principals were retained. -/
structure ClusterFresh (db : Db) : Prop where
  retained : db.info.identityRetainedBefore = none
  cluster : ∀ d, d ∉ db.info.rollupsDirty → db.clusterOf d = clusterRows db d

/-- A work left the rollups of `db` and marked every date whose requests it changed. -/
def TracksRequests (db : Db) (w : Work) : Prop := Tracks db.noLanes w.noLanes

namespace TracksRequests

theorem noLanes_recordBasis (w : Work) (pricer : Option Pricer) :
    (w.recordBasis pricer).noLanes = w.noLanes.recordBasis pricer := by
  unfold Work.recordBasis
  cases pricer with
  | none => rfl
  | some p =>
    by_cases hseen : (w.mem.basisSeen.lookup p.rateCardSha256).isSome
    · simp [Work.noLanes, hseen]
    · simp [Work.noLanes, Db.noLanes, hseen]

theorem noLanes_reprice (w : Work) (p : Pricer) (inWindow : RequestRow → Bool) :
    (w.reprice p inWindow).noLanes = w.noLanes.reprice p inWindow := by
  by_cases hnone : (w.db.requests.filter fun r => inWindow r && r.inferences.any billable).isEmpty
  · have h1 : w.reprice p inWindow = w := if_pos hnone
    have h2 : w.noLanes.reprice p inWindow = w.noLanes := if_pos hnone
    rw [h1, h2]
  · have h1 : w.reprice p inWindow = _ := if_neg hnone
    have h2 : w.noLanes.reprice p inWindow = _ := if_neg hnone
    rw [h1, h2, ← noLanes_recordBasis]
    rfl

theorem workInv (h : Hashes) (pricer : Option Pricer) (db : Db) :
    WorkInv h pricer (fun _ => True) AnyPrice (TracksRequests db) where
  stored _ _ _ _ := trivial
  storedPrices _ _ _ _ _ := trivial
  grows _ _ := trivial
  priced _ _ _ := trivial
  free _ := trivial
  index ht messages hints n m := (Tracks.workInv h pricer db.noLanes).index ht messages hints n m
  basis {w} ht := by
    unfold TracksRequests
    rw [noLanes_recordBasis]
    exact (Tracks.workInv h pricer db.noLanes).basis ht
  delete ht gids members := (Tracks.workInv h pricer db.noLanes).delete ht gids members
  rows {w w' entries} ht he hw := by
    refine @WriteInv.rows _ _ _ _ _ (Tracks.workInv h pricer db.noLanes).toWriteInv w.noLanes w'.noLanes
      entries ht he ?_
    unfold Work.writeRows at hw ⊢
    split at hw
    · rename_i hfresh
      obtain rfl := Except.ok.inj hw
      exact if_pos hfresh
    · cases hw
  members ht hm := (Tracks.workInv h pricer db.noLanes).members ht hm

theorem finish {db : Db} {w : Work} (ht : TracksRequests db w) : TracksRequests db w.finish := by
  obtain ⟨lanes, hl⟩ := refreshLanes_frame w.db w.touchedLanes
  have hdb : w.finish.db = markDirty { w.db with lanes } w.dirty := congrArg (markDirty · w.dirty) hl
  have hdaily : w.finish.db.dailyRollup = w.db.dailyRollup := by rw [hdb]; rfl
  have hcluster : w.finish.db.clusterDay = w.db.clusterDay := by rw [hdb]; rfl
  have hrequests : w.finish.db.requests = w.db.requests := by rw [hdb]; rfl
  have hretained : w.finish.db.info.identityRetainedBefore = w.db.info.identityRetainedBefore := by
    rw [hdb]
    rfl
  have hdirty : w.finish.db.info.rollupsDirty = sortedDates (w.db.info.rollupsDirty ++ w.dirty) := by
    rw [hdb]
    rfl
  refine Tracks.step ht hdaily hcluster hretained (fun d hd => ?_) fun d _ => ?_
  · exact List.mem_append_left _ (hdirty ▸ mem_sortedDates.mpr hd)
  · exact @dayView_congr w.noLanes.db w.finish.noLanes.db hrequests (fun _ => rfl) d

theorem putShell {db : Db} {w : Work} (ht : TracksRequests db w) (s : Lane) :
    TracksRequests db (putShell w s) := by
  rcases putShell_cases w s with he | ⟨-, l, -, -, he⟩
  · rwa [he]
  · rw [he]
    exact Tracks.aside ht rfl rfl rfl rfl rfl rfl

end TracksRequests

theorem ClusterFresh.refresh {db : Db} (hf : ClusterFresh db) (dates : List Nat) :
    ClusterFresh (refreshDates db dates) := by
  refine ⟨hf.retained, fun d hd => ?_⟩
  rw [mem_dirty_refreshDates, not_and_not_right] at hd
  rw [clusterOf_refreshDates, hf.retained]
  by_cases hin : d ∈ dates
  · rw [if_pos hin]
    rfl
  · rw [if_neg hin]
    exact hf.cluster d fun h => hin (hd h)

theorem ClusterFresh.dropBefore {db db' : Db} {cut : Nat} (hf : ClusterFresh db)
    (hreq : ∀ r ∈ db.requests, cut ≤ r.dateUtc) (hd : DropsBefore cut db db') : ClusterFresh db' := by
  refine ⟨hd.info ▸ hf.retained, fun d hs => ?_⟩
  have hrows : clusterRows db' d = clusterRows db d :=
    clusterRows_of_requests (@dayView_congr db.noLanes db'.noLanes hd.requests (fun _ => rfl) d)
  rw [hrows, Db.clusterOf, hd.cluster]
  refine rowsOf_dropBefore ClusterKey.dateUtc (hf.cluster d (hd.info ▸ hs)) fun hlt => ?_
  simp only [clusterRows, dayView_before hreq hlt]
  rfl

theorem ClusterFresh.of_tracks {db : Db} {w : Work} (hf : ClusterFresh db) (ht : TracksRequests db w)
    (hd : w.dirty = []) : ClusterFresh w.db where
  retained := ht.retained.trans hf.retained
  cluster d hw := by
    have hs : d ∉ w.noLanes.stale := by
      show d ∉ w.db.info.rollupsDirty ++ w.dirty
      rwa [hd, List.append_nil]
    rw [clusterRows_of_requests (ht.view d hs), ← hf.cluster d fun h => hs (ht.stale d h)]
    exact congrArg (List.filter fun r => decide (r.key.dateUtc = d)) ht.cluster

/-- Writes tracked without lanes keep the cluster rows fresh. -/
theorem TracksRequests.runInv : RunInv TracksRequests ClusterFresh where
  work := TracksRequests.workInv
  start w := Tracks.start w.noLanes
  aside ht hs hstale :=
    Tracks.aside ht hs.daily hs.cluster hs.retained hstale hs.requests rfl
  finish ht := ht.finish
  drops db which :=
    have ht := Tracks.drops db.noLanes which
    ⟨ht.daily, ht.cluster, ht.retained, ht.stale, ht.view⟩
  reprice {db w} ht p inWindow := by
    unfold TracksRequests
    rw [TracksRequests.noLanes_reprice]
    exact Tracks.reprice ht p inWindow
  tracked hf ht hd := hf.of_tracks ht hd
  refresh hf dates := hf.refresh dates
  dropBefore hf hreq hd := hf.dropBefore hreq hd

def Op.Unretained : Op → Prop
  | .retention _ _ => False
  | _ => True

/-- In every run without a retention the cluster rows of dates that are not stale are fresh. -/
theorem run_clusterFresh (cfg : Config) (nameKeyId : Option String) {ops : List Op}
    (hops : ∀ op ∈ ops, op.Unretained) : ClusterFresh (run cfg (.create cfg nameKeyId) ops).db := by
  have hstart : ClusterFresh (SqliteStore.create cfg nameKeyId).db := ⟨rfl, fun _ _ => rfl⟩
  refine foldl_inv (I := fun s : SqliteStore => ClusterFresh s.db) (fun s hs op hop => ?_) hstart
  refine TracksRequests.runInv.step hs ?_
  cases op with
  | ingest now result pricer =>
    intro _ w ht _ _ _
    exact foldl_inv (I := TracksRequests s.db) (fun w hw shell _ => hw.putShell shell) ht
  | retention now days => exact (hops _ hop).elim
  | _ => trivial

/-- The rows `cluster_days` returns of a date of its window are the ledger's. -/
theorem ClusterFresh.clusterDays {db : Db} (hf : ClusterFresh db) (readOnly : Bool) (kind : ClusterKind)
    (since until_ d : Nat) :
    ((clusterDays db readOnly kind since until_).2.filter fun r => decide (r.key.dateUtc = d)) =
      if since ≤ d ∧ d < until_ then
        (clusterRows db d).filter fun r => decide (r.key.clusterKind = kind)
      else [] := by
  have hread : readCluster db d = clusterRows db d := by
    refine (hf.refresh db.info.rollupsDirty).cluster d ?_
    exact fun h => (mem_dirty_refreshDates.mp h).2 (mem_dirty_refreshDates.mp h).1
  rw [filter_clusterDays, hread, ite_self]

end TokenBill.Store
