import TokenBill.Store.FreshRuns

/-!
# What a retention leaves

`apply_retention` table by table: stale dates and dates with principals before the
identity cut are refreshed, principals before it are nulled, and rows older than their
periods go. The deletion of requests marks their dates stale.
-/

namespace TokenBill.Store

open General List

/-- What a deletion of requests leaves, up to the lanes. -/
theorem deleteRequests_frame (db : Db) (which : RequestRow → Bool) :
    ∃ lanes, (deleteRequests db which).1 = markDirty { dropRequests db which with lanes }
      ((db.requests.filter which).map (·.dateUtc)) ∧
      (db.requests.filter which = [] → lanes = db.lanes) := by
  obtain ⟨lanes, hl⟩ := refreshLanes_frame (dropRequests db which)
    ((db.requests.filter which).map (·.request.laneKey))
  refine ⟨lanes, ?_, fun hnone => ?_⟩
  · unfold deleteRequests
    dsimp only
    rw [hl]
  · rw [hnone] at hl
    exact (congrArg Db.lanes hl).symm

theorem date_nullRequest (cut : Nat) (r : RequestRow) : (nullRequest cut r).dateUtc = r.dateUtc := by
  unfold nullRequest
  split <;> rfl

theorem requestId_nullRequest (cut : Nat) (r : RequestRow) :
    (nullRequest cut r).requestId = r.requestId := by
  unfold nullRequest
  split <;> rfl

/-- The member rows a retention rewrites: named, and before the cut. -/
def oldMember (cut : Nat) (m : MemberRow) : Bool :=
  m.principal.isSome && decide (m.tsStartMs < dateStartMs cut)

def refreshedFirst (db : Db) (cut : Nat) : Db := refreshDates db (sortedDates (retainedDates db cut))

/-- The tables a retention leaves; `members` are the rewritten member rows. -/
structure Retained (db : Db) (c : Cuts) (members : List MemberRow) (db' : Db) : Prop where
  requests : db'.requests =
    (db.requests.filter fun r => decide (c.request ≤ r.dateUtc)).map (nullRequest c.identity)
  mergeMembers : db'.mergeMembers =
    members.filter fun m => decide (m.requestId ∉ deletedIds db fun r => decide (r.dateUtc < c.request))
  daily : db'.dailyRollup =
    (refreshedFirst db c.identity).dailyRollup.filter fun r => decide (c.rollup ≤ r.key.dateUtc)
  cluster : db'.clusterDay =
    (refreshedFirst db c.identity).clusterDay.filter fun r => decide (c.rollup ≤ r.key.dateUtc)
  dirty : ∀ d, d ∈ db'.info.rollupsDirty ↔
    (d ∈ db.info.rollupsDirty ∧ d ∉ retainedDates db c.identity) ∨
      ∃ r ∈ db.requests, r.dateUtc < c.request ∧ r.dateUtc = d
  retainedBefore : db'.info.identityRetainedBefore =
    some (max (db.info.identityRetainedBefore.getD 0) c.identity)
  basis : db'.info.rateCardBasis = db.info.rateCardBasis
  costLines : db'.costLines =
    (db.costLines.map (nullCostLine c.identity)).filter fun l => decide (c.request ≤ l.dateUtc)
  aggregates : db'.aggregates =
    db.aggregates.filter fun a => decide (dateStartMs c.request ≤ a.bucketStartMs)
  outcomes : db'.outcomes = db.outcomes.filter fun o => decide (c.request ≤ o.dateUtc)
  events : db'.events = db.events.filter fun e => decide (dateStartMs c.event ≤ e.event.tsMs)
  messageIndex : db'.messageIndex = db.messageIndex.filter fun m =>
    decide (m.2 ∉ deletedIds db fun r => decide (r.dateUtc < c.request))
  requestIndex : db'.requestIndex = db.requestIndex.filter fun x =>
    x.collision || !x.requestId.any (· ∈ deletedIds db fun r => decide (r.dateUtc < c.request))
  lanes : (∀ r ∈ db.requests, c.request ≤ r.dateUtc) → db'.lanes = db.lanes
  sources : db'.sources = db.sources
  sessions : db'.sessions = db.sessions
  findings : db'.findings = db.findings

/-- Nulling principals leaves the dates of requests. -/
theorem filter_nulled (cut : Nat) (q : Nat → Bool) (rows : List RequestRow) :
    (rows.map (nullRequest cut)).filter (fun r => q r.dateUtc) =
      (rows.filter fun r => q r.dateUtc).map (nullRequest cut) := by
  rw [filter_map]
  congr 1
  refine filter_congr fun r _ => ?_
  rw [Function.comp, date_nullRequest]

theorem deletedIds_nulled (db db' : Db) (cut request : Nat)
    (hr : db'.requests = db.requests.map (nullRequest cut)) :
    deletedIds db' (fun r => decide (r.dateUtc < request)) =
      deletedIds db fun r => decide (r.dateUtc < request) := by
  unfold deletedIds
  rw [hr, filter_nulled cut fun d => decide (d < request), map_map]
  exact map_congr_left fun r _ => requestId_nullRequest cut r

/-- A retention that returns. -/
theorem applyRetention_spec {h : Hashes} {db db' : Db} {now : Nat} {days : RetentionDays}
    (hr : applyRetention h db now days = .ok db') : ∃ c members, cuts now days = .ok c ∧
      rewriteDocs h (oldMember c.identity) [] db.mergeMembers = .ok members ∧
      Retained db c members db' := by
  obtain ⟨c, hc, hr⟩ := bind_eq_ok.mp hr
  obtain ⟨nulled, hn, hr⟩ := bind_eq_ok.mp hr
  obtain ⟨members, hm, hn⟩ := bind_eq_ok.mp hn
  have hn : nulled = _ := (pure_eq_ok.mp hn).symm
  have hids := deletedIds_nulled db nulled c.identity c.request (by rw [hn]; rfl)
  have hreq : nulled.requests = db.requests.map (nullRequest c.identity) := by
    rw [hn]
    rfl
  have hgone := filter_nulled c.identity (fun d => decide (d < c.request)) db.requests
  rw [← hreq] at hgone
  have hdates : (nulled.requests.filter fun r => decide (r.dateUtc < c.request)).map (·.dateUtc) =
      (db.requests.filter fun r => decide (r.dateUtc < c.request)).map (·.dateUtc) := by
    rw [hgone, map_map]
    exact map_congr_left fun r _ => date_nullRequest _ r
  obtain ⟨lanes, hd, hlanes⟩ := deleteRequests_frame nulled fun r => decide (r.dateUtc < c.request)
  generalize deleteRequests nulled (fun r => decide (r.dateUtc < c.request)) = d at hd hr
  obtain ⟨deleted, n⟩ := d
  obtain rfl := pure_eq_ok.mp hr
  rw [hdates, dropRequests, hids, hn] at hd
  refine ⟨c, members, hc, hm, ?_⟩
  subst hd
  have hold := filter_nulled c.identity (fun d => !decide (d < c.request)) db.requests
  have hkeep : (db.requests.filter fun r => !decide (r.dateUtc < c.request)) =
      db.requests.filter fun r => decide (c.request ≤ r.dateUtc) :=
    filter_congr fun r _ => by rw [← decide_not, decide_eq_decide, not_lt]
  rw [hkeep] at hold
  exact {
    requests := hold
    mergeMembers := rfl
    daily := rfl
    cluster := rfl
    dirty := fun d => by
      refine mem_sortedDates.trans (mem_append.trans (or_congr ?_ ?_))
      · refine mem_dirty_refreshDates.trans (and_congr_right fun _ => ?_)
        rw [mem_sortedDates]
      · simp [mem_map, mem_filter, and_assoc]
    retainedBefore := rfl
    basis := rfl
    costLines := rfl
    aggregates := rfl
    outcomes := rfl
    events := rfl
    messageIndex := rfl
    requestIndex := rfl
    lanes := fun hall => by
      refine (hlanes ?_).trans ?_
      · rw [hgone, map_eq_nil_iff, filter_eq_nil_iff]
        intro r hr
        have := hall r hr
        rw [decide_eq_true_eq]
        omega
      · rw [hn]
        rfl
    sources := rfl
    sessions := rfl
    findings := rfl }

end TokenBill.Store
