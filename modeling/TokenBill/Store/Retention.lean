import TokenBill.Store.Ingest

/-!
# Retention and purge

`store/retention.py`: identity retention nulls principals after the rollups of their
dates are refreshed, then requests, events and rollups older than their periods go; a
purge deletes a person's data, or everything before a time. Both run in one
transaction.
-/

namespace TokenBill.Store

open General

/-! ### Retention -/

/-- The periods of `apply_retention`, in days. -/
structure RetentionDays where
  identityDays : Nat := 90
  requestDays : Nat := 395
  eventDays : Nat := 90
  rollupDays : Nat := 395

/-- `_cut_date`. -/
def cutDate (now days : Nat) : Except Error Nat := dateOf (now - days * dayMs)

def Request.nullPrincipal (r : Request) : Request :=
  { r with attribution := { r.attribution with principal := none } }

/-- A member row rewritten without its principal. -/
def MemberRow.nullPrincipal (h : Hashes) (m : MemberRow) : MemberRow :=
  let doc := Request.nullPrincipal m.doc
  { m with
    doc
    principal := none
    memberKey := m.adapter ++ ":" ++ h.sha256 (Json.canonical doc.toJson) }

/-- The rows `_rewrite_docs` rewrites, one after the other; `done` are the rows passed so far. Two
rows of one request with one member key violate the primary key. -/
def rewriteDocs (h : Hashes) (which : MemberRow → Bool) (done : List MemberRow) :
    List MemberRow → Except Error (List MemberRow)
  | [] => pure done
  | m :: rest =>
    if which m && m.doc.attribution.principal.isSome then
      let new := m.nullPrincipal h
      if (done ++ rest).any fun x =>
          decide (x.requestId = new.requestId ∧ x.memberKey = new.memberKey) then
        .error (.integrity ("UNIQUE constraint failed: merge_members.request_id, " ++
          "merge_members.member_key"))
      else rewriteDocs h which (done ++ [new]) rest
    else rewriteDocs h which (done ++ [m]) rest

/-- The principals of the requests before `cut` nulled. -/
def nullRequest (cut : Nat) (r : RequestRow) : RequestRow :=
  if r.dateUtc < cut then
    { r with
      request := Request.nullPrincipal r.request
      inferences := r.inferences.map fun i => { i with principal := none } }
  else r

/-- A cost line without its principal, before `cut`. -/
def nullCostLine (cut : Nat) (c : CostLine) : CostLine :=
  if c.dateUtc < cut then { c with principal := none } else c

/-- The four cuts of a retention. -/
structure Cuts where
  (identity request event rollup : Nat)
  deriving DecidableEq

/-- The cuts at a time. -/
def cuts (now : Nat) (days : RetentionDays) : Except Error Cuts := do
  let identity ← cutDate now days.identityDays
  let request ← cutDate now days.requestDays
  let event ← cutDate now days.eventDays
  let rollup ← cutDate now days.rollupDays
  pure ⟨identity, request, event, rollup⟩

def retainedDates (db : Db) (cut : Nat) : List Nat :=
  ((db.requests.filter fun r => decide (r.dateUtc < cut) && r.principal.isSome).map (·.dateUtc)) ++
    db.info.rollupsDirty.filter (· < cut)

/-- Identity retention: principals nulled before the identity cut. -/
def nullIdentities (h : Hashes) (db : Db) (cut : Nat) : Except Error Db := do
  let members ← rewriteDocs h
    (fun m => m.principal.isSome && decide (m.tsStartMs < dateStartMs cut)) [] db.mergeMembers
  let before := max (db.info.identityRetainedBefore.getD 0) cut
  pure { db with
    requests := db.requests.map (nullRequest cut)
    costLines := db.costLines.map (nullCostLine cut)
    mergeMembers := members
    info := { db.info with identityRetainedBefore := some before } }

/-- Everything of request retention but the requests. -/
def deleteRecords (db : Db) (c : Cuts) : Db :=
  { db with
    aggregates := db.aggregates.filter fun a => decide (dateStartMs c.request ≤ a.bucketStartMs)
    costLines := db.costLines.filter fun l => decide (c.request ≤ l.dateUtc)
    outcomes := db.outcomes.filter fun o => decide (c.request ≤ o.dateUtc)
    events := db.events.filter fun e => decide (dateStartMs c.event ≤ e.event.tsMs)
    dailyRollup := db.dailyRollup.filter fun r => decide (c.rollup ≤ r.key.dateUtc)
    clusterDay := db.clusterDay.filter fun r => decide (c.rollup ≤ r.key.dateUtc) }

def Db.addAudit (db : Db) (row : AuditRow) : Db := { db with audit := db.audit ++ [row] }

/-- The principals a retention nulls. -/
def identitiesNulled (db : Db) (cut : Nat) : Nat :=
  (db.requests.filter fun r => decide (r.dateUtc < cut) && r.principal.isSome).length +
    (db.costLines.filter fun l => decide (l.dateUtc < cut) && l.principal.isSome).length +
    (db.mergeMembers.filter fun m => m.principal.isSome &&
      decide (m.tsStartMs < dateStartMs cut) && m.doc.attribution.principal.isSome).length

/-- `apply_retention`: one transaction, so an error leaves the database as it was. -/
def applyRetention (h : Hashes) (db : Db) (now : Nat) (days : RetentionDays) : Except Error Db := do
  let c ← cuts now days
  let dates := sortedDates (retainedDates db c.identity)
  let refreshed := refreshDates db dates
  let nulled ← nullIdentities h refreshed c.identity
  let (deleted, n) := deleteRequests nulled fun r => decide (r.dateUtc < c.request)
  let rest := deleteRecords deleted c
  pure (rest.addAudit ⟨now, "retention", "retention",
    [("rollup_dates_refreshed", .nat dates.length),
     ("identities_nulled", .nat (identitiesNulled refreshed c.identity)),
     ("requests_deleted", .nat n),
     ("events_deleted", .nat (deleted.events.length - rest.events.length)),
     ("rollups_deleted", .nat (deleted.dailyRollup.length - rest.dailyRollup.length +
       (deleted.clusterDay.length - rest.clusterDay.length))),
     ("identity_before", .str (isoDate c.identity)), ("requests_before", .str (isoDate c.request)),
     ("rollups_before", .str (isoDate c.rollup))]⟩)

/-! ### Purge -/

def partialGroups (db : Db) (which : MemberRow → Bool) : List String :=
  ((db.mergeMembers.filter which).map (·.requestId)).dedup

/-- Requests and members selected for deletion: the requests go whole, and the other merged requests
are merged again without the members. -/
def Work.purgeRequests (w : Work) (cfg : Config) (which : RequestRow → Bool)
    (member : MemberRow → Bool) (drop : Contribution → Bool) : Except Fault (Work × Nat) := do
  let (db, n) := deleteRequests w.db which
  let w := { w with db }
  let groups := partialGroups db member
  let w ← if groups.isEmpty then pure w else w.regroup cfg.hashes cfg.pricer groups drop
  pure (w, n)

/-- The part of a purge for a principal, where one is given. -/
def Work.purgePrincipal (w : Work) (cfg : Config) : Option Principal → Except Fault (Work × Nat)
  | none => pure (w, 0)
  | some p => do
    let (w, n) ← w.purgeRequests cfg (fun r => decide (r.principal = some p))
      (fun m => decide (m.principal = some p))
      (fun c => decide (c.request.attribution.principal = some p))
    pure ({ w with db := { w.db with
      costLines := w.db.costLines.filter fun l => decide (l.principal ≠ some p) } }, n)

/-- The part of a purge for a time, where one is given. -/
def Work.purgeBefore (w : Work) (cfg : Config) : Option Nat → Except Fault (Work × Nat)
  | none => pure (w, 0)
  | some beforeMs => do
    let (w, n) ← w.purgeRequests cfg (fun r => decide (r.request.tsStartMs < beforeMs))
      (fun m => decide (m.tsStartMs < beforeMs)) (fun c => decide (c.request.tsStartMs < beforeMs))
    let cut := dayOf (min beforeMs maxMs)
    pure ({ w with db := { w.db with
      events := w.db.events.filter fun e => decide (beforeMs ≤ e.event.tsMs)
      aggregates := w.db.aggregates.filter fun a => decide (beforeMs < a.bucketEndMs)
      costLines := w.db.costLines.filter fun l => decide (cut ≤ l.dateUtc)
      outcomes := w.db.outcomes.filter fun o => decide (cut ≤ o.dateUtc)
      dailyRollup := w.db.dailyRollup.filter fun r => decide (cut ≤ r.key.dateUtc)
      clusterDay := w.db.clusterDay.filter fun r => decide (cut ≤ r.key.dateUtc) } }, n)

/-- The transaction of a purge. -/
def purgeWork (cfg : Config) (now : Nat) (s : SqliteStore) (principal : Option Principal)
    (beforeMs : Option Nat) (actor : String) : Except Fault (Work × Nat) := do
  let w : Work := { db := s.db, committed := s.db, mem := s.mem }
  let (w, n) ← w.purgePrincipal cfg principal
  let (w, m) ← w.purgeBefore cfg beforeMs
  let by_ : Json := .str (if principal.isSome then "principal" else "before_ms")
  pure ({ w with db := (refreshRollups w.db).addAudit ⟨now, actor, "purge",
    [("by", by_), ("rows", .nat (n + m))] ++
      (beforeMs.map fun b => ("before_ms", Json.nat b)).toList⟩ }, n + m)

/-- `purge`: the store after it, and the number of deleted requests or the error it raised. -/
def purge (cfg : Config) (now : Nat) (s : SqliteStore) (principal : Option Principal)
    (beforeMs : Option Nat) (actor : String) : SqliteStore × Except Error Nat :=
  if principal = none ∧ beforeMs = none then
    (s, .error (.usage "purge needs principal or before_ms"))
  else if actor = "" then (s, .error (.usage "purge needs an actor"))
  else match purgeWork cfg now s principal beforeMs actor with
    | .error f => (⟨f.db, f.mem⟩, .error f.error)
    | .ok (w, n) => (⟨w.db, w.mem⟩, .ok n)

end TokenBill.Store
