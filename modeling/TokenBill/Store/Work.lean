import TokenBill.Core.Textsafe
import TokenBill.Store.Merge
import TokenBill.Store.Rollups

/-!
# The write path

`_Work` of `store/db.py` with `refresh_lanes` and `delete_requests`: shells, sessions,
the merge engine, events and provider records, written inside the store's open
transaction. A write that raises leaves the database of the last commit and the
memory of the store object as it stood.
-/

namespace TokenBill.Store

open General

/-! ### State -/

/-- What a store object keeps in memory: the basis of each rate card it has seen, and the key ids
whose pseudonyms it accepts. -/
structure Memory where
  basisSeen : List (String × Basis) := []
  acceptedKeyIds : List String := []

/-- A raised error, with the database that stays and the memory. -/
structure Fault where
  error : Error
  db : Db
  mem : Memory

/-- `_Work`: one ingest's or purge's writes. -/
structure Work where
  db : Db
  /-- The database of the last commit. -/
  committed : Db
  mem : Memory
  touchedLanes : List String := []
  dirty : List Nat := []
  /-- `dq.request_id_collision`. -/
  collisions : Nat := 0
  /-- `dq.cross_source_usage_mismatch`. -/
  mismatches : Nat := 0

def Work.fail {α : Type} (w : Work) (e : Error) : Except Fault α := .error ⟨e, w.committed, w.mem⟩

/-! ### Lanes -/

def laneOrder (r : RequestRow) : Nat ×ₗ Nat ×ₗ String :=
  toLex (r.request.tsStartMs, toLex (r.request.seq, r.requestId))

/-- `refresh_lanes` of one lane: a placeholder for requests without a shell, team and billing class
of the first request, and no placeholder without requests. -/
def refreshLane (db : Db) (key : String) : Db :=
  let row := db.lanes.find? fun l => decide (l.laneKey = key)
  match db.requests.filter fun r => decide (r.request.laneKey = key) with
  | [] =>
    match row with
    | none => db
    | some l =>
      if l.shell.isNone then { db with lanes := db.lanes.filter fun l => decide (l.laneKey ≠ key) }
      else { db with lanes := upsert (·.laneKey) { l with team := none, billingClass := none } db.lanes }
  | r :: rs =>
    let first := rs.foldl (fun m x => if laneOrder x < laneOrder m then x else m) r
    let session := (rs.map (·.request.sessionKey)).foldl min r.request.sessionKey
    let l := row.getD { laneKey := key, sessionKey := session }
    let l := { l with
      sessionKey := if l.shell.isNone then session else l.sessionKey
      team := first.request.attribution.team
      billingClass := some (billingClass (effBillingPath first.request)) }
    { db with lanes := upsert (·.laneKey) l db.lanes }

/-- `refresh_lanes`. -/
def refreshLanes (db : Db) (keys : List String) : Db :=
  (keys.dedup.insertionSort (· ≤ ·)).foldl refreshLane db

/-- `_Work.finish`. -/
def Work.finish (w : Work) : Work :=
  { w with
    db := markDirty (refreshLanes w.db w.touchedLanes) w.dirty
    touchedLanes := []
    dirty := [] }

/-- `_shell_of`. -/
def shellOf (l : LaneRow) : Option Lane :=
  l.shell.map fun s =>
    { laneKey := l.laneKey, sessionKey := l.sessionKey, kind := s.kind
      parentLaneKey := s.parentLaneKey, cacheScopeKey := s.cacheScopeKey, requests := []
      ttlObserved := s.ttlObserved, laneExact := s.laneExact }

/-- The best shell of each lane, the first of equal rank, in the order of the lane keys. -/
def bestShells (shells : List Lane) : List Lane :=
  let keys := (shells.map (·.laneKey)).dedup.insertionSort (· ≤ ·)
  keys.filterMap fun key =>
    (shells.filter fun s => decide (s.laneKey = key)).argmin shellRank

/-- One shell of `_Work.shells`. -/
def putShell (w : Work) (s : Lane) : Work :=
  let row := w.db.lanes.find? fun l => decide (l.laneKey = s.laneKey)
  if (row.bind shellOf).any fun old => decide (shellRank old ≤ shellRank s) then w
  else
    let l := row.getD { laneKey := s.laneKey, sessionKey := s.sessionKey }
    let l := { l with
      sessionKey := s.sessionKey
      shell := some ⟨s.kind, s.parentLaneKey, s.cacheScopeKey, s.ttlObserved, s.laneExact⟩ }
    { w with
      db := { w.db with lanes := upsert (·.laneKey) l w.db.lanes }
      touchedLanes := w.touchedLanes ++ [s.laneKey] }

/-- `_Work.shells`. -/
def Work.shells (w : Work) (shells : List Lane) : Work := (bestShells shells).foldl putShell w

/-! ### Sessions, events and provider records -/

def attributionText (a : Attribution) : String := Json.canonical a.toJson

/-- One session of `_Work.sessions`. -/
def putSession (rows : List SessionRow) (s : Session) : List SessionRow :=
  match rows.find? fun r => decide (r.sessionKey = s.sessionKey) with
  | none => rows ++ [⟨s.sessionKey, s.sourceKind, s.startedMs, s.endedMs, s.attribution⟩]
  | some r =>
    upsert (·.sessionKey)
      { r with
        sourceKind := min r.sourceKind s.sourceKind
        startedMs := min r.startedMs s.startedMs
        endedMs := max r.endedMs s.endedMs
        attribution := if attributionText s.attribution < attributionText r.attribution
          then s.attribution else r.attribution } rows

/-- `_Work.sessions`. -/
def Work.sessions (w : Work) (sessions : List Session) : Work :=
  { w with db := { w.db with sessions := sessions.foldl putSession w.db.sessions } }

/-- `INSERT OR IGNORE` of an event under its id. -/
def putEvent (h : Hashes) (rows : List EventRow) (ev : LaneEvent) : List EventRow :=
  let id := h.stableId "ev" [Json.canonical ev.toJson]
  if rows.any fun r => decide (r.eventId = id) then rows else rows ++ [⟨id, ev⟩]

/-- `_Work.events`. -/
def Work.events (w : Work) (h : Hashes) (events : List LaneEvent) : Work :=
  { w with db := { w.db with events := events.foldl (putEvent h) w.db.events } }

/-- One record of `_upsert`. -/
def putVersion {α κ : Type} [DecidableEq κ] (key : α → κ) (version : α → RecordVersion)
    (rows : List α) (rec : α) : List α :=
  match rows.find? fun r => decide (key r = key rec) with
  | none => rows ++ [rec]
  | some have_ => upsert key (chooseVersion version have_ rec) rows

/-- `_upsert`: the incoming versions of each key first, then against the stored one. -/
def upsertVersions {α κ : Type} [DecidableEq κ] (key : α → κ) (version : α → RecordVersion)
    (rows records : List α) : List α :=
  (records.foldl (putVersion key version) []).foldl (putVersion key version) rows

/-- `_Work.provider_records`. -/
def Work.providerRecords (w : Work) (aggregates : List UsageAggregate) (costLines : List CostLine)
    (outcomes : List OutcomeAggregate) : Work :=
  { w with db := { w.db with
      aggregates := upsertVersions (·.aggId) UsageAggregate.version w.db.aggregates aggregates
      costLines := upsertVersions (·.lineId) CostLine.version w.db.costLines costLines
      outcomes := upsertVersions (fun o => (o.dateUtc, o.team, o.sourceKind))
        OutcomeAggregate.version w.db.outcomes outcomes } }

/-! ### Prices -/

/-- `note.removeprefix("unpriced:").strip()`. -/
def unpricedNote (note : String) : String :=
  let rest := if startsWith note "unpriced:" then note.toList.drop 9 else note.toList
  String.ofList ((rest.dropWhile isPySpace).reverse.dropWhile isPySpace).reverse

/-- `_priced_tuple`. -/
def pricedTuple (p : PricedInference) (sha : Option String) : PricedColumns :=
  match p.figure.nano with
  | none =>
    let note := unpricedNote p.figure.note
    { evidence := some p.figure.evidence
      basis := some p.figure.basis
      unpricedReason := some ((p.unpricedReason.filter (· ≠ "")).getD
        (if note = "" then "unpriced" else note))
      rateCardSha := sha }
  | some nano =>
    let est (get : Figure → Option Int) : Int := (p.estimated.bind get).getD 0
    { pricedNano := some nano
      exactNano := p.exactNano
      estNano := est (·.nano)
      estLowNano := est (·.lowNano)
      estHighNano := est (·.highNano)
      evidence := some p.figure.evidence
      basis := some p.figure.basis
      rateCardSha := sha
      lines := p.lines }

/-- `_NOT_BILLABLE`. -/
def notBillable : PricedColumns := {}

/-- `_no_pricer_tuple`. -/
def noPricerTuple : PricedColumns :=
  { evidence := some .exact, basis := some .list, unpricedReason := some "no pricer" }

/-- The priced columns `_price` gives an inference. -/
def priceColumns (pricer : Option Pricer) (inf : Inference) (tsMs : Nat) : PricedColumns :=
  if inf.billable = some false then notBillable
  else match pricer with
    | none => noPricerTuple
    | some p => pricedTuple (p.priceInference inf tsMs) (some p.rateCardSha256)

/-- `_record_basis`, for a rate card not seen yet. -/
def Work.recordBasis (w : Work) (pricer : Option Pricer) : Work :=
  match pricer with
  | none => w
  | some p =>
    if (w.mem.basisSeen.lookup p.rateCardSha256).isSome then w
    else
      { w with
        db := { w.db with info := { w.db.info with
          rateCardBasis := upsert (·.1) (p.rateCardSha256, p.basis) w.db.info.rateCardBasis } }
        mem := { w.mem with basisSeen := (p.rateCardSha256, p.basis) :: w.mem.basisSeen } }

def inferenceRows (req : Request) (priced : Inference → Nat → PricedColumns) : List InferenceRow :=
  req.attempts.flatMap fun a => a.inferences.map fun i =>
    ⟨i, a.tsStartMs, req.attribution.principal, priced i a.tsStartMs⟩

/-! ### Stored groups -/

/-- The contribution of a `merge_members` row. -/
def MemberRow.contribution (m : MemberRow) : Contribution :=
  ⟨m.doc, m.adapter, m.fidelity, m.priority, m.sourceId⟩

/-- The contribution of a `requests` row that was not merged. -/
def RequestRow.contribution (r : RequestRow) : Contribution :=
  ⟨r.request, r.adapter, r.fidelity, r.sourcePriority, (r.request.source.map (·.sourceId)).getD ""⟩

/-- `_Work.members`: the contributions of the stored merged request `gid`. -/
def Db.members (db : Db) (gid : String) : List Contribution :=
  match (db.mergeMembers.filter fun m => decide (m.requestId = gid)).insertionSort
      fun a b => a.memberKey ≤ b.memberKey with
  | [] => ((db.requests.filter fun r => decide (r.requestId = gid)).map (·.contribution)).take 1
  | rows => rows.map (·.contribution)

/-- `_stored_prices`. -/
def Db.storedPrices (db : Db) (gid : String) : List (String × PricedColumns) :=
  (db.requests.filter fun r => decide (r.requestId = gid)).flatMap fun r =>
    r.inferences.map fun i => (i.inference.inferenceId, i.priced)

/-- `_collided_among`: the hints of these contributions that collide. -/
def Db.collidedAmong (db : Db) (members : List Contribution) : List String :=
  ((db.requestIndex.filter (·.collision)).map (·.providerRequestId)).filter fun h =>
    members.any fun c => decide (h ∈ c.requestHints)

/-- `_Work.delete_groups`. -/
def Work.deleteGroups (w : Work) (gids : List String) (members : List Contribution) : Work :=
  let gone := w.db.requests.filter fun r => decide (r.requestId ∈ gids)
  { w with
    db := { w.db with
      requests := w.db.requests.filter fun r => decide (r.requestId ∉ gids)
      mergeMembers := w.db.mergeMembers.filter fun m => decide (m.requestId ∉ gids)
      messageIndex := w.db.messageIndex.filter fun m =>
        !(decide (m.2 ∈ gids) && members.any fun c => decide (m.1 ∈ c.messageIds))
      requestIndex := w.db.requestIndex.filter fun x =>
        !(x.requestId.any (· ∈ gids) && !x.collision &&
          members.any fun c => decide (x.providerRequestId ∈ c.requestHints)) }
    touchedLanes := w.touchedLanes ++ gone.map (·.request.laneKey)
    dirty := w.dirty ++ gone.map (·.dateUtc) }

def attemptIds (r : Request) : List String := r.attempts.map (·.attemptId)

def inferenceIds (r : Request) : List String :=
  r.attempts.flatMap fun a => a.inferences.map (·.inferenceId)

/-- Whether the ids `get` of new rows are new and distinct: a primary key. -/
def freshIds (get : Request → List String) (rows entries : List RequestRow) : Bool :=
  let ids := entries.flatMap fun e => get e.request
  decide ids.Nodup && !ids.any fun id => rows.any fun r => decide (id ∈ get r.request)

/-- The message of `_write_rows`. -/
def duplicateIds : Error :=
  .contract ("a request, attempt or inference id is already stored under another request " ++
    "(ids must be unique per logical request)")

/-- `_write_rows`. -/
def Work.writeRows (w : Work) (entries : List RequestRow) : Except Fault Work :=
  if freshIds (fun r => [r.requestId]) w.db.requests entries &&
      freshIds attemptIds w.db.requests entries && freshIds inferenceIds w.db.requests entries then
    .ok { w with
      db := { w.db with requests := w.db.requests ++ entries }
      touchedLanes := w.touchedLanes ++ entries.map (·.request.laneKey)
      dirty := w.dirty ++ entries.map (·.dateUtc) }
  else w.fail duplicateIds

/-- `INSERT OR REPLACE INTO message_index`. -/
def putMessages (index : List (String × String)) (messages : List String) (gid : String) :
    List (String × String) :=
  messages.foldl (fun index m => upsert (·.1) (m, gid) index) index

/-- `INSERT INTO request_index … ON CONFLICT … DO UPDATE … WHERE collision=0`. -/
def putHint (index : List HintRow) (hint gid : String) : List HintRow :=
  if index.any fun x => decide (x.providerRequestId = hint) && x.collision then index
  else upsert (·.providerRequestId) ⟨hint, some gid, false⟩ index

/-- `INSERT OR IGNORE INTO request_index`. -/
def addHint (index : List HintRow) (hint gid : String) : List HintRow :=
  if index.any fun x => decide (x.providerRequestId = hint) then index
  else index ++ [⟨hint, some gid, false⟩]

/-- A row of `merge_members`. -/
def memberRow (h : Hashes) (gid : String) (m : Contribution) : MemberRow :=
  ⟨gid, m.key h, m.request.requestId, m.adapter, m.sourceId, m.fidelity, m.priority,
    m.request.attribution.principal, m.request.tsStartMs, m.request⟩

/-- The distinct ids `get` of some contributions, in order. -/
def idsOf (get : Contribution → List String) (members : List Contribution) : List String :=
  (members.flatMap get).dedup.insertionSort (· ≤ ·)

/-- The `requests` row of a group. -/
def groupRow (mg : MergedGroup) (priced : Inference → Nat → PricedColumns) : RequestRow where
  request := mg.request
  fidelity := mg.winner.fidelity
  sourcePriority := mg.winner.priority
  adapter := mg.winner.adapter
  sourcesMask := mg.sourcesMask
  attrPrio := if 1 < mg.members.length then some mg.attrPrio else none
  inferences := inferenceRows mg.request priced

/-- `_Work.write_group`: stored prices are kept where they price every inference. -/
def Work.writeGroup (w : Work) (h : Hashes) (pricer : Option Pricer) (mg : MergedGroup)
    (stored : Option (List (String × PricedColumns))) : Except Fault Work := do
  let gid := mg.request.requestId
  let kept := stored.filter fun prices =>
    (inferenceIds mg.request).all fun id => (prices.lookup id).isSome
  let (w, priced) : Work × (Inference → Nat → PricedColumns) := match kept with
    | some prices => (w, fun i _ => (prices.lookup i.inferenceId).getD notBillable)
    | none => (w.recordBasis pricer, priceColumns pricer)
  let w ← w.writeRows [groupRow mg priced]
  pure { w with db := { w.db with
    mergeMembers := w.db.mergeMembers ++
      if 1 < mg.members.length then mg.members.map (memberRow h gid) else []
    messageIndex := putMessages w.db.messageIndex (idsOf (·.messageIds) mg.members) gid
    requestIndex := (idsOf (·.requestHints) mg.members).foldl (putHint · · gid) w.db.requestIndex } }

/-- The `requests` row of a lone contribution. -/
def fastRow (pricer : Option Pricer) (c : Contribution) : RequestRow where
  request := c.request
  fidelity := c.fidelity
  sourcePriority := c.priority
  adapter := c.adapter
  sourcesMask := sourcesMask [c.adapter]
  attrPrio := none
  inferences := inferenceRows c.request (priceColumns pricer)

/-- `_Work._insert_fast`. -/
def Work.insertFast (w : Work) (pricer : Option Pricer) (contribs : List Contribution) :
    Except Fault Work :=
  if contribs.isEmpty then pure w
  else do
    let w ← (w.recordBasis pricer).writeRows (contribs.map (fastRow pricer))
    pure { w with db := { w.db with
      messageIndex := contribs.foldl (fun index c =>
        putMessages index (c.messageIds.insertionSort (· ≤ ·)) c.request.requestId) w.db.messageIndex
      requestIndex := contribs.foldl (fun index c =>
        (c.requestHints.insertionSort (· ≤ ·)).foldl (addHint · · c.request.requestId) index)
        w.db.requestIndex } }

/-! ### The merge engine -/

def bestMember : List Contribution → Option Contribution
  | [] => none
  | first :: rest => some (winnerOf first rest)

/-- The stored prices of some groups by the key of their best contribution, the last first. -/
def Db.winnerPrices (db : Db) (h : Hashes) (gids : List String) :
    List (String × List (String × PricedColumns)) :=
  (gids.filterMap fun gid => (bestMember (db.members gid)).map fun winner =>
    (winner.key h, db.storedPrices gid)).reverse

/-- Write merged groups, one after the other. -/
def Work.writeGroups (w : Work) (h : Hashes) (pricer : Option Pricer)
    (prices : List (String × List (String × PricedColumns))) (merged : List MergedGroup) :
    Except Fault Work :=
  merged.foldlM (fun w mg => w.writeGroup h pricer mg (prices.lookup (mg.winner.key h))) w

/-- `_Work._remerge`: stored groups merged again with incoming contributions. -/
def Work.remerge (w : Work) (h : Hashes) (pricer : Option Pricer) (affected gids : List String)
    (incoming : List Contribution) : Except Fault Work :=
  let groups := gids.map w.db.members
  let old := groups.flatten
  let fresh := incoming.filter fun c => decide (c.key h ∉ old.map (·.key h))
  if fresh.isEmpty && !gids.any (· ∈ affected) then pure w
  else
    let everything := old ++ fresh
    let merged := mergeContributions h everything (w.db.collidedAmong everything)
    let prices := w.db.winnerPrices h gids
    let before := (groups.filter fun g => decide (1 < (servingUsages g).length)).length
    let after := (merged.filter (·.usageMismatch)).length
    let w := w.deleteGroups gids old
    { w with mismatches := w.mismatches + (after - before) }.writeGroups h pricer prices merged

def Work.collide (w : Work) (hint : String) : Work :=
  let index := upsert (·.providerRequestId) ⟨hint, none, true⟩ w.db.requestIndex
  { w with db := { w.db with requestIndex := index }, collisions := w.collisions + 1 }

def Db.hintRow (db : Db) (hint : String) : Option HintRow :=
  db.requestIndex.find? fun x => decide (x.providerRequestId = hint)

/-- The collisions of a chunk: the ids that collide, and the stored groups this takes a join key
from. -/
structure Collisions where
  collided : List String
  affected : List String := []

/-- One provider request id of a chunk, against the entries `db` had at the chunk's start. -/
def detectCollision (db : Db) (pairs : List (String × String)) (state : Work × Collisions)
    (hint : String) : Work × Collisions :=
  let (w, c) := state
  if hint ∈ c.collided then state
  else
    let gid := (db.hintRow hint).bind (·.requestId)
    let stored := (gid.map fun g => (db.members g).flatMap (·.hintPairs)).getD []
    let seen := ((pairs ++ stored).filter fun p => decide (p.1 = hint)).dedup
    if 1 < seen.length then
      (w.collide hint, ⟨c.collided ++ [hint], c.affected ++ gid.toList⟩)
    else state

/-- The collisions a chunk brings. -/
def Work.detectCollisions (w : Work) (chunk : List Contribution) : Work × Collisions :=
  let pairs := (chunk.flatMap (·.hintPairs)).dedup
  (idsOf (fun c => c.hintPairs.map (·.1)) chunk).foldl (detectCollision w.db pairs)
    (w, ⟨w.db.collidedAmong chunk, []⟩)

/-- `by_key`: the stored group a join key reaches (the hint entries are those of the chunk's
start). -/
def Db.reach (db : Db) (hints : List HintRow) (collided : List String) : JoinKey → Option String
  | .id rid =>
    match (db.mergeMembers.filter fun m => decide (m.origRequestId = rid)).getLast? with
    | some m => some m.requestId
    | none => if db.requests.any fun r => decide (r.requestId = rid) then some rid else none
  | .msg m => db.messageIndex.lookup m
  | .rq hint =>
    if hint ∈ collided then none
    else ((hints.find? fun x => decide (x.providerRequestId = hint)).filter (!·.collision)).bind
      (·.requestId)

/-- The components of a chunk in the making: a label for each contribution and each reached group,
the first contribution of each key, and the reached groups with their nodes. -/
structure Nodes where
  labels : List Nat
  first : List (JoinKey × Nat) := []
  nodeOf : List (String × Nat) := []

/-- `group_node`. -/
def Nodes.groupNode (s : Nodes) (gid : String) : Nat × Nodes :=
  match s.nodeOf.lookup gid with
  | some node => (node, s)
  | none =>
    let node := s.labels.length
    (node, { s with labels := s.labels ++ [node], nodeOf := s.nodeOf ++ [(gid, node)] })

/-- One join key of contribution `i`. -/
def Nodes.linkKey (reach : JoinKey → Option String) (i : Nat) (s : Nodes) (key : JoinKey) : Nodes :=
  let s := match s.first.lookup key with
    | some j => { s with labels := unite s.labels j i }
    | none => { s with first := (key, i) :: s.first }
  match reach key with
  | some gid =>
    let (node, s) := s.groupNode gid
    { s with labels := unite s.labels i node }
  | none => s

/-- The components of a chunk over its contributions and the groups they reach, with the affected
groups. -/
def chunkNodes (reach : JoinKey → Option String) (collisions : Collisions)
    (chunk : List Contribution) : Nodes :=
  let s := chunk.zipIdx.foldl (fun s c =>
    (c.1.joinKeys collisions.collided).foldl (Nodes.linkKey reach c.2) s)
    { labels := List.range chunk.length }
  (collisions.affected.dedup.insertionSort (· ≤ ·)).foldl (fun s gid => (s.groupNode gid).2) s

/-- The components: the stored groups and the contributions of each. -/
def Nodes.comps (s : Nodes) (chunk : List Contribution) : List (List String × List Contribution) :=
  (s.labels.dedup.insertionSort (· ≤ ·)).map fun root =>
    (((s.nodeOf.filter fun g => decide (labelOf s.labels g.2 = root)).map (·.1)).insertionSort
        (· ≤ ·),
      (chunk.zipIdx.filter fun c => decide (labelOf s.labels c.2 = root)).map (·.1))

def fastOf : List String × List Contribution → Option Contribution
  | ([], [c]) => some c
  | _ => none

/-- `_Work.merge_chunk`. -/
def Work.mergeChunk (w : Work) (h : Hashes) (pricer : Option Pricer) (chunk : List Contribution) :
    Except Fault Work := do
  let hints := w.db.requestIndex
  let (w, collisions) := w.detectCollisions chunk
  let comps := (chunkNodes (w.db.reach hints collisions.collided) collisions chunk).comps chunk
  let w ← comps.foldlM (fun w comp =>
    if (fastOf comp).isSome then pure w
    else w.remerge h pricer collisions.affected comp.1 comp.2) w
  w.insertFast pricer (comps.filterMap fastOf)

/-- Cut a list into chunks of `n` (for `0 < n`); `fuel` bounds their number. -/
def chunksOf {α : Type} (n : Nat) : Nat → List α → List (List α)
  | 0, _ => []
  | fuel + 1, xs => if xs.isEmpty then [] else xs.take n :: chunksOf n fuel (xs.drop n)

/-- `_chunks`. -/
def chunks {α : Type} (n : Nat) (xs : List α) : List (List α) := chunksOf n xs.length xs

/-- One chunk of `_Work.regroup`: its groups re-merged without the members `drop` selects. -/
def Work.regroupChunk (w : Work) (h : Hashes) (pricer : Option Pricer) (drop : Contribution → Bool)
    (gids : List String) : Except Fault Work :=
  let old := gids.flatMap w.db.members
  let keep := old.filter fun c => !drop c
  let prices := w.db.winnerPrices h gids
  let w := w.deleteGroups gids old
  let merged := mergeContributions h keep (w.db.collidedAmong keep)
  w.writeGroups h pricer prices merged

/-- `_Work.regroup`. -/
def Work.regroup (w : Work) (h : Hashes) (pricer : Option Pricer) (gids : List String)
    (drop : Contribution → Bool) : Except Fault Work := do
  let w ← (chunks 200 (gids.dedup.insertionSort (· ≤ ·))).foldlM
    (fun w chunk => w.regroupChunk h pricer drop chunk) w
  pure w.finish

/-! ### Deletion -/

def deletedIds (db : Db) (which : RequestRow → Bool) : List String :=
  (db.requests.filter which).map (·.requestId)

/-- The rows of the requests `which` selects deleted everywhere. -/
def dropRequests (db : Db) (which : RequestRow → Bool) : Db :=
  let ids := deletedIds db which
  { db with
    requests := db.requests.filter fun r => !which r
    mergeMembers := db.mergeMembers.filter fun m => decide (m.requestId ∉ ids)
    messageIndex := db.messageIndex.filter fun m => decide (m.2 ∉ ids)
    requestIndex := db.requestIndex.filter fun x => x.collision || !x.requestId.any (· ∈ ids) }

/-- `delete_requests`, with the number of requests deleted. -/
def deleteRequests (db : Db) (which : RequestRow → Bool) : Db × Nat :=
  let gone := db.requests.filter which
  (markDirty (refreshLanes (dropRequests db which) (gone.map (·.request.laneKey)))
    (gone.map (·.dateUtc)), gone.length)

end TokenBill.Store
