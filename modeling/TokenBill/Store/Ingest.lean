import TokenBill.Store.Work

/-!
# Ingest

`SqliteStore.ingest` of `store/db.py`: everything is cleaned before the first write
(`store/pseudonym.py`: collector principals become pseudonyms under the org key, and
pseudonyms and name hashes of unknown keys are dropped), then shells, sessions and
contributions are written in transactions of 5000 contributions, with the events and
provider records in the last one.
-/

namespace TokenBill.Store

open General

/-! ### The store object -/

/-- What a store is opened with. -/
structure Config where
  hashes : Hashes
  orgKey : Option String
  adoptKeyIds : Bool := false
  pricer : Option Pricer := none

/-- A store: its database and its memory. -/
structure SqliteStore where
  db : Db
  mem : Memory := {}

/-- `SqliteStore(path)` of a new file. -/
def SqliteStore.create (cfg : Config) (nameKeyId : Option String) : SqliteStore :=
  let own := (cfg.orgKey.map cfg.hashes.keyId).getD ""
  { db := { info := { orgKeyId := own, orgKeyMode := if own = "" then "none" else "own"
                      nameKeyId := nameKeyId.getD "" } }
    mem := { acceptedKeyIds := if own = "" then [] else [own] } }

/-! ### Cleaning -/

/-- `pseudonym(key, "p", value)`. -/
def pseudonym (h : Hashes) (key value : String) : Principal := .p (h.hmac key value)

/-- What cleaning counts. -/
structure CleanCounts where
  pseudonymized : Nat := 0
  principalsNulled : Nat := 0
  namesNulled : Nat := 0

instance : Add CleanCounts :=
  ⟨fun a b => ⟨a.pseudonymized + b.pseudonymized, a.principalsNulled + b.principalsNulled,
    a.namesNulled + b.namesNulled⟩⟩

def CleanCounts.total (cs : List CleanCounts) : CleanCounts := cs.foldl (· + ·) {}

/-- `Pseudonymizer.principal` of a collector principal. -/
def collectorPseudonym (cfg : Config) (value : String) : Except Error Principal :=
  match cfg.orgKey with
  | some key => .ok (pseudonym cfg.hashes key value)
  | none => .error (.privacy "collector principals (r_/c_) need the org key to be stored")

/-- `_clean_principal`. -/
def cleanPrincipal (cfg : Config) (principalsOk : Bool) :
    Option Principal → Except Error (Option Principal × CleanCounts)
  | none => .ok (none, {})
  | some (.r ref) => do
    let p ← collectorPseudonym cfg ref
    pure (some p, { pseudonymized := 1 })
  | some (.c hex) => do
    let p ← collectorPseudonym cfg ("c:" ++ hex)
    pure (some p, { pseudonymized := 1 })
  | some (.p hex) => .ok (if principalsOk then (some (.p hex), {}) else (none, { principalsNulled := 1 }))

def cleanName (namesOk : Bool) (name : Option String) : Option String :=
  if !namesOk && isNameHash name then none else name

def nulledNames (namesOk : Bool) (names : List (Option String)) : Nat :=
  if namesOk then 0 else (names.filter isNameHash).length

/-- The names of an attribution that may be hashes (`_HASHED_ATTR`, then `extra`). -/
def hashedNames (a : Attribution) : List (Option String) :=
  [a.repo, a.workspaceId, a.apiKeyId, a.skill, a.mcpServer, a.plugin, a.cwdKey] ++
    a.extra.map fun e => some e.2

/-- The names of an attribution cleaned. -/
def cleanNames (namesOk : Bool) (a : Attribution) : Attribution :=
  { a with
    repo := cleanName namesOk a.repo
    workspaceId := cleanName namesOk a.workspaceId
    apiKeyId := cleanName namesOk a.apiKeyId
    skill := cleanName namesOk a.skill
    mcpServer := cleanName namesOk a.mcpServer
    plugin := cleanName namesOk a.plugin
    cwdKey := cleanName namesOk a.cwdKey
    extra := a.extra.filter fun e => namesOk || !isNameHash (some e.2) }

/-- `_clean_request`. -/
def cleanRequest (cfg : Config) (namesOk principalsOk : Bool) (req : Request) :
    Except Error (Request × CleanCounts) := do
  let (principal, counts) ← cleanPrincipal cfg principalsOk req.attribution.principal
  req.attempts.forM fun a => (fun _ => ()) <$> dateOf a.tsStartMs
  let nulled := nulledNames namesOk (hashedNames req.attribution ++ req.appended.map (·.name))
  pure ({ req with
      attribution := { cleanNames namesOk req.attribution with principal }
      appended := req.appended.map fun a => { a with name := cleanName namesOk a.name } },
    counts + { namesNulled := nulled })

/-- `_clean_cost_line`. -/
def cleanCostLine (cfg : Config) (namesOk principalsOk : Bool) (line : CostLine) :
    Except Error (CostLine × CleanCounts) := do
  let (principal, counts) ← cleanPrincipal cfg principalsOk line.principal
  pure ({ line with
      principal
      workspaceId := cleanName namesOk line.workspaceId
      repo := cleanName namesOk line.repo
      workflow := cleanName namesOk line.workflow },
    counts + { namesNulled := nulledNames namesOk [line.workspaceId, line.repo, line.workflow] })

def cleanAggregate (namesOk : Bool) (agg : UsageAggregate) : UsageAggregate × CleanCounts :=
  ({ agg with dims := agg.dims.filter fun d => namesOk || !isNameHash (some d.2) },
    { namesNulled := nulledNames namesOk (agg.dims.map fun d => some d.2) })

/-! ### Keys -/

/-- `ADOPTABLE_ADAPTER`. -/
def adoptableAdapter : String := "copilot-export"

/-- `_adoption`: whether a source's key ids are adopted. -/
def adoption (cfg : Config) (info : Meta) (src : SourceInfo) : Except Error Bool :=
  let keyId := src.principalKeyId.getD ""
  if !cfg.adoptKeyIds || src.adapter != adoptableAdapter || keyId == "" then .ok false
  else if keyId = info.orgKeyId ∨ keyId = info.adoptedKeyId then .ok false
  else if info.adoptedKeyId ≠ "" then
    .error (.usage ("this store already adopted another export key id; use the same " ++
      "export key every month"))
  else .ok true

def Meta.principalIds (info : Meta) : List String := [info.orgKeyId, info.adoptedKeyId].filter (· ≠ "")

def keylessAdopt (cfg : Config) : Bool := cfg.adoptKeyIds && cfg.orgKey.isNone

/-- The key ids whose name hashes an ingest keeps. -/
def nameIds (cfg : Config) (info : Meta) (src : SourceInfo) (adopting : Bool) : List String :=
  let storeName := if keylessAdopt cfg then info.nameKeyId
    else if info.nameKeyId ≠ "" then info.nameKeyId else src.nameKeyId.getD ""
  [storeName, info.adoptedNameKeyId].filter (· ≠ "") ++
    if adopting then [src.nameKeyId.getD ""] else []

/-- `principals_ok`. -/
def principalsOk (info : Meta) (src : SourceInfo) (adopting : Bool) : Bool :=
  src.principalKeyId.any fun id =>
    decide (id ∈ info.principalIds ++ if adopting then [src.principalKeyId.getD ""] else [])

/-- `names_ok`. -/
def namesOk (cfg : Config) (info : Meta) (src : SourceInfo) (adopting : Bool) : Bool :=
  src.nameKeyId.any fun id => decide (id ∈ nameIds cfg info src adopting)

/-- `_adopt_from`, with the accepted key ids of the pseudonymizer. -/
def Work.adoptFrom (w : Work) (now : Nat) (src : SourceInfo) : Work :=
  let key := src.principalKeyId.getD ""
  let name := src.nameKeyId.getD ""
  let info := { w.db.info with adoptedKeyId := key, adoptedNameKeyId := name }
  let info := if info.orgKeyId ≠ "" then info
    else { info with
      orgKeyId := key
      orgKeyMode := "adopted"
      nameKeyId := if info.nameKeyId = "" then name else info.nameKeyId }
  let row : AuditRow := ⟨now, "store", "adopt_key_id",
    [("key_id", .str key), ("name_key_id", .str name), ("adapter", .str src.adapter)]⟩
  { w with
    db := { w.db with info, audit := w.db.audit ++ [row] }
    mem := { w.mem with acceptedKeyIds := w.mem.acceptedKeyIds ++ [key] } }

/-- The store's name key id is that of the first source that has one. -/
def Work.setNameKey (w : Work) (cfg : Config) (info : Meta) (src : SourceInfo) : Work :=
  match src.nameKeyId.filter (· ≠ "") with
  | some name =>
    if info.nameKeyId = "" ∧ keylessAdopt cfg = false then
      { w with db := { w.db with info := { w.db.info with nameKeyId := name } } }
    else w
  | none => w

/-! ### Ingest -/

/-- The counts `ingest` returns. -/
structure Counts where
  requests : Nat := 0
  events : Nat := 0
  sessions : Nat := 0
  aggregates : Nat := 0
  costLines : Nat := 0
  outcomes : Nat := 0
  skipped : Nat := 0
  cleaned : CleanCounts := {}
  /-- `dq.name_key_mismatch`. -/
  nameMismatch : Nat := 0
  /-- `dq.principal_key_mismatch`. -/
  principalMismatch : Nat := 0
  /-- `dq.request_id_collision`. -/
  collisions : Nat := 0
  /-- `dq.cross_source_usage_mismatch`. -/
  mismatches : Nat := 0

/-- A result after write-time privacy. -/
structure Cleaned where
  requests : List Request
  costLines : List CostLine
  aggregates : List UsageAggregate
  events : List LaneEvent
  shells : List Lane
  counts : CleanCounts

/-- The requests of a result: the loose ones, then those in the lanes of its sessions. -/
def allRequests (result : IngestResult) : List Request :=
  result.requests ++ result.sessions.flatMap fun s => s.lanes.flatMap (·.requests)

def allEvents (result : IngestResult) : List LaneEvent :=
  result.events ++ result.sessions.flatMap fun s => s.lanes.flatMap (·.events)

def allShells (result : IngestResult) : List Lane :=
  result.sessions.flatMap fun s => s.lanes.map fun l => { l with requests := [], events := [] }

/-- Everything cleaned, before the first write. -/
def clean (cfg : Config) (namesOk principalsOk : Bool) (result : IngestResult) :
    Except Error Cleaned := do
  let requests ← (allRequests result).mapM (cleanRequest cfg namesOk principalsOk)
  let costLines ← result.costLines.mapM (cleanCostLine cfg namesOk principalsOk)
  let aggregates := result.aggregates.map (cleanAggregate namesOk)
  (allEvents result).forM fun ev => (fun _ => ()) <$> dateOf ev.tsMs
  pure { requests := requests.map (·.1)
         costLines := costLines.map (·.1)
         aggregates := aggregates.map (·.1)
         events := allEvents result
         shells := allShells result
         counts := CleanCounts.total (requests.map (·.2) ++ costLines.map (·.2) ++
           aggregates.map (·.2)) }

/-- `BATCH_ROWS`. -/
def batchRows : Nat := 5000

/-- `COMMIT` and `BEGIN IMMEDIATE`. -/
def Work.commit (w : Work) : Work := { w with committed := w.db }

/-- The chunks of an ingest, each but the first in a transaction of its own. -/
def Work.mergeChunks (w : Work) (h : Hashes) (pricer : Option Pricer) :
    List (List Contribution) → Except Fault Work
  | [] => pure w
  | first :: rest => do
    let w ← w.mergeChunk h pricer first
    rest.foldlM (fun w chunk => w.finish.commit.mergeChunk h pricer chunk) w

/-- The `sources` row of an ingest, and the running totals of `meta`. -/
def Work.recordSource (w : Work) (now : Nat) (result : IngestResult) (cleaned : Cleaned) : Work :=
  let src := result.source
  let row : SourceRow :=
    ⟨src.sourceId, src.adapter, src.nameHmac, src.sha256, src.nameKeyId, src.principalKeyId, now,
      cleaned.requests.length, result.quarantined, result.stats.insertionSort fun a b => a.1 ≤ b.1⟩
  let c := cleaned.counts
  { w with db := { w.db with
    sources := upsert (·.sourceId) row w.db.sources
    info := { w.db.info with
      nameMismatch := w.db.info.nameMismatch + c.namesNulled + c.principalsNulled
      principalMismatch := w.db.info.principalMismatch + c.principalsNulled } } }

/-- The commit phase of `ingest`. -/
def ingestWork (cfg : Config) (now : Nat) (s : SqliteStore) (result : IngestResult)
    (pricer : Option Pricer) (adopting : Bool) (cleaned : Cleaned) : Except Fault Work := do
  let src := result.source
  let w : Work := { db := s.db, committed := s.db, mem := s.mem }
  let w := if adopting then w.adoptFrom now src else w
  let w := ((w.setNameKey cfg s.db.info src).shells cleaned.shells).sessions result.sessions
  let contribs := cleaned.requests.map fun r => Contribution.of r src.adapter src.sourceId
  let w ← w.mergeChunks cfg.hashes pricer (chunks batchRows contribs)
  let w := (w.events cfg.hashes cleaned.events).providerRecords cleaned.aggregates cleaned.costLines
    result.outcomes
  pure (w.finish.recordSource now result cleaned)

/-- The counts of an ingest. -/
def ingestCounts (result : IngestResult) (cleaned : Cleaned) (w : Work) : Counts where
  requests := cleaned.requests.length
  events := cleaned.events.length
  sessions := result.sessions.length
  aggregates := cleaned.aggregates.length
  costLines := cleaned.costLines.length
  outcomes := result.outcomes.length
  cleaned := cleaned.counts
  nameMismatch := cleaned.counts.namesNulled + cleaned.counts.principalsNulled
  principalMismatch := cleaned.counts.principalsNulled
  collisions := w.collisions
  mismatches := w.mismatches

def ingested (db : Db) (src : SourceInfo) : Bool :=
  db.sources.any fun r => decide (r.sourceId = src.sourceId ∧ r.sha256 = src.sha256)

/-- `SqliteStore.ingest`: the store after it, and its counts or the error it raised. -/
def ingest (cfg : Config) (now : Nat) (s : SqliteStore) (result : IngestResult)
    (pricer : Option Pricer) : SqliteStore × Except Error Counts :=
  if ingested s.db result.source then (s, .ok { skipped := 1 })
  else
    let info := s.db.info
    let prepared : Except Error (Bool × Cleaned) := do
      let adopting ← adoption cfg info result.source
      let cleaned ← clean cfg (namesOk cfg info result.source adopting)
        (principalsOk info result.source adopting) result
      pure (adopting, cleaned)
    match prepared with
    | .error e => (s, .error e)
    | .ok (adopting, cleaned) =>
      match ingestWork cfg now s result (pricer.or cfg.pricer) adopting cleaned with
      | .error f => (⟨f.db, f.mem⟩, .error f.error)
      | .ok w => (⟨w.db, w.mem⟩, .ok (ingestCounts result cleaned w))

end TokenBill.Store
