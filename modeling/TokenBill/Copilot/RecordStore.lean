import TokenBill.Copilot.SeatRecords
import TokenBill.Core.JsonText

/-!
# The Copilot record store

`copilot/record_store.py`: the tables of seats, activity days and configurations, the rows their
records are stored as and read back from, and `put`, which upserts the records of one ingest. A
table is the list of its rows under their record keys, in the order of the keys.
-/

namespace TokenBill.Copilot.Seats

open General
open Json (nat ofBool? ofInt? ofStr?)

/-! ### Records as JSON -/

/-- `to_json(license)`. -/
def LicenseSnapshot.toJson (l : LicenseSnapshot) : Json := .obj
  [("snapshot_date", .str l.snapshotDate), ("product", .str l.product), ("plan", .str l.plan),
   ("principal", .str l.principal), ("team", ofStr? l.team), ("cost_center", ofStr? l.costCenter),
   ("org", ofStr? l.org), ("seat_created", ofStr? l.seatCreated),
   ("pending_cancellation", ofStr? l.pendingCancellation), ("last_activity_bucket", .str l.lastActivityBucket),
   ("last_activity_surface", ofStr? l.lastActivitySurface),
   ("last_authenticated_bucket", .str l.lastAuthenticatedBucket), ("assigned_via_team", ofBool? l.assignedViaTeam),
   ("fetched_ms", nat l.fetchedMs), ("source_kind", .str l.sourceKind)]

def countsJson (counts : List (String × Nat)) : Json := .arr (counts.map fun c => .arr [.str c.1, nat c.2])

/-- `to_json(activity)`. -/
def ActivityDay.toJson (a : ActivityDay) : Json := .obj
  [("date_utc", .str a.dateUtc), ("product", .str a.product), ("principal", .str a.principal),
   ("team", ofStr? a.team), ("cost_center", ofStr? a.costCenter),
   ("reported_cost_nano", ofInt? a.reportedCostNano), ("counts", countsJson a.counts),
   ("flags", .arr (a.flags.map .str)), ("fetched_ms", nat a.fetchedMs), ("source_kind", .str a.sourceKind)]

def attrsJson (attrs : List (String × AttrValue)) : Json := .arr (attrs.map fun a => .arr [.str a.1, a.2.toJson])

/-- `to_json(config)`. -/
def configToJson (c : ConfigSnapshot) : Json := .obj
  [("snapshot_ms", nat c.snapshotMs), ("source_kind", .str c.sourceKind), ("kind", .str c.kind),
   ("entity_id", .str c.entityId), ("attrs", attrsJson c.attrs), ("fetched_ms", nat c.fetchedMs)]

/-! ### Rows -/

/-- A row of `copilot_license_snapshots`, less its key. -/
structure LicenseRow where
  (snapshotDate product plan principal : String)
  (team costCenter : Option String)
  org : String
  (seatCreated pendingCancellation : Option String)
  lastActivityBucket : String
  lastActivitySurface : Option String
  lastAuthenticatedBucket : String
  assignedViaTeam : Option Nat
  fetchedMs : Nat
  (sourceKind principalKeyId : String)
  deriving DecidableEq

/-- `_license_row`. -/
def licenseRow (l : LicenseSnapshot) (kid : String) : LicenseRow :=
  { snapshotDate := l.snapshotDate, product := l.product, plan := l.plan, principal := l.principal, team := l.team
    costCenter := l.costCenter, org := l.org.getD "", seatCreated := l.seatCreated
    pendingCancellation := l.pendingCancellation, lastActivityBucket := l.lastActivityBucket
    lastActivitySurface := l.lastActivitySurface, lastAuthenticatedBucket := l.lastAuthenticatedBucket
    assignedViaTeam := l.assignedViaTeam.map Bool.toNat, fetchedMs := l.fetchedMs, sourceKind := l.sourceKind
    principalKeyId := kid }

/-- `_license_of`: an empty organisation is read back as none. -/
def licenseOf (row : LicenseRow) : Option LicenseSnapshot :=
  let l : LicenseSnapshot :=
    { snapshotDate := row.snapshotDate, product := row.product, plan := row.plan, principal := row.principal
      team := row.team, costCenter := row.costCenter, org := if row.org = "" then none else some row.org
      seatCreated := row.seatCreated, pendingCancellation := row.pendingCancellation
      lastActivityBucket := row.lastActivityBucket, lastActivitySurface := row.lastActivitySurface
      lastAuthenticatedBucket := row.lastAuthenticatedBucket
      assignedViaTeam := row.assignedViaTeam.map fun n => decide (n ≠ 0), fetchedMs := row.fetchedMs
      sourceKind := row.sourceKind }
  if l.Valid then some l else none

/-- A row of `copilot_activity_days`, less its key. -/
structure ActivityRow where
  (dateUtc product principal : String)
  (team costCenter : Option String)
  reportedCostNano : Option Int
  (countsJson flags : String)
  fetchedMs : Nat
  (sourceKind principalKeyId : String)
  deriving DecidableEq

/-- `_activity_row`. -/
def activityRow (a : ActivityDay) (kid : String) : ActivityRow :=
  { dateUtc := a.dateUtc, product := a.product, principal := a.principal, team := a.team, costCenter := a.costCenter
    reportedCostNano := a.reportedCostNano, countsJson := Json.canonical (countsJson a.counts)
    flags := ",".intercalate a.flags, fetchedMs := a.fetchedMs, sourceKind := a.sourceKind, principalKeyId := kid }

/-- `_check_int64`. -/
def int64 (n : Option Int) : Bool := n.all fun n => decide (-(2 ^ 63) ≤ n ∧ n ≤ 2 ^ 63 - 1)

def pairOf : JsonValue → Option (String × JsonValue)
  | .arr [.str k, v] => some (k, v)
  | _ => none

/-- `json.loads` of a stored list of pairs. -/
def pairsOf (text : String) : Option (List (String × JsonValue)) :=
  match JsonText.loads text.toList with
  | some (.arr items) => items.mapM pairOf
  | _ => none

def intOf : JsonValue → Option Int
  | .num n => if n.scale = 0 then some n.mant else none
  | _ => none

/-- A stored count. -/
def countOf (p : String × JsonValue) : Option (String × Nat) :=
  match intOf p.2 with
  | some (.ofNat n) => some (p.1, n)
  | _ => none

/-- `_activity_of`. -/
def activityOf (row : ActivityRow) : Option ActivityDay :=
  match (pairsOf row.countsJson).bind (·.mapM countOf) with
  | none => none
  | some counts =>
    let a : ActivityDay :=
      { dateUtc := row.dateUtc, product := row.product, principal := row.principal, team := row.team
        costCenter := row.costCenter, reportedCostNano := row.reportedCostNano, counts
        flags := ((row.flags.toList.splitOn ',').map String.ofList).filter fun f => decide (f ≠ "")
        fetchedMs := row.fetchedMs, sourceKind := row.sourceKind }
    if a.Valid then some a else none

/-- A row of `copilot_config_snapshots`, less its key. -/
structure ConfigRow where
  snapshotMs : Nat
  (sourceKind kind entityId attrsJson : String)
  fetchedMs : Nat
  deriving DecidableEq

/-- `_config_row`. -/
def configRow (c : ConfigSnapshot) (_kid : String) : ConfigRow :=
  { snapshotMs := c.snapshotMs, sourceKind := c.sourceKind, kind := c.kind, entityId := c.entityId
    attrsJson := Json.canonical (attrsJson c.attrs), fetchedMs := c.fetchedMs }

/-- A stored attribute. -/
def attrOf (p : String × JsonValue) : Option (String × AttrValue) :=
  match p.2 with
  | .null => some (p.1, .null)
  | .bool b => some (p.1, .bool b)
  | .str s => some (p.1, .str s)
  | v => (intOf v).map fun n => (p.1, .int n)

/-- `_config_of`. -/
def configOf (row : ConfigRow) : Option ConfigSnapshot :=
  match (pairsOf row.attrsJson).bind (·.mapM attrOf) with
  | none => none
  | some attrs =>
    let c : ConfigSnapshot :=
      { snapshotMs := row.snapshotMs, sourceKind := row.sourceKind, kind := row.kind, entityId := row.entityId, attrs
        fetchedMs := row.fetchedMs }
    if validConfig c then some c else none

/-! ### Upserts -/

/-- `_source_rank`: a daily row over a 28-day rollup row. -/
def sourceRank (sourceKind : String) : Nat := if ".28day".toList.isSuffixOf sourceKind.toList then 0 else 1

/-- One of `_TABLES`: its records, with what orders them, and its rows. -/
structure RecordTable (α ρ : Type) where
  /-- `record_key`. -/
  key : α → String
  sourceKind : α → String
  fetchedMs : α → Nat
  /-- `to_json`. -/
  json : α → Json
  /-- The check of the row encoder. -/
  storable : α → Bool
  /-- `row_of`. -/
  row : α → String → ρ
  /-- `of`. -/
  record : ρ → Option α
  rowSourceKind : ρ → String
  rowFetchedMs : ρ → Nat

/-- The table of seats. -/
def licenseTable : RecordTable LicenseSnapshot LicenseRow :=
  { key := licenseKey, sourceKind := (·.sourceKind), fetchedMs := (·.fetchedMs), json := LicenseSnapshot.toJson
    storable := fun _ => true, row := licenseRow, record := licenseOf, rowSourceKind := (·.sourceKind)
    rowFetchedMs := (·.fetchedMs) }

/-- The table of activity days. -/
def activityTable : RecordTable ActivityDay ActivityRow :=
  { key := activityKey, sourceKind := (·.sourceKind), fetchedMs := (·.fetchedMs), json := ActivityDay.toJson
    storable := fun a => int64 a.reportedCostNano, row := activityRow, record := activityOf
    rowSourceKind := (·.sourceKind), rowFetchedMs := (·.fetchedMs) }

/-- The table of configurations. -/
def configTable : RecordTable ConfigSnapshot ConfigRow :=
  { key := Handoff.configKey, sourceKind := (·.sourceKind), fetchedMs := (·.fetchedMs), json := configToJson
    storable := fun _ => true, row := configRow, record := configOf, rowSourceKind := (·.sourceKind)
    rowFetchedMs := (·.fetchedMs) }

namespace RecordTable

variable {α ρ : Type} (T : RecordTable α ρ)

/-- `stable_id("rk", record_key(rec))`. -/
def recKey (h : Hashes) (rec : α) : String := h.stableId "rk" [T.key rec]

/-- `_canonical`. -/
def canonical (rec : α) : String := Json.canonical (T.json rec)

def order (rec : α) : Nat ×ₗ Nat ×ₗ String :=
  toLex (sourceRank (T.sourceKind rec), toLex (T.fetchedMs rec, T.canonical rec))

/-- The larger of two versions of one batch, the first of equals. -/
def larger (cur : Option α) (rec : α) : α :=
  match cur with
  | none => rec
  | some b => if T.order b < T.order rec then rec else b

def best (h : Hashes) (recs : List α) : List (String × α) := collect (T.recKey h) T.larger recs

/-- Whether a record is written over the row of its key. No row is read back unless it ties with the record. -/
def writes (old : Option ρ) (rec : α) : Option Bool :=
  match old with
  | none => some true
  | some old =>
    let newOrder : Nat ×ₗ Nat := toLex (sourceRank (T.sourceKind rec), T.fetchedMs rec)
    let oldOrder : Nat ×ₗ Nat := toLex (sourceRank (T.rowSourceKind old), T.rowFetchedMs old)
    if newOrder < oldOrder then some false
    else if newOrder = oldOrder then
      (T.record old).map fun o => !decide (T.canonical rec ≤ T.canonical o)
    else some true

/-- One key of `_upsert`. A key has one row, so the writes of a batch do not meet. -/
def upsertOne (kid : String) (table : List (String × ρ)) (e : String × α) : Option (List (String × ρ)) :=
  match T.writes (table.lookup e.1) e.2 with
  | none => none
  | some false => some table
  | some true => if T.storable e.2 then some (insertKey e.1 (T.row e.2 kid) table) else none

/-- `_upsert`: none if a record is refused or a row cannot be read back. -/
def upsert (h : Hashes) (table : List (String × ρ)) (recs : List α) (kid : String) : Option (List (String × ρ)) :=
  (T.best h recs).foldlM (T.upsertOne kid) table

end RecordTable

/-! ### Puts -/

/-- The tables of the store. -/
structure RecordTables where
  licenses : List (String × LicenseRow) := []
  activity : List (String × ActivityRow) := []
  config : List (String × ConfigRow) := []
  deriving DecidableEq

/-- A call of `put`, and the `meta` table of the ledger it finds. -/
structure Put where
  ledgerMeta : Option (List (String × String))
  principalKeyId : Option String
  licenses : List LicenseSnapshot := []
  activity : List ActivityDay := []
  config : List ConfigSnapshot := []

/-- What `put` returns. -/
structure PutCounts where
  licenses : Nat := 0
  activity : Nat := 0
  config : Nat := 0
  skipped : Nat := 0
  principalKeyMismatch : Nat := 0

/-- `accepted_key_ids`. -/
def acceptedKeyIds (ledgerMeta : Option (List (String × String))) : List String :=
  match ledgerMeta with
  | none => []
  | some rows =>
    ((rows.filter fun r => decide (r.1 ∈ ["org_key_id", "adopted_key_id"])).map (·.2)).filter fun v => decide (v ≠ "")

def Put.people (p : Put) : Nat := p.licenses.length + p.activity.length

/-- The key id under which the people's records of a put are stored, if they are. -/
def Put.acceptedKid (p : Put) : Option String :=
  p.principalKeyId.filter fun kid => decide (kid ∈ acceptedKeyIds p.ledgerMeta)

/-- The part of `put` that stores the seats and activity days. -/
def putPeople (h : Hashes) (t : RecordTables) (p : Put) :
    Option (List (String × LicenseRow) × List (String × ActivityRow) × PutCounts) :=
  if p.people = 0 then some (t.licenses, t.activity, {})
  else
    match p.acceptedKid with
    | none => some (t.licenses, t.activity, { skipped := p.people, principalKeyMismatch := p.people })
    | some kid => do
      let licenses ← licenseTable.upsert h t.licenses p.licenses kid
      let activity ← activityTable.upsert h t.activity p.activity kid
      pure (licenses, activity, { licenses := p.licenses.length, activity := p.activity.length })

/-- `put`: the tables after it and what it counts; none if it raises and is rolled back. -/
def put (h : Hashes) (t : RecordTables) (p : Put) : Option (RecordTables × PutCounts) := do
  let (licenses, activity, counts) ← putPeople h t p
  let config ← configTable.upsert h t.config p.config ""
  pure (⟨licenses, activity, config⟩, { counts with config := p.config.length })

def runPuts (h : Hashes) (puts : List Put) : Option RecordTables := puts.foldlM (fun t p => (put h t p).map (·.1)) {}

end TokenBill.Copilot.Seats
