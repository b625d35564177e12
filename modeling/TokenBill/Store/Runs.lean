import TokenBill.Store.Aggregate
import TokenBill.Store.Retention

/-!
# Runs of a store

The operations of a store that change its database, as steps, and runs of them. An
operation that raises leaves the database of the last commit, so a run goes on from
there.
-/

namespace TokenBill.Store

open General

/-! ### Repricing and findings -/

/-- The new prices of a request in a repriced window. -/
def repriceRow (p : Pricer) (inWindow : RequestRow → Bool) (r : RequestRow) : RequestRow :=
  if inWindow r then
    { r with inferences := r.inferences.map fun i =>
      if billable i then
        { i with priced := pricedTuple (p.priceInference i.inference i.tsMs) (some p.rateCardSha256) }
      else i }
  else r

/-- The repricing of some requests: the dates of those with a billable inference become stale. -/
def Work.reprice (w : Work) (p : Pricer) (inWindow : RequestRow → Bool) : Work :=
  let touched := w.db.requests.filter fun r => inWindow r && r.inferences.any billable
  if touched.isEmpty then w
  else
    let w := w.recordBasis (some p)
    let repriced := { w.db with requests := w.db.requests.map (repriceRow p inWindow) }
    { w with db := markDirty repriced (touched.map (·.dateUtc)) }

/-- `SqliteStore.reprice`. -/
def reprice (s : SqliteStore) (p : Pricer) (since until_ : Nat) : SqliteStore :=
  let w := Work.reprice { db := s.db, committed := s.db, mem := s.mem } p fun r =>
    decide (since ≤ r.request.tsStartMs ∧ r.request.tsStartMs < until_)
  ⟨w.db, w.mem⟩

/-- `put_findings`: a later put of an id replaces it, and the run becomes the most recent one. -/
def putFindings (db : Db) (now : Nat) (runId : String) (findings : List Finding) : Db :=
  let old := (db.findings.filter fun f => decide (f.runId = runId)).map (·.finding)
  let run := findings.foldl (fun run f => upsert (·.findingId) f run) old
  { db with findings := (db.findings.filter fun f => decide (f.runId ≠ runId)) ++
      run.map fun f => ⟨runId, f, now⟩ }

/-! ### Steps -/

/-- An operation on a store. -/
inductive Op where
  | ingest (now : Nat) (result : IngestResult) (pricer : Option Pricer)
  | purge (now : Nat) (principal : Option Principal) (beforeMs : Option Nat) (actor : String)
  | delete (which : RequestRow → Bool)
  | retention (now : Nat) (days : RetentionDays)
  | reprice (pricer : Pricer) (since until_ : Nat)
  | refresh (dates : Option (List Nat))
  | clusterDays (readOnly : Bool) (kind : ClusterKind) (since until_ : Nat)
  | putFindings (now : Nat) (runId : String) (findings : List Finding)

/-- `refresh_rollups` of some dates, or of the stale ones. -/
def refreshOf (db : Db) : Option (List Nat) → Db
  | some dates => refreshDates db dates
  | none => refreshRollups db

/-- The store after an operation, also after one that raised. -/
def step (cfg : Config) (s : SqliteStore) : Op → SqliteStore
  | .ingest now result pricer => (ingest cfg now s result pricer).1
  | .purge now principal beforeMs actor => (purge cfg now s principal beforeMs actor).1
  | .delete which => { s with db := (deleteRequests s.db which).1 }
  | .retention now days =>
    match applyRetention cfg.hashes s.db now days with
    | .ok db => { s with db }
    | .error _ => s
  | .reprice pricer since until_ => reprice s pricer since until_
  | .refresh dates => { s with db := refreshOf s.db dates }
  | .clusterDays readOnly kind since until_ =>
    { s with db := (clusterDays s.db readOnly kind since until_).1 }
  | .putFindings now runId findings => { s with db := putFindings s.db now runId findings }

def run (cfg : Config) (s : SqliteStore) (ops : List Op) : SqliteStore := ops.foldl (step cfg) s

/-- Every operation of a run meets a condition in the state it starts from. -/
def EachStep (cfg : Config) (C : SqliteStore → Op → Prop) (s : SqliteStore) : List Op → Prop
  | [] => True
  | op :: ops => C s op ∧ EachStep cfg C (step cfg s op) ops

/-- An invariant of the operations that meet a condition holds after every run of them. -/
theorem run_inv {cfg : Config} {C : SqliteStore → Op → Prop} {I : SqliteStore → Prop}
    (hstep : ∀ s op, I s → C s op → I (step cfg s op)) {s : SqliteStore} (hs : I s) {ops : List Op}
    (hops : EachStep cfg C s ops) : I (run cfg s ops) := by
  induction ops generalizing s with
  | nil => exact hs
  | cons op ops ih => exact ih (hstep s op hs hops.1) hops.2

/-! ### A small ledger -/

def sampleConfig : Config where
  hashes := ⟨id, fun key value => key ++ value, id⟩
  orgKey := some "k"

def sampleStore : SqliteStore := .create sampleConfig none

/-- A request of one inference on the first day. -/
def sampleRequest (requestId : String) (principal : Option Principal) : Request where
  requestId := requestId
  sessionKey := "s"
  laneKey := "l"
  seq := 0
  attribution := { principal, team := some "t" }
  params := { modelRequested := "m" }
  attempts := [.plain ("at_" ++ requestId) 0 0 [{
    inferenceId := "inf_" ++ requestId, kind := .message, usage := .empty
    pricing := { provider := "anthropic", channel := "api", model := "m", modelRaw := "m" } }]]
  attempts_ne := by simp

def sampleSource (sourceId : String) : SourceInfo :=
  { sourceId, adapter := "otlp", nameHmac := "n", sha256 := "sha", bytes := 0, nameKeyId := none
    principalKeyId := some "k" }

/-- A session with a shell of the lane of the sample requests. -/
def sampleSession (attribution : Attribution) : Session where
  sessionKey := "s"
  sourceKind := "otlp"
  attribution := attribution
  lanes := [{ laneKey := "l", sessionKey := "s", kind := .main, parentLaneKey := none
              cacheScopeKey := "c", requests := [] }]
  startedMs := 0
  endedMs := 0

end TokenBill.Store
