import TokenBill.Core.Findings
import Mathlib.Algebra.Order.Ring.Rat

/-!
# Collecting the spans of VS Code

`DatabaseCursor`, `_read_db`, `_recreated`, `_collect_db` and `_dedupe_rows` of
`adapters/copilot_vscode_collect.py`: a run reads the spans of a database that start after the mark,
or in the six hours before it where their id is not remembered, writes them to an extract and moves
the cursor on. Of a span the columns are kept that decide whether it is extracted. Whether an extract
aborts (it is scanned for secrets once it is written) is an input of a run.
-/

namespace TokenBill.Vscode

/-! ### Rows -/

/-- A value of SQLite. -/
inductive SqlValue where
  | null
  | int (n : ℤ)
  | real (q : ℚ)
  | text (s : String)
  | blob (bytes : List ℕ)
  deriving DecidableEq

def SqlValue.rank : SqlValue → ℕ
  | null => 0 | int _ => 1 | real _ => 1 | text _ => 2 | blob _ => 3

/-- The value as it is compared: a number is its amount. -/
def SqlValue.key (v : SqlValue) : ℕ ×ₗ ℚ ×ₗ String ×ₗ List ℕ :=
  let number : ℚ := match v with
    | int n => n
    | real q => q
    | _ => 0
  let text := match v with
    | text s => s
    | _ => ""
  let bytes := match v with
    | blob bytes => bytes
    | _ => []
  toLex (v.rank, toLex (number, toLex (text, bytes)))

/-- `bool(value)`. -/
def SqlValue.truthy : SqlValue → Bool
  | null => false
  | int n => n ≠ 0
  | real q => q ≠ 0
  | text s => s ≠ ""
  | blob bytes => bytes ≠ []

/-- `_text_ok`: a text of at most `MAX_TEXT_BYTES`. -/
def SqlValue.textOk : SqlValue → Bool
  | text s => decide (s.utf8ByteSize ≤ 256)
  | _ => true

/-- A row of `spans` with its allowlisted rows of `span_attributes`. -/
structure Span where
  (spanId traceId startTimeMs : SqlValue)
  endTimeMs : SqlValue := .int 0
  statusCode : SqlValue := .int 0
  operationName : SqlValue := .null
  conversationId : SqlValue := .null
  attrs : List (String × SqlValue) := []
  deriving DecidableEq

/-- `(start_time_ms, span_id)`. -/
abbrev Mark : Type := ℤ ×ₗ String

/-- The mark of a span whose ids and start have their types. -/
def Span.mark? (s : Span) : Option Mark :=
  match s.spanId, s.startTimeMs, s.traceId with
  | .text id, .int start, .text _ => some (toLex (start, id))
  | _, _, _ => none

/-! ### Cursors -/

/-- `LATE_WINDOW_MS`. -/
def lateWindowMs : ℤ := 6 * 3600000

/-- `MAX_RECENT_IDS`. -/
def maxRecentIds : ℕ := 50000

/-- `DatabaseCursor`: the mark, the start and digest of the head, and the remembered spans. -/
structure Cursor where
  mark : Option Mark := none
  head : Option (ℤ × String) := none
  recent : List Mark := []

/-- `sorted(pairs)[-MAX_RECENT_IDS:]` of a set of pairs. -/
def lastRecent (pairs : List Mark) : List Mark :=
  let sorted := pairs.dedup.insertionSort (· ≤ ·)
  sorted.drop (sorted.length - maxRecentIds)

/-- `DatabaseCursor.to_json`. -/
def Cursor.toJson (c : Cursor) : Json := .obj
  [("mark_start_ms", Json.ofInt? (c.mark.map fun m => (ofLex m).1)),
   ("mark_span_id", Json.ofStr? (c.mark.map fun m => (ofLex m).2)),
   ("head_start_ms", Json.ofInt? (c.head.map (·.1))), ("head_sha", Json.ofStr? (c.head.map (·.2))),
   ("recent", .arr (c.recent.map fun p => .arr [.int (ofLex p).1, .str (ofLex p).2]))]

/-- A start and a text, both there or both absent. -/
def pairOf : Json → Json → Option (Option (ℤ × String))
  | .null, .null => some none
  | .int n, .str s => some (some (n, s))
  | _, _ => none

def recentOf : Json → Option Mark
  | .arr [.int n, .str s] => some (toLex (n, s))
  | _ => none

/-- `DatabaseCursor.from_json`: nothing when a field has the wrong type. -/
def Cursor.fromJson : Json → Option Cursor
  | .obj fields => do
    let get := fun name => (fields.lookup name).getD .null
    let mark ← pairOf (get "mark_start_ms") (get "mark_span_id")
    let head ← pairOf (get "head_start_ms") (get "head_sha")
    let recent ← match (fields.lookup "recent").getD (.arr []) with
      | .arr items => items.mapM recentOf
      | _ => none
    pure ⟨mark.map toLex, head, lastRecent recent⟩
  | _ => none

/-! ### Reading -/

/-- What one read transaction saw. -/
structure Snapshot where
  oldest : Option Mark
  (markPresent headPresent restarted : Bool)
  rows : List Span
  lo : Option ℤ

/-- `ORDER BY start_time_ms, span_id`. -/
def sqlOrder (db : List Span) : List Span :=
  db.insertionSort fun a b => toLex (a.startTimeMs.key, a.spanId.key) ≤ toLex (b.startTimeMs.key, b.spanId.key)

/-- `_head_key_sha`. -/
def headKeySha (h : Hashes) (start : ℤ) (spanId : String) : String :=
  h.sha256 (toString start ++ "\x1f" ++ spanId)

/-- The first row, where its start and id have their types. -/
def oldestOf (db : List Span) : Option Mark :=
  match (sqlOrder db).head? with
  | none => none
  | some s =>
    match s.startTimeMs, s.spanId with
    | .int start, .text id => some (toLex (start, id))
    | _, _ => none

/-- The span of the mark is there, with its start. -/
def isMarkPresent (db : List Span) (mark : Mark) : Bool :=
  match db.find? fun s => decide (s.spanId = .text (ofLex mark).2) with
  | none => false
  | some s => decide (s.startTimeMs.key = (SqlValue.int (ofLex mark).1).key)

/-- A span is there with the start and digest of the head. -/
def isHeadPresent (h : Hashes) (db : List Span) (head : ℤ × String) : Bool :=
  db.any fun s => decide (s.startTimeMs.key = (SqlValue.int head.1).key) &&
    match s.spanId with
    | .text id => decide (headKeySha h head.1 id = head.2)
    | _ => false

/-- `_recreated`. -/
def recreated (cur : Cursor) (oldest : Option Mark) (markPresent headPresent : Bool) : Bool :=
  match cur.mark, oldest with
  | some mark, some oldest =>
    if markPresent then false
    else if mark < oldest then false
    else match cur.head with
      | none => true
      | some head => decide ((ofLex oldest).1 < head.1) || (decide ((ofLex oldest).1 = head.1) && !headPresent)
  | _, _ => false

/-- `start_time_ms >= lo`, nothing for a missing start. -/
def startsFrom (lo : Option ℤ) (s : Span) : Bool :=
  lo.all fun lo => decide (s.startTimeMs ≠ .null ∧ (SqlValue.int lo).key ≤ s.startTimeMs.key)

/-- The spans of the traces that have a span from `lo` on, in order. -/
def selectRows (db : List Span) (lo : Option ℤ) : List Span :=
  let traces := (db.filter (startsFrom lo)).map fun s => s.traceId.key
  sqlOrder (db.filter fun s => decide (s.traceId ≠ .null ∧ s.traceId.key ∈ traces))

/-- `_read_db`. -/
def readDb (h : Hashes) (db : List Span) (cur : Option Cursor) : Snapshot :=
  let oldest := oldestOf db
  let mark := cur.bind (·.mark)
  let markPresent := mark.elim false (isMarkPresent db)
  let headPresent := (cur.bind (·.head)).elim false (isHeadPresent h db)
  let restarted := cur.elim false fun cur => recreated cur oldest markPresent headPresent
  let lo := if restarted then none else mark.map fun m => (ofLex m).1 - lateWindowMs
  ⟨oldest, markPresent, headPresent, restarted, selectRows db lo, lo⟩

/-! ### Synthesized spans -/

/-- `attrs.get(key)`. -/
def Span.attr (s : Span) (key : String) : SqlValue := (s.attrs.reverse.lookup key).getD .null

def Span.isChat (s : Span) : Bool :=
  s.operationName = .text "chat" || s.attr "gen_ai.operation.name" = .text "chat"

def Span.isNative (s : Span) : Bool := (s.attr "gen_ai.response.id").truthy

def Span.group (s : Span) : (ℕ ×ₗ ℚ ×ₗ String ×ₗ List ℕ) × (ℕ ×ₗ ℚ ×ₗ String ×ₗ List ℕ) :=
  (s.traceId.key,
   (if s.conversationId.truthy then s.conversationId else s.attr "gen_ai.conversation.id").key)

/-- `_dedupe_rows`: a synthesized chat span of a trace and conversation that has a native one. -/
def isSynthesized (rows : List Span) (s : Span) : Bool :=
  s.isChat && !s.isNative && rows.any fun r => r.isChat && r.isNative && decide (r.group = s.group)

def Span.isWritable (s : Span) : Bool :=
  s.spanId.textOk && s.traceId.textOk && s.startTimeMs.textOk && s.endTimeMs.textOk && s.statusCode.textOk

/-! ### A run -/

/-- What a run does with a database: the cursor afterwards, the spans of the extract, the dropped
duplicates and the spans that are too long. -/
structure DbRun where
  cursor : Option Cursor
  extract : List Span := []
  dropped : List Span := []
  oversize : List Span := []
  aborted : Bool := false

/-- A span that was not read yet. -/
def isNew (lo : Option ℤ) (mark : Option Mark) (recentIds : List String) (s : Span) : Bool :=
  s.mark?.elim false fun p =>
    lo.all (fun lo => decide (lo ≤ (ofLex p).1)) &&
      (mark.all (fun mark => decide (mark < p)) || decide ((ofLex p).2 ∉ recentIds))

/-- The mark and the remembered spans after some spans are processed. -/
def advance (cur : Cursor) (processed : List Mark) : Cursor :=
  match processed with
  | [] => cur
  | p :: ps =>
    let top := ps.foldl max p
    let mark := cur.mark.elim top (max top)
    let floor := (ofLex mark).1 - lateWindowMs
    { cur with
      mark := some mark
      recent := lastRecent ((cur.recent ++ processed).filter fun p => decide (floor ≤ (ofLex p).1)) }

/-- The cursor a run goes on from: none where the database was recreated. -/
def startCursor (h : Hashes) (db : List Span) (cur : Option Cursor) : Option Cursor :=
  if (readDb h db cur).restarted then none else cur

/-- The spans a run reads for the first time. -/
def newSpans (h : Hashes) (db : List Span) (cur : Option Cursor) : List Span :=
  let start := startCursor h db cur
  (readDb h db cur).rows.filter
    (isNew (readDb h db cur).lo (start.bind (·.mark)) ((start.elim [] (·.recent)).map fun p => (ofLex p).2))

/-- The cursor after a run that is not aborted. -/
def nextCursor (h : Hashes) (db : List Span) (cur : Option Cursor) (processed : List Mark) : Cursor :=
  let next := advance ((startCursor h db cur).getD {}) processed
  match oldestOf db with
  | none => next
  | some oldest => { next with head := some ((ofLex oldest).1, headKeySha h (ofLex oldest).1 (ofLex oldest).2) }

/-- `_collect_db` of a database that can be read. -/
def collectDb (h : Hashes) (db : List Span) (cur : Option Cursor) (aborts : Bool) : DbRun :=
  let rows := (readDb h db cur).rows
  let new := newSpans h db cur
  let kept := new.filter fun s => !isSynthesized rows s
  let dropped := new.filter (isSynthesized rows)
  let extract := kept.filter (·.isWritable)
  if aborts && decide (extract ≠ []) then { cursor := cur, aborted := true }
  else
    { cursor := some (nextCursor h db cur ((kept ++ dropped).filterMap (·.mark?))), extract, dropped
      oversize := kept.filter fun s => !s.isWritable }

end TokenBill.Vscode
