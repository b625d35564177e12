import TokenBill.Adapters.TraceReader

/-!
# The writer of traces

`TraceV2Writer`: every record is encoded canonically and read by a reader before it is written. The blocks of a
fingerprint that are new, or are not as they were defined last, are written in a record of their own before the request
that uses them, and a request names the blocks after those it shares with the last request of its lane. The state of a
writer is what is written, the tables of its reader, the definitions and the fingerprints written last, and the number
of records; a call that raises leaves the state that it has reached.
-/

namespace TokenBill.TraceV2

open General Codec RawUsage

/-- What writing raises: a `ContractViolation`, a `UsageError`, or another error of the host. -/
inductive WriteError where
  | violation (text : String)
  | usage (text : String)
  | host

/-- `_def_key`: a block without its position. -/
abbrev DefKey : Type := List RecordVal

/-- `TraceV2Writer`. -/
structure Writer where
  /-- What the handle was given. -/
  out : List Char
  reader : Reader
  emitted : List (String × DefKey) := []
  last : List (String × String × List RecordVal) := []
  count : Nat

/-- Writing. -/
abbrev Write : Type → Type := Kept WriteError Writer

/-- A document of a value, or its `TypeError`. -/
def encoded (v : RecordVal) : Except WriteError Json := (enc schema v).mapError fun _ => .host

/-- The members of the document of a record. -/
def members (v : RecordVal) : Except WriteError Members :=
  match toJson schema v with
  | .ok (.obj fields) => .ok fields
  | _ => .error .host

def fieldJson (v : RecordVal) (name : String) : Except WriteError (String × Json) :=
  (name, ·) <$> encoded (getField v name)

def recordOf (kind : String) (d : Members) : Members := ("rec", .str kind) :: ("schema", .str schemaName) :: d

/-- The names of `_def_key`. -/
def defKeyNames : List String :=
  ["h", "h_sorted", "h_norm", "tier", "kind", "role", "n_bytes", "est_tokens", "image_px", "volatile_classes",
    "deferred"]

/-- `_def_key`. -/
def defKey (b : RecordVal) : DefKey := defKeyNames.map (getField b)

def hashOf (b : RecordVal) : String := (getField b "h").toText

/-- What the loop of `_fp` has seen: the keys of the blocks by their hashes, and the documents of the fresh ones. -/
structure Fresh where
  seen : List (String × DefKey) := []
  fresh : List (String × Members) := []

/-- Another block of the loop of `_fp`. -/
def Fresh.next (emitted : List (String × DefKey)) (f : Fresh) (b : RecordVal) : Except WriteError Fresh :=
  let h := hashOf b
  let k := defKey b
  match f.seen.lookup h with
  | some prior =>
    if Val.pyEqItems prior k then .ok f else .error (.violation "trace@2 writer: two blocks share a hash")
  | none =>
    let seen := f.seen ++ [(h, k)]
    if (emitted.lookup h).any fun k' => Val.pyEqItems k' k then .ok { f with seen }
    else do
      let d ← members b
      .ok { seen, fresh := f.fresh ++ [(h, d.filter fun m => decide (m.1 ≠ "lookback_pos"))] }

/-- The blocks of a fingerprint that are to be defined, if its key is that of the header. -/
def freshBlocks (w : Writer) (fp : RecordVal) : Except WriteError Fresh :=
  if (getField fp "key_id").text? ≠ w.reader.header.fpKeyId then
    .error (.violation "trace@2 writer: fingerprint key id differs from fp_key_id")
  else (getField fp "blocks").items.foldlM (Fresh.next w.emitted) {}

def blocksRecord (fp : RecordVal) (f : Fresh) : Members :=
  recordOf "blocks" [("key_id", .str (getField fp "key_id").toText), ("blocks", .arr (f.fresh.map fun b => .obj b.2))]

def defined (emitted : List (String × DefKey)) (f : Fresh) : List (String × DefKey) :=
  f.fresh.foldl (fun table b => upsert Prod.fst (b.1, (f.seen.lookup b.1).getD []) table) emitted

def shared : List RecordVal → List RecordVal → Nat
  | a :: as, b :: bs => if Val.pyEqItems (defKey a) (defKey b) then shared as bs + 1 else 0
  | _, _ => 0

/-- The delta of a fingerprint. -/
def deltaOf (w : Writer) (r fp : RecordVal) : Except WriteError Json := do
  let blocks := (getField fp "blocks").items
  let last := w.last.lookup (getField r "lane_key").toText
  let keep := (last.map fun l => shared l.2 blocks).getD 0
  let markers ← (getField (getField r "params") "breakpoints").items.mapM fun bp => do
    .ok (Json.arr [← encoded (getField bp "block_index"), ← encoded (getField bp "ttl")])
  let tierEnd ← encoded (getField fp "tier_end")
  .ok (.obj [("parent", ((last.map fun l => Json.str l.1).getD .null)), ("keep", .int keep),
    ("append", .arr ((blocks.drop keep).map fun b => .str (hashOf b))), ("markers", .arr markers),
    ("tier_end", tierEnd)])

mutual

/-- What is sanitized, as a document. What is kept of texts and keys is ASCII. -/
def ofPy : PyJson (List Nat) → Json
  | .null => .null
  | .bool b => .bool b
  | .int n => .int n
  | .float _ => .null
  | .str s => .str (String.ofList (s.map Char.ofNat))
  | .list items => .arr (ofPyItems items)
  | .dict fields => .obj (ofPyFields fields)

def ofPyItems : List (PyJson (List Nat)) → List Json
  | [] => []
  | v :: items => ofPy v :: ofPyItems items

def ofPyFields : PyJson.Dict (List Nat) → Members
  | [] => []
  | (k, v) :: fields => (String.ofList (k.map Char.ofNat), ofPy v) :: ofPyFields fields

end

section

variable (host : Host)

/-- `_attempt` of the writer. -/
def attemptJson (a : RecordVal) : Except WriteError Json := do
  let d ← members a
  let raw := sanitizeRawUsage host.jsonDepth ((text? (get d "raw_usage_json")).map String.toList)
  .ok (.obj (d.filter (fun m => decide (m.1 ≠ "raw_usage_json")) ++ [("raw_usage", (raw.map ofPy).getD .null)]))

/-- The record of a request, with its delta. -/
def requestRecord (r : RecordVal) (fp : Json) : Except WriteError Members := do
  let params ← fieldJson r "params"
  let named ← ["request_id", "session_key", "lane_key", "seq", "attribution", "appended", "source"].mapM (fieldJson r)
  let attempts ← (getField r "attempts").items.mapM (attemptJson host)
  .ok (recordOf "request" (named ++ [params, ("fp", fp), ("attempts", .arr attempts)]))

/-- `_line`. -/
def line (record : Members) : Write Unit := fun w =>
  match (decode host record).exec w.reader with
  | (.ok _, reader) =>
    (.ok (), { w with out := w.out ++ Json.render (.obj record) ++ ['\n'], reader, count := w.count + 1 })
  | (.error (.bad reason), reader) =>
    (.error (.violation ("trace@2 writer: " ++ (text? (get record "rec")).getD "" ++ ": " ++ reason)), { w with reader })
  | (.error .host, reader) => (.error .host, { w with reader })

def laneRecord (l : RecordVal) : Except WriteError Members := do
  let d ← members l
  .ok (recordOf "lane" (d.filter fun m => decide (m.1 ∉ ["requests", "events"])))

/-- `lane`. -/
def Writer.lane (l : RecordVal) : Write Unit := do
  let record ← Kept.ofExcept (laneRecord l)
  line host record

def sessionRecord (s : RecordVal) : Except WriteError Members := do
  let d ← members s
  .ok (recordOf "session" (d.filter fun m => decide (m.1 ≠ "lanes")))

/-- `session`. -/
def Writer.session (s : RecordVal) : Write Unit := do
  let record ← Kept.ofExcept (sessionRecord s)
  line host record
  (getField s "lanes").items.forM (Writer.lane host)

/-- Fresh blocks are written and kept as defined. -/
def define (fp : RecordVal) (f : Fresh) : Write Unit :=
  if f.fresh = [] then pure ()
  else do
    line host (blocksRecord fp f)
    modify fun w => { w with emitted := defined w.emitted f }

/-- `_fp`. -/
def Writer.fp (r fp : RecordVal) : Write Json := do
  let fresh ← Kept.ofExcept (freshBlocks (← MonadState.get) fp)
  define host fp fresh
  Kept.ofExcept (deltaOf (← MonadState.get) r fp)

/-- The fingerprint of a request that a writer of the profile writes. -/
def written (hdr : TraceHeader) (r : RecordVal) : Option RecordVal :=
  match getField r "fingerprint" with
  | .none => none
  | fp => if hdr.profile ∈ fingerprintProfiles then some fp else none

/-- The fingerprint of a lane is kept as its last. -/
def keepLast (r fp : RecordVal) : Write Unit :=
  modify fun w => { w with
    last := upsert Prod.fst ((getField r "lane_key").toText, (getField r "request_id").toText,
      (getField fp "blocks").items) w.last }

/-- `request`. -/
def Writer.request (r : RecordVal) : Write Unit := do
  match written (← MonadState.get).reader.header r with
  | none => do
    let record ← Kept.ofExcept (requestRecord host r .null)
    line host record
  | some fp => do
    let delta ← Writer.fp host r fp
    let record ← Kept.ofExcept (requestRecord host r delta)
    line host record
    keepLast r fp

/-- The attributes of an event as an object: of a name that comes twice the last value. -/
def attrsJson (attrs : List RecordVal) : Except WriteError Members :=
  attrs.foldlM (fun d kv => do
    let value ← encoded (kv.items.tail.head?.getD .none)
    .ok (upsert Prod.fst (pairKey kv, value) d)) []

/-- `event`. -/
def Writer.event (e : RecordVal) : Write Unit := do
  let record ← Kept.ofExcept do
    let named ← ["lane_key", "ts_ms", "kind"].mapM (fieldJson e)
    let attrs ← attrsJson (getField e "attrs").items
    .ok (recordOf "event" (named ++ [("attrs", .obj attrs)]))
  line host record

/-- A record of a kind with the members of its document: `aggregate`, `cost_line` and `outcome`. -/
def Writer.plain (kind : String) (v : RecordVal) : Write Unit := do
  let record ← Kept.ofExcept (recordOf kind <$> members v)
  line host record

/-- `note`. -/
def Writer.note (n : RecordVal) : Write Unit := do
  let record ← Kept.ofExcept (recordOf "dq" <$> ["code", "severity", "count", "detail", "tokens"].mapM (fieldJson n))
  line host record

/-- `content`. -/
def Writer.content (h text : String) : Write Unit := do
  let hdr := (← MonadState.get).reader.header
  if hdr.profile ≠ "full" then Kept.ofExcept (.error (.usage "content records need the full profile"))
  else line host (recordOf "content" [("h", .str h), ("text", .str text)])

/-- A call of a writer. -/
inductive Call where
  | session (s : RecordVal)
  | lane (l : RecordVal)
  | request (r : RecordVal)
  | event (e : RecordVal)
  | aggregate (a : RecordVal)
  | costLine (c : RecordVal)
  | outcome (o : RecordVal)
  | note (n : RecordVal)
  | content (h text : String)

/-- What a call does. -/
def Call.run : Call → Write Unit
  | .session s => Writer.session host s
  | .lane l => Writer.lane host l
  | .request r => Writer.request host r
  | .event e => Writer.event host e
  | .aggregate a => Writer.plain host "aggregate" a
  | .costLine c => Writer.plain host "cost_line" c
  | .outcome o => Writer.plain host "outcome" o
  | .note n => Writer.note host n
  | .content h text => Writer.content host h text

def Writer.after (w : Writer) (c : Call) : Writer := ((c.run host).exec w).2

def Writer.afterAll (w : Writer) (calls : List Call) : Writer := calls.foldl (Writer.after host) w

end

/-- `_header_json`. -/
def headerRecord (hdr : TraceHeader) : Except WriteError Members := do
  let attribution ← encoded hdr.attribution
  .ok (recordOf "header"
    [("trace_id", .str hdr.traceId), ("profile", .str hdr.profile), ("name_key_id", .ofStr? hdr.nameKeyId),
      ("principal_key_id", .ofStr? hdr.principalKeyId), ("fp_key_id", .ofStr? hdr.fpKeyId),
      ("identity_mode", .str hdr.identityMode), ("producer", .obj (hdr.producer.map fun p => (p.1, .str p.2))),
      ("created_ms", .nat hdr.createdMs), ("attribution", attribution)])

/-- `TraceV2Writer(handle, header)`, of a header that its reader accepts. -/
def Writer.new (hdr : TraceHeader) : Except WriteError Writer := do
  let record ← headerRecord hdr
  .ok { out := Json.render (.obj record) ++ ['\n'], reader := { header := hdr }, count := 1 }

end TokenBill.TraceV2
