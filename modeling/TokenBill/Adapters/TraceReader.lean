import TokenBill.Adapters.RawUsage
import TokenBill.Core.RecordTypes
import TokenBill.General.Lookaside

/-!
# The reader of traces, as the writer asks it

`adapters/trace_v2.py`: `_Reader._decode` on the canonical text of a document. Documents have closed key sets, taken
from the fields of the records; texts, numbers and pseudonyms are checked by the profile and the keys of the header;
and three tables carry what later documents are read against: the definitions of blocks, the blocks of the requests
with a fingerprint, and the requests seen.

The writer drops the records that the reader builds, so only what the tables hold of them is kept: of a block the
members of its document, and its position. A constructor is a parameter: what it says of the members of a document.
Documents have no floats, texts no lone surrogates, and the header has been read.
-/

namespace TokenBill.TraceV2

open General Codec RawUsage

/-! ### Errors -/

/-- What reading raises: a `_Bad`, or an error that is not caught. -/
inductive Raised where
  | bad (reason : String)
  | host

/-- `_Bad`. -/
def bad {α : Type} (reason : String) : Except Raised α := .error (.bad reason)

/-- The members of an object. -/
abbrev Members : Type := List (String × Json)

/-- What a constructor refuses. -/
inductive Refusal where
  /-- A `ContractViolation`. -/
  | violation (text : String)
  | typeError
  | other

/-- What is not modelled: the constructors of the records, on the members of a document, and how deep the JSON reader
of the host nests. -/
structure Host where
  construct : RecordType → Members → Option Refusal
  jsonDepth : Nat

/-! ### Texts -/

/-- `[0-9a-f]`. -/
def isLowerHex (c : Char) : Bool := c.isDigit || decide ('a' ≤ c ∧ c ≤ 'f')

/-- `_HASH_RE`. -/
def isHash (s : String) : Bool :=
  decide (s.toList.take 2 = ['h', '_'] ∧ (s.toList.drop 2).length = 20) && (s.toList.drop 2).all isLowerHex

/-- `_BLOCK_HASH_RE`. -/
def isBlockHash (s : String) : Bool := shaped (fun n => isAlnum n || (codes "_-").contains n) 128 (codes s)

/-- `_DQ_CODE_RE`. -/
def isDqCode (s : String) : Bool :=
  decide (s.toList.take 3 = "dq.".toList) && shaped isWordChar 120 ((codes s).drop 3)

/-- `_key_name`. -/
def keyName (k : String) : String := if shaped isWordChar 64 (codes k) then k else "?"

def search (holds : List Char → Bool) (text : List Char) : Bool := text.tails.any holds

/-- The bytes that follow a quote in the pattern of a string literal, escapes by their last byte. -/
def literalLength : List Char → Nat
  | [] => 0
  | ['\\'] => 0
  | '\\' :: c :: rest => if c = '\n' then 0 else c.utf8Size + literalLength rest
  | c :: rest => if c = '"' then 0 else c.utf8Size + literalLength rest

/-- `MAX_STRING`. -/
def maxString : Nat := 256

/-- `_LONG_STRING`. -/
def longString : List Char → Bool := search fun t => t.head? = some '"' && decide (maxString < literalLength t.tail)

/-- `_BIG_OR_NEGATIVE`. -/
def bigOrNegative : List Char → Bool := search fun t =>
  decide (16 ≤ (t.takeWhile Char.isDigit).length) ||
    match t with
    | c :: '-' :: d :: _ => decide (c ∈ [':', ',', '[']) && d.isDigit
    | _ => false

/-- A quoted text of some kind of hash. -/
def quotedHash (kinds : List Char) : List Char → Bool := search fun t =>
  match t with
  | '"' :: kind :: '_' :: rest => decide (kind ∈ kinds) && (rest.take 20).all isLowerHex && rest[20]? = some '"'
  | _ => false

/-- `_NAME_HASH`. -/
def nameHash : List Char → Bool := quotedHash ['h']

/-- `_PRINCIPAL_HASH`. -/
def principalHash : List Char → Bool := quotedHash ['p', 'c']

mutual

/-- `_find_bad_number`: the key of an integer that is too large, or negative where it may not be. What is stacked
last is looked at first. -/
def findBadNumber (key : String) (inAttrs : Bool) : Json → Option String
  | .int v =>
    if maxInt < v ∨ v < -maxInt then some key
    else if v < 0 ∧ !inAttrs ∧ !"_nano".toList.isSuffixOf key.toList then some key
    else none
  | .obj fields => badInFields inAttrs fields
  | .arr items => badInItems key inAttrs items
  | _ => none

/-- `_find_bad_number` of the members of an object. -/
def badInFields (inAttrs : Bool) : Members → Option String
  | [] => none
  | (k, x) :: fields => (badInFields inAttrs fields).or (findBadNumber k (inAttrs || k = "attrs") x)

/-- `_find_bad_number` of the items of a list. -/
def badInItems (key : String) (inAttrs : Bool) : List Json → Option String
  | [] => none
  | x :: items => (badInItems key inAttrs items).or (findBadNumber key inAttrs x)

end

mutual

/-- `_find_long_string`: the key of a text that is too long. -/
def findLongString (key : String) : Json → Option String
  | .str s => if maxString < s.length then some key else none
  | .obj fields => if fields.any fun f => decide (maxString < f.1.length) then some "?" else longInFields fields
  | .arr items => longInItems key items
  | _ => none

/-- `_find_long_string` of the members of an object. -/
def longInFields : Members → Option String
  | [] => none
  | (k, x) :: fields => (longInFields fields).or (findLongString k x)

/-- `_find_long_string` of the items of a list. -/
def longInItems (key : String) : List Json → Option String
  | [] => none
  | x :: items => (longInItems key items).or (findLongString key x)

end

/-! ### Key sets -/

/-- `_Spec`. -/
structure Spec where
  (allowed required : List String)

/-- `_spec`. -/
def specOf (c : RecordType) (drop add addRequired : List String) : Spec where
  allowed := ((c.fields.map (·.name)).filter (· ∉ drop)) ++ add ++ addRequired
  required := (((c.fields.filter fun f => f.default.isNone).map (·.name)).filter (· ∉ drop)) ++ addRequired

/-- `_spec` of a record as it is. -/
def plainSpec (c : RecordType) : Spec := specOf c [] [] []

/-- `_REC`. -/
def recKeys : List String := ["rec", "schema"]

def least (names : List String) : String := (names.insertionSort (· ≤ ·)).headD ""

/-- `_check`. -/
def check (spec : Spec) (d : Members) : Except Raised Unit :=
  let unknown := (d.map (·.1)).filter (· ∉ spec.allowed)
  let missing := spec.required.filter (· ∉ d.map (·.1))
  if unknown ≠ [] then bad ("unknown_key:" ++ keyName (least unknown))
  else if missing ≠ [] then bad ("missing:" ++ least missing)
  else .ok ()

/-- `_cv`: the field that the text of a `ContractViolation` names. -/
def cv (text what : String) : Raised :=
  let rest := text.toList.dropWhile Char.isAlpha
  let name := rest.tail.takeWhile fun c => c.isAlpha || c = '_'
  let named := decide (rest.length < text.length ∧ rest.head? = some '.' ∧ name ≠ [] ∧
    (rest.drop (name.length + 1)).head? = some ':')
  .bad ("bad_type:" ++ if named then String.ofList name else what)

/-- `_obj`. -/
def obj (what : String) : Json → Except Raised Members
  | .obj fields => .ok fields
  | _ => bad ("bad_type:" ++ what)

/-- `_list`. -/
def list (what : String) : Json → Except Raised (List Json)
  | .arr items => .ok items
  | _ => bad ("bad_type:" ++ what)

/-- `d.get(key)`; `null` and no member are one. -/
def get (d : Members) (key : String) : Json := (d.lookup key).getD .null

/-- Whether a value is not `None`. -/
def present : Json → Bool
  | .null => false
  | _ => true

/-- `bool(value)`. -/
def truthy : Json → Bool
  | .null => false
  | .bool b => b
  | .int n => decide (n ≠ 0)
  | .str s => decide (s ≠ "")
  | .arr items => !items.isEmpty
  | .obj fields => !fields.isEmpty

def text? : Json → Option String
  | .str s => some s
  | _ => none

section

variable (host : Host)

/-- A constructor, within a `try` for its violations. -/
def construct (c : RecordType) (d : Members) (what : String) : Except Raised Unit :=
  match host.construct c d with
  | none => .ok ()
  | some (.violation text) => .error (cv text what)
  | some _ => .error .host

/-- `_build`. -/
def build (c : RecordType) (v : Json) (what : String) : Except Raised Unit := do
  let d ← obj what v
  check (plainSpec c) d
  match host.construct c d with
  | none => .ok ()
  | some (.violation text) => .error (cv text what)
  | some .typeError => bad ("bad_type:" ++ what)
  | some .other => .error .host

end

/-! ### The reader -/

/-- `TraceHeader`. -/
structure TraceHeader where
  (traceId profile identityMode : String)
  nameKeyId : Option String := none
  principalKeyId : Option String := none
  fpKeyId : Option String := none
  producer : List (String × String) := []
  createdMs : Nat := 0
  attribution : RecordVal

/-- A block definition, or a block of a request: the members of its document and its position. -/
structure Ref where
  doc : Members
  lookbackPos : Int

def Ref.h (ref : Ref) : String := (text? (get ref.doc "h")).getD ""

def Ref.kind (ref : Ref) : Option String := text? (get ref.doc "kind")

/-- `_Reader`. -/
structure Reader where
  header : TraceHeader
  defs : List (String × Ref) := []
  resolved : List (String × List Ref) := []
  seenRequests : List String := []
  nBlocks : Nat := 0

/-- `_FINGERPRINT_PROFILES`. -/
def fingerprintProfiles : List String := ["fingerprint", "full"]

/-- Reading, with the tables. -/
abbrev Read : Type → Type := Kept Raised Reader

/-- `_principal`. -/
def principal (hdr : TraceHeader) (p : Option String) : Except Raised Unit :=
  match p with
  | none => .ok ()
  | some p =>
    let head := p.toList.take 2
    if '@' ∈ p.toList then bad "bad_type:principal"
    else if head = ['r', '_'] ∧ hdr.identityMode ≠ "central" then bad "bad_type:principal"
    else if head = ['c', '_'] ∧ (hdr.identityMode ≠ "two-stage" ∨ hdr.principalKeyId = none) then
      bad "bad_type:principal"
    else if head = ['p', '_'] ∧ hdr.principalKeyId = none then bad "bad_type:principal"
    else .ok ()

mutual

/-- A document as the checks of raw usage take it. -/
def toPy : Json → PyJson (List Nat)
  | .null => .null
  | .bool b => .bool b
  | .int n => .int n
  | .str s => .str (codes s)
  | .arr items => .list (toPyItems items)
  | .obj fields => .dict (toPyFields fields)

def toPyItems : List Json → List (PyJson (List Nat))
  | [] => []
  | j :: items => toPy j :: toPyItems items

def toPyFields : Members → PyJson.Dict (List Nat)
  | [] => []
  | (k, j) :: fields => (codes k, toPy j) :: toPyFields fields

end

section

variable (host : Host)

/-- `_attribution`. -/
def attribution (hdr : TraceHeader) (v : Json) : Except Raised Unit := do
  let d ← obj "attribution" v
  build host .attribution v "attribution"
  principal hdr (text? (get d "principal"))
  match text? (get d "repo") with
  | some repo => if isHash repo then .ok () else bad "bad_type:repo"
  | none => .ok ()

/-- `_session`. -/
def session (hdr : TraceHeader) (d : Members) : Except Raised Unit := do
  check (specOf .session ["lanes"] [] recKeys) d
  attribution host hdr (get d "attribution")
  construct host .session d "session"

/-- `_lane`. -/
def lane (d : Members) : Except Raised Unit := do
  check (specOf .lane ["requests", "events"] [] recKeys) d
  construct host .lane (d.filter fun f => decide (f.1 ∉ recKeys)) "lane"

/-- A definition of a `blocks` record. -/
def blockDef (b : Json) : Except Raised Ref := do
  let d ← obj "blocks" b
  build host .blockRef b "blocks"
  let ref : Ref := ⟨d, 0⟩
  if isBlockHash ref.h then .ok ref else bad "bad_type:h"

/-- `_blocks`: every definition is read before the table has one. -/
def blocks (d : Members) : Read Unit := do
  let hdr := (← MonadState.get).header
  Kept.ofExcept do
    check ⟨["rec", "schema", "key_id", "blocks"], ["rec", "schema", "key_id", "blocks"]⟩ d
    if hdr.profile ∉ fingerprintProfiles then bad "bad_type:blocks"
    else if text? (get d "key_id") ≠ hdr.fpKeyId ∨ hdr.fpKeyId = none then bad "bad_type:key_id"
    else .ok ()
  let defs ← Kept.ofExcept (list "blocks" (get d "blocks") >>= fun items => items.mapM (blockDef host))
  modify fun r => { r with
    defs := defs.foldl (fun table ref => upsert Prod.fst (ref.h, ref) table) r.defs
    nBlocks := r.nBlocks + defs.length }

/-- `_inference`. -/
def inference (v : Json) : Except Raised Unit := do
  let d ← obj "inferences" v
  check (plainSpec .inference) d
  build host .usageBuckets (get d "usage") "usage"
  build host .pricingContext (get d "pricing") "pricing"
  construct host .inference d "inferences"

def withRawUsage (d : Members) (text : Option (List Char)) : Members :=
  d.filter (fun f => decide (f.1 ≠ "raw_usage")) ++
    (text.map fun t => ("raw_usage_json", Json.str (String.ofList t))).toList

/-- `_attempt`. -/
def attempt (v : Json) : Except Raised Unit := do
  let d ← obj "attempts" v
  check (specOf .attempt ["raw_usage_json"] ["raw_usage"] []) d
  let inferences ← list "inferences" (get d "inferences")
  inferences.forM (inference host)
  let diagnostics := get d "diagnostics"
  if present diagnostics then build host .cacheDiagnostic diagnostics "diagnostics" else .ok ()
  let raw := get d "raw_usage"
  let text ← if present raw then
      match readRawUsage (toPy raw) with
      | some text => .ok (some text)
      | none => bad "bad_usage"
    else .ok none
  let edits := get d "applied_edits"
  if present edits then (fun _ => ()) <$> list "applied_edits" edits else .ok ()
  construct host .attempt (withRawUsage d text) "attempts"

/-- A breakpoint of the parameters. -/
def breakpointOf (v : Json) : Option (Int × String) :=
  match v with
  | .obj d =>
    match get d "block_index", get d "ttl" with
    | .int i, .str ttl => some (i, ttl)
    | _, _ => none
  | _ => none

/-- `_params`: the breakpoints. -/
def params (v : Json) : Except Raised (Members × List (Int × String)) := do
  let d ← obj "params" v
  check (plainSpec .requestParams) d
  let given := get d "breakpoints"
  let items ← if truthy given then list "breakpoints" given else .ok []
  items.forM fun b => build host .breakpoint b "breakpoints"
  construct host .requestParams d "params"
  .ok (d, items.filterMap breakpointOf)

/-- The blocks that a fingerprint keeps of its parent. -/
def keptBlocks (r : Reader) (fp : Members) : Except Raised (List Ref) :=
  match get fp "keep" with
  | .int keep =>
    if keep < 0 then bad "bad_type:keep"
    else
      match get fp "parent" with
      | .null => if keep ≠ 0 then bad "bad_type:keep" else .ok []
      | parent =>
        match (text? parent).bind fun id => r.resolved.lookup id with
        | none => bad "missing:parent"
        | some got => if (got.length : Int) < keep then bad "bad_type:keep" else .ok (got.take keep.toNat)
  | _ => bad "bad_type:keep"

/-- A block that is named, at its position after the blocks before it. -/
def appendBlock (r : Reader) (blocks : List Ref) (h : Json) : Except Raised (List Ref) :=
  match (text? h).bind fun h => r.defs.lookup h with
  | none => bad "missing:append"
  | some ref =>
    let pos := (blocks.getLast?.map (·.lookbackPos)).getD (-1)
    let prevKind := blocks.getLast?.bind Ref.kind
    let same := decide ((ref.kind = some "tool_use" ∨ ref.kind = some "tool_result") ∧ ref.kind = prevKind)
    .ok (blocks ++ [{ ref with lookbackPos := if same then pos else pos + 1 }])

def Ref.json (ref : Ref) : Json :=
  .obj (upsert Prod.fst ("lookback_pos", .int ref.lookbackPos) ref.doc)

def markerOf : Json → Except Raised (Int × String)
  | .arr [.int i, .str ttl] => .ok (i, ttl)
  | _ => bad "bad_type:markers"

/-- A constructor whose violation is of one field. -/
def constructField (c : RecordType) (d : Members) (reason : String) : Except Raised Unit :=
  match host.construct c d with
  | none => .ok ()
  | some (.violation _) => bad reason
  | some _ => .error .host

/-- The breakpoints of a request with markers: those declared, or the markers. -/
def markedBreakpoints (given : Members) (declared markers : List (Int × String)) :
    Except Raised (List (Int × String)) :=
  if markers ≠ [] ∧ declared = [] then do
    let docs : List Members := markers.map fun m => [("block_index", .int m.1), ("ttl", .str m.2)]
    docs.forM fun d => constructField host .breakpoint d "bad_type:markers"
    constructField host .requestParams (upsert Prod.fst ("breakpoints", .arr (docs.map .obj)) given) "bad_type:markers"
    .ok markers
  else if markers ≠ [] ∧ markers ≠ declared then bad "bad_type:markers"
  else .ok declared

/-- `_fingerprint`: the blocks. -/
def fingerprint (r : Reader) (fp : Members) (given : Members) (declared : List (Int × String)) :
    Except Raised (List Ref) := do
  check ⟨["parent", "keep", "append", "markers", "tier_end"], ["parent", "keep", "append", "tier_end"]⟩ fp
  let base ← if r.header.profile ∉ fingerprintProfiles ∨ r.header.fpKeyId = none then bad "bad_type:fp"
    else keptBlocks r fp
  let named ← list "append" (get fp "append")
  let blocks ← named.foldlM (appendBlock r) base
  let tierEnd ← list "tier_end" (get fp "tier_end")
  constructField host .contentFingerprint
    [("key_id", .str (r.header.fpKeyId.getD "")), ("blocks", .arr (blocks.map Ref.json)), ("tier_end", .arr tierEnd)]
    "bad_type:tier_end"
  let markers := get fp "markers"
  let markers ← if truthy markers then list "markers" markers else .ok []
  let markers ← markers.mapM markerOf
  let breakpoints ← markedBreakpoints host given declared markers
  if breakpoints.any fun bp => decide ((blocks.length : Int) ≤ bp.1) then bad "bad_type:markers" else .ok blocks

/-- What `_request` checks before it keeps anything: the id of a request, and the blocks of its fingerprint. -/
def requestOf (r : Reader) (d : Members) : Except Raised (String × Option (List Ref)) := do
  check (specOf .request ["fingerprint"] ["fp"] recKeys) d
  let id ← match get d "request_id" with
    | .str id => if id ∈ r.seenRequests then bad "bad_type:request_id" else .ok id
    | _ => bad "bad_type:request_id"
  attribution host r.header (get d "attribution")
  let (given, declared) ← params host (get d "params")
  let appended := get d "appended"
  let appended ← if truthy appended then list "appended" appended else .ok []
  appended.forM fun a => build host .appendedItem a "appended"
  let source := get d "source"
  if present source then build host .sourceRef source "source" else .ok ()
  let attempts ← list "attempts" (get d "attempts")
  attempts.forM (attempt host)
  let fp := get d "fp"
  let blocks ← if present fp then do
      let fp ← obj "fp" fp
      some <$> fingerprint host r fp given declared
    else .ok none
  construct host .request (d.filter fun f => decide (f.1 ∉ "fp" :: recKeys)) "request"
  .ok (id, blocks)

/-- `_request`. -/
def request (d : Members) : Read Unit := do
  let r ← MonadState.get
  let (id, blocks) ← Kept.ofExcept (requestOf host r d)
  modify fun r => { r with
    seenRequests := id :: r.seenRequests
    resolved := match blocks with
      | some blocks => upsert Prod.fst (id, blocks) r.resolved
      | none => r.resolved }

/-- `_event`. -/
def event (d : Members) : Except Raised Unit := do
  check (specOf .laneEvent [] [] recKeys) d
  let attrs ← match d.lookup "attrs" with
    | some attrs => obj "attrs" attrs
    | none => .ok []
  construct host .laneEvent
    [("lane_key", get d "lane_key"), ("ts_ms", get d "ts_ms"), ("kind", get d "kind"),
      ("attrs", .arr (attrs.map fun a => .arr [.str a.1, a.2]))] "event"

/-- `_aggregate`. -/
def aggregate (d : Members) : Except Raised Unit := do
  check (specOf .usageAggregate [] [] recKeys) d
  build host .usageBuckets (get d "usage") "usage"
  (fun _ => ()) <$> list "dims" (get d "dims")
  construct host .usageAggregate (d.filter fun f => decide (f.1 ∉ recKeys)) "aggregate"

/-- `_cost_line`. -/
def costLine (d : Members) : Except Raised Unit := do
  check (specOf .costLine [] [] recKeys) d
  construct host .costLine (d.filter fun f => decide (f.1 ∉ recKeys)) "cost_line"

/-- `_outcome`. -/
def outcome (d : Members) : Except Raised Unit := do
  check (specOf .outcomeAggregate [] [] recKeys) d
  match d.lookup "extra" with
  | some extra => (fun _ => ()) <$> list "extra" extra
  | none => .ok ()
  construct host .outcomeAggregate (d.filter fun f => decide (f.1 ∉ recKeys)) "outcome"

def isCount : Json → Bool
  | .int n => decide (0 ≤ n)
  | _ => false

/-- `_dq`. -/
def dq (d : Members) : Except Raised Unit := do
  check (specOf .dataQualityNote ["figure"] [] recKeys) d
  if !(text? (get d "code")).any isDqCode then bad "bad_type:code"
  else if !(text? (get d "severity")).any (decide <| · ∈ ["info", "warn", "error"]) then bad "bad_type:severity"
  else if !isCount (get d "count") then bad "bad_type:count"
  else if (text? (get d "detail")).isNone then bad "bad_type:detail"
  else if present (get d "tokens") && !isCount (get d "tokens") then bad "bad_type:tokens"
  else .ok ()

/-- `_content`. -/
def content (hdr : TraceHeader) (d : Members) : Except Raised Unit := do
  check ⟨["rec", "schema", "h", "text"], ["rec", "schema", "h", "text"]⟩ d
  if hdr.profile ≠ "full" then bad "bad_type:content"
  else if !(text? (get d "h")).any isBlockHash then bad "bad_type:h"
  else if (text? (get d "text")).isNone then bad "bad_type:text"
  else .ok ()

/-- `SCHEMA`. -/
def schemaName : String := "tokenbill/trace@2"

/-- `_RECS`. -/
def recs : List String :=
  ["header", "session", "lane", "blocks", "request", "event", "aggregate", "cost_line", "outcome", "dq", "content"]

/-- What `_decode` checks of every document: its kind. -/
def vet (hdr : TraceHeader) (d : Members) : Except Raised String := do
  let raw := Json.render (.obj d)
  let kind ← if text? (get d "schema") ≠ some schemaName then
      bad (if (d.lookup "schema").isNone then "missing:schema" else "bad_type:schema")
    else match get d "rec" with
      | .null => bad "missing:rec"
      | .str kind => if kind ∈ recs then .ok kind else bad "bad_type:rec"
      | _ => bad "bad_type:rec"
  match if bigOrNegative raw then findBadNumber "record" false (.obj d) else none with
  | some key => bad ("bad_type:" ++ keyName key)
  | none => .ok ()
  match if kind ≠ "content" ∧ longString raw then findLongString "record" (.obj d) else none with
  | some key => bad ("bad_type:" ++ keyName key)
  | none => .ok ()
  if kind = "header" then bad "bad_type:rec"
  else if hdr.nameKeyId = none ∧ nameHash raw then bad "bad_type:name_key_id"
  else if hdr.principalKeyId = none ∧ principalHash raw then bad "bad_type:principal_key_id"
  else .ok kind

/-- `_decode` of the canonical text of a document. -/
def decode (d : Members) : Read Unit := do
  let hdr := (← MonadState.get).header
  let kind ← Kept.ofExcept (vet hdr d)
  match kind with
  | "session" => Kept.ofExcept (session host hdr d)
  | "lane" => Kept.ofExcept (lane host d)
  | "blocks" => blocks host d
  | "request" => request host d
  | "event" => Kept.ofExcept (event host d)
  | "aggregate" => Kept.ofExcept (aggregate host d)
  | "cost_line" => Kept.ofExcept (costLine host d)
  | "outcome" => Kept.ofExcept (outcome host d)
  | "dq" => Kept.ofExcept (dq d)
  | _ => Kept.ofExcept (content hdr d)

end

end TokenBill.TraceV2
