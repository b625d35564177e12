import TokenBill.Core.Json
import TokenBill.Core.Records
import Mathlib.Data.List.Dedup
import Mathlib.Data.List.Infix

/-!
# Block fingerprints

`adapters/fingerprint.py`: the blocks of a request payload (its tools, its system prompt and the blocks of its
messages), the two walkers that look for `cache_control` markers, and the fingerprint of a payload. `scan_request`
looks for the first marker of a block and neither serializes nor hashes; `fingerprint_request` writes a block as
JSON, removes the markers where the text holds one, and hashes what is left.

A payload is a JSON value as the host holds it, a number by the text it is written as. The hash functions, the
matches of the volatile patterns, base64 and the JSON reader are those of the host (`Host`). These are
the functions without a memo of fingerprinted blocks.
-/

namespace TokenBill.Fingerprint

/-! ### Payloads -/

/-- The text of a number: an integer, a float, or one of `NaN`, `Infinity` and `-Infinity`. -/
structure NumText where
  first : Char
  rest : List Char
  starts : first.isDigit ∨ first = '-' ∨ first = 'N' ∨ first = 'I'

/-- A value of a request payload. -/
inductive Payload where
  | null
  | bool (b : Bool)
  | num (n : NumText)
  | str (s : String)
  | list (items : List Payload)
  | dict (fields : List (String × Payload))

/-- What a request sends. -/
structure Sent where
  tools : List Payload
  system : Payload
  messages : List Payload

/-- What the host computes. -/
structure Host where
  /-- `hmac.new(key, data, sha256).hexdigest()` of a text in UTF-8. -/
  hmac : List UInt8 → List Char → String
  /-- `key_id(key)`. -/
  keyId : List UInt8 → String
  /-- `json.loads`. -/
  loads : List Char → Payload
  /-- Where the pattern of a class matches. -/
  finditer : String → List Char → List (Nat × Nat)
  /-- `base64.b64decode(head, validate=False)`. -/
  b64decode : List Char → Option (List Nat)

def ccKey : String := "cache_control"

/-- `_get(obj, key)`. -/
def Payload.get (key : String) : Payload → Option Payload
  | .dict fields => fields.lookup key
  | _ => none

/-- `isinstance(obj, Mapping)`. -/
def Payload.isDict : Payload → Bool
  | .dict _ => true
  | _ => false

/-! ### Text -/

mutual

/-- `_wire(obj)`. -/
def wire : Payload → List Char
  | .null => "null".toList
  | .bool true => "true".toList
  | .bool false => "false".toList
  | .num n => n.first :: n.rest
  | .str s => Json.quote s
  | .list [] => "[]".toList
  | .list (item :: items) => '[' :: wire item ++ wireItems items ++ [']']
  | .dict [] => "\x7b\x7d".toList
  | .dict ((k, v) :: fields) => '{' :: Json.quote k ++ ':' :: wire v ++ wireFields fields ++ ['}']

def wireItems : List Payload → List Char
  | [] => []
  | item :: items => ',' :: wire item ++ wireItems items

def wireFields : List (String × Payload) → List Char
  | [] => []
  | (k, v) :: fields => ',' :: Json.quote k ++ ':' :: wire v ++ wireFields fields

end

mutual

/-- A value with the members of every object in the order of their keys. -/
def sorted : Payload → Payload
  | .list items => .list (sortedItems items)
  | .dict fields => .dict ((sortedFields fields).insertionSort fun a b => a.1 ≤ b.1)
  | v => v

def sortedItems : List Payload → List Payload
  | [] => []
  | v :: vs => sorted v :: sortedItems vs

def sortedFields : List (String × Payload) → List (String × Payload)
  | [] => []
  | (k, v) :: fields => (k, sorted v) :: sortedFields fields

end

/-- `_sorted_wire(obj)`. -/
def sortedWire (v : Payload) : List Char := wire (sorted v)

/-! ### Volatile spans -/

/-- `VOLATILE_CLASSES`. -/
def volatileClasses : List String := ["iso_datetime", "iso_date", "clock_time", "unix_ts", "uuid", "counter"]

/-- A span of a class. -/
structure Span where
  cls : String
  (start stop : Nat)

/-- A match that is not empty is put at its place, unless it meets a span that is there. -/
def addSpan (cls : String) (spans : List Span) (m : Nat × Nat) : List Span :=
  let before := spans.takeWhile fun s => decide (s.start < m.1)
  let rest := spans.dropWhile fun s => decide (s.start < m.1)
  if m.1 = m.2 then spans
  else if before.getLast?.any fun s => decide (m.1 < s.stop) then spans
  else if rest.head?.any fun s => decide (s.start < m.2) then spans
  else before ++ ⟨cls, m.1, m.2⟩ :: rest

/-- `volatile_spans(text)`. -/
def volatileSpans (host : Host) (text : List Char) : List Span :=
  if text = [] then []
  else volatileClasses.foldl (fun spans cls => (host.finditer cls text).foldl (addSpan cls) spans) []

/-- The text from a position on, with the spans replaced. -/
def replaceSpans (text : List Char) : Nat → List Span → List Char
  | pos, [] => text.drop pos
  | pos, s :: spans =>
    (text.drop pos).take (s.start - pos) ++ '<' :: s.cls.toList ++ '>' :: replaceSpans text s.stop spans

/-- `normalize_volatile(text)`. -/
def normalizeVolatile (host : Host) (text : String) : String :=
  match volatileSpans host text.toList with
  | [] => text
  | spans => String.ofList (replaceSpans text.toList 0 spans)

mutual

/-- `_strings(obj)`. -/
def strings (depth : Nat) : Payload → List String
  | .str s => if 200 < depth then [] else [s]
  | .list items => if 200 < depth then [] else stringsItems depth items
  | .dict fields => if 200 < depth then [] else stringsFields depth fields
  | _ => []

def stringsItems (depth : Nat) : List Payload → List String
  | [] => []
  | v :: vs => strings (depth + 1) v ++ stringsItems depth vs

def stringsFields (depth : Nat) : List (String × Payload) → List String
  | [] => []
  | (_, v) :: fields => strings (depth + 1) v ++ stringsFields depth fields

end

mutual

/-- `_normalized(obj)`. -/
def normalized (host : Host) (depth : Nat) : Payload → Payload
  | .str s => if 200 < depth then .null else .str (normalizeVolatile host s)
  | .list items => if 200 < depth then .null else .list (normalizedItems host depth items)
  | .dict fields => if 200 < depth then .null else .dict (normalizedFields host depth fields)
  | v => if 200 < depth then .null else v

def normalizedItems (host : Host) (depth : Nat) : List Payload → List Payload
  | [] => []
  | v :: vs => normalized host (depth + 1) v :: normalizedItems host depth vs

def normalizedFields (host : Host) (depth : Nat) : List (String × Payload) → List (String × Payload)
  | [] => []
  | (k, v) :: fields => (k, normalized host (depth + 1) v) :: normalizedFields host depth fields

end

/-! ### Blocks -/

/-- `_Raw`: a block as it is sent. -/
structure Raw where
  (tier kind : String)
  role : Option String
  obj : Payload

/-- `BLOCK_TYPES`. -/
def blockTypes : List String :=
  ["text", "tool_use", "tool_result", "image", "document", "thinking", "redacted_thinking", "compaction"]

def textBlock (s : String) : Payload := .dict [("type", .str "text"), ("text", .str s)]

/-- The kind of a block of a message. -/
def kindOf (block : Payload) : String :=
  match block.get "type" with
  | some (.str btype) => if btype ∈ blockTypes then btype else "other"
  | _ => "other"

def systemRaw : Payload → Raw
  | .str s => ⟨"system", "system_text", none, textBlock s⟩
  | block => ⟨"system", "system_text", none, block⟩

def contentRaw (role : Option String) : Payload → Raw
  | .str s => ⟨"messages", "text", role, textBlock s⟩
  | block => ⟨"messages", kindOf block, role, block⟩

/-- The role of a message. -/
def roleOf (msg : Payload) : Option String :=
  match msg.get "role" with
  | some (.str role) => if role.toList.length ≤ 32 then some role else none
  | _ => none

/-- The blocks of the system prompt. -/
def systemRaws : Payload → List Raw
  | .str s => if s = "" then [] else [systemRaw (.str s)]
  | .list blocks => blocks.map systemRaw
  | _ => []

/-- The blocks of a message. -/
def messageRaws (msg : Payload) : List Raw :=
  match msg with
  | .dict _ =>
    match msg.get "content" with
    | some (.str s) => [contentRaw (roleOf msg) (.str s)]
    | some (.list blocks) => blocks.map (contentRaw (roleOf msg))
    | _ => []
  | _ => [⟨"messages", "other", none, msg⟩]

/-- `_walk`. -/
def walk (p : Sent) : List Raw :=
  p.tools.map (fun tool => ⟨"tools", "tool_def", none, tool⟩) ++ systemRaws p.system ++ p.messages.flatMap messageRaws

def runKinds : List String := ["tool_use", "tool_result"]

/-- `lookback_positions` after a block of a kind at a position. -/
def positionsAfter (prev : String) (pos : Nat) : List String → List Nat
  | [] => []
  | kind :: kinds =>
    let here := if kind ∈ runKinds ∧ kind = prev then pos else pos + 1
    here :: positionsAfter kind here kinds

/-- `lookback_positions(kinds)`. -/
def lookbackPositions : List String → List Nat
  | [] => []
  | kind :: kinds => 0 :: positionsAfter kind 0 kinds

/-! ### Markers -/

/-- `_ttl(cc)`. -/
def ttlOf (cc : List (String × Payload)) : String :=
  match cc.lookup "ttl" with
  | some (.str ttl) => if ttl ∈ ["5m", "1h", "30m"] then ttl else "5m"
  | _ => "5m"

/-- The time to live of the marker of an object, if it has one that is an object. -/
def ownTtl (fields : List (String × Payload)) : Option String :=
  match fields.lookup ccKey with
  | some (.dict cc) => some (ttlOf cc)
  | _ => none

mutual

/-- `_first_ttl(obj)`. -/
def firstTtl (depth : Nat) : Payload → Option String
  | .dict fields =>
    if 64 < depth then none
    else match ownTtl fields with
      | some ttl => some ttl
      | none => firstTtlFields depth fields
  | .list items => if 64 < depth then none else firstTtlItems depth items
  | _ => none

/-- The first of the items that has one. -/
def firstTtlItems (depth : Nat) : List Payload → Option String
  | [] => none
  | v :: vs =>
    match firstTtl (depth + 1) v with
    | some ttl => some ttl
    | none => firstTtlItems depth vs

/-- The first of the members that has one, a marker that is no object with them. -/
def firstTtlFields (depth : Nat) : List (String × Payload) → Option String
  | [] => none
  | (_, v) :: fields =>
    match firstTtl (depth + 1) v with
    | some ttl => some ttl
    | none => firstTtlFields depth fields

end

mutual

/-- `_strip(obj, markers)`: the copy, and what is appended to `markers`. -/
def strip (depth : Nat) : Payload → Payload × List String
  | .dict fields =>
    if 200 < depth then (.null, [])
    else (.dict (stripFields depth fields).1, (ownTtl fields).toList ++ (stripFields depth fields).2)
  | .list items => if 200 < depth then (.null, []) else (.list (stripItems depth items).1, (stripItems depth items).2)
  | v => if 200 < depth then (.null, []) else (v, [])

def stripItems (depth : Nat) : List Payload → List Payload × List String
  | [] => ([], [])
  | v :: vs => ((strip (depth + 1) v).1 :: (stripItems depth vs).1, (strip (depth + 1) v).2 ++ (stripItems depth vs).2)

/-- The copies of some members. -/
def stripFields (depth : Nat) : List (String × Payload) → List (String × Payload) × List String
  | [] => ([], [])
  | (k, v) :: fields =>
    if k = ccKey then stripFields depth fields
    else ((k, (strip (depth + 1) v).1) :: (stripFields depth fields).1,
      (strip (depth + 1) v).2 ++ (stripFields depth fields).2)

end

/-- The breakpoints of blocks with a time to live. -/
def breakpointsFrom (idx : Nat) : List (Option String) → List Breakpoint
  | [] => []
  | some ttl :: rest => ⟨idx, ttl, false⟩ :: breakpointsFrom (idx + 1) rest
  | none :: rest => breakpointsFrom (idx + 1) rest

/-- `scan_request`. -/
def scanRequest (p : Sent) : List Breakpoint × List String :=
  (breakpointsFrom 0 ((walk p).map fun r => firstTtl 0 r.obj), (walk p).map (·.kind))

/-! ### Snapshots -/

/-- `_CC_MARK`. -/
def ccMark : List Char := Json.quote ccKey

/-- `WiredBlock`. -/
structure WiredBlock where
  (tier kind : String)
  role : Option String
  wire : List Char
  marker : Option String

def wireBlock (r : Raw) : WiredBlock :=
  if ccMark <:+: wire r.obj then ⟨r.tier, r.kind, r.role, wire (strip 0 r.obj).1, (strip 0 r.obj).2.head?⟩
  else ⟨r.tier, r.kind, r.role, wire r.obj, none⟩

/-- `snapshot_blocks`. -/
def snapshotBlocks (p : Sent) : List WiredBlock := (walk p).map wireBlock

/-! ### Images -/

/-- Two bytes, the high one first. -/
def u16be (data : List Nat) (i : Nat) : Option Nat := do
  let a ← data[i]?
  let b ← data[i + 1]?
  return a * 256 + b

/-- Two bytes, the low one first. -/
def u16le (data : List Nat) (i : Nat) : Option Nat := do
  let a ← data[i]?
  let b ← data[i + 1]?
  return a + b * 256

/-- Three bytes, the low one first. -/
def u24le (data : List Nat) (i : Nat) : Option Nat := do
  let a ← u16le data i
  let b ← data[i + 2]?
  return a + b * 65536

/-- Four bytes, the high one first. -/
def u32be (data : List Nat) (i : Nat) : Option Nat := do
  let a ← u16be data i
  let b ← u16be data (i + 2)
  return a * 65536 + b

/-- A width and a height read one after the other. -/
def both (width height : Option Nat) : Option (Nat × Nat) := do
  let w ← width
  let h ← height
  return (w, h)

/-- The segments of a JPEG image from a position on; `fuel` bounds the bytes that are left. -/
def jpegFrom (data : List Nat) : Nat → Nat → Option (Nat × Nat)
  | 0, _ => none
  | fuel + 1, i =>
    if data.length ≤ i + 9 then none
    else do
      let byte ← data[i]?
      let marker ← data[i + 1]?
      if byte ≠ 255 then jpegFrom data fuel (i + 1)
      else if marker = 255 then jpegFrom data fuel (i + 1)
      else if marker = 216 ∨ marker = 1 ∨ (208 ≤ marker ∧ marker ≤ 215) then jpegFrom data fuel (i + 2)
      else if 192 ≤ marker ∧ marker < 208 ∧ marker ∉ [196, 200, 204] then both (u16be data (i + 7)) (u16be data (i + 5))
      else do
        let size ← u16be data (i + 2)
        jpegFrom data fuel (i + 2 + size)

def ascii (s : String) : List Nat := s.toList.map Char.toNat

/-- `image_dimensions(data)`. -/
def imageDimensions (data : List Nat) : Option (Nat × Nat) :=
  let slice (i j : Nat) := (data.drop i).take (j - i)
  if slice 0 8 = [137, 80, 78, 71, 13, 10, 26, 10] ∧ slice 12 16 = ascii "IHDR" then
    both (u32be data 16) (u32be data 20)
  else if slice 0 6 = ascii "GIF87a" ∨ slice 0 6 = ascii "GIF89a" then both (u16le data 6) (u16le data 8)
  else if slice 0 4 = ascii "RIFF" ∧ slice 8 12 = ascii "WEBP" then
    if slice 12 16 = ascii "VP8 " then both ((u16le data 26).map (· % 16384)) ((u16le data 28).map (· % 16384))
    else if slice 12 16 = ascii "VP8L" then do
      let signature ← data[20]?
      if signature = 47 then do
        let low ← u24le data 21
        let high ← data[24]?
        let bits := low + high * 16777216
        return (bits % 16384 + 1, bits / 16384 % 16384 + 1)
      else none
    else if slice 12 16 = ascii "VP8X" then both ((u24le data 24).map (· + 1)) ((u24le data 27).map (· + 1))
    else none
  else if slice 0 2 = [255, 216] then jpegFrom data data.length 2
  else none

/-- `_image_px(block)`. -/
def imagePx (host : Host) (block : Payload) : Option (Nat × Nat) :=
  match block.get "source" with
  | some (.dict source) =>
    match source.lookup "type", source.lookup "data" with
    | some (.str "base64"), some (.str data) =>
      let head := data.toList.take (256 * 1024)
      if data = "" then none
      else do
        let raw ← host.b64decode (head.take (head.length - head.length % 4))
        let dims ← imageDimensions raw
        if dims.1 = 0 ∨ dims.2 = 0 then none else some dims
    | _, _ => none
  | _ => none

def ceilDiv (a b : Nat) : Nat := (a + b - 1) / b

/-- `image_tokens`. -/
def imageTokens (width height : Nat) (family : String) : Nat :=
  min (ceilDiv width 28 * ceilDiv height 28) (if family = "claude-4.7+" then 4784 else 1568)

/-- `_CPT_MILLI`. -/
def cptMilli (kind : String) : Nat :=
  if kind = "tool_result" then 2500 else if kind = "tool_def" then 2700 else 3600

/-- `est_tokens_for`. -/
def estTokensFor (kind : String) (nBytes : Nat) (family : String) : Nat :=
  ceilDiv (nBytes * 1000) (if family = "claude-legacy" then cptMilli kind * 13 / 10 else cptMilli kind)

/-! ### Fingerprints -/

/-- `_hmac(key, data)`. -/
def Host.digest (host : Host) (key : List UInt8) (data : List Char) : String :=
  String.ofList ((host.hmac key data).toList.take 32)

def tagOf (tier : String) (role : Option String) : List Char :=
  tier.toList ++ '\x1f' :: (role.getD "").toList ++ ['\x1f']

/-- `len(text.encode())`. -/
def utf8Length (text : List Char) : Nat := (text.map Char.utf8Size).sum

/-- `_block_ref`. -/
def blockRef (host : Host) (key : List UInt8) (family : String) (w : WiredBlock) (pos : Nat) : BlockRef :=
  let stripped := host.loads w.wire
  let tag := tagOf w.tier w.role
  let classes := ((strings 0 stripped).flatMap fun s => (volatileSpans host s.toList).map (·.cls)).dedup.insertionSort (· ≤ ·)
  let h := host.digest key (tag ++ w.wire)
  let px := if w.kind = "image" ∧ stripped.isDict then imagePx host stripped else none
  { h := h
    hSorted := some (host.digest key (tag ++ sortedWire stripped))
    hNorm := some (if classes = [] then h else host.digest key (tag ++ wire (normalized host 0 stripped)))
    tier := w.tier
    kind := w.kind
    role := w.role
    nBytes := utf8Length w.wire
    estTokens := if w.kind = "image" ∧ stripped.isDict then px.map fun d => imageTokens d.1 d.2 family
      else some (estTokensFor w.kind (utf8Length w.wire) family)
    imagePx := px
    volatileClasses := classes
    lookbackPos := pos
    deferred := decide (w.tier = "tools") && match stripped.get "defer_loading" with
      | some (.bool true) => true
      | _ => false }

/-- `ContentTier`. -/
inductive ContentTier where
  | none | fingerprint | full
  deriving DecidableEq

/-- The fingerprint, the breakpoints and the content map. -/
structure Fingerprinted where
  fingerprint : ContentFingerprint
  breakpoints : List Breakpoint
  content : List (String × List Char)

/-- `content[h] = wire`: an entry of the key is replaced where it is. -/
def setContent (content : List (String × List Char)) (h : String) (text : List Char) : List (String × List Char) :=
  if content.any fun e => e.1 == h then content.map fun e => if e.1 = h then (h, text) else e
  else content ++ [(h, text)]

/-- `_check_fp_args`: what it raises. -/
def checkFpArgs (key : List UInt8) (tier : ContentTier) : Option String :=
  if tier = .none then some "block fingerprints need content tier fingerprint or full (D22)"
  else if key = [] then some "fingerprints need a non-empty key"
  else none

/-- `fingerprint_blocks`. -/
def fingerprintBlocks (host : Host) (key : List UInt8) (tier : ContentTier) (family : String) (blocks : List WiredBlock) :
    Except String Fingerprinted :=
  match checkFpArgs key tier with
  | some why => .error why
  | none =>
    let refs := List.zipWith (blockRef host key family) blocks (lookbackPositions (blocks.map (·.kind)))
    let nTools := blocks.countP fun w => decide (w.tier = "tools")
    let nSystem := blocks.countP fun w => decide (w.tier = "system")
    .ok {
      fingerprint := ⟨host.keyId key, refs, nTools, nTools + nSystem, refs.length⟩
      breakpoints := breakpointsFrom 0 (blocks.map (·.marker))
      content := if tier = .full then
          (refs.zip blocks).foldl (fun content e => setContent content e.1.h e.2.wire) []
        else [] }

/-- `fingerprint_request`. -/
def fingerprintRequest (host : Host) (key : List UInt8) (tier : ContentTier) (family : String) (p : Sent) :
    Except String Fingerprinted :=
  match checkFpArgs key tier with
  | some why => .error why
  | none => fingerprintBlocks host key tier family (snapshotBlocks p)

end TokenBill.Fingerprint
