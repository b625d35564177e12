import TokenBill.Core.PyJsonText

/-!
# Raw usage objects of a trace

One recursion over a raw usage value sanitizes it for the writer and checks it for the reader. What is sanitized has
only allowed strings, and sanitizing its canonical text again changes nothing. The reader accepts it exactly when no
value of the object lies more than eight levels deep: a value below that is replaced by `null` for the writer, where the
reader refuses any value at all.
-/

namespace TokenBill.RawUsage

open General PyJson

/-! ### Keys and strings -/

def codes (s : String) : List Nat := s.toList.map Char.toNat

/-- `[A-Za-z0-9]`. -/
def isAlnum (n : Nat) : Bool := decide (65 ≤ n ∧ n ≤ 90 ∨ 97 ≤ n ∧ n ≤ 122 ∨ 48 ≤ n ∧ n ≤ 57)

/-- `[A-Za-z0-9_.:-]`. -/
def isWordChar (n : Nat) : Bool := isAlnum n || (codes "_.:-").contains n

/-- `[A-Za-z0-9_.:+/@\\[\\]-]`. -/
def isModelChar (n : Nat) : Bool := isAlnum n || (codes "_.:+/@[]-").contains n

/-- A text of at least one and at most some characters of a class. -/
def shaped (isChar : Nat → Bool) (most : Nat) (s : List Nat) : Bool :=
  decide (1 ≤ s.length ∧ s.length ≤ most) && s.all isChar

/-- `_RAW_KEY_RE`. -/
def rawKey (k : List Nat) : Bool := shaped isWordChar 96 k

/-- `_ENUM_VALUE_RE`. -/
def enumValue (s : List Nat) : Bool := shaped isWordChar 64 s

/-- `_MODEL_VALUE_RE`. -/
def modelValue (s : List Nat) : Bool := shaped isModelChar 128 s

/-- `RAW_USAGE_ENUMS`. A key without values may have any value of the shape of one. -/
def rawUsageEnums : List (List Nat × List (List Nat)) :=
  [(codes "tokenType", [codes "input", codes "cache_read", codes "cache_write", codes "output"]),
   (codes "contextTier", [codes "default", codes "long_context"]), (codes "initiator", []), (codes "interactionType", [])]

/-- `RAW_USAGE_NUMERIC`. -/
def rawUsageNumeric : List (List Nat) :=
  [codes "totalNanoAiu", codes "batchSize", codes "costPerBatch", codes "tokenCount"]

/-- `_RAW_STRING_KEYS`. -/
def rawStringKeys : List (List Nat) := [codes "service_tier", codes "speed", codes "inference_geo", codes "type"]

/-- `_RAW_MODEL_KEYS`. -/
def rawModelKeys : List (List Nat) := [codes "model"]

/-- `key in keys`. -/
def keyIn (key : Option (List Nat)) (keys : List (List Nat)) : Bool := (key.map fun k => decide (k ∈ keys)).getD false

/-- `_raw_string_ok`. -/
def rawStringOk (key : Option (List Nat)) (value : List Nat) : Bool :=
  if keyIn key rawModelKeys then modelValue value
  else
    match key.bind fun k => (rawUsageEnums.find? fun e => decide (e.1 = k)).map Prod.snd with
    | some [] => enumValue value
    | some values => decide (value ∈ values)
    | none => keyIn key rawStringKeys && enumValue value

/-- A string under a key is allowed by the rules of the key. -/
def allowed (key : Option (List Nat)) (s : List Nat) : Bool := !keyIn key rawUsageNumeric && rawStringOk key s

/-! ### The recursion -/

/-- `_MAX_INT`. -/
def maxInt : Int := 2 ^ 53

def maxDepth : Nat := 8

/-- `None` for the writer; the reader raises `_Bad("bad_usage")`. -/
def bad (fix : Bool) : Option (PyJson (List Nat)) := if fix then some .null else none

mutual

/-- `_raw_value`: a value is sanitized, or else checked. -/
def rawValue (fix : Bool) : PyJson (List Nat) → Option (List Nat) → Nat → Option (PyJson (List Nat))
  | v, key, depth =>
    if maxDepth < depth then bad fix
    else
      match v with
      | .null => some .null
      | .bool b => if keyIn key rawUsageNumeric then bad fix else some (.bool b)
      | .int n => if 0 ≤ n ∧ n ≤ maxInt then some (.int n) else bad fix
      | .str s => if allowed key s then some (.str s) else bad fix
      | .dict fields => (rawFields fix fields depth).map .dict
      | .list items => (rawItems fix items key depth).map .list
      | .float _ => bad fix

/-- `_raw_value` of the items of a list at a depth. -/
def rawItems (fix : Bool) : List (PyJson (List Nat)) → Option (List Nat) → Nat → Option (List (PyJson (List Nat)))
  | [], _, _ => some []
  | v :: items, key, depth =>
    match rawValue fix v key (depth + 1) with
    | none => none
    | some v => (rawItems fix items key depth).map (v :: ·)

/-- `_raw_value` of the members of an object at a depth. -/
def rawFields (fix : Bool) : Dict (List Nat) → Nat → Option (Dict (List Nat))
  | [], _ => some []
  | (k, v) :: fields, depth =>
    if !rawKey k then if fix then rawFields fix fields depth else none
    else
      match rawValue fix v (some k) (depth + 1) with
      | none => none
      | some v => (rawFields fix fields depth).map ((k, v) :: ·)

end

/-! ### The writer and the reader -/

/-- `_raw_json`. What is written has no floats. -/
def rawJson (v : PyJson (List Nat)) : List Char := dumps (fun _ => []) escapeAscii v

/-- `_RAW_USAGE_MAX`. -/
def rawUsageMax : Nat := 8 * 1024

/-- The hooks of the writer: numbers that are no integers and constants become `None`. -/
def hooks : Hooks := ⟨fun _ => some .null, fun _ => some .null⟩

/-- The object that a text of raw usage holds. The host nests to a depth. -/
def parsed (depth : Nat) (rawUsageJson : List Char) : Option (Dict (List Nat)) :=
  match loadsWith hooks depth rawUsageJson with
  | some (.dict fields) => some fields
  | _ => none

/-- `sanitize_raw_usage`. -/
def sanitizeRawUsage (depth : Nat) (rawUsageJson : Option (List Char)) : Option (PyJson (List Nat)) :=
  (rawUsageJson.bind (parsed depth)).bind fun fields =>
    (rawValue true (.dict fields) none 0).bind fun clean =>
      if rawUsageMax < (rawJson clean).length then none else some clean

/-- The reader's check of `raw_usage`: the text it keeps. -/
def readRawUsage (raw : PyJson (List Nat)) : Option (List Char) :=
  match raw with
  | .dict _ =>
    (rawValue false raw none 0).bind fun _ => if rawUsageMax < (rawJson raw).length then none else some (rawJson raw)
  | _ => none

end TokenBill.RawUsage
