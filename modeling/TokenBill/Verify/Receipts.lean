import TokenBill.Core.Findings
import TokenBill.Core.PyJsonText
import TokenBill.General.Base64
import TokenBill.General.Separated

/-!
# Signed receipts

The check of a receipt, its canonical bytes, the bytes a signature covers, signing, and the receipt that an envelope
carries. A receipt is a value of the host: a dictionary has a key once, and a string is a list of code points.
-/

namespace TokenBill.Receipts

open General PyJson

/-! ### Values of the host -/

/-- A key of a dictionary: a string, or something else. -/
inductive Key where
  | str (s : List Nat)
  | other
  deriving DecidableEq

/-- A value of the host, as far as the check of a receipt tells them apart. -/
inductive Value where
  | null
  | bool (b : Bool)
  | int (n : Int)
  | float (x : ℚ)
  | str (s : List Nat)
  | list (items : List Value)
  | tuple (items : List Value)
  | dict (fields : List (Key × Value))
  | other

namespace Value

/-- What holds of a value when it holds of the values in it. -/
@[elab_as_elim]
theorem induct {P : Value → Prop} (null : P .null) (bool : ∀ b, P (.bool b)) (int : ∀ n, P (.int n))
    (float : ∀ x, P (.float x)) (str : ∀ s, P (.str s)) (list : ∀ items, (∀ v ∈ items, P v) → P (.list items))
    (tuple : ∀ items, (∀ v ∈ items, P v) → P (.tuple items))
    (dict : ∀ fields, (∀ f ∈ fields, P f.2) → P (.dict fields)) (other : P .other) (v : Value) : P v :=
  @Value.rec P (fun items => ∀ v ∈ items, P v) (fun fields => ∀ f ∈ fields, P f.2) (fun f => P f.2)
    null bool int float str list tuple dict other (fun _ h => absurd h List.not_mem_nil)
    (fun _ _ hv hvs => List.forall_mem_cons.mpr ⟨hv, hvs⟩) (fun _ h => absurd h List.not_mem_nil)
    (fun _ _ hf hfs => List.forall_mem_cons.mpr ⟨hf, hfs⟩) (fun _ _ hv => hv) v

def textOf : Key → List Nat
  | .str s => s
  | .other => []

mutual

/-- What `json.dumps` makes of a value: a tuple is a list. -/
def json : Value → PyJson (List Nat)
  | .null => .null
  | .bool b => .bool b
  | .int n => .int n
  | .float x => .float x
  | .str s => .str s
  | .list items => .list (jsonItems items)
  | .tuple items => .list (jsonItems items)
  | .dict fields => .dict (jsonFields fields)
  | .other => .null

/-- What `json.dumps` makes of some values. -/
def jsonItems : List Value → List (PyJson (List Nat))
  | [] => []
  | v :: items => json v :: jsonItems items

/-- What `json.dumps` makes of some members. -/
def jsonFields : List (Key × Value) → Dict (List Nat)
  | [] => []
  | (k, v) :: fields => (textOf k, json v) :: jsonFields fields

end

def isText (s : List Nat) : Bool := s.all fun n => decide (n < 0x110000)

mutual

/-- A dictionary has a key once, and strings are code points. -/
def wellFormed : Value → Bool
  | .str s => isText s
  | .list items => wellFormedItems items
  | .tuple items => wellFormedItems items
  | .dict fields => decide (fields.map fun f => textOf f.1).Nodup && wellFormedFields fields
  | _ => true

def wellFormedItems : List Value → Bool
  | [] => true
  | v :: items => wellFormed v && wellFormedItems items

def wellFormedFields : List (Key × Value) → Bool
  | [] => true
  | (k, v) :: fields => isText (textOf k) && wellFormed v && wellFormedFields fields

end

end Value

/-- A well-formed value of the host. -/
structure Obj where
  value : Value
  wellFormed : value.wellFormed = true

/-! ### Errors -/

/-- Why a receipt is not signed. -/
inductive Refusal where
  | label | reconciliation | basisMissing | allowance | projection | measurement

/-- What the functions raise. -/
inductive ReceiptError where
  | range (place : String)
  | keys (place : String)
  | shape (place : String)
  | nesting
  | unicode
  | notObject
  | notReceipt
  | unhashable
  | notSignable (reasons : List Refusal)
  | noKey
  | signing
  | notBase64
  | notJson
  | payload

/-- The text of a reason. The reason for a label names the label before it. -/
def Refusal.text : Refusal → String
  | .label => "(only measured or verified receipts are signed)"
  | .reconciliation => "reconciliation not passed"
  | .basisMissing => "basis missing"
  | .allowance => "allowance (list-equivalent) basis is never invoice savings"
  | .projection => "projection not calibrated"
  | .measurement => "the measurement is not signable"

/-- The text of an error. -/
def ReceiptError.text : ReceiptError → String
  | .range place => "receipt integer out of the I-JSON range at " ++ place
  | .keys place => "receipt keys must be ASCII strings (at " ++ place ++ ")"
  | .shape place => "receipts hold only objects, arrays, strings and integers (at " ++ place ++ ")"
  | .nesting => "receipt nesting too deep"
  | .unicode => "receipt strings must be valid Unicode"
  | .notObject => "a receipt is a JSON object"
  | .notReceipt => "not a tokenbill receipt"
  | .unhashable => "unhashable type"
  | .notSignable reasons => "receipt not signable: " ++ "; ".intercalate (reasons.map Refusal.text)
  | .noKey => "the signing key file does not exist"
  | .signing => "ssh-keygen -Y sign failed"
  | .notBase64 => "the envelope payload is not base64"
  | .notJson => "the envelope payload is not JSON"
  | .payload => "the envelope payload is not a receipt"

/-! ### Canonical bytes -/

/-- `RECEIPT_TYPE`. -/
def receiptType : String := "urn:tokenbill:receipt:v1"

/-- `PAYLOAD_TYPE`. -/
def payloadType : String := "application/vnd.tokenbill.receipt+json"

/-- `_MAX_INT`. -/
def maxInt : Nat := 2 ^ 53 - 1

/-- `str.isascii`. -/
def isAscii (s : List Nat) : Bool := s.all fun n => decide (n < 128)

def asciiText (s : List Nat) : String := String.ofList (s.map Char.ofNat)

mutual

/-- `_check`. The host recurses to a depth. -/
def check (depth : Nat) : Value → String → Except ReceiptError Unit
  | .str _, _ => .ok ()
  | .int n, place => if n.natAbs ≤ maxInt then .ok () else .error (.range place)
  | .dict fields, place => if depth = 0 then .error .nesting else checkFields (depth - 1) fields place
  | .list items, place => if depth = 0 then .error .nesting else checkItems (depth - 1) items 0 place
  | .tuple items, place => if depth = 0 then .error .nesting else checkItems (depth - 1) items 0 place
  | _, place => .error (.shape place)

/-- `_check` of some items, the first of them at an index. -/
def checkItems (depth : Nat) : List Value → Nat → String → Except ReceiptError Unit
  | [], _, _ => .ok ()
  | v :: items, i, place =>
    match check depth v (place ++ "[" ++ toString i ++ "]") with
    | .error e => .error e
    | .ok () => checkItems depth items (i + 1) place

/-- `_check` of some members. -/
def checkFields (depth : Nat) : List (Key × Value) → String → Except ReceiptError Unit
  | [], _ => .ok ()
  | (k, v) :: fields, place =>
    match k with
    | .other => .error (.keys place)
    | .str s =>
      if isAscii s then
        match check depth v (place ++ "." ++ asciiText s) with
        | .error e => .error e
        | .ok () => checkFields depth fields place
      else .error (.keys place)

end

/-- `text.encode("utf-8")`. -/
def utf8 (text : String) : List UInt8 := text.toByteArray.data.toList

/-- `body.decode("utf-8")`. -/
def fromUtf8 (body : List UInt8) : Option String := String.fromUTF8? ⟨body.toArray⟩

/-- `json.dumps(data, sort_keys=True, separators=(",", ":"), ensure_ascii=False)`. The check leaves no floats. -/
def canonicalText (data : PyJson (List Nat)) : String := String.ofList (dumps (fun _ => []) escapePlain data)

/-- `canonical_bytes`. -/
def canonicalBytes (depth : Nat) (receipt : Value) : Except ReceiptError (List UInt8) :=
  match receipt with
  | .dict _ =>
    match check depth receipt "$" with
    | .error e => .error e
    | .ok () => if hasLoneSurrogate receipt.json then .error .unicode else .ok (utf8 (canonicalText receipt.json))
  | _ => .error .notObject

/-- `b"%d" % n`. -/
def decimalBytes (n : Nat) : List UInt8 := (Decimal.digits n).map fun c => UInt8.ofNat c.toNat

/-- `b" "`. -/
def space : UInt8 := 32

/-- `pae`. -/
def pae (payloadType : String) (body : List UInt8) : List UInt8 :=
  utf8 "DSSEv1 " ++ (frame decimalBytes space (utf8 payloadType) ++ space :: frame decimalBytes space body)

/-! ### Receipts -/

def codes (s : String) : List Nat := s.toList.map Char.toNat

/-- `mapping.get(name)`. -/
def get (name : String) (fields : List (Key × Value)) : Option Value :=
  (fields.find? fun f => decide (f.1 = .str (codes name))).map Prod.snd

/-- `value == text`. -/
def isStr (v : Option Value) (text : String) : Bool :=
  match v with
  | some (.str s) => decide (s = codes text)
  | _ => false

/-- `_predicate`. -/
def predicateOf (receipt : Value) : Except ReceiptError (List (Key × Value)) :=
  match receipt with
  | .dict fields =>
    match isStr (get "_type" fields) receiptType, get "predicate" fields with
    | true, some (.dict pred) => .ok pred
    | _, _ => .error .notReceipt
  | _ => .error .notReceipt

mutual

/-- A value that no set can be asked for. -/
def unhashable : Value → Bool
  | .list _ => true
  | .dict _ => true
  | .tuple items => unhashableItems items
  | _ => false

def unhashableItems : List Value → Bool
  | [] => false
  | v :: items => unhashable v || unhashableItems items

end

/-- `refusal_reasons`. -/
def refusalReasons (receipt : Value) : Except ReceiptError (List Refusal) :=
  match predicateOf receipt with
  | .error e => .error e
  | .ok pred =>
    if ((get "label" pred).map unhashable).getD false then .error .unhashable
    else
      .ok ((if isStr (get "label" pred) "measured" || isStr (get "label" pred) "verified" then [] else [.label]) ++
        (if isStr (get "reconciliation_verdict" pred) "reconciled" then [] else [.reconciliation]) ++
        (match get "basis" pred with
          | none => [.basisMissing]
          | some .null => [.basisMissing]
          | some basis => if isStr (some basis) "list_equivalent" then [.allowance] else []) ++
        (if (get "projected_usd_micro" pred).isSome && !isStr (get "calibration" pred) "calibrated" then [.projection]
          else []) ++
        (if isStr (get "signable" pred) "true" then [] else [.measurement]))

/-- A signing key: whether its file exists, its fingerprint, and the signature of some bytes by `ssh-keygen`. -/
structure Signer where
  isFile : Bool
  keyid : String
  run : List UInt8 → Option (List UInt8)

/-- A DSSE envelope. -/
structure Envelope where
  payload : Value
  payloadType : String
  signatures : List (String × String)

/-- `base64.b64encode(body).decode("ascii")`. -/
def b64encode (body : List UInt8) : String := String.ofList (Base64.encode body)

/-- `sign`. -/
def sign (depth : Nat) (signer : Signer) (receipt : Value) : Except ReceiptError Envelope := do
  let reasons ← refusalReasons receipt
  if reasons ≠ [] then .error (.notSignable reasons)
  else
    let body ← canonicalBytes depth receipt
    if !signer.isFile then .error .noKey
    else
      match signer.run (pae payloadType body) with
      | none => .error .signing
      | some sig => .ok ⟨.str (codes (b64encode body)), payloadType, [(signer.keyid, b64encode sig)]⟩

/-- `_b64`. -/
def b64 : Value → Option (List UInt8)
  | .str s => if isAscii s then Base64.decode (s.map Char.ofNat) else none
  | _ => none

mutual

/-- A value of `json.loads` as a value of the host. -/
def ofJson : PyJson (List Nat) → Value
  | .null => .null
  | .bool b => .bool b
  | .int n => .int n
  | .float x => .float x
  | .str s => .str s
  | .list items => .list (ofJsonItems items)
  | .dict fields => .dict (ofJsonFields fields)

/-- Values of `json.loads` as values of the host. -/
def ofJsonItems : List (PyJson (List Nat)) → List Value
  | [] => []
  | v :: items => ofJson v :: ofJsonItems items

/-- Members of `json.loads` as members of the host. -/
def ofJsonFields : Dict (List Nat) → List (Key × Value)
  | [] => []
  | (k, v) :: fields => (.str k, ofJson v) :: ofJsonFields fields

end

/-- `envelope_receipt`. -/
def envelopeReceipt (hooks : Hooks) (depth : Nat) (envelope : Envelope) : Except ReceiptError Value :=
  match b64 envelope.payload with
  | none => .error .notBase64
  | some body =>
    match (fromUtf8 body).bind fun text => loadsWith hooks depth text.toList with
    | none => .error .notJson
    | some (.dict fields) => (predicateOf (ofJson (.dict fields))).map fun _ => ofJson (.dict fields)
    | some _ => .error .payload

/-- `receipt_id`. -/
def receiptId (h : Hashes) (sha256 : List UInt8 → String) (depth : Nat) (receipt : Value) :
    Except ReceiptError String :=
  (canonicalBytes depth receipt).map fun bytes => h.stableId "rc" [sha256 bytes]

end TokenBill.Receipts
