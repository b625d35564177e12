import TokenBill.Core.Json
import TokenBill.Core.DecimalStr
import Mathlib.Data.Finset.Sort

/-!
# Records as JSON, by their annotations

`to_json` walks a record by the types of its values; `from_json` walks a document by the annotations
of the record's fields. Here the annotations (`Hint`) and the fields of every class (`Schema`) are
data, as `typing.get_type_hints` and `dataclasses.fields` give them, and the two walks are translated
over them. A class constructor is a function of the fields: it gives the fields as `__post_init__`
leaves them, or the text of its `ContractViolation`.
-/

namespace TokenBill.Codec

open General

/-! ### Values and annotations -/

/-- The value of a member of an enumeration: a text (`TBEnum`) or a number (`IntEnum`). -/
inductive EnumValue where
  | text (s : String)
  | number (n : Int)
  deriving DecidableEq

/-- The values that records are made of; `C` names the dataclasses, `E` the enumerations. -/
inductive Val (C E : Type) where
  | none
  | bool (b : Bool)
  | int (n : Int)
  | str (s : String)
  | decimal (d : Numeric)
  | member (e : E) (value : EnumValue)
  | tuple (items : List (Val C E))
  | list (items : List (Val C E))
  | frozenset (items : Finset String)
  | dict (entries : List (String × Val C E))
  | record (c : C) (fields : List (Val C E))

/-- The annotations of fields. -/
inductive Hint (C E : Type) where
  | none
  | bool
  | int
  | str
  | decimal
  | enum (e : E)
  /-- `tuple[item, ...]` -/
  | variadic (item : Hint C E)
  /-- `tuple[a, b, c]` -/
  | fixed (items : List (Hint C E))
  /-- `list[item]` -/
  | list (item : Hint C E)
  /-- `frozenset[str]` -/
  | frozenset
  /-- `dict[str, value]` -/
  | dict (value : Hint C E)
  /-- A union, of its arms but `None`, and whether `None` is one. -/
  | union (arms : List (Hint C E)) (nullable : Bool)
  | record (c : C)

/-- A field of a dataclass. -/
structure Field (C E : Type) where
  name : String
  hint : Hint C E
  default : Option (Val C E)
  /-- `OMIT_DEFAULT`: left out of the document while it holds its default. -/
  appended : Bool

/-- The dataclasses and the enumerations. -/
structure Schema (C E : Type) where
  className : C → String
  fields : C → List (Field C E)
  enumName : E → String
  values : E → List EnumValue

variable {C E : Type}

/-! ### Equality of the host -/

/-- What a value is as a text: a `TBEnum` member is the text it stands for. -/
def Val.text? : Val C E → Option String
  | .str s => some s
  | .member _ (.text s) => some s
  | _ => .none

/-- What a value is as a number: flags and members of an `IntEnum` are numbers. -/
def Val.number? : Val C E → Option ℚ
  | .bool b => some (if b then 1 else 0)
  | .int n => some n
  | .decimal (.finite d) => some d.toRat
  | .member _ (.number n) => some n
  | _ => .none

mutual

/-- `v == w`. -/
def Val.pyEq [DecidableEq C] : Val C E → Val C E → Bool
  | .none, .none => true
  | .tuple vs, .tuple ws => pyEqItems vs ws
  | .list vs, .list ws => pyEqItems vs ws
  | .frozenset s, .frozenset t => decide (s = t)
  | .dict es, .dict fs => es.length == fs.length && pyEqEntries es fs
  | .record c vs, .record d ws => decide (c = d) && pyEqItems vs ws
  | v, w =>
    match v.text?, w.text? with
    | some s, some t => s == t
    | _, _ =>
      match v.number?, w.number? with
      | some q, some r => decide (q = r)
      | _, _ => false

/-- Whether two sequences are equal, item by item. -/
def Val.pyEqItems [DecidableEq C] : List (Val C E) → List (Val C E) → Bool
  | [], [] => true
  | v :: vs, w :: ws => v.pyEq w && pyEqItems vs ws
  | _, _ => false

def Val.pyEqEntries [DecidableEq C] : List (String × Val C E) → List (String × Val C E) → Bool
  | [], _ => true
  | (k, v) :: es, fs => (match fs.lookup k with | some w => v.pyEq w | .none => false) && pyEqEntries es fs

end

/-! ### `to_json` -/

def EnumValue.json : EnumValue → Json
  | .text s => .str s
  | .number n => .int n

/-- Whether `_enc_dataclass` leaves a field out. -/
def Field.omits [DecidableEq C] (f : Field C E) (v : Val C E) : Bool :=
  f.appended && match f.default with | some d => v.pyEq d | .none => false

section Encode

variable [DecidableEq C] (S : Schema C E)

mutual

/-- `_enc(value)`, or the text of its `TypeError`. -/
def enc : Val C E → Except String Json
  | .none => .ok .null
  | .bool b => .ok (.bool b)
  | .int n => .ok (.int n)
  | .str s => .ok (.str s)
  | .decimal (.finite d) => .ok (.str (decimalStr d))
  | .decimal .special => .error "to_json: non-finite Decimal"
  | .member _ value => .ok value.json
  | .tuple items => do .ok (.arr (← encItems items))
  | .list items => do .ok (.arr (← encItems items))
  | .frozenset items => .ok (.arr ((items.sort (· ≤ ·)).map .str))
  | .dict entries => do .ok (.obj (← encEntries entries))
  | .record c fields => do .ok (.obj (← encFields (S.fields c) fields))

/-- The documents of the items of a sequence. -/
def encItems : List (Val C E) → Except String (List Json)
  | [] => .ok []
  | v :: vs => do
    let j ← enc v
    .ok (j :: (← encItems vs))

/-- The members of a mapping's document. -/
def encEntries : List (String × Val C E) → Except String (List (String × Json))
  | [] => .ok []
  | (k, v) :: es => do
    let j ← enc v
    .ok ((k, j) :: (← encEntries es))

/-- `_enc_dataclass(value, names)`. -/
def encFields : List (Field C E) → List (Val C E) → Except String (List (String × Json))
  | f :: fs, v :: vs =>
    if f.omits v then encFields fs vs
    else do
      let j ← enc v
      .ok ((f.name, j) :: (← encFields fs vs))
  | _, _ => .ok []

end

/-- `to_json(obj)`. -/
def toJson : Val C E → Except String Json
  | .record c fields => enc S (.record c fields)
  | _ => .error "to_json expects a dataclass instance"

end Encode

/-! ### `from_json` -/

/-- What stops a decoder: a `_DecodeError`, or the constructor's `ContractViolation`. -/
inductive Failure where
  | decode (why : String)
  | violation (why : String)

/-- `_as_list(v)`. -/
def asList : Json → Except Failure (List Json)
  | .arr items => .ok items
  | _ => .error (.decode "expected an array")

/-- `hint(v)` of an enumeration: a flag counts as its number. -/
def memberOf (S : Schema C E) (e : E) : Json → Option (Val C E)
  | .str s => if .text s ∈ S.values e then some (.member e (.text s)) else none
  | .int n => if .number n ∈ S.values e then some (.member e (.number n)) else none
  | .bool b =>
    let n : Int := if b then 1 else 0
    if .number n ∈ S.values e then some (.member e (.number n)) else none
  | _ => none

/-- `_json_matches(hint, value)`. -/
def jsonMatches (S : Schema C E) : Hint C E → Json → Bool
  | .none, .null => true
  | .bool, .bool _ => true
  | .int, .int _ => true
  | .str, .str _ => true
  | .decimal, .str _ => true
  | .decimal, .int _ => true
  | .enum e, j => (memberOf S e j).isSome
  | .variadic _, .arr _ => true
  | .fixed _, .arr _ => true
  | .list _, .arr _ => true
  | .frozenset, .arr _ => true
  | .dict _, .obj _ => true
  | .record _, .obj _ => true
  | _, _ => false

/-- Whether an annotation is `str`, `int` or `bool`. -/
def Hint.isPrimitive : Hint C E → Bool
  | .str => true
  | .int => true
  | .bool => true
  | _ => false

/-- `Decimal(v)` of a document. -/
def decDecimal : Json → Except Failure (Val C E)
  | .int n => .ok (.decimal (.finite (DecimalTuple.ofSigned n 0)))
  | .str s =>
    match decimalOf s with
    | some (.finite d) => .ok (.decimal (.finite d))
    | some .special => .error (.decode "non-finite decimal")
    | none => .error (.decode "bad decimal string")
  | _ => .error (.decode "expected a decimal string")

def decStr : Json → Except Failure String
  | .str s => .ok s
  | _ => .error (.decode "expected a string")

/-- A value of a union of `str`, `int` and `bool`, as the document has it. -/
def decPrimitive (arms : List (Hint C E)) : Json → Except Failure (Val C E)
  | .bool b => if arms.any (fun a => a matches .bool) then .ok (.bool b)
      else .error (.decode "value matches no union arm")
  | .int n => if arms.any (fun a => a matches .int) then .ok (.int n)
      else .error (.decode "value matches no union arm")
  | .str s => if arms.any (fun a => a matches .str) then .ok (.str s)
      else .error (.decode "value matches no union arm")
  | _ => .error (.decode "value matches no union arm")

section Decode

variable (S : Schema C E)

mutual

/-- `_decoder(hint)(v)`, given the decoders of the dataclasses. -/
def decode (decRecord : C → Json → Except Failure (Val C E)) : Hint C E → Json → Except Failure (Val C E)
  | .none, j => match j with
    | .null => .ok .none
    | _ => .error (.decode "expected null")
  | .bool, j => match j with
    | .bool b => .ok (.bool b)
    | _ => .error (.decode "expected a bool")
  | .int, j => match j with
    | .int n => .ok (.int n)
    | _ => .error (.decode "expected an int")
  | .str, j => do .ok (.str (← decStr j))
  | .decimal, j => decDecimal j
  | .enum e, j => match memberOf S e j with
    | some v => .ok v
    | none => .error (.decode ("not a " ++ S.enumName e ++ " value"))
  | .variadic item, j => do
    let items ← asList j
    .ok (.tuple (← items.mapM fun x => decode decRecord item x))
  | .fixed hints, j => do
    let items ← asList j
    if items.length = hints.length then .ok (.tuple (← decodeEach decRecord hints items))
    else .error (.decode "tuple length mismatch")
  | .list item, j => do
    let items ← asList j
    .ok (.list (← items.mapM fun x => decode decRecord item x))
  | .frozenset, j => do
    let items ← asList j
    .ok (.frozenset (← items.mapM decStr).toFinset)
  | .dict value, j => match j with
    | .obj entries => do
      .ok (.dict (← entries.mapM fun e => do .ok (e.1, ← decode decRecord value e.2)))
    | _ => .error (.decode "expected an object")
  | .union arms nullable, j =>
    match j with
    | .null => if nullable then .ok .none else .error (.decode "unexpected null")
    | j =>
      if arms.length ≠ 1 ∧ arms.all Hint.isPrimitive then decPrimitive arms j
      else decodeArm decRecord (arms.length == 1) arms j
  | .record c, j => decRecord c j

/-- The items of a tuple, each by its own annotation. -/
def decodeEach (decRecord : C → Json → Except Failure (Val C E)) :
    List (Hint C E) → List Json → Except Failure (List (Val C E))
  | h :: hs, x :: xs => do
    let v ← decode decRecord h x
    .ok (v :: (← decodeEach decRecord hs xs))
  | _, _ => .ok []

/-- The first arm of a union that matches; a single arm (`T | None`) is taken unasked. -/
def decodeArm (decRecord : C → Json → Except Failure (Val C E)) (single : Bool) :
    List (Hint C E) → Json → Except Failure (Val C E)
  | a :: arms, j => if single || jsonMatches S a j then decode decRecord a j else decodeArm decRecord single arms j
  | [], _ => .error (.decode "value matches no union arm")

end

/-- What a constructor makes of the values of its fields. -/
abbrev Construct (C E : Type) : Type := C → List (Val C E) → Except String (List (Val C E))

/-- The value of a field in a document. -/
def decodeField (decRecord : C → Json → Except Failure (Val C E)) (c : C) (members : List (String × Json))
    (f : Field C E) : Except Failure (Val C E) :=
  match members.lookup f.name with
  | some j => decode S decRecord f.hint j
  | none =>
    match f.default with
    | some d => .ok d
    | none => .error (.decode (S.className c ++ ": missing key " ++ f.name))

/-- `_dataclass_decoder(cls)(v)`; the number counts how deep dataclasses may still nest. -/
def decodeRecord (construct : Construct C E) : Nat → C → Json → Except Failure (Val C E)
  | n + 1, c, .obj members =>
    if members.all fun m => (S.fields c).any fun f => f.name == m.1 then do
      let values ← (S.fields c).mapM (decodeField S (decodeRecord construct n) c members)
      match construct c values with
      | .ok fields => .ok (.record c fields)
      | .error why => .error (.violation why)
    else .error (.decode (S.className c ++ ": unknown key"))
  | _, c, _ => .error (.decode (S.className c ++ ": expected an object"))

end Decode

mutual

/-- How deep arrays and objects nest in a document. -/
def depth : Json → Nat
  | .arr items => depthItems items + 1
  | .obj fields => depthFields fields + 1
  | _ => 0

def depthItems : List Json → Nat
  | [] => 0
  | j :: js => max (depth j) (depthItems js)

def depthFields : List (String × Json) → Nat
  | [] => 0
  | (_, j) :: fs => max (depth j) (depthFields fs)

end

/-- `from_json(cls, d)`, or the text of its `ContractViolation`. A dataclass is nested in an object of
the document, so the depth of the document is enough. -/
def fromJson (S : Schema C E) (construct : Construct C E) (c : C) (d : Json) : Except String (Val C E) :=
  match decodeRecord S construct (depth d) c d with
  | .ok v => .ok v
  | .error (.decode why) => .error ("from_json(" ++ S.className c ++ "): " ++ why)
  | .error (.violation why) => .error why

end TokenBill.Codec
