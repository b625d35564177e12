import TokenBill.Core.JsonText

/-!
# What `json.loads` builds

The values that the JSON decoder of the host builds, and the decoder. An integer is told from a number with
a fraction or an exponent, which becomes a float by a hook; the constants outside of JSON are refused. A
string is a list of code points, since an escape may leave a surrogate without its partner.
-/

namespace TokenBill

open General JsonText

/-- A value that `json.loads` builds, with strings of a type. -/
inductive PyJson (σ : Type) where
  | null
  | bool (b : Bool)
  | int (n : Int)
  | float (x : ℚ)
  | str (s : σ)
  | list (items : List (PyJson σ))
  | dict (fields : List (σ × PyJson σ))

namespace PyJson

/-- The members of a dictionary. -/
abbrev Dict (σ : Type) : Type := List (σ × PyJson σ)

/-- `bool(value)`. -/
def truthy : PyJson String → Bool
  | .null => false
  | .bool b => b
  | .int n => decide (n ≠ 0)
  | .float x => decide (x ≠ 0)
  | .str s => decide (s ≠ "")
  | .list items => !items.isEmpty
  | .dict fields => !fields.isEmpty

/-- `value is None` of what `dict.get` returns. -/
def absent : Option (PyJson String) → Bool
  | none => true
  | some .null => true
  | some _ => false

/-! ### Strings -/

/-- A code point in front of what is read of a string. -/
def pushCode (n : Nat) (read : Option (List Nat × List Char)) : Option (List Nat × List Char) :=
  read.map fun r => (n :: r.1, r.2)

/-- The code units of the rest of a string after its first quote, and what follows it. -/
def scanUnits : List Char → Option (List Nat × List Char)
  | [] => none
  | '\\' :: 'u' :: a :: b :: c :: d :: rest =>
    match hex4 a b c d with
    | none => none
    | some n => pushCode n (scanUnits rest)
  | '\\' :: e :: rest =>
    match escapeOf e with
    | none => none
    | some c => pushCode c.toNat (scanUnits rest)
  | c :: rest => if c = '"' then some ([], rest) else if c.toNat < 32 then none else pushCode c.toNat (scanUnits rest)

/-- A high surrogate and its partner are one code point. A text has no surrogates but those that are escaped. -/
def joinPairs : List Nat → List Nat
  | n :: m :: rest =>
    if 0xd800 ≤ n ∧ n < 0xdc00 ∧ 0xdc00 ≤ m ∧ m < 0xe000 then
      (0x10000 + (n - 0xd800) * 0x400 + (m - 0xdc00)) :: joinPairs rest
    else n :: joinPairs (m :: rest)
  | units => units

/-- `scanstring`: the rest of a string after its first quote, and what follows it. -/
def scanString (cs : List Char) : Option (List Nat × List Char) := (scanUnits cs).map fun r => (joinPairs r.1, r.2)

/-! ### Numbers -/

/-- The most digits that `int` reads. -/
def intMaxStrDigits : Nat := 4300

def fraction : List Char → List Char
  | '.' :: rest => if (rest.takeWhile Char.isDigit).isEmpty then [] else '.' :: rest.takeWhile Char.isDigit
  | _ => []

/-- An exponent in front of a text, or nothing. -/
def exponent : List Char → List Char
  | e :: rest =>
    let sign := rest.takeWhile fun c => decide (c = '+' ∨ c = '-')
    let digits := (rest.drop 1).takeWhile Char.isDigit
    if e ≠ 'e' ∧ e ≠ 'E' then []
    else if sign.isEmpty then
      if (rest.takeWhile Char.isDigit).isEmpty then [] else e :: rest.takeWhile Char.isDigit
    else if digits.isEmpty then [] else e :: rest.take 1 ++ digits
  | [] => []

/-- `_match_number`: a number in front of a text after its sign, and what follows it. -/
def scanNumber (parseFloat : List Char → Option ℚ) (neg : Bool) (cs : List Char) :
    Option (PyJson (List Nat) × List Char) :=
  let whole := if cs.head? = some '0' then ['0'] else cs.takeWhile Char.isDigit
  let frac := fraction (cs.drop whole.length)
  let exp := exponent (cs.drop (whole.length + frac.length))
  let rest := cs.drop (whole.length + frac.length + exp.length)
  if whole.isEmpty then none
  else if frac.isEmpty && exp.isEmpty then
    if intMaxStrDigits < whole.length then none else some (.int (Decimal.signed neg (Decimal.ofDigits whole)), rest)
  else (parseFloat ((if neg then ['-'] else []) ++ whole ++ frac ++ exp)).map fun x => (.float x, rest)

/-! ### Values -/

def word (w : List Char) (v : PyJson (List Nat)) (cs : List Char) : Option (PyJson (List Nat) × List Char) :=
  if w.isPrefixOf cs then some (v, cs.drop w.length) else none

/-- The items of an array whose values a scanner reads, and what follows its bracket. -/
def scanItems (scan : List Char → Option (PyJson (List Nat) × List Char)) :
    Nat → List Char → Option (List (PyJson (List Nat)) × List Char)
  | 0, _ => none
  | fuel + 1, cs =>
    match scan cs with
    | none => none
    | some (v, cs) =>
      match skip cs with
      | ']' :: rest => some ([v], rest)
      | ',' :: rest => (scanItems scan fuel (skip rest)).map fun r => (v :: r.1, r.2)
      | _ => none

/-- The members of an object added to those before, and what follows its brace: a name that comes twice
stays where it is and has the last value. -/
def scanMembers (scan : List Char → Option (PyJson (List Nat) × List Char)) :
    Nat → Dict (List Nat) → List Char → Option (Dict (List Nat) × List Char)
  | fuel + 1, fields, '"' :: cs =>
    match scanString cs with
    | none => none
    | some (k, cs) =>
      match skip cs with
      | ':' :: cs =>
        match scan (skip cs) with
        | none => none
        | some (v, cs) =>
          match skip cs with
          | '}' :: rest => some (upsert Prod.fst (k, v) fields, rest)
          | ',' :: rest => scanMembers scan fuel (upsert Prod.fst (k, v) fields) (skip rest)
          | _ => none
      | _ => none
  | _, _, _ => none

/-- `scan_once`: a value in front of a text, and what follows it. Arrays and objects nest to a depth; beyond
it the host raises `RecursionError`. -/
def scanOnce (parseFloat : List Char → Option ℚ) : Nat → List Char → Option (PyJson (List Nat) × List Char)
  | _, [] => none
  | depth, c :: cs =>
    if c = '"' then (scanString cs).map fun r => (.str r.1, r.2)
    else if c = '[' then
      match depth with
      | 0 => none
      | depth + 1 =>
        if (skip cs).head? = some ']' then some (.list [], (skip cs).tail)
        else (scanItems (scanOnce parseFloat depth) cs.length (skip cs)).map fun r => (.list r.1, r.2)
    else if c = '{' then
      match depth with
      | 0 => none
      | depth + 1 =>
        if (skip cs).head? = some '}' then some (.dict [], (skip cs).tail)
        else (scanMembers (scanOnce parseFloat depth) cs.length [] (skip cs)).map fun r => (.dict r.1, r.2)
    else if c = 'n' then word "ull".toList .null cs
    else if c = 't' then word "rue".toList (.bool true) cs
    else if c = 'f' then word "alse".toList (.bool false) cs
    else if c = '-' then scanNumber parseFloat true cs
    else scanNumber parseFloat false (c :: cs)

/-- `JSONDecoder(parse_constant=refuse, parse_float=parseFloat).decode(text)`. -/
def decode (parseFloat : List Char → Option ℚ) (depth : Nat) (text : List Char) : Option (PyJson (List Nat)) :=
  match scanOnce parseFloat depth (skip text) with
  | some (v, rest) => if skip rest = [] then some v else none
  | none => none

def bom : Char := '\ufeff'

/-- `json.loads(text, parse_constant=refuse, parse_float=parseFloat)`: a byte order mark is refused, and a
decoder with the hooks does the rest. -/
def loads (parseFloat : List Char → Option ℚ) (depth : Nat) (text : List Char) : Option (PyJson (List Nat)) :=
  if text.head? = some bom then none else decode parseFloat depth text

/-! ### Surrogates -/

/-- A string that `str.encode("utf-8")` refuses. -/
def surrogateIn (s : List Nat) : Bool := s.any fun n => decide (0xd800 ≤ n ∧ n < 0xe000)

mutual

/-- `_has_lone_surrogate`. -/
def hasLoneSurrogate : PyJson (List Nat) → Bool
  | .str s => surrogateIn s
  | .list items => loneInItems items
  | .dict fields => loneInFields fields
  | _ => false

/-- `_has_lone_surrogate` of some of the values. -/
def loneInItems : List (PyJson (List Nat)) → Bool
  | [] => false
  | v :: items => hasLoneSurrogate v || loneInItems items

/-- `_has_lone_surrogate` of some of the keys and values. -/
def loneInFields : Dict (List Nat) → Bool
  | [] => false
  | (k, v) :: fields => surrogateIn k || hasLoneSurrogate v || loneInFields fields

end

/-! ### The byte order mark -/

/-- No value starts with a byte order mark, so the decoder refuses it as well. -/
theorem decode_bom (parseFloat : List Char → Option ℚ) (depth : Nat) (rest : List Char) :
    decode parseFloat depth (bom :: rest) = none := by
  have hskip : skip (bom :: rest) = bom :: rest := rfl
  have hnumber : scanNumber parseFloat false (bom :: rest) = none := rfl
  have hscan : scanOnce parseFloat depth (bom :: rest) = none := by
    unfold scanOnce
    rw [if_neg (by decide), if_neg (by decide), if_neg (by decide), if_neg (by decide), if_neg (by decide),
      if_neg (by decide), if_neg (by decide), hnumber]
  unfold decode
  rw [hskip, hscan]

/-- `loads` refuses no more than the decoder. -/
theorem loads_eq_decode (parseFloat : List Char → Option ℚ) (depth : Nat) (text : List Char) :
    loads parseFloat depth text = decode parseFloat depth text := by
  unfold loads
  split
  · rename_i hbom
    cases text with
    | nil => cases hbom
    | cons c rest =>
      obtain rfl := Option.some.inj hbom
      exact (decode_bom parseFloat depth rest).symm
  · rfl

end PyJson

end TokenBill
