import TokenBill.Core.PyJson
import TokenBill.General.Lists

/-!
# Writing values as JSON text and reading them back

`json.dumps` with sorted keys and without white space, for every way to escape the characters of a string, and
`json.loads` with hooks for the numbers that are no integers and for the constants outside of JSON. A text that was
written is read to the value with the members of its objects in order.
-/

namespace TokenBill

open General JsonText List

namespace PyJson

variable {σ : Type}

/-- What holds of a value when it holds of the values in it. -/
@[elab_as_elim]
theorem induct {P : PyJson σ → Prop} (null : P .null) (bool : ∀ b, P (.bool b)) (int : ∀ n, P (.int n))
    (float : ∀ x, P (.float x)) (str : ∀ s, P (.str s)) (list : ∀ items, (∀ v ∈ items, P v) → P (.list items))
    (dict : ∀ fields : Dict σ, (∀ f ∈ fields, P f.2) → P (.dict fields)) (v : PyJson σ) : P v :=
  @PyJson.rec σ P (fun items => ∀ v ∈ items, P v) (fun fields => ∀ f ∈ fields, P f.2) (fun f => P f.2)
    null bool int float str list dict (fun _ h => absurd h not_mem_nil)
    (fun _ _ hv hvs => forall_mem_cons.mpr ⟨hv, hvs⟩) (fun _ h => absurd h not_mem_nil)
    (fun _ _ hf hfs => forall_mem_cons.mpr ⟨hf, hfs⟩) (fun _ _ hv => hv) v

/-! ### The order of the members -/

/-- The order of the members of an object: by the code points of their keys. -/
def memberLe (f g : List Nat × PyJson (List Nat)) : Prop := f.1 ≤ g.1

instance : DecidableRel memberLe := fun f g => inferInstanceAs (Decidable (f.1 ≤ g.1))

instance : Std.Total memberLe := ⟨fun f g => le_total f.1 g.1⟩

instance : IsTrans _ memberLe := ⟨fun f g h => le_trans (a := f.1) (b := g.1) (c := h.1)⟩

def sortMembers (fields : Dict (List Nat)) : Dict (List Nat) := fields.insertionSort memberLe

mutual

/-- A value with the members of its objects in order. -/
def sorted : PyJson (List Nat) → PyJson (List Nat)
  | .list items => .list (sortedItems items)
  | .dict fields => .dict (sortMembers (sortedFields fields))
  | v => v

def sortedItems : List (PyJson (List Nat)) → List (PyJson (List Nat))
  | [] => []
  | v :: items => sorted v :: sortedItems items

def sortedFields : Dict (List Nat) → Dict (List Nat)
  | [] => []
  | (k, v) :: fields => (k, sorted v) :: sortedFields fields

end

theorem sortedItems_eq (items : List (PyJson (List Nat))) : sortedItems items = items.map sorted := by
  induction items with
  | nil => rfl
  | cons v items ih => exact congrArg (sorted v :: ·) ih

theorem sortedFields_eq (fields : Dict (List Nat)) : sortedFields fields = fields.map fun f => (f.1, sorted f.2) := by
  induction fields with
  | nil => rfl
  | cons f fields ih => exact congrArg ((f.1, sorted f.2) :: ·) ih

theorem sortMembers_perm (fields : Dict (List Nat)) : (sortMembers fields).Perm fields :=
  perm_insertionSort memberLe fields

variable {fields : Dict (List Nat)} {items : List (PyJson (List Nat))} {depth n fuel : Nat} {c : Char} {s : List Nat}
  {rest cs : List Char} {v : PyJson (List Nat)} {scan : List Char → Option (PyJson (List Nat) × List Char)}

theorem sortMembers_of_sorted (h : fields.Pairwise memberLe) : sortMembers fields = fields :=
  h.insertionSort_eq

theorem pairwise_sortMembers (fields : Dict (List Nat)) : (sortMembers fields).Pairwise memberLe :=
  pairwise_insertionSort memberLe fields

/-! ### Well-formed values -/

mutual

/-- No object has two members of one name. -/
def distinct : PyJson (List Nat) → Bool
  | .list items => distinctItems items
  | .dict fields => decide (fields.map Prod.fst).Nodup && distinctFields fields
  | _ => true

def distinctItems : List (PyJson (List Nat)) → Bool
  | [] => true
  | v :: items => distinct v && distinctItems items

/-- No object in the values of some members has two members of one name. -/
def distinctFields : Dict (List Nat) → Bool
  | [] => true
  | (_, v) :: fields => distinct v && distinctFields fields

end

theorem distinctItems_iff : distinctItems items = true ↔ ∀ v ∈ items, distinct v = true := by
  induction items with
  | nil => simp [distinctItems]
  | cons v items ih => simp [distinctItems, ih]

theorem distinctFields_iff : distinctFields fields = true ↔ ∀ f ∈ fields, distinct f.2 = true := by
  induction fields with
  | nil => simp [distinctFields]
  | cons f fields ih => simp [distinctFields, ih]

mutual

/-- How deep lists and objects nest in a value. -/
def nesting : PyJson (List Nat) → Nat
  | .list items => nestingItems items + 1
  | .dict fields => nestingFields fields + 1
  | _ => 0

def nestingItems : List (PyJson (List Nat)) → Nat
  | [] => 0
  | v :: items => max (nesting v) (nestingItems items)

/-- How deep lists and objects nest in the values of some members. -/
def nestingFields : Dict (List Nat) → Nat
  | [] => 0
  | (_, v) :: fields => max (nesting v) (nestingFields fields)

end

theorem nestingItems_le : nestingItems items ≤ depth ↔ ∀ v ∈ items, nesting v ≤ depth := by
  induction items with
  | nil => simp [nestingItems]
  | cons v items ih => simp [nestingItems, ih]

theorem nestingFields_le : nestingFields fields ≤ depth ↔ ∀ f ∈ fields, nesting f.2 ≤ depth := by
  induction fields with
  | nil => simp [nestingFields]
  | cons f fields ih => simp [nestingFields, ih]

/-! ### Writing -/

/-- `int.__repr__`. -/
def intText (n : Int) : List Char := (if n < 0 then ['-'] else []) ++ Decimal.digits n.natAbs

def quoted (escape : Nat → List Char) (s : List Nat) : List Char := '"' :: s.flatMap escape ++ ['"']

mutual

/-- The text of a value as it is. A number that is no integer is written by the host. -/
def text (floatText : ℚ → List Char) (escape : Nat → List Char) : PyJson (List Nat) → List Char
  | .null => "null".toList
  | .bool true => "true".toList
  | .bool false => "false".toList
  | .int n => intText n
  | .float x => floatText x
  | .str s => quoted escape s
  | .list [] => "[]".toList
  | .list (v :: items) => '[' :: text floatText escape v ++ textItems floatText escape items ++ [']']
  | .dict [] => "\x7b\x7d".toList
  | .dict ((k, v) :: fields) =>
    '{' :: quoted escape k ++ ':' :: text floatText escape v ++ textFields floatText escape fields ++ ['}']

def textItems (floatText : ℚ → List Char) (escape : Nat → List Char) : List (PyJson (List Nat)) → List Char
  | [] => []
  | v :: items => ',' :: text floatText escape v ++ textItems floatText escape items

/-- The texts of further members. -/
def textFields (floatText : ℚ → List Char) (escape : Nat → List Char) : Dict (List Nat) → List Char
  | [] => []
  | (k, v) :: fields =>
    ',' :: quoted escape k ++ ':' :: text floatText escape v ++ textFields floatText escape fields

end

/-- `json.dumps(value, sort_keys=True, separators=(",", ":"))`. -/
def dumps (floatText : ℚ → List Char) (escape : Nat → List Char) (v : PyJson (List Nat)) : List Char :=
  text floatText escape v.sorted

/-- A code point as it is, but for quotes, backslashes and control characters: `ensure_ascii=False`. -/
def escapePlain (n : Nat) : List Char := Json.escapeChar (Char.ofNat n)

def escapeUnit (n : Nat) : List Char :=
  ['\\', 'u', Json.hexDigit (n / 4096), Json.hexDigit (n / 256 % 16), Json.hexDigit (n / 16 % 16),
    Json.hexDigit (n % 16)]

/-- A code point in printable ASCII: `ensure_ascii=True`. -/
def escapeAscii (n : Nat) : List Char :=
  if n = 0x22 ∨ n = 0x5c ∨ n = 0x08 ∨ n = 0x0c ∨ n = 0x0a ∨ n = 0x0d ∨ n = 0x09 then Json.escapeChar (Char.ofNat n)
  else if 0x20 ≤ n ∧ n ≤ 0x7e then [Char.ofNat n]
  else if n < 0x10000 then escapeUnit n
  else escapeUnit (0xd800 + (n - 0x10000) / 0x400) ++ escapeUnit (0xdc00 + (n - 0x10000) % 0x400)

/-! ### Reading with hooks -/

/-- What a decoder makes of a number with a fraction or an exponent, and of `NaN`, `Infinity` and `-Infinity`. -/
structure Hooks where
  parseFloat : List Char → Option (PyJson (List Nat))
  parseConstant : List Char → Option (PyJson (List Nat))

/-- `_match_number`: a number in front of a text after its sign, and what follows it. -/
def numberWith (hooks : Hooks) (neg : Bool) (cs : List Char) : Option (PyJson (List Nat) × List Char) :=
  let whole := if cs.head? = some '0' then ['0'] else cs.takeWhile Char.isDigit
  let frac := fraction (cs.drop whole.length)
  let exp := exponent (cs.drop (whole.length + frac.length))
  let rest := cs.drop (whole.length + frac.length + exp.length)
  if whole.isEmpty then none
  else if frac.isEmpty && exp.isEmpty then
    if intMaxStrDigits < whole.length then none else some (.int (Decimal.signed neg (Decimal.ofDigits whole)), rest)
  else (hooks.parseFloat ((if neg then ['-'] else []) ++ whole ++ frac ++ exp)).map fun v => (v, rest)

/-- A constant in front of a text after some of its characters, or else what is read otherwise. -/
def constantOr (hooks : Hooks) (name rest cs : List Char) (otherwise : Option (PyJson (List Nat) × List Char)) :
    Option (PyJson (List Nat) × List Char) :=
  if rest.isPrefixOf cs then (hooks.parseConstant name).map fun v => (v, cs.drop rest.length) else otherwise

/-- A value that is neither an array nor an object in front of a text, and what follows it. -/
def scanLeaf (hooks : Hooks) (c : Char) (cs : List Char) : Option (PyJson (List Nat) × List Char) :=
  if c = '"' then (scanString cs).map fun r => (.str r.1, r.2)
  else if c = 'n' then word "ull".toList .null cs
  else if c = 't' then word "rue".toList (.bool true) cs
  else if c = 'f' then word "alse".toList (.bool false) cs
  else if c = 'N' then constantOr hooks "NaN".toList "aN".toList cs none
  else if c = 'I' then constantOr hooks "Infinity".toList "nfinity".toList cs none
  else if c = '-' then constantOr hooks "-Infinity".toList "Infinity".toList cs (numberWith hooks true cs)
  else numberWith hooks false (c :: cs)

/-- `scan_once`: a value in front of a text, and what follows it. Arrays and objects nest to a depth; beyond
it the host raises `RecursionError`. -/
def scanWith (hooks : Hooks) : Nat → List Char → Option (PyJson (List Nat) × List Char)
  | _, [] => none
  | depth, c :: cs =>
    if c = '[' then
      match depth with
      | 0 => none
      | depth + 1 =>
        if (skip cs).head? = some ']' then some (.list [], (skip cs).tail)
        else (scanItems (scanWith hooks depth) cs.length (skip cs)).map fun r => (.list r.1, r.2)
    else if c = '{' then
      match depth with
      | 0 => none
      | depth + 1 =>
        if (skip cs).head? = some '}' then some (.dict [], (skip cs).tail)
        else (scanMembers (scanWith hooks depth) cs.length [] (skip cs)).map fun r => (.dict r.1, r.2)
    else scanLeaf hooks c cs

/-- `json.loads(text, parse_float=…, parse_constant=…)`. -/
def loadsWith (hooks : Hooks) (depth : Nat) (text : List Char) : Option (PyJson (List Nat)) :=
  if text.head? = some bom then none
  else
    match scanWith hooks depth (skip text) with
    | some (v, rest) => if skip rest = [] then some v else none
    | none => none

theorem scanWith_leaf (hooks : Hooks) (depth : Nat) (hlist : c ≠ '[') (hdict : c ≠ '{') (cs : List Char) :
    scanWith hooks depth (c :: cs) = scanLeaf hooks c cs := by
  unfold scanWith
  rw [if_neg hlist, if_neg hdict]

/-! ### Reading strings that were written -/

/-- A code point that is no surrogate and whose escape is read to it. -/
def Escapes (escape : Nat → List Char) (n : Nat) : Prop :=
  (n < 0xd800 ∨ 0xe000 ≤ n) ∧ ∀ rest, scanUnits (escape n ++ rest) = pushCode n (scanUnits rest)

theorem scanUnits_plain (hq : c ≠ '"') (hb : c ≠ '\\') (hc : ¬c.toNat < 32) (rest : List Char) :
    scanUnits (c :: rest) = pushCode c.toNat (scanUnits rest) := by
  rw [scanUnits.eq_def]
  split
  · rename_i h; cases h
  · rename_i h; exact absurd (List.cons.inj h).1 hb
  · rename_i h; exact absurd (List.cons.inj h).1 hb
  · rename_i h
    obtain ⟨rfl, rfl⟩ := List.cons.inj h
    rw [if_neg hq, if_neg hc]

/-- The escape of a character is read to the character. -/
theorem scanUnits_escapeChar (c : Char) (rest : List Char) :
    scanUnits (Json.escapeChar c ++ rest) = pushCode c.toNat (scanUnits rest) := by
  unfold Json.escapeChar
  repeat' split
  · subst_vars; simp [scanUnits, escapeOf]
  · subst_vars; simp [scanUnits, escapeOf]
  · subst_vars; simp [scanUnits, escapeOf]
  · subst_vars; simp [scanUnits, escapeOf]
  · subst_vars; simp [scanUnits, escapeOf]
  · subst_vars; simp [scanUnits, escapeOf]
  · subst_vars; simp [scanUnits, escapeOf]
  · rename_i h
    have hhex := hex4_hexDigit (a := 0) (b := 0) (by omega) (by omega) (show c.toNat / 16 < 16 by omega)
      (show c.toNat % 16 < 16 by omega)
    have hval : ((0 * 16 + 0) * 16 + c.toNat / 16) * 16 + c.toNat % 16 = c.toNat := by omega
    rw [hval] at hhex
    show scanUnits ('\\' :: 'u' :: '0' :: '0' :: _ :: _ :: rest) = _
    rw [scanUnits]
    rw [show hex4 '0' '0' _ _ = _ from hhex]
  · exact scanUnits_plain ‹_› ‹_› ‹_› rest

/-- A code point that UTF-8 encodes. -/
def IsScalar (n : Nat) : Prop := n < 0xd800 ∨ 0xe000 ≤ n ∧ n < 0x110000

instance : DecidablePred IsScalar := fun _ => inferInstanceAs (Decidable (_ ∨ _))

theorem toNat_ofNat (h : IsScalar n) : (Char.ofNat n).toNat = n := by
  have hvalid : n.isValidChar := by
    rcases h with h | ⟨h, h'⟩
    · exact .inl h
    · exact .inr ⟨by omega, h'⟩
  unfold Char.ofNat
  rw [dif_pos hvalid]
  rfl

/-- Whatever UTF-8 encodes is read back when it was written without further escapes. -/
theorem escapes_plain (h : IsScalar n) : Escapes escapePlain n := by
  refine ⟨by unfold IsScalar at h; omega, fun rest => ?_⟩
  unfold escapePlain
  rw [scanUnits_escapeChar, toNat_ofNat h]

/-- Printable ASCII is read back when it was written in ASCII. -/
theorem escapes_ascii (hlow : 0x20 ≤ n) (hhigh : n ≤ 0x7e) : Escapes escapeAscii n := by
  have hscalar : IsScalar n := .inl (by omega)
  refine ⟨by omega, fun rest => ?_⟩
  unfold escapeAscii
  split
  · rw [scanUnits_escapeChar, toNat_ofNat hscalar]
  · rename_i hplain
    rw [if_pos ⟨hlow, hhigh⟩, singleton_append]
    have hne : ∀ c : Char, Char.ofNat n = c → n = c.toNat := fun c hc => by rw [← hc, toNat_ofNat hscalar]
    rw [scanUnits_plain, toNat_ofNat hscalar]
    · intro hc
      exact hplain (.inl (hne _ hc))
    · intro hc
      exact hplain (.inr (.inl (hne _ hc)))
    · rw [toNat_ofNat hscalar]
      omega

theorem scanUnits_flatMap {escape : Nat → List Char} (h : ∀ n ∈ s, Escapes escape n) (rest : List Char) :
    scanUnits (s.flatMap escape ++ '"' :: rest) = some (s, rest) := by
  induction s with
  | nil => simp [scanUnits]
  | cons n s ih =>
    rw [forall_mem_cons] at h
    rw [flatMap_cons, append_assoc, h.1.2, ih h.2]
    rfl

theorem joinPairs_eq (h : ∀ n ∈ s, n < 0xd800 ∨ 0xe000 ≤ n) : joinPairs s = s := by
  induction s with
  | nil => rfl
  | cons n s ih =>
    rw [forall_mem_cons] at h
    cases s with
    | nil => rfl
    | cons m s =>
      unfold joinPairs
      rw [if_neg (by omega), ih h.2]

/-- A quoted string is read back after its first quote. -/
theorem scanString_quoted {escape : Nat → List Char} (h : ∀ n ∈ s, Escapes escape n) (rest : List Char) :
    scanString (s.flatMap escape ++ '"' :: rest) = some (s, rest) := by
  unfold scanString
  rw [scanUnits_flatMap h, Option.map_some, joinPairs_eq fun n hn => (h n hn).1]

/-! ### Reading integers that were written -/

theorem fraction_stops (h : Decimal.Stops rest) : fraction rest = [] := by
  unfold fraction
  split
  · exact absurd rfl (h '.' rfl).2.1
  · rfl

theorem exponent_stops (h : Decimal.Stops rest) : exponent rest = [] := by
  cases rest with
  | nil => rfl
  | cons c cs => exact if_pos ⟨(h c rfl).2.2.1, (h c rfl).2.2.2⟩

theorem numberWith_digits (hooks : Hooks) (neg : Bool) (hn : (Decimal.digits n).length ≤ intMaxStrDigits)
    (hrest : Decimal.Stops rest) :
    numberWith hooks neg (Decimal.digits n ++ rest) = some (.int (Decimal.signed neg n), rest) := by
  have hwhole : (if (Decimal.digits n ++ rest).head? = some '0' then ['0']
      else (Decimal.digits n ++ rest).takeWhile Char.isDigit) = Decimal.digits n := by
    rcases Nat.eq_zero_or_pos n with rfl | hpos
    · rfl
    · obtain ⟨c, cs, hcs, hc⟩ := Decimal.head_digits hpos
      rw [if_neg]
      · exact (Decimal.takeWhile_digits _ rest (fun _ => Decimal.isDigit_of_mem_digits) fun c hc => (hrest c hc).1).1
      · rw [hcs]
        exact fun h => hc (Option.some.inj h)
  have hne : (Decimal.digits n).isEmpty = false := isEmpty_eq_false_iff.mpr (Decimal.digits_ne_nil n)
  unfold numberWith
  simp only [hwhole, drop_left, fraction_stops hrest, length_nil, Nat.add_zero, exponent_stops hrest, hne]
  rw [if_neg (by decide), if_pos (by decide), if_neg (by omega), Decimal.ofDigits_digits]

/-! ### Reading values that were written -/

/-- A value whose text is read back: no number in it is a float, the host reads the digits of its integers, its
strings are read back, and no object has two members of one name. -/
inductive Writable (escape : Nat → List Char) : PyJson (List Nat) → Prop
  | null : Writable escape .null
  | bool (b : Bool) : Writable escape (.bool b)
  | int {n : Int} (h : (Decimal.digits n.natAbs).length ≤ intMaxStrDigits) : Writable escape (.int n)
  | str {s : List Nat} (h : ∀ n ∈ s, Escapes escape n) : Writable escape (.str s)
  | list {items : List (PyJson (List Nat))} (h : ∀ v ∈ items, Writable escape v) : Writable escape (.list items)
  | dict {fields : Dict (List Nat)} (hkeys : (fields.map Prod.fst).Nodup)
      (hstrs : ∀ f ∈ fields, ∀ n ∈ f.1, Escapes escape n) (h : ∀ f ∈ fields, Writable escape f.2) :
      Writable escape (.dict fields)

variable (floatText : ℚ → List Char) {escape : Nat → List Char}

theorem intText_head (n : Int) : ∃ c cs, intText n = c :: cs ∧ (c = '-' ∨ c.isDigit) := by
  unfold intText
  split
  · exact ⟨_, _, rfl, .inl rfl⟩
  · cases h : Decimal.digits n.natAbs with
    | nil => exact absurd h (Decimal.digits_ne_nil _)
    | cons c cs =>
      refine ⟨c, cs, rfl, .inr ?_⟩
      exact Decimal.isDigit_of_mem_digits (n := n.natAbs) (by rw [h]; exact mem_cons_self)

/-- The start of a text of a value: neither white space nor the end of a list or an object. -/
theorem text_head (h : Writable escape v) :
    ∃ c cs, text floatText escape v = c :: cs ∧ isSpace c = false ∧ c ≠ ']' ∧ c ≠ '}' ∧ c ≠ bom := by
  cases h with
  | null => exact ⟨_, _, rfl, by decide⟩
  | bool b => cases b <;> exact ⟨_, _, rfl, by decide⟩
  | @int n h =>
    obtain ⟨c, cs, hcs, hc⟩ := intText_head n
    refine ⟨c, cs, hcs, ?_⟩
    rcases hc with rfl | hc
    · decide
    · refine ⟨?_, ?_, ?_, ?_⟩
      · cases hspace : isSpace c with
        | false => rfl
        | true =>
          simp only [isSpace, Bool.or_eq_true, decide_eq_true_eq] at hspace
          rcases hspace with ((rfl | rfl) | rfl) | rfl <;> cases hc
      all_goals rintro rfl; cases hc
  | str h => exact ⟨_, _, rfl, by decide⟩
  | @list items h => cases items <;> exact ⟨_, _, rfl, by decide⟩
  | @dict fields hkeys hstrs h => cases fields <;> exact ⟨_, _, rfl, by decide⟩

theorem skip_text (h : Writable escape v) (rest : List Char) :
    skip (text floatText escape v ++ rest) = text floatText escape v ++ rest := by
  obtain ⟨c, cs, hcs, hc, -⟩ := text_head floatText h
  rw [hcs, cons_append, skip_of_head hc]

theorem stops_textItems (items : List (PyJson (List Nat))) (rest : List Char) :
    Decimal.Stops (textItems floatText escape items ++ ']' :: rest) := by
  cases items <;> exact stops_of_head (by decide) _

theorem stops_textFields (fields : Dict (List Nat)) (rest : List Char) :
    Decimal.Stops (textFields floatText escape fields ++ '}' :: rest) := by
  cases fields <;> exact stops_of_head (by decide) _

/-- An integer is read as one. -/
theorem scanWith_int (hooks : Hooks) (depth : Nat) {n : Int}
    (h : (Decimal.digits n.natAbs).length ≤ intMaxStrDigits) (hrest : Decimal.Stops rest) :
    scanWith hooks depth (intText n ++ rest) = some (.int n, rest) := by
  unfold intText
  split
  · rename_i hneg
    have hconst : ("Infinity".toList).isPrefixOf (Decimal.digits n.natAbs ++ rest) = false := by
      cases hd : Decimal.digits n.natAbs with
      | nil => exact absurd hd (Decimal.digits_ne_nil _)
      | cons c cs =>
        have hc : c.isDigit := Decimal.isDigit_of_mem_digits (n := n.natAbs) (by rw [hd]; exact mem_cons_self)
        have hne : ('I' == c) = false := beq_eq_false_iff_ne.mpr fun hI => by subst hI; cases hc
        rw [cons_append, show "Infinity".toList = 'I' :: "nfinity".toList by decide, isPrefixOf_cons_cons, hne,
          Bool.false_and]
    show scanWith hooks depth ('-' :: (Decimal.digits n.natAbs ++ rest)) = _
    rw [scanWith_leaf hooks depth (by decide) (by decide)]
    unfold scanLeaf
    rw [if_neg (by decide), if_neg (by decide), if_neg (by decide), if_neg (by decide), if_neg (by decide),
      if_neg (by decide), if_pos rfl]
    unfold constantOr
    rw [hconst, if_neg (by decide), numberWith_digits hooks true h hrest]
    have hval : Decimal.signed true (n.natAbs : Int) = n := by
      unfold Decimal.signed
      rw [if_pos rfl]
      omega
    rw [hval]
  · rename_i hneg
    rw [nil_append]
    have hread := numberWith_digits hooks false h hrest
    have hval : Decimal.signed false (n.natAbs : Int) = n := by
      unfold Decimal.signed
      rw [if_neg (by decide)]
      omega
    rw [hval] at hread
    cases hd : Decimal.digits n.natAbs with
    | nil => exact absurd hd (Decimal.digits_ne_nil _)
    | cons c cs =>
      have hc : c.isDigit := Decimal.isDigit_of_mem_digits (n := n.natAbs) (by rw [hd]; exact mem_cons_self)
      have hne : c ≠ '"' ∧ c ≠ '[' ∧ c ≠ '{' ∧ c ≠ 'n' ∧ c ≠ 't' ∧ c ≠ 'f' ∧ c ≠ 'N' ∧ c ≠ 'I' ∧ c ≠ '-' := by
        refine ⟨?_, ?_, ?_, ?_, ?_, ?_, ?_, ?_, ?_⟩ <;> rintro rfl <;> cases hc
      obtain ⟨h1, h2, h3, h4, h5, h6, h7, h8, h9⟩ := hne
      rw [hd, cons_append] at hread
      rw [cons_append, scanWith_leaf hooks depth h2 h3]
      unfold scanLeaf
      rw [if_neg h1, if_neg h4, if_neg h5, if_neg h6, if_neg h7, if_neg h8, if_neg h9, hread]

/-- The items of a list are read back, with fuel for each of them. -/
theorem scanItems_text (hv : ∀ w ∈ v :: items, Writable escape w)
    (hscan : ∀ w ∈ v :: items, ∀ rest, Decimal.Stops rest → scan (text floatText escape w ++ rest) = some (w, rest))
    (hfuel : items.length < fuel) (rest : List Char) :
    scanItems scan fuel (text floatText escape v ++ textItems floatText escape items ++ ']' :: rest) =
      some (v :: items, rest) := by
  induction items generalizing v fuel with
  | nil =>
    obtain ⟨fuel, rfl⟩ : ∃ k, fuel = k + 1 := ⟨fuel - 1, by simp only [length_nil] at hfuel; omega⟩
    unfold scanItems
    rw [append_assoc, hscan v mem_cons_self _ (stops_textItems floatText [] rest)]
    rfl
  | cons w items ih =>
    obtain ⟨fuel, rfl⟩ : ∃ k, fuel = k + 1 := ⟨fuel - 1, by simp only [length_cons] at hfuel; omega⟩
    have htail := forall_mem_cons.mp hv
    have hless : items.length < fuel := by
      simp only [length_cons] at hfuel
      omega
    have hread := ih htail.2 (fun u hu => hscan u (mem_cons_of_mem _ hu)) hless
    unfold scanItems
    rw [append_assoc, hscan v mem_cons_self _ (stops_textItems floatText (w :: items) rest)]
    show (scanItems scan fuel (skip (text floatText escape w ++ textItems floatText escape items ++ ']' :: rest))).map
      _ = _
    rw [append_assoc, skip_text floatText (htail.2 w mem_cons_self), ← append_assoc, hread]
    rfl

/-- The members of an object are read back after those before, with fuel for each of them. -/
theorem scanMembers_text {k : List Nat} {before : Dict (List Nat)}
    (hkeys : ((before ++ (k, v) :: fields).map Prod.fst).Nodup)
    (hstrs : ∀ f ∈ (k, v) :: fields, ∀ n ∈ f.1, Escapes escape n) (hv : ∀ f ∈ (k, v) :: fields, Writable escape f.2)
    (hscan : ∀ f ∈ (k, v) :: fields, ∀ rest, Decimal.Stops rest →
      scan (text floatText escape f.2 ++ rest) = some (f.2, rest)) (hfuel : fields.length < fuel) (rest : List Char) :
    scanMembers scan fuel before
        (quoted escape k ++ ':' :: text floatText escape v ++ textFields floatText escape fields ++ '}' :: rest) =
      some (before ++ (k, v) :: fields, rest) := by
  induction fields generalizing k v before fuel with
  | nil =>
    obtain ⟨fuel, rfl⟩ : ∃ n, fuel = n + 1 := ⟨fuel - 1, by simp only [length_nil] at hfuel; omega⟩
    have hnew : k ∉ before.map Prod.fst := fun hmem => by
      rw [map_append, nodup_append] at hkeys
      exact hkeys.2.2 k hmem k mem_cons_self rfl
    have htext : quoted escape k ++ ':' :: text floatText escape v ++ textFields floatText escape [] ++ '}' :: rest =
        '"' :: (k.flatMap escape ++ '"' :: ':' :: (text floatText escape v ++ '}' :: rest)) := by
      simp [quoted, textFields]
    have hcolon : skip (':' :: (text floatText escape v ++ '}' :: rest)) =
      ':' :: (text floatText escape v ++ '}' :: rest) := skip_of_head (by decide) _
    rw [htext, scanMembers, scanString_quoted (s := k) (hstrs _ mem_cons_self)]
    simp only [hcolon]
    rw [skip_text floatText (hv _ mem_cons_self), hscan (k, v) mem_cons_self _ (stops_of_head (by decide) rest)]
    show some (upsert Prod.fst (k, v) before, rest) = _
    rw [upsert_append hnew]
  | cons f fields ih =>
    obtain ⟨name, w⟩ := f
    obtain ⟨fuel, rfl⟩ : ∃ n, fuel = n + 1 := ⟨fuel - 1, by simp only [length_cons] at hfuel; omega⟩
    have hnew : k ∉ before.map Prod.fst := fun hmem => by
      rw [map_append, nodup_append] at hkeys
      exact hkeys.2.2 k hmem k mem_cons_self rfl
    have hless : fields.length < fuel := by
      simp only [length_cons] at hfuel
      omega
    have hkeys' : ((before ++ [(k, v)] ++ (name, w) :: fields).map Prod.fst).Nodup := by
      rwa [append_assoc]
    have hread := ih hkeys' (fun g hg => hstrs g (mem_cons_of_mem _ hg))
      (fun g hg => hv g (mem_cons_of_mem _ hg)) (fun g hg => hscan g (mem_cons_of_mem _ hg)) hless
    have htext : quoted escape k ++ ':' :: text floatText escape v ++ textFields floatText escape ((name, w) :: fields) ++
          '}' :: rest =
        '"' :: (k.flatMap escape ++ '"' :: ':' :: (text floatText escape v ++
          (textFields floatText escape ((name, w) :: fields) ++ '}' :: rest))) := by
      simp [quoted]
    have hcolon : ∀ cs, skip (':' :: cs) = ':' :: cs := fun cs => skip_of_head (by decide) cs
    rw [htext, scanMembers, scanString_quoted (s := k) (hstrs _ mem_cons_self)]
    simp only [hcolon]
    rw [skip_text floatText (hv _ mem_cons_self), hscan _ mem_cons_self _ (stops_textFields floatText ((name, w) :: fields) rest)]
    show scanMembers scan fuel (upsert Prod.fst (k, v) before)
      (skip (quoted escape name ++ ':' :: text floatText escape w ++ textFields floatText escape fields ++
        '}' :: rest)) = _
    rw [upsert_append hnew]
    rw [show skip (quoted escape name ++ ':' :: text floatText escape w ++ textFields floatText escape fields ++
      '}' :: rest) = _ from skip_of_head (c := '"') (by decide) _]
    rw [show before ++ (k, v) :: (name, w) :: fields = before ++ [(k, v)] ++ (name, w) :: fields by
      rw [append_assoc]; rfl]
    exact hread

theorem length_le_textItems (escape : Nat → List Char) (items : List (PyJson (List Nat))) :
    items.length ≤ (textItems floatText escape items).length := by
  induction items with
  | nil => exact Nat.zero_le _
  | cons v items ih =>
    simp only [textItems, length_cons, length_append]
    omega

theorem length_le_textFields (escape : Nat → List Char) (fields : Dict (List Nat)) :
    fields.length ≤ (textFields floatText escape fields).length := by
  induction fields with
  | nil => exact Nat.zero_le _
  | cons f fields ih =>
    obtain ⟨k, v⟩ := f
    simp only [textFields, length_cons, length_append]
    omega

/-- The text of a value is read to the value, whatever follows. -/
theorem scanWith_text (hooks : Hooks) (h : Writable escape v)
    (hdepth : nesting v ≤ depth) (hrest : Decimal.Stops rest) :
    scanWith hooks depth (text floatText escape v ++ rest) = some (v, rest) := by
  induction v using induct generalizing depth rest with
  | null => exact scanWith_leaf hooks depth (c := 'n') (by decide) (by decide) ("ull".toList ++ rest)
  | bool b =>
    cases b with
    | false => exact scanWith_leaf hooks depth (c := 'f') (by decide) (by decide) ("alse".toList ++ rest)
    | true => exact scanWith_leaf hooks depth (c := 't') (by decide) (by decide) ("rue".toList ++ rest)
  | int n =>
    cases h with
    | int h => exact scanWith_int hooks depth h hrest
  | float x => cases h
  | str s =>
    cases h with
    | str h =>
      have hleaf := scanWith_leaf hooks depth (c := '"') (by decide) (by decide) (s.flatMap escape ++ ['"'] ++ rest)
      rw [show text floatText escape (.str s) ++ rest = '"' :: (s.flatMap escape ++ ['"'] ++ rest) from rfl, hleaf]
      show (scanString (s.flatMap escape ++ ['"'] ++ rest)).map _ = _
      rw [append_assoc, singleton_append, scanString_quoted h, Option.map_some]
  | list items ih =>
    cases h with
    | list h =>
      obtain ⟨depth, rfl⟩ : ∃ n, depth = n + 1 := ⟨depth - 1, by simp only [nesting] at hdepth; omega⟩
      have hitems := nestingItems_le.mp (Nat.le_of_succ_le_succ hdepth)
      cases items with
      | nil => rfl
      | cons v items =>
        obtain ⟨c, cs, hcs, hc, hend, -⟩ := text_head floatText (h v mem_cons_self)
        have hhead : (text floatText escape v ++ textItems floatText escape items ++ ']' :: rest).head? ≠ some ']' := by
          rw [hcs]
          exact fun h => hend (Option.some.inj h)
        have hskip : skip (text floatText escape v ++ textItems floatText escape items ++ ']' :: rest) =
            text floatText escape v ++ textItems floatText escape items ++ ']' :: rest := by
          rw [append_assoc, skip_text floatText (h v mem_cons_self)]
        have hfuel : items.length <
            (text floatText escape v ++ textItems floatText escape items ++ ']' :: rest).length := by
          have hlen := length_le_textItems floatText escape items
          simp only [length_append, length_cons]
          omega
        have hread := scanItems_text floatText h
          (fun w hw rest hrest => ih w hw (h w hw) (hitems w hw) hrest) hfuel rest
        have htext : text floatText escape (.list (v :: items)) ++ rest =
            '[' :: (text floatText escape v ++ textItems floatText escape items ++ ']' :: rest) := by
          simp [text]
        rw [htext]
        unfold scanWith
        rw [if_pos rfl]
        simp only [hskip]
        rw [if_neg hhead, hread]
        rfl
  | dict fields ih =>
    cases h with
    | dict hkeys hstrs h =>
      obtain ⟨depth, rfl⟩ : ∃ n, depth = n + 1 := ⟨depth - 1, by simp only [nesting] at hdepth; omega⟩
      have hfields := nestingFields_le.mp (Nat.le_of_succ_le_succ hdepth)
      cases fields with
      | nil => rfl
      | cons f fields =>
        obtain ⟨k, v⟩ := f
        have hskip : skip (quoted escape k ++ ':' :: text floatText escape v ++
            textFields floatText escape fields ++ '}' :: rest) = quoted escape k ++ ':' :: text floatText escape v ++
            textFields floatText escape fields ++ '}' :: rest := skip_of_head (c := '"') (by decide) _
        have hhead : (quoted escape k ++ ':' :: text floatText escape v ++ textFields floatText escape fields ++
            '}' :: rest).head? ≠ some '}' := fun h => absurd (Option.some.inj h) (by decide)
        have hfuel : fields.length < (quoted escape k ++ ':' :: text floatText escape v ++
            textFields floatText escape fields ++ '}' :: rest).length := by
          have hlen := length_le_textFields floatText escape fields
          simp only [length_append, length_cons]
          omega
        have hread := scanMembers_text floatText (show (([] ++ (k, v) :: fields).map Prod.fst).Nodup from hkeys) hstrs h
          (fun g hg rest hrest => ih g hg (h g hg) (hfields g hg) hrest) hfuel rest
        have htext : text floatText escape (.dict ((k, v) :: fields)) ++ rest =
            '{' :: (quoted escape k ++ ':' :: text floatText escape v ++ textFields floatText escape fields ++
              '}' :: rest) := by
          simp [text]
        rw [htext]
        unfold scanWith
        rw [if_neg (by decide), if_pos rfl]
        simp only [hskip]
        rw [if_neg hhead, hread]
        rfl

/-! ### What is read -/

/-- What the hooks build is well-formed and neither a list nor an object with values. -/
def Hooks.Flat (hooks : Hooks) : Prop :=
  ∀ cs v, hooks.parseFloat cs = some v ∨ hooks.parseConstant cs = some v → distinct v = true ∧ nesting v = 0

theorem scanItems_spec {P : PyJson (List Nat) → Prop} (hscan : ∀ cs v rest, scan cs = some (v, rest) → P v)
    (h : scanItems scan fuel cs = some (items, rest)) : ∀ v ∈ items, P v := by
  induction fuel generalizing cs items with
  | zero => cases h
  | succ fuel ih =>
    unfold scanItems at h
    split at h
    · cases h
    · rename_i v cs' hv
      split at h
      · cases h
        exact forall_mem_singleton.mpr (hscan _ _ _ hv)
      · obtain ⟨r, hr, heq⟩ := Option.map_eq_some_iff.mp h
        cases heq
        exact forall_mem_cons.mpr ⟨hscan _ _ _ hv, ih hr⟩
      · cases h

theorem scanMembers_spec {P : PyJson (List Nat) → Prop}
    (hscan : ∀ cs v rest, scan cs = some (v, rest) → P v) {before : Dict (List Nat)}
    (hnodup : (before.map Prod.fst).Nodup) (hbefore : ∀ f ∈ before, P f.2)
    (h : scanMembers scan fuel before cs = some (fields, rest)) :
    (fields.map Prod.fst).Nodup ∧ ∀ f ∈ fields, P f.2 := by
  induction fuel generalizing before cs with
  | zero => cases h
  | succ fuel ih =>
    unfold scanMembers at h
    split at h
    · rename_i hfuel
      cases hfuel
      split at h
      · cases h
      · rename_i k _ _
        split at h
        · split at h
          · cases h
          · rename_i v cs' hv
            have hvalue := hscan _ _ _ hv
            have hkeys := nodup_map_upsert (x := (k, v)) hnodup
            have hvalues : ∀ f ∈ upsert Prod.fst (k, v) _, P f.2 := fun f hf => by
              rcases mem_of_mem_upsert hf with rfl | hf
              · exact hvalue
              · exact hbefore f hf
            split at h
            · cases h
              exact ⟨hkeys, hvalues⟩
            · exact ih hkeys hvalues h
            · cases h
        · cases h
    · cases h

theorem word_eq_some {w : List Char} {v' : PyJson (List Nat)} (h : word w v cs = some (v', rest)) : v' = v := by
  unfold word at h
  split at h
  · cases h
    rfl
  · cases h

variable {hooks : Hooks}

theorem numberWith_spec (hflat : hooks.Flat) {neg : Bool}
    (h : numberWith hooks neg cs = some (v, rest)) : distinct v = true ∧ nesting v = 0 := by
  unfold numberWith at h
  extract_lets whole frac exp rest' at h
  split at h
  · cases h
  · split at h
    · split at h
      · cases h
      · rw [← (Prod.mk.inj (Option.some.inj h)).1]
        exact ⟨rfl, rfl⟩
    · obtain ⟨w, hw, heq⟩ := Option.map_eq_some_iff.mp h
      rw [← (Prod.mk.inj heq).1]
      exact hflat _ _ (.inl hw)

theorem constantOr_spec (hflat : hooks.Flat) {name tail : List Char}
    {otherwise : Option (PyJson (List Nat) × List Char)}
    (hotherwise : otherwise = some (v, rest) → distinct v = true ∧ nesting v = 0)
    (h : constantOr hooks name tail cs otherwise = some (v, rest)) : distinct v = true ∧ nesting v = 0 := by
  unfold constantOr at h
  split at h
  · obtain ⟨w, hw, heq⟩ := Option.map_eq_some_iff.mp h
    cases heq
    exact hflat _ _ (.inr hw)
  · exact hotherwise h

theorem scanLeaf_spec (hflat : hooks.Flat)
    (h : scanLeaf hooks c cs = some (v, rest)) : distinct v = true ∧ nesting v = 0 := by
  unfold scanLeaf at h
  split at h
  · obtain ⟨r, -, heq⟩ := Option.map_eq_some_iff.mp h
    cases heq
    exact ⟨rfl, rfl⟩
  · split at h
    · exact word_eq_some h ▸ ⟨rfl, rfl⟩
    · split at h
      · exact word_eq_some h ▸ ⟨rfl, rfl⟩
      · split at h
        · exact word_eq_some h ▸ ⟨rfl, rfl⟩
        · split at h
          · exact constantOr_spec hflat (fun hnone => absurd hnone (Option.some_ne_none _).symm) h
          · split at h
            · exact constantOr_spec hflat (fun hnone => absurd hnone (Option.some_ne_none _).symm) h
            · split at h
              · exact constantOr_spec hflat (numberWith_spec hflat) h
              · exact numberWith_spec hflat h

/-- Whatever is read is well-formed and nests no deeper than the host does. -/
theorem scanWith_spec (hflat : hooks.Flat)
    (h : scanWith hooks depth cs = some (v, rest)) : distinct v = true ∧ nesting v ≤ depth := by
  induction depth generalizing cs v rest with
  | zero =>
    cases cs with
    | nil => cases h
    | cons c cs =>
      unfold scanWith at h
      split at h
      · cases h
      · split at h
        · cases h
        · obtain ⟨hdistinct, hnesting⟩ := scanLeaf_spec hflat h
          exact ⟨hdistinct, Nat.le_of_eq hnesting⟩
  | succ depth ih =>
    cases cs with
    | nil => cases h
    | cons c cs =>
      by_cases hlist : c = '['
      · subst hlist
        rw [scanWith, if_pos rfl] at h
        split at h
        · cases h
          exact ⟨rfl, Nat.succ_le_succ (Nat.zero_le _)⟩
        · obtain ⟨r, hr, heq⟩ := Option.map_eq_some_iff.mp h
          cases heq
          have hitems := scanItems_spec (fun _ _ _ => ih) hr
          exact ⟨distinctItems_iff.mpr fun w hw => (hitems w hw).1,
            Nat.succ_le_succ (nestingItems_le.mpr fun w hw => (hitems w hw).2)⟩
      · by_cases hdict : c = '{'
        · subst hdict
          rw [scanWith, if_neg (by decide), if_pos rfl] at h
          split at h
          · cases h
            exact ⟨rfl, Nat.succ_le_succ (Nat.zero_le _)⟩
          · obtain ⟨r, hr, heq⟩ := Option.map_eq_some_iff.mp h
            cases heq
            obtain ⟨hkeys, hfields⟩ := scanMembers_spec (fun _ _ _ => ih)
              (show (([] : Dict (List Nat)).map Prod.fst).Nodup from nodup_nil)
              (fun _ hf => absurd hf not_mem_nil) hr
            refine ⟨?_, Nat.succ_le_succ (nestingFields_le.mpr fun f hf => (hfields f hf).2)⟩
            show (decide _ && distinctFields r.1) = true
            rw [decide_eq_true hkeys, distinctFields_iff.mpr fun f hf => (hfields f hf).1]
            rfl
        · rw [scanWith_leaf hooks _ hlist hdict] at h
          obtain ⟨hdistinct, hnesting⟩ := scanLeaf_spec hflat h
          exact ⟨hdistinct, by omega⟩

theorem loadsWith_spec (hflat : hooks.Flat) {text : List Char}
    (h : loadsWith hooks depth text = some v) : distinct v = true ∧ nesting v ≤ depth := by
  unfold loadsWith at h
  split at h
  · cases h
  · split at h
    · rename_i hscan
      split at h
      · cases h
        exact scanWith_spec hflat hscan
      · cases h
    · cases h

/-! ### Reading what was written -/

theorem nesting_sorted (v : PyJson (List Nat)) : nesting v.sorted = nesting v := by
  induction v using induct with
  | null => rfl
  | bool b => rfl
  | int n => rfl
  | float x => rfl
  | str s => rfl
  | list items ih =>
    have hle : ∀ depth, nestingItems (sortedItems items) ≤ depth ↔ nestingItems items ≤ depth := fun depth => by
      rw [nestingItems_le, nestingItems_le, sortedItems_eq, forall_mem_map]
      exact forall₂_congr fun v hv => by rw [ih v hv]
    exact congrArg (· + 1) (Nat.le_antisymm ((hle _).mpr (Nat.le_refl _)) ((hle _).mp (Nat.le_refl _)))
  | dict fields ih =>
    have hle : ∀ depth, nestingFields (sortMembers (sortedFields fields)) ≤ depth ↔ nestingFields fields ≤ depth :=
      fun depth => by
        rw [nestingFields_le, nestingFields_le]
        simp only [(sortMembers_perm _).mem_iff]
        rw [sortedFields_eq, forall_mem_map]
        exact forall₂_congr fun f hf => by rw [ih f hf]
    exact congrArg (· + 1) (Nat.le_antisymm ((hle _).mpr (Nat.le_refl _)) ((hle _).mp (Nat.le_refl _)))

theorem keys_sortedFields (fields : Dict (List Nat)) : (sortedFields fields).map Prod.fst = fields.map Prod.fst := by
  rw [sortedFields_eq, map_map]
  rfl

theorem exists_of_mem_sorted {g : List Nat × PyJson (List Nat)}
    (hg : g ∈ sortMembers (sortedFields fields)) : ∃ f ∈ fields, (f.1, f.2.sorted) = g := by
  have hg := (sortMembers_perm _).mem_iff.mp hg
  rw [sortedFields_eq] at hg
  exact mem_map.mp hg

theorem Writable.sorted (h : Writable escape v) : Writable escape v.sorted := by
  induction v using induct with
  | null => exact h
  | bool b => exact h
  | int n => exact h
  | float x => exact h
  | str s => exact h
  | list items ih =>
    cases h with
    | list h =>
      refine .list fun w hw => ?_
      rw [sortedItems_eq] at hw
      obtain ⟨v, hv, rfl⟩ := mem_map.mp hw
      exact ih v hv (h v hv)
  | dict fields ih =>
    cases h with
    | dict hkeys hstrs h =>
      refine .dict ?_ (fun g hg => ?_) fun g hg => ?_
      · rw [((sortMembers_perm _).map Prod.fst).nodup_iff, keys_sortedFields]
        exact hkeys
      · obtain ⟨f, hf, rfl⟩ := exists_of_mem_sorted hg
        exact hstrs f hf
      · obtain ⟨f, hf, rfl⟩ := exists_of_mem_sorted hg
        exact ih f hf (h f hf)

/-- Reading the text of a value gives the value with the members of its objects in order. -/
theorem loadsWith_dumps (hooks : Hooks) (h : Writable escape v)
    (hdepth : nesting v ≤ depth) : loadsWith hooks depth (dumps floatText escape v) = some v.sorted := by
  have hsorted := h.sorted
  have hnesting : nesting v.sorted ≤ depth := by rwa [nesting_sorted]
  have hread := scanWith_text floatText hooks hsorted hnesting
    (show Decimal.Stops [] from fun _ hc => absurd hc (Option.not_mem_none _))
  have hskip := skip_text floatText hsorted []
  obtain ⟨c, cs, hcs, -, -, -, hbom⟩ := text_head floatText hsorted
  rw [append_nil] at hread hskip
  have hhead : (text floatText escape v.sorted).head? ≠ some bom := by
    rw [hcs]
    exact fun h => hbom (Option.some.inj h)
  unfold loadsWith dumps
  rw [if_neg hhead, hskip, hread]
  rfl

/-- Values with the same text have the same members in order. -/
theorem sorted_of_dumps_eq {w : PyJson (List Nat)} (hv : Writable escape v) (hw : Writable escape w)
    (h : dumps floatText escape v = dumps floatText escape w) : v.sorted = w.sorted := by
  have hooks : Hooks := ⟨fun _ => none, fun _ => none⟩
  have hread := loadsWith_dumps floatText hooks hv (Nat.le_max_left (nesting v) (nesting w))
  rw [h, loadsWith_dumps floatText hooks hw (Nat.le_max_right (nesting v) (nesting w))] at hread
  exact (Option.some.inj hread).symm

/-! ### The same value -/

/-- Members in order stay so when their values change. -/
theorem sortMembers_map (g : PyJson (List Nat) → PyJson (List Nat)) (fields : Dict (List Nat)) :
    (sortMembers fields).map (fun f => (f.1, g f.2)) = sortMembers (fields.map fun f => (f.1, g f.2)) := by
  unfold sortMembers
  rw [map_insertionSort (r := memberLe) (s := memberLe)]
  exact fun _ _ _ _ => Iff.rfl

theorem sorted_sorted (v : PyJson (List Nat)) : v.sorted.sorted = v.sorted := by
  induction v using induct with
  | null => rfl
  | bool b => rfl
  | int n => rfl
  | float x => rfl
  | str s => rfl
  | list items ih =>
    show PyJson.list (sortedItems (sortedItems items)) = .list (sortedItems items)
    rw [sortedItems_eq, sortedItems_eq, map_map]
    exact congrArg _ (map_congr_left ih)
  | dict fields ih =>
    show PyJson.dict (sortMembers (sortedFields (sortMembers (sortedFields fields)))) = .dict (sortMembers _)
    rw [sortedFields_eq, sortedFields_eq, sortMembers_map, map_map]
    rw [show sortMembers (sortMembers _) = _ from sortMembers_of_sorted (pairwise_sortMembers _)]
    exact congrArg (fun l => PyJson.dict (sortMembers l))
      (map_congr_left fun f hf => congrArg (Prod.mk f.1) (ih f hf))

/-- Values that are the same but for the order of the members of their objects. -/
def Same (v w : PyJson (List Nat)) : Prop := v.sorted = w.sorted

theorem same_sorted (v : PyJson (List Nat)) : Same v.sorted v := sorted_sorted v

end PyJson

end TokenBill
