import TokenBill.Core.Json
import TokenBill.General.JsonValue

/-!
# Reading and writing JSON text

The text of a JSON value without white space, the members of its objects in order, and
`json.loads`, which reads it back with exact numbers. A text may have white space and
escapes in it, and an object may name a member twice: the last one counts. Lone
surrogates are no characters here, so a text that escapes one is not read.
-/

namespace TokenBill

open General List

namespace JsonText

/-! ### Writing -/

mutual

/-- The text of a value. -/
def render : JsonValue → List Char
  | .null => "null".toList
  | .bool true => "true".toList
  | .bool false => "false".toList
  | .num n => n.text
  | .str s => Json.quote s
  | .arr [] => "[]".toList
  | .arr (item :: items) => '[' :: render item ++ renderItems items ++ [']']
  | .obj [] => "\x7b\x7d".toList
  | .obj ((k, v) :: fields) => '{' :: Json.quote k ++ ':' :: render v ++ renderFields fields ++ ['}']

def renderItems : List JsonValue → List Char
  | [] => []
  | item :: items => ',' :: render item ++ renderItems items

def renderFields : Fields → List Char
  | [] => []
  | (k, v) :: fields => ',' :: Json.quote k ++ ':' :: render v ++ renderFields fields

end

/-! ### Reading strings -/

/-- The value of a hexadecimal digit. -/
def hexValue (c : Char) : Option Nat :=
  if c.isDigit then some (c.toNat - 48)
  else if 'a' ≤ c ∧ c ≤ 'f' then some (c.toNat - 87)
  else if 'A' ≤ c ∧ c ≤ 'F' then some (c.toNat - 55)
  else none

/-- The value of four hexadecimal digits. -/
def hex4 (a b c d : Char) : Option Nat := do
  let a ← hexValue a
  let b ← hexValue b
  let c ← hexValue c
  let d ← hexValue d
  some (((a * 16 + b) * 16 + c) * 16 + d)

/-- The character a short escape stands for. -/
def escapeOf (c : Char) : Option Char :=
  if c = 'n' then some '\n'
  else if c = 'r' then some '\r'
  else if c = 't' then some '\t'
  else if c = 'f' then some '\x0c'
  else if c = 'b' then some '\x08'
  else if c = '"' ∨ c = '\\' ∨ c = '/' then some c
  else none

def push (c : Char) (read : Option (List Char × List Char)) : Option (List Char × List Char) :=
  read.map fun r => (c :: r.1, r.2)

/-- The rest of a string after its first quote, and what follows it. -/
def readString : List Char → Option (List Char × List Char)
  | [] => none
  | '\\' :: 'u' :: a :: b :: c :: d :: rest =>
    match hex4 a b c d with
    | none => none
    | some n =>
      if 0xd800 ≤ n ∧ n < 0xdc00 then
        match rest with
        | '\\' :: 'u' :: a :: b :: c :: d :: rest =>
          match hex4 a b c d with
          | none => none
          | some m =>
            if 0xdc00 ≤ m ∧ m < 0xe000 then
              push (Char.ofNat (0x10000 + (n - 0xd800) * 0x400 + (m - 0xdc00))) (readString rest)
            else none
        | _ => none
      else if 0xdc00 ≤ n ∧ n < 0xe000 then none
      else push (Char.ofNat n) (readString rest)
  | '\\' :: e :: rest =>
    match escapeOf e with
    | none => none
    | some c => push c (readString rest)
  | c :: rest => if c = '"' then some ([], rest) else if c.toNat < 32 then none else push c (readString rest)

/-! ### Reading values -/

def isSpace (c : Char) : Bool := c = ' ' || c = '\t' || c = '\n' || c = '\r'

def skip (cs : List Char) : List Char := cs.dropWhile isSpace

def keyword (word : List Char) (v : JsonValue) (cs : List Char) : Option (JsonValue × List Char) :=
  if word.isPrefixOf cs then some (v, cs.drop word.length) else none

mutual

/-- A value in front of a text, and what follows it. The number bounds the values read. -/
def readValue : Nat → List Char → Option (JsonValue × List Char)
  | 0, _ => none
  | _ + 1, [] => none
  | n + 1, c :: cs =>
    if c = '"' then (readString cs).map fun r => (.str (String.ofList r.1), r.2)
    else if c = '[' then
      if (skip cs).head? = some ']' then some (.arr [], (skip cs).tail)
      else (readItems n (skip cs)).map fun r => (.arr r.1, r.2)
    else if c = '{' then
      if (skip cs).head? = some '}' then some (.obj [], (skip cs).tail)
      else (readMembers n (skip cs)).map fun r =>
        (.obj (r.1.foldl (fun fields m => insertKey m.1 m.2 fields) []), r.2)
    else if c = 'n' then keyword "ull".toList .null cs
    else if c = 't' then keyword "rue".toList (.bool true) cs
    else if c = 'f' then keyword "alse".toList (.bool false) cs
    else (Decimal.read (c :: cs)).map fun r => (.num r.1, r.2)

/-- The items of an array, and what follows its bracket. -/
def readItems : Nat → List Char → Option (List JsonValue × List Char)
  | 0, _ => none
  | n + 1, cs =>
    match readValue n cs with
    | none => none
    | some (v, cs) =>
      match skip cs with
      | ']' :: rest => some ([v], rest)
      | ',' :: rest => (readItems n (skip rest)).map fun r => (v :: r.1, r.2)
      | _ => none

/-- The members of an object in the order they are named, and what follows its brace. -/
def readMembers : Nat → List Char → Option (Fields × List Char)
  | 0, _ => none
  | _ + 1, [] => none
  | n + 1, c :: cs =>
    if c = '"' then
      match readString cs with
      | none => none
      | some (k, cs) =>
        match skip cs with
        | ':' :: cs =>
          match readValue n (skip cs) with
          | none => none
          | some (v, cs) =>
            match skip cs with
            | '}' :: rest => some ([(String.ofList k, v)], rest)
            | ',' :: rest => (readMembers n (skip rest)).map fun r => ((String.ofList k, v) :: r.1, r.2)
            | _ => none
        | _ => none
    else none

end

/-- `json.loads`. -/
def loads (text : List Char) : Option JsonValue :=
  match readValue (text.length + 1) (skip text) with
  | some (v, rest) => if skip rest = [] then some v else none
  | none => none

example : (loads " \x7b\"a\" : [1.50, true ] , \"a\":\"\\u00e9\\ud83d\\ude00\" \x7d".toList).map render =
    some "\x7b\"a\":\"é😀\"\x7d".toList := by decide +kernel

/-! ### Reading strings that were written -/

theorem hexValue_hexDigit : ∀ n < 16, hexValue (Json.hexDigit n) = some n := by decide

theorem hex4_hexDigit {a b c d : Nat} (ha : a < 16) (hb : b < 16) (hc : c < 16) (hd : d < 16) :
    hex4 (Json.hexDigit a) (Json.hexDigit b) (Json.hexDigit c) (Json.hexDigit d) =
      some (((a * 16 + b) * 16 + c) * 16 + d) := by
  unfold hex4
  simp only [hexValue_hexDigit, ha, hb, hc, hd, Option.bind_eq_bind, Option.bind_some]

theorem readString_plain {c : Char} (hq : c ≠ '"') (hb : c ≠ '\\') (hc : ¬c.toNat < 32) (rest : List Char) :
    readString (c :: rest) = push c (readString rest) := by
  rw [readString.eq_def]
  split
  · rename_i h; cases h
  · rename_i h; exact absurd (List.cons.inj h).1 hb
  · rename_i h; exact absurd (List.cons.inj h).1 hb
  · rename_i h
    obtain ⟨rfl, rfl⟩ := List.cons.inj h
    rw [if_neg hq, if_neg hc]

theorem readString_escapeChar (c : Char) (rest : List Char) :
    readString (Json.escapeChar c ++ rest) = push c (readString rest) := by
  unfold Json.escapeChar
  repeat' split
  · subst_vars; simp [readString, escapeOf]
  · subst_vars; simp [readString, escapeOf]
  · subst_vars; simp [readString, escapeOf]
  · subst_vars; simp [readString, escapeOf]
  · subst_vars; simp [readString, escapeOf]
  · subst_vars; simp [readString, escapeOf]
  · subst_vars; simp [readString, escapeOf]
  · rename_i h
    have hhex := hex4_hexDigit (a := 0) (b := 0) (by omega) (by omega) (show c.toNat / 16 < 16 by omega)
      (show c.toNat % 16 < 16 by omega)
    have hval : ((0 * 16 + 0) * 16 + c.toNat / 16) * 16 + c.toNat % 16 = c.toNat := by omega
    rw [hval] at hhex
    show readString ('\\' :: 'u' :: '0' :: '0' :: _ :: _ :: rest) = _
    rw [readString]
    rw [show hex4 '0' '0' _ _ = _ from hhex]
    dsimp only
    rw [if_neg (by omega), if_neg (by omega), Char.ofNat_toNat]
  · exact readString_plain ‹_› ‹_› ‹_› rest

theorem readString_quote (cs rest : List Char) :
    readString (cs.flatMap Json.escapeChar ++ '"' :: rest) = some (cs, rest) := by
  induction cs with
  | nil => simp [readString]
  | cons c cs ih =>
    rw [flatMap_cons, append_assoc, readString_escapeChar, ih]
    rfl

/-- Texts that start with a quoted string, or with `null`, start with the same one. -/
theorem optional_inj {escape : Char → List Char} (hread : ∀ (x : String) rest,
      readString (x.toList.flatMap escape ++ '"' :: rest) = some (x.toList, rest)) {a b : Option String} {s t : List Char}
    (h : (a.map fun x => '"' :: x.toList.flatMap escape ++ ['"']).getD "null".toList ++ s =
      (b.map fun x => '"' :: x.toList.flatMap escape ++ ['"']).getD "null".toList ++ t) : a = b ∧ s = t := by
  cases a with
  | none =>
    cases b with
    | none => exact ⟨rfl, append_cancel_left h⟩
    | some b => exact absurd (List.cons.inj h).1 (by decide)
  | some a =>
    cases b with
    | none => exact absurd (List.cons.inj h).1 (by decide)
    | some b =>
      have htail : a.toList.flatMap escape ++ ['"'] ++ s = b.toList.flatMap escape ++ ['"'] ++ t := (List.cons.inj h).2
      rw [append_assoc, append_assoc] at htail
      have htexts := congrArg readString htail
      rw [singleton_append, singleton_append, hread, hread] at htexts
      obtain ⟨hab, hst⟩ := Prod.mk.inj (Option.some.inj htexts)
      exact ⟨congrArg some (String.toList_inj.mp hab), hst⟩

/-! ### Reading what was written -/

/-- The start of a text of a value: neither white space nor the end of an array or object. -/
theorem render_head (v : JsonValue) :
    ∃ c cs, render v = c :: cs ∧ isSpace c = false ∧ c ≠ ']' ∧ c ≠ '}' := by
  cases v with
  | null => exact ⟨_, _, rfl, by decide⟩
  | bool b => cases b <;> exact ⟨_, _, rfl, by decide⟩
  | num n =>
    obtain ⟨c, cs, hcs, hc⟩ := Decimal.text_head n
    refine ⟨c, cs, hcs, ?_⟩
    rcases hc with rfl | hc
    · decide
    · refine ⟨?_, ?_, ?_⟩
      · cases h : isSpace c with
        | false => rfl
        | true =>
          simp only [isSpace, Bool.or_eq_true, decide_eq_true_eq] at h
          rcases h with ((rfl | rfl) | rfl) | rfl <;> cases hc
      · rintro rfl
        cases hc
      · rintro rfl
        cases hc
  | str s => exact ⟨_, _, rfl, by decide⟩
  | arr items => cases items <;> exact ⟨_, _, rfl, by decide⟩
  | obj fields => cases fields <;> exact ⟨_, _, rfl, by decide⟩

theorem skip_of_head {c : Char} (h : isSpace c = false) (cs : List Char) : skip (c :: cs) = c :: cs := by
  unfold skip
  rw [dropWhile_cons, h, if_neg (by decide)]

theorem skip_render (v : JsonValue) (rest : List Char) : skip (render v ++ rest) = render v ++ rest := by
  obtain ⟨c, cs, hcs, hc, -⟩ := render_head v
  rw [hcs, cons_append, skip_of_head hc]

theorem stops_of_head {c : Char} (h : c = ',' ∨ c = ']' ∨ c = '}') (cs : List Char) :
    Decimal.Stops (c :: cs) := by
  rintro _ ⟨⟩
  rcases h with rfl | rfl | rfl <;> decide

theorem stops_renderItems (items : List JsonValue) (rest : List Char) :
    Decimal.Stops (renderItems items ++ ']' :: rest) := by
  cases items <;> exact stops_of_head (by decide) _

theorem stops_renderFields (fields : Fields) (rest : List Char) :
    Decimal.Stops (renderFields fields ++ '}' :: rest) := by
  cases fields <;> exact stops_of_head (by decide) _

theorem foldl_insertKey_sorted {fields : Fields} (h : SortedKeys fields) :
    fields.foldl (fun fields m => insertKey m.1 m.2 fields) [] = fields := by
  have hfold : ∀ base : Fields, SortedKeys (base ++ fields) →
      fields.foldl (fun fields m => insertKey m.1 m.2 fields) base = base ++ fields := by
    clear h
    induction fields with
    | nil => exact fun base _ => (append_nil base).symm
    | cons m fields ih =>
      intro base hbase
      have hlt : ∀ f ∈ base, f.1 < m.1 := fun f hf => by
        unfold SortedKeys at hbase
        rw [map_append, pairwise_append] at hbase
        exact hbase.2.2 _ (mem_map_of_mem hf) _ (mem_map_of_mem mem_cons_self)
      rw [foldl_cons, insertKey_last hlt, ih _ (by rwa [append_assoc]), append_assoc]
      rfl
  exact hfold [] h

theorem readValue_num (n : Nat) (d : Decimal) {rest : List Char} (hrest : Decimal.Stops rest) :
    readValue (n + 1) (d.text ++ rest) = some (.num d, rest) := by
  obtain ⟨c, cs, hcs, hc⟩ := Decimal.text_head d
  have hread := Decimal.read_text d hrest
  rw [hcs, cons_append] at hread ⊢
  have hne : c ≠ '"' ∧ c ≠ '[' ∧ c ≠ '{' ∧ c ≠ 'n' ∧ c ≠ 't' ∧ c ≠ 'f' := by
    rcases hc with rfl | hc
    · decide
    · refine ⟨?_, ?_, ?_, ?_, ?_, ?_⟩ <;> rintro rfl <;> cases hc
  obtain ⟨h1, h2, h3, h4, h5, h6⟩ := hne
  unfold readValue
  rw [if_neg h1, if_neg h2, if_neg h3, if_neg h4, if_neg h5, if_neg h6, hread]
  rfl

/-- The text of a value, of further items and of further members is read to them. -/
theorem read_render (n : Nat) :
    (∀ (v : JsonValue) (rest : List Char), v.Sorted → Decimal.Stops rest → (render v).length < n →
      readValue n (render v ++ rest) = some (v, rest)) ∧
    (∀ (v : JsonValue) (items : List JsonValue) (rest : List Char), (∀ w ∈ v :: items, w.Sorted) →
      (render v ++ renderItems items).length + 1 < n →
      readItems n (render v ++ renderItems items ++ ']' :: rest) = some (v :: items, rest)) ∧
    (∀ (k : String) (v : JsonValue) (fields : Fields) (rest : List Char),
      (∀ f ∈ (k, v) :: fields, f.2.Sorted) →
      (Json.quote k ++ ':' :: render v ++ renderFields fields).length + 1 < n →
      readMembers n (Json.quote k ++ ':' :: render v ++ renderFields fields ++ '}' :: rest) =
        some ((k, v) :: fields, rest)) := by
  induction n with
  | zero => exact ⟨fun _ _ _ _ h => (Nat.not_lt_zero _ h).elim, fun _ _ _ _ h => (Nat.not_lt_zero _ h).elim,
      fun _ _ _ _ _ h => (Nat.not_lt_zero _ h).elim⟩
  | succ n ih =>
    obtain ⟨ihValue, ihItems, ihMembers⟩ := ih
    refine ⟨fun v rest hv hrest hlen => ?_, fun v items rest hv hlen => ?_, fun k v fields rest hv hlen => ?_⟩
    · cases v with
      | null => rfl
      | bool b => cases b <;> rfl
      | num d => exact readValue_num n d hrest
      | str s =>
        show (readString (s.toList.flatMap Json.escapeChar ++ ['"'] ++ rest)).map _ = _
        rw [append_assoc, singleton_append, readString_quote, Option.map_some, String.ofList_toList]
      | arr items =>
        cases hv with
        | arr hv =>
          cases items with
          | nil => rfl
          | cons item items =>
            obtain ⟨c, cs, hcs, hc, hend, -⟩ := render_head item
            have hskip : skip (render item ++ renderItems items ++ ']' :: rest) =
                render item ++ renderItems items ++ ']' :: rest := by
              rw [append_assoc, skip_render]
            have hhead : (render item ++ renderItems items ++ ']' :: rest).head? ≠ some ']' := by
              rw [hcs]
              exact fun h => hend (Option.some.inj h)
            have hlen' : (render item ++ renderItems items).length + 1 < n := by
              simp only [render, length_append, length_cons, length_nil] at hlen ⊢
              omega
            have hread := ihItems item items rest hv hlen'
            show (readValue (n + 1) ('[' :: (render item ++ renderItems items ++ [']']) ++ rest)) = _
            rw [cons_append, append_assoc, singleton_append]
            unfold readValue
            rw [if_neg (by decide), if_pos rfl, hskip, if_neg hhead, hread]
            rfl
      | obj fields =>
        cases hv with
        | obj hkeys hv =>
          cases fields with
          | nil => rfl
          | cons m fields =>
            obtain ⟨k, w⟩ := m
            have hlen' : (Json.quote k ++ ':' :: render w ++ renderFields fields).length + 1 < n := by
              simp only [render, length_append, length_cons, length_nil] at hlen ⊢
              omega
            have hread := ihMembers k w fields rest hv hlen'
            show (readValue (n + 1) ('{' :: (Json.quote k ++ ':' :: render w ++ renderFields fields ++ ['}']) ++
              rest)) = _
            rw [cons_append, append_assoc, singleton_append]
            unfold readValue
            rw [if_neg (by decide), if_neg (by decide), if_pos rfl]
            show (if _ then _ else (readMembers n
              (Json.quote k ++ ':' :: render w ++ renderFields fields ++ '}' :: rest)).map _) = _
            rw [if_neg (by exact fun h => absurd (Option.some.inj h) (by decide)), hread, Option.map_some,
              foldl_insertKey_sorted hkeys]
    · have hvalue := ihValue v (renderItems items ++ ']' :: rest) (hv v mem_cons_self)
        (stops_renderItems items rest) (by rw [length_append] at hlen; omega)
      unfold readItems
      rw [append_assoc, hvalue]
      cases items with
      | nil => rfl
      | cons w items =>
        have hpos : 0 < (render v).length := by
          obtain ⟨c, cs, hcs, -⟩ := render_head v
          rw [hcs]
          exact Nat.succ_pos _
        have hlen' : (render w ++ renderItems items).length + 1 < n := by
          simp only [renderItems, length_append, length_cons] at hlen ⊢
          omega
        have hread := ihItems w items rest (fun u hu => hv u (mem_cons_of_mem _ hu)) hlen'
        show (readItems n (skip (render w ++ renderItems items ++ ']' :: rest))).map _ = _
        rw [append_assoc, skip_render, ← append_assoc, hread]
        rfl
    · have hvalue := ihValue v (renderFields fields ++ '}' :: rest) (hv (k, v) mem_cons_self)
        (stops_renderFields fields rest) (by
          simp only [length_append, length_cons] at hlen
          omega)
      have htext : Json.quote k ++ ':' :: render v ++ renderFields fields ++ '}' :: rest =
          '"' :: (k.toList.flatMap Json.escapeChar ++ '"' ::
            ':' :: (render v ++ (renderFields fields ++ '}' :: rest))) := by
        simp [Json.quote]
      have hcolon : skip (':' :: (render v ++ (renderFields fields ++ '}' :: rest))) =
          ':' :: (render v ++ (renderFields fields ++ '}' :: rest)) := skip_of_head (by decide) _
      rw [htext]
      unfold readMembers
      rw [if_pos rfl, readString_quote]
      simp only [hcolon]
      rw [skip_render, hvalue, String.ofList_toList]
      cases fields with
      | nil => rfl
      | cons m fields =>
        obtain ⟨name, w⟩ := m
        have hlen' : (Json.quote name ++ ':' :: render w ++ renderFields fields).length + 1 < n := by
          simp only [renderFields, length_append, length_cons] at hlen ⊢
          omega
        have hread := ihMembers name w fields rest (fun f hf => hv f (mem_cons_of_mem _ hf)) hlen'
        show (readMembers n (skip (Json.quote name ++ ':' :: render w ++ renderFields fields ++ '}' :: rest))).map _ = _
        rw [show skip (Json.quote name ++ ':' :: render w ++ renderFields fields ++ '}' :: rest) = _ from
          skip_of_head (c := '"') (by decide) _]
        exact congrArg (Option.map _) hread

theorem loads_render {v : JsonValue} (h : v.Sorted) : loads (render v) = some v := by
  have hskip := skip_render v []
  rw [append_nil] at hskip
  have hread := (read_render ((render v).length + 1)).1 v [] h nofun (Nat.lt_succ_self _)
  unfold loads
  rw [hskip, ← append_nil (render v), length_append, length_nil, Nat.add_zero, hread]
  rfl

/-! ### What is read is in order -/

theorem sorted_foldl_insertKey {members : Fields} (h : ∀ f ∈ members, f.2.Sorted) {fields : Fields}
    (hfields : (JsonValue.obj fields).Sorted) :
    (JsonValue.obj (members.foldl (fun fields m => insertKey m.1 m.2 fields) fields)).Sorted := by
  induction members generalizing fields with
  | nil => exact hfields
  | cons m members ih =>
    rw [forall_mem_cons] at h
    exact ih h.2 (hfields.insertKey m.1 h.1)

theorem keyword_eq_some {word cs rest : List Char} {v w : JsonValue} (h : keyword word v cs = some (w, rest)) :
    w = v := by
  unfold keyword at h
  split at h
  · cases h
    rfl
  · cases h

/-- Whatever is read has its objects in order. -/
theorem read_sorted (n : Nat) :
    (∀ cs v rest, readValue n cs = some (v, rest) → v.Sorted) ∧
    (∀ cs items rest, readItems n cs = some (items, rest) → ∀ v ∈ items, v.Sorted) ∧
    (∀ cs members rest, readMembers n cs = some (members, rest) → ∀ f ∈ members, f.2.Sorted) := by
  induction n with
  | zero => exact ⟨nofun, nofun, nofun⟩
  | succ n ih =>
    obtain ⟨ihValue, ihItems, ihMembers⟩ := ih
    refine ⟨fun cs v rest h => ?_, fun cs items rest h => ?_, fun cs members rest h => ?_⟩
    · cases cs with
      | nil => cases h
      | cons c cs =>
        unfold readValue at h
        split at h
        · obtain ⟨r, -, hr⟩ := Option.map_eq_some_iff.mp h
          cases hr
          exact .str _
        · split at h
          · split at h
            · cases h
              exact .arr nofun
            · obtain ⟨r, hread, hr⟩ := Option.map_eq_some_iff.mp h
              cases hr
              exact .arr (ihItems _ _ _ hread)
          · split at h
            · split at h
              · cases h
                exact .obj .nil nofun
              · obtain ⟨r, hread, hr⟩ := Option.map_eq_some_iff.mp h
                cases hr
                exact sorted_foldl_insertKey (ihMembers _ _ _ hread) (.obj .nil nofun)
            · split at h
              · exact keyword_eq_some h ▸ .null
              · split at h
                · exact keyword_eq_some h ▸ .bool true
                · split at h
                  · exact keyword_eq_some h ▸ .bool false
                  · obtain ⟨r, -, hr⟩ := Option.map_eq_some_iff.mp h
                    cases hr
                    exact .num _
    · unfold readItems at h
      split at h
      · cases h
      · rename_i v cs' hread
        have hv := ihValue _ _ _ hread
        split at h
        · cases h
          exact forall_mem_singleton.mpr hv
        · obtain ⟨r, hitems, hr⟩ := Option.map_eq_some_iff.mp h
          cases hr
          exact forall_mem_cons.mpr ⟨hv, ihItems _ _ _ hitems⟩
        · cases h
    · cases cs with
      | nil => cases h
      | cons c cs =>
        unfold readMembers at h
        split at h
        · split at h
          · cases h
          · split at h
            · split at h
              · cases h
              · rename_i v cs' hread
                have hv := ihValue _ _ _ hread
                split at h
                · cases h
                  exact forall_mem_singleton.mpr hv
                · obtain ⟨r, hmembers, hr⟩ := Option.map_eq_some_iff.mp h
                  cases hr
                  exact forall_mem_cons.mpr ⟨hv, ihMembers _ _ _ hmembers⟩
                · cases h
            · cases h
        · cases h

theorem loads_sorted {text : List Char} {v : JsonValue} (h : loads text = some v) : v.Sorted := by
  unfold loads at h
  split at h
  · rename_i hread
    split at h
    · cases h
      exact (read_sorted _).1 _ _ _ hread
    · cases h
  · cases h

end JsonText

end TokenBill
