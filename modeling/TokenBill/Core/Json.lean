import Mathlib.Data.List.Sort
import Mathlib.Data.String.Basic

/-!
# Canonical JSON text

The text `json.dumps(obj, sort_keys=True, separators=(",", ":"), ensure_ascii=False)`
gives (`store.merge.canonical`): no white space, the keys of every object in order,
and only the characters escaped that `ensure_ascii=False` escapes. Documents hold
no floats (`to_json` refuses them).
-/

namespace TokenBill

open List

/-- A JSON document without floats. -/
inductive Json where
  | null
  | bool (b : Bool)
  | int (n : Int)
  | str (s : String)
  | arr (items : List Json)
  | obj (fields : List (String × Json))

namespace Json

/-! ### Optional values -/

/-- `value or None` of a string. -/
def ofStr? (s : Option String) : Json := (s.map Json.str).getD .null

def nat (n : Nat) : Json := .int n

def ofNat? (n : Option Nat) : Json := (n.map nat).getD .null

def ofInt? (n : Option Int) : Json := (n.map Json.int).getD .null

def ofBool? (b : Option Bool) : Json := (b.map Json.bool).getD .null

def pairs (ps : List (String × String)) : Json := .arr (ps.map fun p => .arr [.str p.1, .str p.2])

/-! ### Text -/

def hexDigit (n : Nat) : Char := if n < 10 then Char.ofNat (48 + n) else Char.ofNat (87 + n)

/-- The escape of one character: quotes, backslashes and control characters. -/
def escapeChar (c : Char) : List Char :=
  if c = '"' then ['\\', '"']
  else if c = '\\' then ['\\', '\\']
  else if c = '\n' then ['\\', 'n']
  else if c = '\r' then ['\\', 'r']
  else if c = '\t' then ['\\', 't']
  else if c = '\x0c' then ['\\', 'f']
  else if c = '\x08' then ['\\', 'b']
  else if c.toNat < 32 then ['\\', 'u', '0', '0', hexDigit (c.toNat / 16), hexDigit (c.toNat % 16)]
  else [c]

def quote (s : String) : List Char := '"' :: s.toList.flatMap escapeChar ++ ['"']

def fieldLe (a b : String × List Char) : Prop := a.1 ≤ b.1

instance : DecidableRel fieldLe := fun _ _ => inferInstanceAs (Decidable (_ ≤ _))

mutual

/-- The canonical text of a document. -/
def render : Json → List Char
  | .null => "null".toList
  | .bool true => "true".toList
  | .bool false => "false".toList
  | .int n => (toString n).toList
  | .str s => quote s
  | .arr items => '[' :: [','].intercalate (renderItems items) ++ [']']
  | .obj fields =>
    '{' :: [','].intercalate (((renderFields fields).insertionSort fieldLe).map fun f =>
      quote f.1 ++ ':' :: f.2) ++ ['}']

def renderItems : List Json → List (List Char)
  | [] => []
  | item :: items => render item :: renderItems items

def renderFields : List (String × Json) → List (String × List Char)
  | [] => []
  | (name, value) :: fields => (name, render value) :: renderFields fields

end

/-- `canonical(obj)`. -/
def canonical (j : Json) : String := String.ofList (render j)

example : canonical (.obj [("b", .arr [.int (-3), .null]), ("a", .str "x\"\n")]) =
    "\x7b\"a\":\"x\\\"\\n\",\"b\":[-3,null]\x7d" := by decide

/-! ### An object with a value left out -/

/-- Inserting a field by its key does not look at the value of another. -/
theorem orderedInsert_hole (x : String × List Char) (k : String) (A B : List (String × List Char)) :
    ∃ A' B', ∀ v, (A ++ (k, v) :: B).orderedInsert fieldLe x = A' ++ (k, v) :: B' := by
  induction A with
  | nil =>
    by_cases hx : fieldLe x (k, [])
    · exact ⟨[x], B, fun v => if_pos (c := fieldLe x (k, v)) hx⟩
    · exact ⟨[], B.orderedInsert fieldLe x, fun v => if_neg (c := fieldLe x (k, v)) hx⟩
  | cons a A ih =>
    by_cases hx : fieldLe x a
    · exact ⟨x :: a :: A, B, fun v => by rw [cons_append, orderedInsert_cons, if_pos hx]; rfl⟩
    · obtain ⟨A', B', h⟩ := ih
      exact ⟨a :: A', B', fun v => by
        rw [cons_append, orderedInsert_cons, if_neg hx, h]; rfl⟩

/-- A field in the order of the keys, before it has a value: the ordered insert of `(k, v)`. -/
theorem orderedInsert_self_hole (k : String) (l : List (String × List Char)) :
    ∃ A B, ∀ v, l.orderedInsert fieldLe (k, v) = A ++ (k, v) :: B := by
  induction l with
  | nil => exact ⟨[], [], fun _ => rfl⟩
  | cons a l ih =>
    by_cases hk : fieldLe (k, []) a
    · exact ⟨[], a :: l, fun v => if_pos (c := fieldLe (k, v) a) hk⟩
    · obtain ⟨A, B, h⟩ := ih
      exact ⟨a :: A, B, fun v =>
        (if_neg (c := fieldLe (k, v) a) hk).trans (congrArg (a :: ·) (h v))⟩

theorem insertionSort_hole (k : String) (pre post : List (String × List Char)) :
    ∃ A B, ∀ v, (pre ++ (k, v) :: post).insertionSort fieldLe = A ++ (k, v) :: B := by
  induction pre with
  | nil => exact orderedInsert_self_hole k (post.insertionSort fieldLe)
  | cons a pre ih =>
    obtain ⟨A, B, h⟩ := ih
    obtain ⟨A', B', h'⟩ := orderedInsert_hole a k A B
    exact ⟨A', B', fun v => by rw [cons_append, insertionSort_cons, h, h']⟩

theorem intercalate_hole {α : Type} (sep : List α) (A B : List (List α)) :
    ∃ P Q, ∀ v, sep.intercalate (A ++ v :: B) = P ++ v ++ Q := by
  induction A with
  | nil =>
    cases B with
    | nil => exact ⟨[], [], fun v => by simp [List.intercalate]⟩
    | cons b B => exact ⟨[], sep ++ sep.intercalate (b :: B), fun v => by simp [List.intercalate]⟩
  | cons a A ih =>
    obtain ⟨P, Q, h⟩ := ih
    refine ⟨a ++ sep ++ P, Q, fun v => ?_⟩
    cases A with
    | nil => simp_all [List.intercalate]
    | cons => simp_all [List.intercalate]

theorem renderFields_append (xs ys : List (String × Json)) :
    renderFields (xs ++ ys) = renderFields xs ++ renderFields ys := by
  induction xs with
  | nil => rfl
  | cons x xs ih => rw [cons_append, renderFields, renderFields, ih, cons_append]

/-- The text of an object with one value left out. -/
theorem render_hole (pre post : List (String × Json)) (k : String) :
    ∃ P Q, ∀ v, render (.obj (pre ++ (k, v) :: post)) = P ++ render v ++ Q := by
  obtain ⟨A, B, hsort⟩ := insertionSort_hole k (renderFields pre) (renderFields post)
  obtain ⟨P, Q, hcat⟩ := intercalate_hole [','] (A.map fun f => quote f.1 ++ ':' :: f.2)
    (B.map fun f => quote f.1 ++ ':' :: f.2)
  refine ⟨'{' :: P ++ quote k ++ [':'], Q ++ ['}'], fun v => ?_⟩
  rw [render, renderFields_append, renderFields, hsort, map_append, map_cons, hcat]
  simp

/-- Objects with different values of one field have different texts. -/
theorem render_field_inj (pre : List (String × Json)) {post : List (String × Json)} {k : String}
    {v v' : Json}
    (h : render (.obj (pre ++ (k, v) :: post)) = render (.obj (pre ++ (k, v') :: post))) :
    render v = render v' := by
  obtain ⟨P, Q, hv⟩ := render_hole pre post k
  rw [hv, hv] at h
  exact append_cancel_left (append_cancel_right h)

end Json

end TokenBill
