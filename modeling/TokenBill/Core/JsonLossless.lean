import TokenBill.Core.Amounts
import TokenBill.Core.JsonText
import TokenBill.General.Separated

/-!
# Canonical JSON tells documents apart

`canonical` writes a document with the fields of every object in the order of their names, so its
text is the text of a value whose objects are sorted, and reading the text gives that value back
(`canonical_inj`). Two documents with one text read the same under every name (`field_eq`).
-/

namespace TokenBill

open General List

namespace Json

/-- What holds of a document when it holds of the documents in it. -/
@[elab_as_elim]
theorem induct {P : Json → Prop} (null : P .null) (bool : ∀ b, P (.bool b)) (int : ∀ n, P (.int n))
    (str : ∀ s, P (.str s)) (arr : ∀ items, (∀ v ∈ items, P v) → P (.arr items))
    (obj : ∀ fields, (∀ f ∈ fields, P f.2) → P (.obj fields)) (j : Json) : P j :=
  @Json.rec P (fun items => ∀ v ∈ items, P v) (fun fields => ∀ f ∈ fields, P f.2) (fun f => P f.2)
    null bool int str arr obj (fun _ h => absurd h not_mem_nil)
    (fun _ _ hv hvs => forall_mem_cons.mpr ⟨hv, hvs⟩) (fun _ h => absurd h not_mem_nil)
    (fun _ _ hf hfs => forall_mem_cons.mpr ⟨hf, hfs⟩) (fun _ _ hv => hv) j

/-! ### The value of a document -/

def keyLe (a b : String × JsonValue) : Prop := a.1 ≤ b.1

instance : DecidableRel keyLe := fun _ _ => inferInstanceAs (Decidable (_ ≤ _))

instance : Std.Total keyLe := ⟨fun _ _ => le_total _ _⟩

instance : IsTrans (String × JsonValue) keyLe := ⟨fun _ _ _ => le_trans⟩

mutual

/-- The value of a document, with the members of every object in order. -/
def toValue : Json → JsonValue
  | .null => .null
  | .bool b => .bool b
  | .int n => .num (Decimal.ofInt n)
  | .str s => .str s
  | .arr items => .arr (toValues items)
  | .obj fields => .obj ((toFields fields).insertionSort keyLe)

def toValues : List Json → List JsonValue
  | [] => []
  | item :: items => toValue item :: toValues items

def toFields : List (String × Json) → Fields
  | [] => []
  | (name, value) :: fields => (name, toValue value) :: toFields fields

end

theorem toValues_eq (items : List Json) : toValues items = items.map toValue := by
  induction items with
  | nil => rfl
  | cons item items ih => rw [toValues, ih, map_cons]

theorem toFields_eq (fields : List (String × Json)) : toFields fields = fields.map fun f => (f.1, toValue f.2) := by
  induction fields with
  | nil => rfl
  | cons f fields ih => rw [toFields, ih, map_cons]

theorem renderItems_eq (items : List Json) : renderItems items = items.map render := by
  induction items with
  | nil => rfl
  | cons item items ih => rw [renderItems, ih, map_cons]

theorem renderFields_eq (fields : List (String × Json)) : renderFields fields = fields.map fun f => (f.1, render f.2) := by
  induction fields with
  | nil => rfl
  | cons f fields ih => rw [renderFields, ih, map_cons]

/-! ### The text of a value -/

theorem intercalate_cons {α : Type} (sep x : List α) (xs : List (List α)) :
    sep.intercalate (x :: xs) = x ++ xs.flatMap (sep ++ ·) := by
  induction xs generalizing x with
  | nil => rw [intercalate_singleton, flatMap_nil, append_nil]
  | cons y ys ih => rw [intercalate_cons_cons, ih, flatMap_cons, append_assoc, append_assoc]

def memberText (f : String × JsonValue) : List Char := quote f.1 ++ ':' :: JsonText.render f.2

theorem render_arr (items : List JsonValue) :
    JsonText.render (.arr items) = '[' :: [','].intercalate (items.map JsonText.render) ++ [']'] := by
  have htail : ∀ vs : List JsonValue, JsonText.renderItems vs = (vs.map JsonText.render).flatMap ([','] ++ ·) := by
    intro vs
    induction vs with
    | nil => rfl
    | cons v vs ih =>
      rw [JsonText.renderItems, ih]
      rfl
  cases items with
  | nil => rfl
  | cons v vs => rw [JsonText.render, htail, map_cons, intercalate_cons, cons_append]

theorem render_obj (fields : Fields) :
    JsonText.render (.obj fields) = '{' :: [','].intercalate (fields.map memberText) ++ ['}'] := by
  have htail : ∀ fs : Fields, JsonText.renderFields fs = (fs.map memberText).flatMap ([','] ++ ·) := by
    intro fs
    induction fs with
    | nil => rfl
    | cons f fs ih =>
      rw [JsonText.renderFields, ih, map_cons, flatMap_cons, memberText]
      simp
  cases fields with
  | nil => rfl
  | cons f fs =>
    rw [JsonText.render, htail, map_cons, intercalate_cons, memberText]
    simp

theorem render_toValue (j : Json) : JsonText.render (toValue j) = render j := by
  induction j using induct with
  | null => rfl
  | bool b => cases b <;> rfl
  | int n =>
    rw [toValue, JsonText.render, render, toString_int_eq, String.toList_ofList]
  | str s => rfl
  | arr items ih =>
    have hitems : (items.map toValue).map JsonText.render = items.map render := by
      rw [map_map]
      exact map_congr_left ih
    rw [toValue, render_arr, render, renderItems_eq, toValues_eq, hitems]
  | obj fields ih =>
    have hmembers : (toFields fields).map (fun f => (f.1, JsonText.render f.2)) = renderFields fields := by
      rw [toFields_eq, renderFields_eq, map_map]
      exact map_congr_left fun f hf => Prod.ext rfl (ih f hf)
    rw [toValue, render_obj, render, ← hmembers, ← map_insertionSort keyLe fieldLe _ _ fun _ _ _ _ => Iff.rfl,
      map_map]
    rfl

/-! ### Documents with distinct names -/

/-- No object names a field twice. -/
inductive Distinct : Json → Prop
  | null : Distinct .null
  | bool (b : Bool) : Distinct (.bool b)
  | int (n : Int) : Distinct (.int n)
  | str (s : String) : Distinct (.str s)
  | arr {items : List Json} (h : ∀ v ∈ items, Distinct v) : Distinct (.arr items)
  | obj {fields : List (String × Json)} (hnames : (fields.map (·.1)).Nodup) (h : ∀ f ∈ fields, Distinct f.2) :
    Distinct (.obj fields)

theorem keys_toFields (fields : List (String × Json)) : (toFields fields).map (·.1) = fields.map (·.1) := by
  rw [toFields_eq, map_map]
  rfl

theorem sortedKeys_sort {fields : Fields} (h : (fields.map (·.1)).Nodup) : SortedKeys (fields.insertionSort keyLe) := by
  have hle : ((fields.insertionSort keyLe).map (·.1)).Pairwise (· ≤ ·) :=
    pairwise_map.mpr (pairwise_insertionSort keyLe fields)
  have hnodup : ((fields.insertionSort keyLe).map (·.1)).Nodup :=
    ((perm_insertionSort keyLe fields).map _).nodup_iff.mpr h
  exact (hle.and hnodup).imp fun h => lt_of_le_of_ne h.1 h.2

theorem Distinct.sorted {j : Json} (h : Distinct j) : (toValue j).Sorted := by
  induction h with
  | null => exact .null
  | bool b => exact .bool b
  | int n => exact .num _
  | str s => exact .str s
  | arr _ ih =>
    rw [toValue, toValues_eq]
    exact .arr (forall_mem_map.mpr ih)
  | @obj fields hnames _ ih =>
    rw [toValue]
    refine .obj (sortedKeys_sort ((keys_toFields fields).symm ▸ hnames)) fun f hf => ?_
    have hmem := (perm_insertionSort keyLe _).mem_iff.mp hf
    rw [toFields_eq] at hmem
    obtain ⟨g, hg, rfl⟩ := mem_map.mp hmem
    exact ih g hg

theorem canonical_inj {a b : Json} (ha : Distinct a) (hb : Distinct b) (h : canonical a = canonical b) :
    toValue a = toValue b := by
  have hread := JsonText.loads_render ha.sorted
  rw [render_toValue, String.ofList_injective h, ← render_toValue, JsonText.loads_render hb.sorted] at hread
  exact (Option.some.inj hread).symm

/-! ### Reading a value -/

theorem lookup_toFields (fields : List (String × Json)) (k : String) :
    (toFields fields).lookup k = (fields.lookup k).map toValue := by
  rw [toFields_eq]
  induction fields with
  | nil => rfl
  | cons f fields ih =>
    rw [map_cons, lookup_cons, lookup_cons, ih]
    cases k == f.1 <;> rfl

/-- Objects with one value read the same under every name. -/
theorem field_eq {fs gs : List (String × Json)} (hf : (fs.map (·.1)).Nodup) (hg : (gs.map (·.1)).Nodup)
    (h : toValue (.obj fs) = toValue (.obj gs)) (k : String) :
    (fs.lookup k).map toValue = (gs.lookup k).map toValue := by
  have hsort : ∀ {l : List (String × Json)}, (l.map (·.1)).Nodup →
      ((toFields l).insertionSort keyLe).lookup k = (l.lookup k).map toValue := fun {l} hl => by
    rw [← lookup_toFields]
    refine (lookup_perm (perm_insertionSort keyLe _).symm ?_ k).symm
    rw [keys_toFields]
    exact hl
  rw [toValue, toValue] at h
  rw [← hsort hf, ← hsort hg, JsonValue.obj.inj h]

/-! ### Values that are told apart -/

theorem toValue_str {s t : String} : toValue (.str s) = toValue (.str t) ↔ s = t :=
  ⟨fun h => JsonValue.str.inj h, fun h => h ▸ rfl⟩

theorem toValue_int {m n : Int} : toValue (.int m) = toValue (.int n) ↔ m = n :=
  ⟨fun h => congrArg Decimal.mant (JsonValue.num.inj h), fun h => h ▸ rfl⟩

theorem toValue_nat {m n : Nat} : toValue (nat m) = toValue (nat n) ↔ m = n :=
  toValue_int.trans Int.ofNat_inj

theorem toValue_arr {xs ys : List Json} : toValue (.arr xs) = toValue (.arr ys) ↔ xs.map toValue = ys.map toValue := by
  rw [toValue, toValue, toValues_eq, toValues_eq]
  exact ⟨JsonValue.arr.inj, congrArg _⟩

theorem toValue_ofStr? {s t : Option String} : toValue (ofStr? s) = toValue (ofStr? t) ↔ s = t := by
  cases s <;> cases t <;> simp [ofStr?, toValue]

theorem toValue_ofInt? {m n : Option Int} : toValue (ofInt? m) = toValue (ofInt? n) ↔ m = n := by
  cases m <;> cases n <;> simp [ofInt?, toValue, Decimal.ofInt]

theorem toValue_ofNat? {m n : Option Nat} : toValue (ofNat? m) = toValue (ofNat? n) ↔ m = n := by
  cases m <;> cases n <;> simp [ofNat?, nat, toValue, Decimal.ofInt]

theorem toValue_pairs {ps qs : List (String × String)} : toValue (pairs ps) = toValue (pairs qs) ↔ ps = qs := by
  unfold pairs
  rw [toValue_arr, map_map, map_map]
  refine (map_injective_iff.mpr fun p q h => ?_).eq_iff
  simpa [toValue, toValues, Prod.ext_iff] using h

end Json

end TokenBill
