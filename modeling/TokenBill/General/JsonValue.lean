import TokenBill.General.Decimals
import TokenBill.General.SortedTables
import Mathlib.Data.String.Basic

/-!
# JSON values

JSON values with exact numbers. An object is a list of members; in the order of their
names, without repetition, it is determined by what it reads under each name (`Sorted`).
Two values are equal when they are the same value: `true` is not `1`, and a number is its
value, however it was written.
-/

namespace TokenBill.General

open List

/-- A JSON value. -/
inductive JsonValue where
  | null
  | bool (b : Bool)
  | num (n : Decimal)
  | str (s : String)
  | arr (items : List JsonValue)
  | obj (fields : List (String × JsonValue))

/-- The members of an object. -/
abbrev Fields : Type := List (String × JsonValue)

namespace JsonValue

/-! ### Induction -/

/-- What holds of a value when it holds of the values in it. -/
@[elab_as_elim]
theorem induct {P : JsonValue → Prop} (null : P .null) (bool : ∀ b, P (.bool b)) (num : ∀ n, P (.num n))
    (str : ∀ s, P (.str s)) (arr : ∀ items, (∀ v ∈ items, P v) → P (.arr items))
    (obj : ∀ fields : Fields, (∀ f ∈ fields, P f.2) → P (.obj fields)) (v : JsonValue) : P v :=
  @JsonValue.rec P (fun items => ∀ v ∈ items, P v) (fun fields => ∀ f ∈ fields, P f.2) (fun f => P f.2)
    null bool num str arr obj (fun _ h => nomatch h)
    (fun _ _ hv hvs => forall_mem_cons.mpr ⟨hv, hvs⟩) (fun _ h => nomatch h)
    (fun _ _ hf hfs => forall_mem_cons.mpr ⟨hf, hfs⟩) (fun _ _ hv => hv) v

/-! ### Values in order -/

/-- Every object has its members in the order of their names. -/
inductive Sorted : JsonValue → Prop
  | null : Sorted .null
  | bool (b : Bool) : Sorted (.bool b)
  | num (n : Decimal) : Sorted (.num n)
  | str (s : String) : Sorted (.str s)
  | arr {items : List JsonValue} (h : ∀ v ∈ items, Sorted v) : Sorted (.arr items)
  | obj {fields : Fields} (hkeys : SortedKeys fields) (h : ∀ f ∈ fields, Sorted f.2) : Sorted (.obj fields)

/-- There is no `null` in a value. -/
inductive NullFree : JsonValue → Prop
  | bool (b : Bool) : NullFree (.bool b)
  | num (n : Decimal) : NullFree (.num n)
  | str (s : String) : NullFree (.str s)
  | arr {items : List JsonValue} (h : ∀ v ∈ items, NullFree v) : NullFree (.arr items)
  | obj {fields : Fields} (h : ∀ f ∈ fields, NullFree f.2) : NullFree (.obj fields)

theorem Sorted.keys {fields : Fields} (h : Sorted (.obj fields)) : SortedKeys fields := by
  cases h
  assumption

theorem Sorted.lookup {fields : Fields} (h : Sorted (.obj fields)) {k : String} {v : JsonValue}
    (hk : fields.lookup k = some v) : Sorted v := by
  cases h with
  | obj _ h => exact h _ (mem_of_lookup hk)

theorem NullFree.lookup {fields : Fields} (h : NullFree (.obj fields)) {k : String} {v : JsonValue}
    (hk : fields.lookup k = some v) : NullFree v := by
  cases h with
  | obj h => exact h _ (mem_of_lookup hk)

/-- `null`. -/
def isNull : JsonValue → Bool
  | .null => true
  | _ => false

theorem NullFree.isNull {v : JsonValue} (h : NullFree v) : v.isNull = false := by
  cases h <;> rfl

mutual

/-- Whether there is no `null` in a value. -/
def isNullFree : JsonValue → Bool
  | .null => false
  | .bool _ | .num _ | .str _ => true
  | .arr items => isNullFreeItems items
  | .obj fields => isNullFreeFields fields

def isNullFreeItems : List JsonValue → Bool
  | [] => true
  | v :: items => isNullFree v && isNullFreeItems items

def isNullFreeFields : Fields → Bool
  | [] => true
  | (_, v) :: fields => isNullFree v && isNullFreeFields fields

end

theorem isNullFreeItems_eq (items : List JsonValue) : isNullFreeItems items = items.all isNullFree := by
  induction items with
  | nil => rfl
  | cons v items ih => exact congrArg (isNullFree v && ·) ih

theorem isNullFreeFields_eq (fields : Fields) :
    isNullFreeFields fields = fields.all fun f => isNullFree f.2 := by
  induction fields with
  | nil => rfl
  | cons f fields ih => exact congrArg (isNullFree f.2 && ·) ih

theorem isNullFree_iff {v : JsonValue} : v.isNullFree = true ↔ v.NullFree := by
  induction v using induct with
  | null => exact ⟨nofun, nofun⟩
  | bool b => exact ⟨fun _ => .bool b, fun _ => rfl⟩
  | num n => exact ⟨fun _ => .num n, fun _ => rfl⟩
  | str s => exact ⟨fun _ => .str s, fun _ => rfl⟩
  | arr items ih =>
    show isNullFreeItems items = true ↔ _
    rw [isNullFreeItems_eq, all_eq_true]
    constructor
    · exact fun h => .arr fun v hv => (ih v hv).mp (h v hv)
    · intro h v hv
      cases h with
      | arr h => exact (ih v hv).mpr (h v hv)
  | obj fields ih =>
    show isNullFreeFields fields = true ↔ _
    rw [isNullFreeFields_eq, all_eq_true]
    constructor
    · exact fun h => .obj fun f hf => (ih f hf).mp (h f hf)
    · intro h f hf
      cases h with
      | obj h => exact (ih f hf).mpr (h f hf)

def fields : JsonValue → Fields
  | .obj fields => fields
  | _ => []

def isObj : JsonValue → Bool
  | .obj _ => true
  | _ => false

theorem Sorted.insertKey {fields : Fields} (h : Sorted (.obj fields)) (k : String) {v : JsonValue}
    (hv : Sorted v) : Sorted (.obj (insertKey k v fields)) := by
  cases h with
  | obj hkeys h =>
    refine .obj (hkeys.insertKey k v) fun f hf => ?_
    rcases mem_insertKey hf with rfl | hf
    · exact hv
    · exact h f hf

theorem NullFree.insertKey {fields : Fields} (h : NullFree (.obj fields)) (k : String) {v : JsonValue}
    (hv : NullFree v) : NullFree (.obj (General.insertKey k v fields)) := by
  cases h with
  | obj h =>
    refine .obj fun f hf => ?_
    rcases mem_insertKey hf with rfl | hf
    · exact hv
    · exact h f hf

/-! ### Numbers -/

section Numbers

variable (f : Decimal → Decimal)

mutual

/-- A value with its numbers changed. -/
def mapNum : JsonValue → JsonValue
  | .null => .null
  | .bool b => .bool b
  | .num n => .num (f n)
  | .str s => .str s
  | .arr items => .arr (mapNumItems items)
  | .obj fields => .obj (mapNumFields fields)

def mapNumItems : List JsonValue → List JsonValue
  | [] => []
  | item :: items => mapNum item :: mapNumItems items

def mapNumFields : Fields → Fields
  | [] => []
  | (k, v) :: fields => (k, mapNum v) :: mapNumFields fields

end

theorem mapNumItems_eq (items : List JsonValue) : mapNumItems f items = items.map (mapNum f) := by
  induction items with
  | nil => rfl
  | cons item items ih => exact congrArg (mapNum f item :: ·) ih

theorem mapNumFields_eq (fields : Fields) :
    mapNumFields f fields = fields.map fun m => (m.1, mapNum f m.2) := by
  induction fields with
  | nil => rfl
  | cons m fields ih => exact congrArg ((m.1, mapNum f m.2) :: ·) ih

theorem lookup_mapNumFields (fields : Fields) (k : String) :
    (mapNumFields f fields).lookup k = (fields.lookup k).map (mapNum f) := by
  rw [mapNumFields_eq, lookup_map_value]

theorem SortedKeys.mapNumFields {fields : Fields} (h : SortedKeys fields) :
    SortedKeys (mapNumFields f fields) := by
  rw [mapNumFields_eq]
  exact h.map_value (mapNum f)

theorem Sorted.mapNum {v : JsonValue} (h : Sorted v) : Sorted (v.mapNum f) := by
  induction h with
  | null => exact .null
  | bool b => exact .bool b
  | num n => exact .num _
  | str s => exact .str s
  | arr _ ih =>
    refine .arr fun w hw => ?_
    rw [mapNumItems_eq] at hw
    obtain ⟨v, hv, rfl⟩ := mem_map.mp hw
    exact ih v hv
  | obj hkeys _ ih =>
    refine .obj (SortedKeys.mapNumFields f hkeys) fun m hm => ?_
    rw [mapNumFields_eq] at hm
    obtain ⟨n, hn, rfl⟩ := mem_map.mp hm
    exact ih n hn

theorem NullFree.mapNum {v : JsonValue} (h : NullFree v) : NullFree (v.mapNum f) := by
  induction h with
  | bool b => exact .bool b
  | num n => exact .num _
  | str s => exact .str s
  | arr _ ih =>
    refine .arr fun w hw => ?_
    rw [mapNumItems_eq] at hw
    obtain ⟨v, hv, rfl⟩ := mem_map.mp hw
    exact ih v hv
  | obj _ ih =>
    refine .obj fun m hm => ?_
    rw [mapNumFields_eq] at hm
    obtain ⟨n, hn, rfl⟩ := mem_map.mp hm
    exact ih n hn

theorem isNull_mapNum (v : JsonValue) : (v.mapNum f).isNull = v.isNull := by cases v <;> rfl

end Numbers

/-! ### Loose equality -/

/-- The number a value counts as. -/
def number? : JsonValue → Option Decimal
  | .bool b => some (.ofInt (if b then 1 else 0))
  | .num n => some n
  | _ => none

def str? : JsonValue → Option String
  | .str s => some s
  | _ => none

mutual

/-- Equality of values where `true` is 1 and `false` is 0. -/
def looseEq : JsonValue → JsonValue → Bool
  | .null, w => w.isNull
  | .bool b, w => decide (w.number? = some (.ofInt (if b then 1 else 0)))
  | .num n, w => decide (w.number? = some n)
  | .str s, w => decide (w.str? = some s)
  | .arr items, w =>
    match w with
    | .arr others => looseEqItems items others
    | _ => false
  | .obj fields, w =>
    match w with
    | .obj others => decide (fields.length = others.length) && looseEqFields fields others
    | _ => false

def looseEqItems : List JsonValue → List JsonValue → Bool
  | [], [] => true
  | v :: items, w :: others => looseEq v w && looseEqItems items others
  | _, _ => false

def looseEqFields : Fields → Fields → Bool
  | [], _ => true
  | (k, v) :: fields, others =>
    (match others.lookup k with
      | some w => looseEq v w
      | none => false) && looseEqFields fields others

end

theorem looseEqItems_iff {items others : List JsonValue} :
    looseEqItems items others = true ↔ List.Forall₂ (fun v w => looseEq v w = true) items others := by
  induction items generalizing others with
  | nil => cases others <;> simp [looseEqItems]
  | cons v items ih => cases others <;> simp [looseEqItems, ih]

theorem looseEqFields_iff {fields others : Fields} : looseEqFields fields others = true ↔
    ∀ f ∈ fields, ∃ w, others.lookup f.1 = some w ∧ looseEq f.2 w = true := by
  induction fields with
  | nil => simp [looseEqFields]
  | cons f fields ih =>
    unfold looseEqFields
    rw [Bool.and_eq_true, ih, forall_mem_cons]
    refine and_congr_left fun _ => ?_
    cases others.lookup f.1 <;> simp

theorem looseEq_refl {v : JsonValue} (h : v.Sorted) : looseEq v v = true := by
  induction h with
  | null => rfl
  | bool b | num n | str s => exact decide_eq_true rfl
  | arr _ ih =>
    show looseEqItems _ _ = true
    rw [looseEqItems_iff, forall₂_same]
    exact ih
  | obj hkeys _ ih =>
    show (decide _ && looseEqFields _ _) = true
    rw [decide_eq_true rfl, Bool.true_and, looseEqFields_iff]
    exact fun f hf => ⟨f.2, (lookup_eq_some_iff hkeys).mpr hf, ih f hf⟩

/-- Objects that are loosely equal have members of the same names, loosely equal. -/
theorem looseEq_members {fs gs : Fields} (hf : SortedKeys fs)
    (h : looseEq (.obj fs) (.obj gs) = true) (k : String) : fs.lookup k = none ∧ gs.lookup k = none ∨
      ∃ a b, fs.lookup k = some a ∧ gs.lookup k = some b ∧ looseEq a b = true := by
  have h : (decide (fs.length = gs.length) && looseEqFields fs gs) = true := h
  rw [Bool.and_eq_true, decide_eq_true_eq, looseEqFields_iff] at h
  obtain ⟨hlen, h⟩ := h
  cases hk : fs.lookup k with
  | some a =>
    obtain ⟨b, hb, he⟩ := h _ (mem_of_lookup hk)
    exact .inr ⟨a, b, rfl, hb, he⟩
  | none =>
    refine .inl ⟨rfl, ?_⟩
    have hsub : fs.map (·.1) ⊆ gs.map (·.1) := fun key hkey => by
      obtain ⟨f, hf, rfl⟩ := mem_map.mp hkey
      obtain ⟨w, hw, -⟩ := h f hf
      exact mem_map.mpr ⟨_, mem_of_lookup hw, rfl⟩
    have hperm := (subperm_of_subset hf.nodup hsub).perm_of_length_le (by simp [hlen])
    cases hg' : gs.lookup k with
    | none => rfl
    | some b =>
      have hmem : k ∈ fs.map (·.1) := hperm.mem_iff.mpr (mem_map.mpr ⟨_, mem_of_lookup hg', rfl⟩)
      obtain ⟨f, hf', rfl⟩ := mem_map.mp hmem
      rw [(lookup_eq_some_iff hf).mpr hf'] at hk
      cases hk

theorem looseEq_symm {v w : JsonValue} (hv : v.Sorted) (hw : w.Sorted) (h : looseEq v w = true) :
    looseEq w v = true := by
  induction v using induct generalizing w with
  | null => cases w <;> first | rfl | cases h
  | bool b | num n | str s => cases w <;> simp_all [looseEq, number?, str?]
  | arr items ih =>
    cases w with
    | arr others =>
      replace h : looseEqItems items others = true := h
      show looseEqItems others items = true
      rw [looseEqItems_iff] at h ⊢
      cases hv with
      | arr hv =>
        cases hw with
        | arr hw =>
          induction h with
          | nil => exact .nil
          | cons hone _ ihs =>
            rw [forall_mem_cons] at ih hv hw
            exact .cons (ih.1 hv.1 hw.1 hone) (ihs ih.2 hv.2 hw.2)
    | _ => cases h
  | obj fields ih =>
    cases w with
    | obj others =>
      have hmembers := looseEq_members hv.keys h
      have h : (decide (fields.length = others.length) && looseEqFields fields others) = true := h
      rw [Bool.and_eq_true, decide_eq_true_eq] at h
      show (decide _ && looseEqFields _ _) = true
      rw [Bool.and_eq_true, decide_eq_true_eq, looseEqFields_iff]
      refine ⟨h.1.symm, fun g hg => ?_⟩
      have hlookup := (lookup_eq_some_iff hw.keys).mpr hg
      rcases hmembers g.1 with ⟨-, hnone⟩ | ⟨a, b, ha, hb, he⟩
      · rw [hlookup] at hnone
        cases hnone
      · obtain rfl : g.2 = b := Option.some.inj (hlookup.symm.trans hb)
        exact ⟨a, ha, ih _ (mem_of_lookup ha) (hv.lookup ha) (hw.lookup hb) he⟩
    | _ => cases h

end JsonValue

end TokenBill.General
