import TokenBill.Adapters.Fingerprint

/-!
# Markers and what stripping leaves

The markers of a value in the order both walkers meet them, each with the depth of the object that holds it and
whether it lies in the value of another `cache_control` member. `_first_ttl` finds the first at most 64 levels
deep; `_strip` finds the first at most 200 levels deep and outside of every marker, and leaves the value without
its `cache_control` members, cut at 200 levels.
-/

namespace TokenBill.Fingerprint

open List

/-! ### Definitions -/

/-- A marker of a value. -/
structure Marker where
  depth : Nat
  inside : Bool
  ttl : String

mutual

/-- The markers of a value. -/
def markers (depth : Nat) (inside : Bool) : Payload → List Marker
  | .dict fields => (ownTtl fields).toList.map (fun ttl => ⟨depth, inside, ttl⟩) ++ markersFields depth inside fields
  | .list items => markersItems depth inside items
  | _ => []

def markersItems (depth : Nat) (inside : Bool) : List Payload → List Marker
  | [] => []
  | v :: vs => markers (depth + 1) inside v ++ markersItems depth inside vs

def markersFields (depth : Nat) (inside : Bool) : List (String × Payload) → List Marker
  | [] => []
  | (k, v) :: fields => markers (depth + 1) (inside || decide (k = ccKey)) v ++ markersFields depth inside fields

end

def Marker.near (m : Marker) : Bool := decide (m.depth ≤ 64)

def Marker.outer (m : Marker) : Bool := decide (m.depth ≤ 200) && !m.inside

mutual

/-- A value without its `cache_control` members. -/
def Payload.erase : Payload → Payload
  | .dict fields => .dict (eraseFields fields)
  | .list items => .list (eraseItems items)
  | v => v

/-- Items without their `cache_control` members. -/
def eraseItems : List Payload → List Payload
  | [] => []
  | v :: vs => v.erase :: eraseItems vs

/-- Members without those of `cache_control`. -/
def eraseFields : List (String × Payload) → List (String × Payload)
  | [] => []
  | (k, v) :: fields => if k = ccKey then eraseFields fields else (k, v.erase) :: eraseFields fields

end

mutual

/-- A value cut at 200 levels. -/
def cut (depth : Nat) : Payload → Payload
  | .dict fields => if 200 < depth then .null else .dict (cutFields depth fields)
  | .list items => if 200 < depth then .null else .list (cutItems depth items)
  | v => if 200 < depth then .null else v

def cutItems (depth : Nat) : List Payload → List Payload
  | [] => []
  | v :: vs => cut (depth + 1) v :: cutItems depth vs

def cutFields (depth : Nat) : List (String × Payload) → List (String × Payload)
  | [] => []
  | (k, v) :: fields => (k, cut (depth + 1) v) :: cutFields depth fields

end

mutual

/-- Whether nothing but nulls lies deeper than 200 levels. -/
def fits (depth : Nat) : Payload → Bool
  | .null => true
  | .dict fields => decide (depth ≤ 200) && fitsFields depth fields
  | .list items => decide (depth ≤ 200) && fitsItems depth items
  | _ => decide (depth ≤ 200)

def fitsItems (depth : Nat) : List Payload → Bool
  | [] => true
  | v :: vs => fits (depth + 1) v && fitsItems depth vs

def fitsFields (depth : Nat) : List (String × Payload) → Bool
  | [] => true
  | (_, v) :: fields => fits (depth + 1) v && fitsFields depth fields

end

mutual

/-- Whether a value has a `cache_control` member at any depth. -/
def marked : Payload → Bool
  | .dict fields => markedFields fields
  | .list items => markedItems items
  | _ => false

def markedItems : List Payload → Bool
  | [] => false
  | v :: vs => marked v || markedItems vs

def markedFields : List (String × Payload) → Bool
  | [] => false
  | (k, v) :: fields => decide (k = ccKey) || marked v || markedFields fields

end

/-! ### Where markers lie -/

mutual

theorem le_depth_markers {depth : Nat} {inside : Bool} : ∀ v, ∀ m ∈ markers depth inside v, depth ≤ m.depth
  | .dict fields, m, hm => by
    rw [markers] at hm
    rcases mem_append.mp hm with hm | hm
    · obtain ⟨ttl, -, rfl⟩ := mem_map.mp hm
      exact le_rfl
    · exact le_depth_markersFields fields m hm
  | .list items, m, hm => by
    rw [markers] at hm
    exact le_depth_markersItems items m hm
  | .null, m, hm => by cases hm
  | .bool _, m, hm => by cases hm
  | .num _, m, hm => by cases hm
  | .str _, m, hm => by cases hm

theorem le_depth_markersItems {depth : Nat} {inside : Bool} :
    ∀ items, ∀ m ∈ markersItems depth inside items, depth ≤ m.depth
  | [], m, hm => by cases hm
  | v :: vs, m, hm => by
    rw [markersItems] at hm
    rcases mem_append.mp hm with hm | hm
    · exact Nat.le_of_succ_le (le_depth_markers v m hm)
    · exact le_depth_markersItems vs m hm

theorem le_depth_markersFields {depth : Nat} {inside : Bool} :
    ∀ fields, ∀ m ∈ markersFields depth inside fields, depth ≤ m.depth
  | [], m, hm => by cases hm
  | (k, v) :: fields, m, hm => by
    rw [markersFields] at hm
    rcases mem_append.mp hm with hm | hm
    · exact Nat.le_of_succ_le (le_depth_markers v m hm)
    · exact le_depth_markersFields fields m hm

end

mutual

theorem inside_markers {depth : Nat} : ∀ v, ∀ m ∈ markers depth true v, m.inside = true
  | .dict fields, m, hm => by
    rw [markers] at hm
    rcases mem_append.mp hm with hm | hm
    · obtain ⟨ttl, -, rfl⟩ := mem_map.mp hm
      rfl
    · exact inside_markersFields fields m hm
  | .list items, m, hm => by
    rw [markers] at hm
    exact inside_markersItems items m hm
  | .null, m, hm => by cases hm
  | .bool _, m, hm => by cases hm
  | .num _, m, hm => by cases hm
  | .str _, m, hm => by cases hm

theorem inside_markersItems {depth : Nat} : ∀ items, ∀ m ∈ markersItems depth true items, m.inside = true
  | [], m, hm => by cases hm
  | v :: vs, m, hm => by
    rw [markersItems] at hm
    rcases mem_append.mp hm with hm | hm
    · exact inside_markers v m hm
    · exact inside_markersItems vs m hm

theorem inside_markersFields {depth : Nat} : ∀ fields, ∀ m ∈ markersFields depth true fields, m.inside = true
  | [], m, hm => by cases hm
  | (k, v) :: fields, m, hm => by
    rw [markersFields] at hm
    rcases mem_append.mp hm with hm | hm
    · rw [Bool.true_or] at hm
      exact inside_markers v m hm
    · exact inside_markersFields fields m hm

end

/-! ### The two walkers -/

theorem find_near_of_deep {depth : Nat} {ms : List Marker} (h : ∀ m ∈ ms, depth ≤ m.depth) (hdeep : 64 < depth) :
    ms.find? Marker.near = none := by
  refine find?_eq_none.mpr fun m hm => ?_
  have hle := h m hm
  simp only [Marker.near, decide_eq_true_eq]
  omega

theorem filter_outer_of_deep {depth : Nat} {ms : List Marker} (h : ∀ m ∈ ms, depth ≤ m.depth) (hdeep : 200 < depth) :
    ms.filter Marker.outer = [] := by
  refine filter_eq_nil_iff.mpr fun m hm => ?_
  have hle := h m hm
  simp only [Marker.outer, Bool.and_eq_true, decide_eq_true_eq]
  omega

theorem filter_outer_of_inside {ms : List Marker} (h : ∀ m ∈ ms, m.inside = true) : ms.filter Marker.outer = [] := by
  refine filter_eq_nil_iff.mpr fun m hm => ?_
  simp [Marker.outer, h m hm]

mutual

/-- `_first_ttl` finds the first marker at most 64 levels deep. -/
theorem firstTtl_eq (depth : Nat) (inside : Bool) : ∀ v,
    firstTtl depth v = ((markers depth inside v).find? Marker.near).map (·.ttl)
  | .dict fields => by
    rw [firstTtl, markers]
    by_cases hdeep : 64 < depth
    · have hle : ∀ m ∈ markers depth inside (.dict fields), depth ≤ m.depth := le_depth_markers _
      rw [markers] at hle
      rw [if_pos hdeep, find_near_of_deep hle hdeep, Option.map_none]
    · rw [if_neg hdeep]
      cases ownTtl fields with
      | none => exact firstTtlFields_eq depth inside fields
      | some ttl =>
        have hnear : (Marker.mk depth inside ttl).near = true := decide_eq_true (Nat.le_of_not_lt hdeep)
        simp [hnear]
  | .list items => by
    rw [firstTtl, markers]
    by_cases hdeep : 64 < depth
    · rw [if_pos hdeep, find_near_of_deep (le_depth_markersItems items) hdeep, Option.map_none]
    · rw [if_neg hdeep, firstTtlItems_eq depth inside items]
  | .null => rfl
  | .bool _ => rfl
  | .num _ => rfl
  | .str _ => rfl

theorem firstTtlItems_eq (depth : Nat) (inside : Bool) : ∀ items,
    firstTtlItems depth items = ((markersItems depth inside items).find? Marker.near).map (·.ttl)
  | [] => rfl
  | v :: vs => by
    rw [firstTtlItems, markersItems, find?_append, firstTtl_eq (depth + 1) inside v]
    cases (markers (depth + 1) inside v).find? Marker.near with
    | some m => rfl
    | none => exact firstTtlItems_eq depth inside vs

theorem firstTtlFields_eq (depth : Nat) (inside : Bool) : ∀ fields,
    firstTtlFields depth fields = ((markersFields depth inside fields).find? Marker.near).map (·.ttl)
  | [] => rfl
  | (k, v) :: fields => by
    rw [firstTtlFields, markersFields, find?_append, firstTtl_eq (depth + 1) (inside || decide (k = ccKey)) v]
    cases (markers (depth + 1) (inside || decide (k = ccKey)) v).find? Marker.near with
    | some m => rfl
    | none => exact firstTtlFields_eq depth inside fields

end

mutual

/-- `_strip` appends the times to live of the markers at most 200 levels deep that lie outside of every other. -/
theorem strip_markers (depth : Nat) : ∀ v,
    (strip depth v).2 = ((markers depth false v).filter Marker.outer).map (·.ttl)
  | .dict fields => by
    rw [strip, markers]
    by_cases hdeep : 200 < depth
    · have hle : ∀ m ∈ markers depth false (.dict fields), depth ≤ m.depth := le_depth_markers _
      rw [markers] at hle
      rw [if_pos hdeep, filter_outer_of_deep hle hdeep, map_nil]
    · rw [if_neg hdeep, filter_append, map_append, ← stripFields_markers depth fields]
      cases ownTtl fields with
      | none => rfl
      | some ttl =>
        have houter : (Marker.mk depth false ttl).outer = true := by
          simp only [Marker.outer, Bool.and_eq_true, decide_eq_true_eq]
          exact ⟨Nat.le_of_not_lt hdeep, rfl⟩
        simp [houter]
  | .list items => by
    rw [strip, markers]
    by_cases hdeep : 200 < depth
    · rw [if_pos hdeep, filter_outer_of_deep (le_depth_markersItems items) hdeep, map_nil]
    · rw [if_neg hdeep, stripItems_markers depth items]
  | .null => by unfold strip; split <;> rfl
  | .bool _ => by unfold strip; split <;> rfl
  | .num _ => by unfold strip; split <;> rfl
  | .str _ => by unfold strip; split <;> rfl

theorem stripItems_markers (depth : Nat) : ∀ items,
    (stripItems depth items).2 = ((markersItems depth false items).filter Marker.outer).map (·.ttl)
  | [] => rfl
  | v :: vs => by
    rw [stripItems, markersItems, filter_append, map_append, ← strip_markers (depth + 1) v,
      ← stripItems_markers depth vs]

theorem stripFields_markers (depth : Nat) : ∀ fields,
    (stripFields depth fields).2 = ((markersFields depth false fields).filter Marker.outer).map (·.ttl)
  | [] => rfl
  | (k, v) :: fields => by
    rw [stripFields, markersFields, filter_append, map_append, ← stripFields_markers depth fields]
    by_cases hk : k = ccKey
    · rw [if_pos hk, Bool.false_or, decide_eq_true hk, filter_outer_of_inside (inside_markers v), map_nil,
        nil_append]
    · rw [if_neg hk, Bool.false_or, decide_eq_false hk, ← strip_markers (depth + 1) v]

end

mutual

/-- `_strip` leaves the value without its `cache_control` members, cut at 200 levels. -/
theorem strip_eq_cut (depth : Nat) : ∀ v, (strip depth v).1 = cut depth v.erase
  | .dict fields => by
    rw [strip, Payload.erase, cut, ← stripFields_eq_cut depth fields]
    split <;> rfl
  | .list items => by
    rw [strip, Payload.erase, cut, ← stripItems_eq_cut depth items]
    split <;> rfl
  | .null => by unfold strip cut; dsimp only [Payload.erase]; split <;> rfl
  | .bool _ => by unfold strip cut; dsimp only [Payload.erase]; split <;> rfl
  | .num _ => by unfold strip cut; dsimp only [Payload.erase]; split <;> rfl
  | .str _ => by unfold strip cut; dsimp only [Payload.erase]; split <;> rfl

theorem stripItems_eq_cut (depth : Nat) : ∀ items, (stripItems depth items).1 = cutItems depth (eraseItems items)
  | [] => rfl
  | v :: vs => by rw [stripItems, eraseItems, cutItems, strip_eq_cut (depth + 1) v, stripItems_eq_cut depth vs]

theorem stripFields_eq_cut (depth : Nat) : ∀ fields, (stripFields depth fields).1 = cutFields depth (eraseFields fields)
  | [] => rfl
  | (k, v) :: fields => by
    rw [stripFields, eraseFields]
    by_cases hk : k = ccKey
    · rw [if_pos hk, if_pos hk, stripFields_eq_cut depth fields]
    · rw [if_neg hk, if_neg hk, cutFields, strip_eq_cut (depth + 1) v, stripFields_eq_cut depth fields]

end

end TokenBill.Fingerprint
