import TokenBill.Adapters.FingerprintMarkers

/-!
# The text of a block

What is hashed of a block is a text: the block as it is where its JSON holds no `"cache_control"`, and otherwise
what stripping leaves. A value with a marker has the mark in its text, a value without one is what erasing leaves
of it, and a value that is cut has another text: at the first place where they differ, the cut one goes on with
`null`.
-/

namespace TokenBill.Fingerprint

open List

/-! ### Texts that part -/

/-- Two texts that are the same up to a place, where one goes on with an `n` and the other does not. -/
def Parts (a b : List Char) : Prop := ∃ p r c s, a = p ++ 'n' :: r ∧ b = p ++ c :: s ∧ c ≠ 'n'

theorem Parts.ne {a b : List Char} (h : Parts a b) : a ≠ b := by
  obtain ⟨p, r, c, s, rfl, rfl, hc⟩ := h
  intro heq
  exact hc (List.cons.inj (append_cancel_left heq)).1.symm

theorem Parts.prepend {a b : List Char} (p : List Char) (h : Parts a b) : Parts (p ++ a) (p ++ b) := by
  obtain ⟨q, r, c, s, rfl, rfl, hc⟩ := h
  exact ⟨p ++ q, r, c, s, (append_assoc ..).symm, (append_assoc ..).symm, hc⟩

theorem Parts.append {a b : List Char} (h : Parts a b) (x y : List Char) : Parts (a ++ x) (b ++ y) := by
  obtain ⟨q, r, c, s, rfl, rfl, hc⟩ := h
  exact ⟨q, r ++ x, c, s ++ y, append_assoc .., append_assoc .., hc⟩

/-- The text of a value that is not null does not start with an `n`. -/
theorem parts_null {v : Payload} (h : v ≠ .null) : Parts (wire .null) (wire v) := by
  have hnull : wire .null = [] ++ 'n' :: "ull".toList := by
    rw [wire]
    rfl
  suffices hv : ∃ c s, wire v = c :: s ∧ c ≠ 'n' by
    obtain ⟨c, s, hv, hc⟩ := hv
    exact ⟨[], _, c, s, hnull, hv, hc⟩
  cases v with
  | null => exact absurd rfl h
  | bool b => cases b <;> exact ⟨_, _, by rw [wire]; rfl, by decide⟩
  | num n =>
    refine ⟨n.first, n.rest, by rw [wire], fun hn => ?_⟩
    have hstarts := n.starts
    rw [hn] at hstarts
    revert hstarts
    decide
  | str s => exact ⟨'"', _, by rw [wire]; rfl, by decide⟩
  | list items => cases items <;> exact ⟨_, _, by rw [wire]; rfl, by decide⟩
  | dict fields =>
    cases fields with
    | nil => exact ⟨_, _, by rw [wire]; rfl, by decide⟩
    | cons f fields => exact ⟨_, _, by rw [wire]; rfl, by decide⟩

/-! ### Values that are cut -/

mutual

theorem cut_of_fits {depth : Nat} : ∀ {v}, fits depth v = true → cut depth v = v
  | .null, _ => ite_self _
  | .bool _, h => if_neg (Nat.not_lt.mpr (of_decide_eq_true h))
  | .num _, h => if_neg (Nat.not_lt.mpr (of_decide_eq_true h))
  | .str _, h => if_neg (Nat.not_lt.mpr (of_decide_eq_true h))
  | .list items, h => by
    rw [fits, Bool.and_eq_true, decide_eq_true_eq] at h
    rw [cut, if_neg (Nat.not_lt.mpr h.1), cutItems_of_fits h.2]
  | .dict fields, h => by
    rw [fits, Bool.and_eq_true, decide_eq_true_eq] at h
    rw [cut, if_neg (Nat.not_lt.mpr h.1), cutFields_of_fits h.2]

theorem cutItems_of_fits {depth : Nat} : ∀ {items}, fitsItems depth items = true → cutItems depth items = items
  | [], _ => rfl
  | v :: vs, h => by
    rw [fitsItems, Bool.and_eq_true] at h
    rw [cutItems, cut_of_fits h.1, cutItems_of_fits h.2]

theorem cutFields_of_fits {depth : Nat} : ∀ {fields}, fitsFields depth fields = true → cutFields depth fields = fields
  | [], _ => rfl
  | (k, v) :: fields, h => by
    rw [fitsFields, Bool.and_eq_true] at h
    rw [cutFields, cut_of_fits h.1, cutFields_of_fits h.2]

end

/-- Below the limit nothing is left but `null`. -/
theorem cut_deep {depth : Nat} (h : 200 < depth) (v : Payload) : cut depth v = .null := by
  cases v <;> exact if_pos h

mutual

/-- A value that does not fit has another text when it is cut. -/
theorem parts_cut {depth : Nat} : ∀ {v}, fits depth v = false → Parts (wire (cut depth v)) (wire v)
  | .null, h => by cases h
  | .bool _, h => by
    rw [cut_deep (Nat.lt_of_not_le (of_decide_eq_false h))]
    exact parts_null nofun
  | .num _, h => by
    rw [cut_deep (Nat.lt_of_not_le (of_decide_eq_false h))]
    exact parts_null nofun
  | .str _, h => by
    rw [cut_deep (Nat.lt_of_not_le (of_decide_eq_false h))]
    exact parts_null nofun
  | .list items, h => by
    by_cases hdeep : 200 < depth
    · rw [cut_deep hdeep]
      exact parts_null nofun
    · rw [fits, decide_eq_true (Nat.le_of_not_lt hdeep), Bool.true_and] at h
      rw [cut, if_neg hdeep]
      cases items with
      | nil => cases h
      | cons v vs =>
        rw [cutItems, wire, wire]
        by_cases hv : fits (depth + 1) v = true
        · rw [cut_of_fits hv]
          rw [fitsItems, hv, Bool.true_and] at h
          exact ((parts_cutItems h).prepend ('[' :: wire v)).append _ _
        · exact (((parts_cut (Bool.eq_false_of_not_eq_true hv)).prepend ['[']).append _ _).append _ _
  | .dict fields, h => by
    by_cases hdeep : 200 < depth
    · rw [cut_deep hdeep]
      exact parts_null nofun
    · rw [fits, decide_eq_true (Nat.le_of_not_lt hdeep), Bool.true_and] at h
      rw [cut, if_neg hdeep]
      cases fields with
      | nil => cases h
      | cons f fields =>
        obtain ⟨k, v⟩ := f
        rw [cutFields, wire, wire]
        by_cases hv : fits (depth + 1) v = true
        · rw [cut_of_fits hv]
          rw [fitsFields, hv, Bool.true_and] at h
          exact ((parts_cutFields h).prepend ('{' :: Json.quote k ++ ':' :: wire v)).append _ _
        · have hhead := ((parts_cut (Bool.eq_false_of_not_eq_true hv)).prepend [':']).prepend ('{' :: Json.quote k)
          exact (hhead.append _ _).append _ _

theorem parts_cutItems {depth : Nat} : ∀ {items}, fitsItems depth items = false →
    Parts (wireItems (cutItems depth items)) (wireItems items)
  | [], h => by cases h
  | v :: vs, h => by
    rw [cutItems, wireItems, wireItems]
    by_cases hv : fits (depth + 1) v = true
    · rw [cut_of_fits hv]
      rw [fitsItems, hv, Bool.true_and] at h
      exact (parts_cutItems h).prepend (',' :: wire v)
    · exact ((parts_cut (Bool.eq_false_of_not_eq_true hv)).prepend [',']).append _ _

theorem parts_cutFields {depth : Nat} : ∀ {fields}, fitsFields depth fields = false →
    Parts (wireFields (cutFields depth fields)) (wireFields fields)
  | [], h => by cases h
  | (k, v) :: fields, h => by
    rw [cutFields, wireFields, wireFields]
    by_cases hv : fits (depth + 1) v = true
    · rw [cut_of_fits hv]
      rw [fitsFields, hv, Bool.true_and] at h
      exact (parts_cutFields h).prepend (',' :: Json.quote k ++ ':' :: wire v)
    · have hhead := ((parts_cut (Bool.eq_false_of_not_eq_true hv)).prepend [':']).prepend (',' :: Json.quote k)
      exact hhead.append _ _

end

/-! ### Values with markers -/

mutual

theorem erase_of_not_marked : ∀ {v}, marked v = false → v.erase = v
  | .null, _ => rfl
  | .bool _, _ => rfl
  | .num _, _ => rfl
  | .str _, _ => rfl
  | .list _, h => congrArg Payload.list (eraseItems_of_not_marked h)
  | .dict _, h => congrArg Payload.dict (eraseFields_of_not_marked h)

theorem eraseItems_of_not_marked : ∀ {items}, markedItems items = false → eraseItems items = items
  | [], _ => rfl
  | v :: vs, h => by
    rw [markedItems, Bool.or_eq_false_iff] at h
    rw [eraseItems, erase_of_not_marked h.1, eraseItems_of_not_marked h.2]

theorem eraseFields_of_not_marked : ∀ {fields}, markedFields fields = false → eraseFields fields = fields
  | [], _ => rfl
  | (k, v) :: fields, h => by
    rw [markedFields, Bool.or_eq_false_iff, Bool.or_eq_false_iff, decide_eq_false_iff_not] at h
    rw [eraseFields, if_neg h.1.1, erase_of_not_marked h.1.2, eraseFields_of_not_marked h.2]

end

theorem lookup_of_not_marked {fields : List (String × Payload)} (h : markedFields fields = false) :
    fields.lookup ccKey = none := by
  induction fields with
  | nil => rfl
  | cons f fields ih =>
    obtain ⟨k, v⟩ := f
    rw [markedFields, Bool.or_eq_false_iff, Bool.or_eq_false_iff, decide_eq_false_iff_not] at h
    rw [lookup_cons, beq_false_of_ne (Ne.symm h.1.1)]
    exact ih h.2

mutual

theorem markers_of_not_marked {depth : Nat} {inside : Bool} : ∀ {v}, marked v = false → markers depth inside v = []
  | .null, _ => rfl
  | .bool _, _ => rfl
  | .num _, _ => rfl
  | .str _, _ => rfl
  | .list items, h => markersItems_of_not_marked (show markedItems items = false from h)
  | .dict fields, h => by
    have hown : ownTtl fields = none := by
      unfold ownTtl
      rw [lookup_of_not_marked h]
    rw [markers, hown, markersFields_of_not_marked h]
    rfl

theorem markersItems_of_not_marked {depth : Nat} {inside : Bool} : ∀ {items}, markedItems items = false →
    markersItems depth inside items = []
  | [], _ => rfl
  | v :: vs, h => by
    rw [markedItems, Bool.or_eq_false_iff] at h
    rw [markersItems, markers_of_not_marked h.1, markersItems_of_not_marked h.2, append_nil]

theorem markersFields_of_not_marked {depth : Nat} {inside : Bool} : ∀ {fields}, markedFields fields = false →
    markersFields depth inside fields = []
  | [], _ => rfl
  | (k, v) :: fields, h => by
    rw [markedFields, Bool.or_eq_false_iff, Bool.or_eq_false_iff] at h
    rw [markersFields, markers_of_not_marked h.1.2, markersFields_of_not_marked h.2, append_nil]

end

/-- The key of a member is in the text of an object. -/
theorem infix_key (k : String) (before v after : List Char) :
    Json.quote k <:+: before ++ Json.quote k ++ ':' :: v ++ after := by
  rw [append_assoc]
  exact ⟨before, ':' :: v ++ after, rfl⟩

theorem infix_middle {x y : List Char} (h : x <:+: y) (before after : List Char) : x <:+: before ++ y ++ after :=
  h.trans ⟨before, after, rfl⟩

mutual

/-- A value with a marker has the mark in its text. -/
theorem ccMark_infix_of_marked : ∀ {v}, marked v = true → ccMark <:+: wire v
  | .null, h => by cases h
  | .bool _, h => by cases h
  | .num _, h => by cases h
  | .str _, h => by cases h
  | .list [], h => by cases h
  | .list (v :: vs), h => by
    rw [marked, markedItems, Bool.or_eq_true] at h
    rw [wire]
    rcases h with h | h
    · rw [append_assoc]
      exact infix_middle (ccMark_infix_of_marked h) ['['] _
    · exact infix_middle (ccMark_infix_of_markedItems h) ('[' :: wire v) _
  | .dict [], h => by cases h
  | .dict ((k, v) :: fields), h => by
    rw [marked, markedFields, Bool.or_eq_true, Bool.or_eq_true, decide_eq_true_eq] at h
    rw [wire]
    rcases h with (rfl | h) | h
    · rw [append_assoc]
      exact infix_key ccKey ['{'] _ _
    · rw [append_assoc]
      exact infix_middle ((ccMark_infix_of_marked h).trans (suffix_cons ':' _).isInfix) ('{' :: Json.quote k) _
    · exact infix_middle (ccMark_infix_of_markedFields h) ('{' :: Json.quote k ++ ':' :: wire v) _

theorem ccMark_infix_of_markedItems : ∀ {items}, markedItems items = true → ccMark <:+: wireItems items
  | [], h => by cases h
  | v :: vs, h => by
    rw [markedItems, Bool.or_eq_true] at h
    rw [wireItems]
    rcases h with h | h
    · exact infix_middle (ccMark_infix_of_marked h) [','] _
    · exact (ccMark_infix_of_markedItems h).trans (suffix_append _ _).isInfix

theorem ccMark_infix_of_markedFields : ∀ {fields}, markedFields fields = true → ccMark <:+: wireFields fields
  | [], h => by cases h
  | (k, v) :: fields, h => by
    rw [markedFields, Bool.or_eq_true, Bool.or_eq_true, decide_eq_true_eq] at h
    rw [wireFields]
    rcases h with (rfl | h) | h
    · exact infix_key ccKey [','] _ _
    · exact infix_middle ((ccMark_infix_of_marked h).trans (suffix_cons ':' _).isInfix) (',' :: Json.quote k) _
    · exact (ccMark_infix_of_markedFields h).trans (suffix_append _ _).isInfix

end

end TokenBill.Fingerprint
