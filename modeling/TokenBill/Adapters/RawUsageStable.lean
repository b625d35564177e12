import TokenBill.Adapters.RawUsage

/-!
# Sanitized usage is stable, and readable when it is shallow

What the recursion makes of a value for the writer, and when it accepts a value for the reader. A sanitized value is
settled: it has only allowed strings, sanitizing it again leaves it as it is, and its canonical text is read to it.
-/

namespace TokenBill.RawUsage

open General PyJson List

/-! ### What the writer makes of a value -/

mutual

/-- What sanitizing makes of a value under a key at a depth. -/
def repair : PyJson (List Nat) → Option (List Nat) → Nat → PyJson (List Nat)
  | v, key, depth =>
    if maxDepth < depth then .null
    else
      match v with
      | .null => .null
      | .bool b => if keyIn key rawUsageNumeric then .null else .bool b
      | .int n => if 0 ≤ n ∧ n ≤ maxInt then .int n else .null
      | .str s => if allowed key s then .str s else .null
      | .dict fields => .dict (repairFields fields depth)
      | .list items => .list (repairItems items key depth)
      | .float _ => .null

def repairItems : List (PyJson (List Nat)) → Option (List Nat) → Nat → List (PyJson (List Nat))
  | [], _, _ => []
  | v :: items, key, depth => repair v key (depth + 1) :: repairItems items key depth

/-- What sanitizing makes of the members of an object. -/
def repairFields : Dict (List Nat) → Nat → Dict (List Nat)
  | [], _ => []
  | (k, v) :: fields, depth =>
    if rawKey k then (k, repair v (some k) (depth + 1)) :: repairFields fields depth else repairFields fields depth

end

/-! What sanitizing makes of a value of each kind. -/

theorem repair_null (key : Option (List Nat)) (depth : Nat) :
    repair .null key depth = if maxDepth < depth then .null else .null := rfl

theorem repair_bool (b : Bool) (key : Option (List Nat)) (depth : Nat) : repair (.bool b) key depth =
    if maxDepth < depth then .null else if keyIn key rawUsageNumeric then .null else .bool b := rfl

theorem repair_int (n : Int) (key : Option (List Nat)) (depth : Nat) : repair (.int n) key depth =
    if maxDepth < depth then .null else if 0 ≤ n ∧ n ≤ maxInt then .int n else .null := rfl

theorem repair_str (s : List Nat) (key : Option (List Nat)) (depth : Nat) : repair (.str s) key depth =
    if maxDepth < depth then .null else if allowed key s then .str s else .null := rfl

theorem repair_dict (fields : Dict (List Nat)) (key : Option (List Nat)) (depth : Nat) :
    repair (.dict fields) key depth = if maxDepth < depth then .null else .dict (repairFields fields depth) := rfl

theorem repair_list (items : List (PyJson (List Nat))) (key : Option (List Nat)) (depth : Nat) :
    repair (.list items) key depth = if maxDepth < depth then .null else .list (repairItems items key depth) := rfl

theorem repair_float (x : ℚ) (key : Option (List Nat)) (depth : Nat) :
    repair (.float x) key depth = if maxDepth < depth then .null else .null := rfl

theorem repairItems_eq (items : List (PyJson (List Nat))) (key : Option (List Nat)) (depth : Nat) :
    repairItems items key depth = items.map fun v => repair v key (depth + 1) := by
  induction items with
  | nil => rfl
  | cons v items ih => exact congrArg (repair v key (depth + 1) :: ·) ih

theorem repairFields_eq (fields : Dict (List Nat)) (depth : Nat) :
    repairFields fields depth =
      (fields.filter fun f => rawKey f.1).map fun f => (f.1, repair f.2 (some f.1) (depth + 1)) := by
  induction fields with
  | nil => rfl
  | cons f fields ih =>
    obtain ⟨k, v⟩ := f
    unfold repairFields
    rw [filter_cons]
    split
    · exact congrArg ((k, repair v (some k) (depth + 1)) :: ·) ih
    · exact ih

variable {depth n : Nat} {key : Option (List Nat)} {v : PyJson (List Nat)} {items : List (PyJson (List Nat))}
  {fields : Dict (List Nat)}

theorem repair_deep (h : maxDepth < depth) (v : PyJson (List Nat)) (key : Option (List Nat)) :
    repair v key depth = .null := by
  unfold repair
  exact if_pos h

theorem rawValue_true (v : PyJson (List Nat)) (key : Option (List Nat)) (depth : Nat) :
    rawValue true v key depth = some (repair v key depth) := by
  induction v using induct generalizing key depth with
  | null =>
    unfold rawValue
    rw [repair_null]
    split <;> rfl
  | bool b =>
    unfold rawValue
    rw [repair_bool]
    split
    · rfl
    · simp only
      split <;> rfl
  | int n =>
    unfold rawValue
    rw [repair_int]
    split
    · rfl
    · simp only
      split <;> rfl
  | float x =>
    unfold rawValue
    rw [repair_float]
    split <;> rfl
  | str s =>
    unfold rawValue
    rw [repair_str]
    split
    · rfl
    · simp only
      split <;> rfl
  | list items ih =>
    have hitems : rawItems true items key depth = some (repairItems items key depth) := by
      induction items with
      | nil => rfl
      | cons v items hrec =>
        rw [forall_mem_cons] at ih
        unfold rawItems repairItems
        rw [ih.1]
        simp only
        rw [hrec ih.2]
        rfl
    unfold rawValue
    rw [repair_list]
    split
    · rfl
    · simp only
      rw [hitems]
      rfl
  | dict fields ih =>
    have hfields : rawFields true fields depth = some (repairFields fields depth) := by
      induction fields with
      | nil => rfl
      | cons f fields hrec =>
        obtain ⟨k, v⟩ := f
        rw [forall_mem_cons] at ih
        unfold rawFields repairFields
        cases hk : rawKey k with
        | false => exact hrec ih.2
        | true =>
          rw [ih.1]
          rw [hrec ih.2]
          rfl
    unfold rawValue
    rw [repair_dict]
    split
    · rfl
    · simp only
      rw [hfields]
      rfl

/-! ### Settled values -/

/-- A value under a key at a depth that sanitizing leaves as it is. -/
inductive Settled : Option (List Nat) → Nat → PyJson (List Nat) → Prop
  | null (key : Option (List Nat)) (depth : Nat) : Settled key depth .null
  | bool {key : Option (List Nat)} {depth : Nat} (b : Bool) (hdepth : depth ≤ maxDepth)
      (h : keyIn key rawUsageNumeric = false) : Settled key depth (.bool b)
  | int (key : Option (List Nat)) {depth : Nat} {n : Int} (hdepth : depth ≤ maxDepth) (h : 0 ≤ n ∧ n ≤ maxInt) :
      Settled key depth (.int n)
  | str {key : Option (List Nat)} {depth : Nat} {s : List Nat} (hdepth : depth ≤ maxDepth) (h : allowed key s = true) :
      Settled key depth (.str s)
  | list {key : Option (List Nat)} {depth : Nat} {items : List (PyJson (List Nat))} (hdepth : depth ≤ maxDepth)
      (h : ∀ v ∈ items, Settled key (depth + 1) v) : Settled key depth (.list items)
  | dict (key : Option (List Nat)) {depth : Nat} {fields : Dict (List Nat)} (hdepth : depth ≤ maxDepth)
      (hkeys : ∀ f ∈ fields, rawKey f.1 = true) (h : ∀ f ∈ fields, Settled (some f.1) (depth + 1) f.2) :
      Settled key depth (.dict fields)

theorem settled_repair (v : PyJson (List Nat)) (key : Option (List Nat)) (depth : Nat) :
    Settled key depth (repair v key depth) := by
  by_cases hdeep : maxDepth < depth
  · rw [repair_deep hdeep]
    exact .null key depth
  · have hdepth : depth ≤ maxDepth := Nat.le_of_not_lt hdeep
    induction v using induct generalizing key depth with
    | null =>
      rw [repair_null]
      rw [if_neg hdeep]
      exact .null key depth
    | bool b =>
      rw [repair_bool]
      rw [if_neg hdeep]
      split
      · exact .null key depth
      · exact .bool b hdepth (Bool.eq_false_iff.mpr ‹_›)
    | int n =>
      rw [repair_int]
      rw [if_neg hdeep]
      split
      · exact .int key hdepth ‹_›
      · exact .null key depth
    | float x =>
      rw [repair_float]
      rw [if_neg hdeep]
      exact .null key depth
    | str s =>
      rw [repair_str]
      rw [if_neg hdeep]
      split
      · exact .str hdepth ‹_›
      · exact .null key depth
    | list items ih =>
      rw [repair_list]
      rw [if_neg hdeep]
      rw [repairItems_eq]
      refine .list hdepth (forall_mem_map.mpr fun v hv => ?_)
      by_cases hnext : maxDepth < depth + 1
      · rw [repair_deep hnext]
        exact .null key _
      · exact ih v hv key _ hnext (Nat.le_of_not_lt hnext)
    | dict fields ih =>
      rw [repair_dict]
      rw [if_neg hdeep]
      rw [repairFields_eq]
      refine .dict key hdepth (forall_mem_map.mpr fun f hf => (mem_filter.mp hf).2)
        (forall_mem_map.mpr fun f hf => ?_)
      by_cases hnext : maxDepth < depth + 1
      · rw [repair_deep hnext]
        exact .null _ _
      · exact ih f (mem_filter.mp hf).1 _ _ hnext (Nat.le_of_not_lt hnext)

theorem Settled.repair_eq (h : Settled key depth v) : repair v key depth = v := by
  induction v using induct generalizing key depth with
  | null =>
    rw [repair_null]
    split <;> rfl
  | bool b =>
    cases h with
    | bool _ hdepth hkey =>
      rw [repair_bool]
      rw [if_neg (Nat.not_lt.mpr hdepth)]
      rw [hkey]
      rfl
  | int n =>
    cases h with
    | int _ hdepth hrange =>
      rw [repair_int]
      rw [if_neg (Nat.not_lt.mpr hdepth)]
      exact if_pos hrange
  | float x => cases h
  | str s =>
    cases h with
    | str hdepth hallowed =>
      rw [repair_str]
      rw [if_neg (Nat.not_lt.mpr hdepth)]
      exact if_pos hallowed
  | list items ih =>
    cases h with
    | list hdepth h =>
      rw [repair_list]
      rw [if_neg (Nat.not_lt.mpr hdepth)]
      rw [repairItems_eq]
      exact congrArg _ ((map_congr_left fun v hv => ih v hv (h v hv)).trans (map_id items))
  | dict fields ih =>
    cases h with
    | dict _ hdepth hkeys h =>
      rw [repair_dict]
      rw [if_neg (Nat.not_lt.mpr hdepth)]
      rw [repairFields_eq, filter_eq_self.mpr hkeys]
      refine congrArg _ ((map_congr_left fun f hf => ?_).trans (map_id fields))
      exact congrArg (Prod.mk f.1) (ih f hf (h f hf))

theorem Settled.sorted (h : Settled key depth v) : Settled key depth v.sorted := by
  induction v using induct generalizing key depth with
  | null => exact h
  | bool b => exact h
  | int n => exact h
  | float x => exact h
  | str s => exact h
  | list items ih =>
    cases h with
    | list hdepth h =>
      refine .list hdepth fun w hw => ?_
      rw [sortedItems_eq] at hw
      obtain ⟨v, hv, rfl⟩ := mem_map.mp hw
      exact ih v hv (h v hv)
  | dict fields ih =>
    cases h with
    | dict _ hdepth hkeys h =>
      refine .dict key hdepth (fun g hg => ?_) fun g hg => ?_
      · obtain ⟨f, hf, rfl⟩ := exists_of_mem_sorted hg
        exact hkeys f hf
      · obtain ⟨f, hf, rfl⟩ := exists_of_mem_sorted hg
        exact ih f hf (h f hf)

/-! ### The strings of a settled value -/

mutual

/-- Every string in a value is allowed by the rules of its key. -/
def stringsAllowed : PyJson (List Nat) → Option (List Nat) → Bool
  | .str s, key => allowed key s
  | .list items, key => itemsAllowed items key
  | .dict fields, _ => fieldsAllowed fields
  | _, _ => true

/-- Every string in some items is allowed by the rules of their key. -/
def itemsAllowed : List (PyJson (List Nat)) → Option (List Nat) → Bool
  | [], _ => true
  | v :: items, key => stringsAllowed v key && itemsAllowed items key

/-- Every string in some members is allowed by the rules of its key. -/
def fieldsAllowed : Dict (List Nat) → Bool
  | [] => true
  | (k, v) :: fields => stringsAllowed v (some k) && fieldsAllowed fields

end

theorem itemsAllowed_iff : itemsAllowed items key = true ↔ ∀ v ∈ items, stringsAllowed v key = true := by
  induction items with
  | nil => simp [itemsAllowed]
  | cons v items ih => simp [itemsAllowed, ih]

theorem fieldsAllowed_iff : fieldsAllowed fields = true ↔ ∀ f ∈ fields, stringsAllowed f.2 (some f.1) = true := by
  induction fields with
  | nil => simp [fieldsAllowed]
  | cons f fields ih => simp [fieldsAllowed, ih]

theorem Settled.stringsAllowed (h : Settled key depth v) : stringsAllowed v key = true := by
  induction v using induct generalizing key depth with
  | null => rfl
  | bool b => rfl
  | int n => rfl
  | float x => rfl
  | str s =>
    cases h with
    | str _ h => exact h
  | list items ih =>
    cases h with
    | list _ h => exact itemsAllowed_iff.mpr fun v hv => ih v hv (h v hv)
  | dict fields ih =>
    cases h with
    | dict _ _ _ h => exact fieldsAllowed_iff.mpr fun f hf => ih f hf (h f hf)

/-! ### Writing a settled value and reading it -/

theorem printable_of_alnum (h : isAlnum n = true) : 0x20 ≤ n ∧ n ≤ 0x7e := by
  have h := of_decide_eq_true h
  omega

theorem printable_of_shaped {isChar : Nat → Bool} (hchar : ∀ n, isChar n = true → 0x20 ≤ n ∧ n ≤ 0x7e) {most : Nat}
    {s : List Nat} (h : shaped isChar most s = true) : ∀ n ∈ s, Escapes escapeAscii n := by
  intro n hn
  unfold shaped at h
  rw [Bool.and_eq_true] at h
  obtain ⟨hlow, hhigh⟩ := hchar n (all_eq_true.mp h.2 n hn)
  exact escapes_ascii hlow hhigh

theorem printable_of_mem {cs : List Nat} (hcs : ∀ n ∈ cs, 0x20 ≤ n ∧ n ≤ 0x7e)
    (h : (isAlnum n || cs.contains n) = true) : 0x20 ≤ n ∧ n ≤ 0x7e := by
  rcases Bool.or_eq_true_iff.mp h with h | h
  · exact printable_of_alnum h
  · exact hcs n (contains_iff_mem.mp h)

theorem printable_wordChar (n : Nat) (h : isWordChar n = true) : 0x20 ≤ n ∧ n ≤ 0x7e :=
  printable_of_mem (by decide) h

theorem printable_modelChar (n : Nat) (h : isModelChar n = true) : 0x20 ≤ n ∧ n ≤ 0x7e :=
  printable_of_mem (by decide) h

theorem printable_enums : ∀ e ∈ rawUsageEnums, ∀ s ∈ e.2, ∀ n ∈ s, 0x20 ≤ n ∧ n ≤ 0x7e := by decide

theorem escapes_of_allowed {s : List Nat} (h : allowed key s = true) : ∀ n ∈ s, Escapes escapeAscii n := by
  unfold allowed rawStringOk at h
  rw [Bool.and_eq_true] at h
  have h := h.2
  split at h
  · exact printable_of_shaped printable_modelChar h
  · split at h
    · exact printable_of_shaped printable_wordChar h
    · rename_i values hvalues
      obtain ⟨k, -, hk⟩ := Option.bind_eq_some_iff.mp hvalues
      obtain ⟨e, he, rfl⟩ := Option.map_eq_some_iff.mp hk
      intro n hn
      obtain ⟨hlow, hhigh⟩ := printable_enums e (mem_of_find?_eq_some he) s (of_decide_eq_true h) n hn
      exact escapes_ascii hlow hhigh
    · exact printable_of_shaped printable_wordChar (Bool.and_eq_true_iff.mp h).2

theorem Settled.writable (h : Settled key depth v) (hdistinct : distinct v = true) : Writable escapeAscii v := by
  induction v using induct generalizing key depth with
  | null => exact .null
  | bool b => exact .bool b
  | int n =>
    cases h with
    | int _ _ hrange =>
      have hlt : n.natAbs < 10 ^ 16 := by
        unfold maxInt at hrange
        omega
      exact .int (Nat.le_trans (Decimal.length_digits_le (by decide) hlt) (by decide))
  | float x => cases h
  | str s =>
    cases h with
    | str _ h => exact .str (escapes_of_allowed h)
  | list items ih =>
    cases h with
    | list _ h => exact .list fun v hv => ih v hv (h v hv) (distinctItems_iff.mp hdistinct v hv)
  | dict fields ih =>
    have hdistinct : (decide (fields.map Prod.fst).Nodup && distinctFields fields) = true := hdistinct
    rw [Bool.and_eq_true, decide_eq_true_eq] at hdistinct
    cases h with
    | dict _ _ hkeys h =>
      exact .dict hdistinct.1 (fun f hf => printable_of_shaped printable_wordChar (hkeys f hf)) fun f hf =>
        ih f hf (h f hf) (distinctFields_iff.mp hdistinct.2 f hf)

theorem distinct_repair (h : distinct v = true) (key : Option (List Nat)) (depth : Nat) :
    distinct (repair v key depth) = true := by
  induction v using induct generalizing key depth with
  | null => rw [repair_null]; split <;> rfl
  | bool b =>
    rw [repair_bool]
    split
    · rfl
    · split <;> rfl
  | int n =>
    rw [repair_int]
    split
    · rfl
    · split <;> rfl
  | float x => rw [repair_float]; split <;> rfl
  | str s =>
    rw [repair_str]
    split
    · rfl
    · split <;> rfl
  | list items ih =>
    rw [repair_list]
    split
    · rfl
    · rw [repairItems_eq]
      exact distinctItems_iff.mpr (forall_mem_map.mpr fun v hv => ih v hv (distinctItems_iff.mp h v hv) _ _)
  | dict fields ih =>
    have h : (decide (fields.map Prod.fst).Nodup && distinctFields fields) = true := h
    rw [Bool.and_eq_true, decide_eq_true_eq] at h
    rw [repair_dict]
    split
    · rfl
    · rw [repairFields_eq]
      show (decide _ && distinctFields _) = true
      rw [Bool.and_eq_true, decide_eq_true_eq, map_map]
      refine ⟨h.1.sublist (filter_sublist.map Prod.fst), ?_⟩
      exact distinctFields_iff.mpr (forall_mem_map.mpr fun f hf =>
        ih f (mem_filter.mp hf).1 (distinctFields_iff.mp h.2 f (mem_filter.mp hf).1) _ _)

theorem nesting_repair (v : PyJson (List Nat)) (key : Option (List Nat)) (depth : Nat) :
    nesting (repair v key depth) ≤ nesting v := by
  induction v using induct generalizing key depth with
  | null => rw [repair_null]; split <;> exact Nat.le_refl _
  | bool b =>
    rw [repair_bool]
    split
    · exact Nat.zero_le _
    · split <;> exact Nat.le_refl _
  | int n =>
    rw [repair_int]
    split
    · exact Nat.zero_le _
    · split <;> exact Nat.le_refl _
  | float x => rw [repair_float]; split <;> exact Nat.le_refl _
  | str s =>
    rw [repair_str]
    split
    · exact Nat.zero_le _
    · split <;> exact Nat.le_refl _
  | list items ih =>
    rw [repair_list]
    split
    · exact Nat.zero_le _
    · rw [repairItems_eq]
      refine Nat.succ_le_succ (nestingItems_le.mpr (forall_mem_map.mpr fun v hv => ?_))
      exact Nat.le_trans (ih v hv _ _) (nestingItems_le.mp (Nat.le_refl _) v hv)
  | dict fields ih =>
    rw [repair_dict]
    split
    · exact Nat.zero_le _
    · rw [repairFields_eq]
      refine Nat.succ_le_succ (nestingFields_le.mpr (forall_mem_map.mpr fun f hf => ?_))
      have hf := (mem_filter.mp hf).1
      exact Nat.le_trans (ih f hf _ _) (nestingFields_le.mp (Nat.le_refl _) f hf)

/-! ### What the reader accepts -/

mutual

/-- How many levels of values lie in a value, below keys that are kept. -/
def levels : PyJson (List Nat) → Nat
  | .list items => levelsItems items
  | .dict fields => levelsFields fields
  | _ => 0

def levelsItems : List (PyJson (List Nat)) → Nat
  | [] => 0
  | v :: items => max (levels v + 1) (levelsItems items)

def levelsFields : Dict (List Nat) → Nat
  | [] => 0
  | (k, v) :: fields => if rawKey k then max (levels v + 1) (levelsFields fields) else levelsFields fields

end

theorem levelsItems_le : levelsItems items ≤ n ↔ ∀ v ∈ items, levels v + 1 ≤ n := by
  induction items with
  | nil => simp [levelsItems]
  | cons v items ih => simp [levelsItems, ih]

theorem levelsFields_le : levelsFields fields ≤ n ↔ ∀ f ∈ fields, rawKey f.1 = true → levels f.2 + 1 ≤ n := by
  induction fields with
  | nil => simp [levelsFields]
  | cons f fields ih =>
    obtain ⟨k, v⟩ := f
    unfold levelsFields
    cases hk : rawKey k <;> simp [hk, ih]

theorem rawItems_false
    (h : ∀ v ∈ items, rawValue false v key (depth + 1) = if depth + 1 + levels v ≤ maxDepth then some v else none) :
    rawItems false items key depth =
      if ∀ v ∈ items, depth + 1 + levels v ≤ maxDepth then some items else none := by
  induction items with
  | nil => rfl
  | cons v items ih =>
    rw [forall_mem_cons] at h
    unfold rawItems
    rw [h.1, ih h.2]
    simp only [forall_mem_cons]
    by_cases hv : depth + 1 + levels v ≤ maxDepth
    · by_cases hitems : ∀ w ∈ items, depth + 1 + levels w ≤ maxDepth
      · rw [if_pos hv, if_pos hitems, if_pos ⟨hv, hitems⟩]
        rfl
      · rw [if_pos hv, if_neg hitems, if_neg fun hboth => hitems hboth.2]
        rfl
    · rw [if_neg hv]
      exact (if_neg (mt And.left hv)).symm

theorem rawFields_false (hkeys : ∀ f ∈ fields, rawKey f.1 = true)
    (h : ∀ f ∈ fields, rawValue false f.2 (some f.1) (depth + 1) =
      if depth + 1 + levels f.2 ≤ maxDepth then some f.2 else none) :
    rawFields false fields depth =
      if ∀ f ∈ fields, depth + 1 + levels f.2 ≤ maxDepth then some fields else none := by
  induction fields with
  | nil => rfl
  | cons f fields ih =>
    obtain ⟨k, v⟩ := f
    rw [forall_mem_cons] at h hkeys
    unfold rawFields
    rw [hkeys.1, h.1, ih hkeys.2 h.2]
    simp only [forall_mem_cons, Bool.not_true, Bool.false_eq_true, if_false]
    by_cases hv : depth + 1 + levels v ≤ maxDepth
    · by_cases hfields : ∀ w ∈ fields, depth + 1 + levels w.2 ≤ maxDepth
      · rw [if_pos hv, if_pos hfields, if_pos ⟨hv, hfields⟩]
        rfl
      · rw [if_pos hv, if_neg hfields, if_neg fun hboth => hfields hboth.2]
        rfl
    · rw [if_neg hv]
      exact (if_neg (mt And.left hv)).symm

/-- The reader accepts a settled value exactly when no value lies too deep in it. -/
theorem Settled.rawValue_false (h : Settled key depth v) :
    rawValue false v key depth = if depth + levels v ≤ maxDepth then some v else none := by
  induction v using induct generalizing key depth with
  | null =>
    show rawValue false .null key depth = if depth ≤ maxDepth then _ else _
    unfold rawValue
    by_cases hdeep : maxDepth < depth
    · rw [if_pos hdeep, if_neg (Nat.not_le.mpr hdeep)]
      rfl
    · rw [if_neg hdeep, if_pos (Nat.le_of_not_lt hdeep)]
  | bool b =>
    cases h with
    | bool _ hdepth hkey =>
      show rawValue false (.bool b) key depth = if depth ≤ maxDepth then _ else _
      unfold rawValue
      rw [if_neg (Nat.not_lt.mpr hdepth), if_pos hdepth]
      simp only
      rw [hkey]
      rfl
  | int n =>
    cases h with
    | int _ hdepth hrange =>
      show rawValue false (.int n) key depth = if depth ≤ maxDepth then _ else _
      unfold rawValue
      rw [if_neg (Nat.not_lt.mpr hdepth), if_pos hdepth]
      exact if_pos hrange
  | float x => cases h
  | str s =>
    cases h with
    | str hdepth hallowed =>
      show rawValue false (.str s) key depth = if depth ≤ maxDepth then _ else _
      unfold rawValue
      rw [if_neg (Nat.not_lt.mpr hdepth), if_pos hdepth]
      exact if_pos hallowed
  | list items ih =>
    cases h with
    | list hdepth h =>
      have hiff : (∀ v ∈ items, depth + 1 + levels v ≤ maxDepth) ↔ depth + levelsItems items ≤ maxDepth := by
        have hle : levelsItems items ≤ maxDepth - depth ↔ ∀ v ∈ items, levels v + 1 ≤ maxDepth - depth := levelsItems_le
        constructor
        · intro hall
          have := hle.mpr fun v hv => by have := hall v hv; omega
          omega
        · intro hitems v hv
          have := hle.mp (by omega) v hv
          omega
      show rawValue false (.list items) key depth = if depth + levelsItems items ≤ maxDepth then _ else _
      unfold rawValue
      rw [if_neg (Nat.not_lt.mpr hdepth)]
      simp only
      rw [rawItems_false fun v hv => ih v hv (h v hv)]
      by_cases hitems : depth + levelsItems items ≤ maxDepth
      · rw [if_pos hitems, if_pos (hiff.mpr hitems)]
        rfl
      · rw [if_neg hitems, if_neg fun hall => hitems (hiff.mp hall)]
        rfl
  | dict fields ih =>
    cases h with
    | dict _ hdepth hkeys h =>
      have hiff : (∀ f ∈ fields, depth + 1 + levels f.2 ≤ maxDepth) ↔ depth + levelsFields fields ≤ maxDepth := by
        have hle : levelsFields fields ≤ maxDepth - depth ↔
            ∀ f ∈ fields, rawKey f.1 = true → levels f.2 + 1 ≤ maxDepth - depth := levelsFields_le
        constructor
        · intro hall
          have := hle.mpr fun f hf _ => by have := hall f hf; omega
          omega
        · intro hfields f hf
          have := hle.mp (by omega) f hf (hkeys f hf)
          omega
      show rawValue false (.dict fields) key depth = if depth + levelsFields fields ≤ maxDepth then _ else _
      unfold rawValue
      rw [if_neg (Nat.not_lt.mpr hdepth)]
      simp only
      rw [rawFields_false hkeys fun f hf => ih f hf (h f hf)]
      by_cases hfields : depth + levelsFields fields ≤ maxDepth
      · rw [if_pos hfields, if_pos (hiff.mpr hfields)]
        rfl
      · rw [if_neg hfields, if_neg fun hall => hfields (hiff.mp hall)]
        rfl

/-- Sanitizing leaves a value too deep where one was. -/
theorem levels_repair (v : PyJson (List Nat)) (key : Option (List Nat)) (depth : Nat) :
    depth + levels (repair v key depth) ≤ maxDepth ↔ depth + levels v ≤ maxDepth := by
  by_cases hdeep : maxDepth < depth
  · omega
  · induction v using induct generalizing key depth with
    | null =>
      rw [repair_null]
      rw [if_neg hdeep]
    | bool b =>
      rw [repair_bool]
      rw [if_neg hdeep]
      split <;> exact Iff.rfl
    | int n =>
      rw [repair_int]
      rw [if_neg hdeep]
      split <;> exact Iff.rfl
    | float x =>
      rw [repair_float]
      rw [if_neg hdeep]
      exact Iff.rfl
    | str s =>
      rw [repair_str]
      rw [if_neg hdeep]
      split <;> exact Iff.rfl
    | list items ih =>
      have hnext : ∀ v ∈ items, levels (repair v key (depth + 1)) + 1 ≤ maxDepth - depth ↔
          levels v + 1 ≤ maxDepth - depth := fun v hv => by
        by_cases hnext : maxDepth < depth + 1
        · omega
        · have := ih v hv key (depth + 1) hnext
          omega
      have hle : levelsItems (repairItems items key depth) ≤ maxDepth - depth ↔ levelsItems items ≤ maxDepth - depth := by
        rw [levelsItems_le, levelsItems_le, repairItems_eq, forall_mem_map]
        exact forall₂_congr hnext
      rw [repair_list]
      rw [if_neg hdeep]
      show depth + levelsItems (repairItems items key depth) ≤ maxDepth ↔ depth + levelsItems items ≤ maxDepth
      omega
    | dict fields ih =>
      have hnext : ∀ f ∈ fields, levels (repair f.2 (some f.1) (depth + 1)) + 1 ≤ maxDepth - depth ↔
          levels f.2 + 1 ≤ maxDepth - depth := fun f hf => by
        by_cases hnext : maxDepth < depth + 1
        · omega
        · have := ih f hf (some f.1) (depth + 1) hnext
          omega
      have hle : levelsFields (repairFields fields depth) ≤ maxDepth - depth ↔
          levelsFields fields ≤ maxDepth - depth := by
        rw [levelsFields_le, levelsFields_le, repairFields_eq, forall_mem_map]
        constructor
        · intro h f hf hkey
          exact (hnext f hf).mp (h f (mem_filter.mpr ⟨hf, hkey⟩) hkey)
        · intro h f hf _
          obtain ⟨hf, hkey⟩ := mem_filter.mp hf
          exact (hnext f hf).mpr (h f hf hkey)
      rw [repair_dict]
      rw [if_neg hdeep]
      show depth + levelsFields (repairFields fields depth) ≤ maxDepth ↔ depth + levelsFields fields ≤ maxDepth
      omega

/-! ### Sanitized usage -/

theorem flat_hooks : hooks.Flat := by
  rintro cs v (h | h) <;> (cases h; exact ⟨rfl, rfl⟩)

/-- A sanitized object: what it was made of, and what holds of it. -/
theorem sanitizeRawUsage_eq_some {text : List Char} {clean : PyJson (List Nat)}
    (h : sanitizeRawUsage depth (some text) = some clean) :
    ∃ fields, parsed depth text = some fields ∧ clean = .dict (repairFields fields 0) ∧ distinct clean = true ∧
      nesting clean ≤ depth ∧ ¬rawUsageMax < (rawJson clean).length := by
  unfold sanitizeRawUsage at h
  rw [Option.bind_some] at h
  obtain ⟨fields, hfields, h⟩ := Option.bind_eq_some_iff.mp h
  rw [rawValue_true, Option.bind_some] at h
  split at h
  · cases h
  · cases h
    have hload : loadsWith hooks depth text = some (.dict fields) := by
      unfold parsed at hfields
      split at hfields
      · cases hfields
        assumption
      · cases hfields
    obtain ⟨hdistinct, hnesting⟩ := loadsWith_spec flat_hooks hload
    refine ⟨fields, hfields, ?_, distinct_repair hdistinct none 0, Nat.le_trans (nesting_repair _ none 0) hnesting, ‹_›⟩
    unfold repair
    exact if_neg (by decide)

/-- Sanitizing the canonical text of a sanitized object gives the object with its members in order. -/
theorem sanitizeRawUsage_rawJson {text : List Char} {clean : PyJson (List Nat)}
    (h : sanitizeRawUsage depth (some text) = some clean) :
    sanitizeRawUsage depth (some (rawJson clean)) = some clean.sorted := by
  obtain ⟨fields, -, hclean, hdistinct, hnesting, hlength⟩ := sanitizeRawUsage_eq_some h
  have hsettled : Settled none 0 clean := by
    rw [hclean]
    have hrepair := settled_repair (.dict fields) none 0
    unfold repair at hrepair
    rwa [if_neg (by decide)] at hrepair
  have hload := loadsWith_dumps (fun _ => []) hooks (hsettled.writable hdistinct) hnesting
  have hrepair := hsettled.sorted.repair_eq
  have htext : rawJson clean.sorted = rawJson clean := by
    unfold rawJson dumps
    rw [sorted_sorted]
  subst hclean
  have hparsed : parsed depth (rawJson (.dict (repairFields fields 0))) =
      some (sortMembers (sortedFields (repairFields fields 0))) := by
    unfold parsed rawJson
    rw [hload]
    rfl
  unfold sanitizeRawUsage
  rw [Option.bind_some, hparsed, Option.bind_some, rawValue_true, Option.bind_some]
  rw [show repair (.dict (sortMembers (sortedFields (repairFields fields 0)))) none 0 =
    (PyJson.dict (repairFields fields 0)).sorted from hrepair, htext, if_neg hlength]

/-- What is sanitized is stable and has only allowed strings, whatever the text; the reader accepts it exactly when no
value of the object of the text lies more than eight levels deep, below keys that are kept. -/
theorem sanitized_readable_iff {depth : Nat} {text : List Char} {fields : Dict (List Nat)} {clean : PyJson (List Nat)}
    (hparsed : parsed depth text = some fields) (h : sanitizeRawUsage depth (some text) = some clean) :
    ((readRawUsage clean).isSome = true ∧ stringsAllowed clean none = true ∧
        ∃ again, sanitizeRawUsage depth (some (rawJson clean)) = some again ∧ Same again clean) ↔
      levels (.dict fields) ≤ maxDepth := by
  obtain ⟨fields', hparsed', hclean, -, -, hlength⟩ := sanitizeRawUsage_eq_some h
  obtain rfl := Option.some.inj (hparsed.symm.trans hparsed')
  have hrepair : repair (.dict fields) none 0 = clean := by
    rw [hclean]
    unfold repair
    exact if_neg (by decide)
  have hsettled : Settled none 0 clean := hrepair ▸ settled_repair (.dict fields) none 0
  have hlevels := levels_repair (.dict fields) none 0
  rw [hrepair, Nat.zero_add, Nat.zero_add] at hlevels
  have hread : (readRawUsage clean).isSome = true ↔ levels clean ≤ maxDepth := by
    have hfalse := hsettled.rawValue_false
    rw [Nat.zero_add] at hfalse
    subst hclean
    unfold readRawUsage
    simp only
    rw [hfalse]
    by_cases hle : levels (.dict (repairFields fields 0)) ≤ maxDepth
    · rw [if_pos hle, Option.bind_some, if_neg hlength]
      exact iff_of_true rfl hle
    · rw [if_neg hle]
      exact iff_of_false Bool.false_ne_true hle
  constructor
  · exact fun hall => hlevels.mp (hread.mp hall.1)
  · intro hle
    exact ⟨hread.mpr (hlevels.mpr hle), hsettled.stringsAllowed, clean.sorted, sanitizeRawUsage_rawJson h,
      same_sorted clean⟩

def deepText : List Char := "\x7b\"a\":[[[[[[[[1]]]]]]]]\x7d".toList

def shallowText : List Char := "\x7b\"a\":[[[[[[[1]]]]]]],\"b\":0.5\x7d".toList

theorem shallowText_readable : ∃ clean, sanitizeRawUsage 100 (some shallowText) = some clean ∧
    (readRawUsage clean).isSome = true := by
  obtain ⟨fields, hparsed⟩ : ∃ fields, parsed 100 shallowText = some fields ∧ levels (.dict fields) ≤ maxDepth := by
    have hsome : (parsed 100 shallowText).any (fun fields => decide (levels (.dict fields) ≤ maxDepth)) = true := by
      decide +kernel
    obtain ⟨fields, hfields, hlevels⟩ := (Option.any_eq_true _ _).mp hsome
    exact ⟨fields, hfields, of_decide_eq_true hlevels⟩
  obtain ⟨clean, hclean⟩ := Option.isSome_iff_exists.mp
    (show (sanitizeRawUsage 100 (some shallowText)).isSome = true by decide +kernel)
  exact ⟨clean, hclean, ((sanitized_readable_iff hparsed.1 hclean).mpr hparsed.2).1⟩

/-- The reader refuses an object that was sanitized. -/
theorem deepText_refused : ¬∀ (depth : Nat) (text : List Char) (clean : PyJson (List Nat)),
    sanitizeRawUsage depth (some text) = some clean →
    (readRawUsage clean).isSome = true ∧ stringsAllowed clean none = true ∧
      ∃ again, sanitizeRawUsage depth (some (rawJson clean)) = some again ∧ Same again clean := by
  intro hall
  obtain ⟨clean, hclean⟩ := Option.isSome_iff_exists.mp
    (show (sanitizeRawUsage 100 (some deepText)).isSome = true by decide +kernel)
  have hrefused : (sanitizeRawUsage 100 (some deepText)).all (fun clean => (readRawUsage clean).isNone) = true := by
    decide +kernel
  rw [hclean] at hrefused
  have hread := (hall 100 deepText clean hclean).1
  cases hsome : readRawUsage clean with
  | none =>
    rw [hsome] at hread
    cases hread
  | some text =>
    rw [Option.all_some, hsome] at hrefused
    cases hrefused

end TokenBill.RawUsage
