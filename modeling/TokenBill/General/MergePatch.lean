import TokenBill.General.JsonValue

/-!
# Merge patches

A merge patch is a value: an object patches the members it names, where `null` removes a
member, and any other value replaces what it is applied to. `makePatch eq` names the
members that `eq` tells apart. A patch is written down with its numbers changed by some
`f`, so what it makes of a value can differ from what it was made for in the members that
`eq` does not tell apart and in the numbers that `f` changes. `patched_iff` says exactly
when a patch and the patch back make neither difference.
-/

namespace TokenBill.General

open List

namespace JsonValue

/-! ### Applying -/

mutual

/-- A value with a patch applied. -/
def applyPatch (target : JsonValue) : JsonValue → JsonValue
  | .null => .null
  | .bool b => .bool b
  | .num n => .num n
  | .str s => .str s
  | .arr items => .arr items
  | .obj patch => .obj (applyFields target.fields patch)

def applyFields (target : Fields) : Fields → Fields
  | [] => target
  | (k, v) :: patch =>
    applyFields (if v.isNull then eraseKey k target
      else insertKey k (applyPatch ((target.lookup k).getD .null) v) target) patch

end

theorem applyPatch_of_not_obj (target : JsonValue) {v : JsonValue} (h : v.isObj = false) :
    applyPatch target v = v := by
  cases v <;> first | rfl | cases h

/-- What is under a name after a patch. -/
theorem lookup_applyFields {patch : Fields} (h : SortedKeys patch) (target : Fields) (k : String) :
    (applyFields target patch).lookup k =
      match patch.lookup k with
      | none => target.lookup k
      | some v => if v.isNull then none else some (applyPatch ((target.lookup k).getD .null) v) := by
  induction patch generalizing target with
  | nil => rfl
  | cons m patch ih =>
    obtain ⟨name, v⟩ := m
    obtain ⟨hlt, hpatch⟩ := sortedKeys_cons.mp h
    unfold applyFields
    rw [ih hpatch, lookup_cons]
    by_cases hk : k = name
    · subst hk
      rw [lookup_eq_none_of_lt hlt, beq_self_eq_true]
      cases hv : v.isNull with
      | true => simp [lookup_eraseKey, hv]
      | false => simp [lookup_insertKey, hv]
    · rw [beq_false_of_ne hk]
      have htarget : (if v.isNull then eraseKey name target
          else insertKey name (applyPatch ((target.lookup name).getD .null) v) target).lookup k =
            target.lookup k := by
        split
        · rw [lookup_eraseKey, if_neg hk]
        · rw [lookup_insertKey, if_neg hk]
      rw [htarget]

theorem SortedKeys.applyFields {target : Fields} (h : SortedKeys target) (patch : Fields) :
    SortedKeys (applyFields target patch) := by
  induction patch generalizing target with
  | nil => exact h
  | cons m patch ih =>
    refine ih ?_
    split
    · exact h.eraseKey m.1
    · exact h.insertKey m.1 _

/-- A patch without `null` replaces what is no object. -/
theorem applyPatch_nullFree {target v : JsonValue} (ht : target.isObj = false) (hs : v.Sorted)
    (hn : v.NullFree) : applyPatch target v = v := by
  induction v using induct generalizing target with
  | null | bool | num | str | arr => rfl
  | obj fields ih =>
    have htarget : target.fields = [] := by cases target <;> first | rfl | cases ht
    show obj (JsonValue.applyFields target.fields fields) = _
    rw [htarget]
    refine congrArg obj (sortedKeys_ext (SortedKeys.applyFields SortedKeys.nil fields) hs.keys fun k => ?_)
    rw [lookup_applyFields hs.keys]
    cases hk : fields.lookup k with
    | none => rfl
    | some v =>
      dsimp only
      rw [(hn.lookup hk).isNull]
      exact congrArg some (ih _ (mem_of_lookup hk) rfl (hs.lookup hk) (hn.lookup hk))

/-! ### Making -/

section Making

variable (eq : JsonValue → JsonValue → Bool)

mutual

/-- The patch that turns a value into another. -/
def makePatch (source : JsonValue) : JsonValue → JsonValue
  | .null => .null
  | .bool b => .bool b
  | .num n => .num n
  | .str s => .str s
  | .arr items => .arr items
  | .obj target =>
    match source with
    | .obj source =>
      let removed := (source.filter fun f => (target.lookup f.1).isNone).map fun f => (f.1, JsonValue.null)
      .obj ((makeFields source target).foldl (fun patch f => insertKey f.1 f.2 patch) removed)
    | _ => .obj target

/-- The members that are new or differ. -/
def makeFields (source : Fields) : Fields → Fields
  | [] => []
  | (k, v) :: target =>
    match source.lookup k with
    | none => (k, v) :: makeFields source target
    | some old =>
      if eq old v then makeFields source target else (k, makePatch old v) :: makeFields source target

end

theorem makePatch_of_not_obj {source target : JsonValue} (h : (source.isObj && target.isObj) = false) :
    makePatch eq source target = target := by
  cases target with
  | obj target => cases source <;> first | rfl | cases h
  | _ => rfl

variable {target : Fields}

theorem mem_makeFields {source : Fields} {f : String × JsonValue} (h : f ∈ makeFields eq source target) :
    f.1 ∈ target.map (·.1) := by
  induction target with
  | nil => cases h
  | cons m target ih =>
    unfold makeFields at h
    rw [map_cons]
    split at h
    · rcases mem_cons.mp h with rfl | h
      · exact mem_cons_self
      · exact mem_cons_of_mem _ (ih h)
    · split at h
      · exact mem_cons_of_mem _ (ih h)
      · rcases mem_cons.mp h with rfl | h
        · exact mem_cons_self
        · exact mem_cons_of_mem _ (ih h)

theorem sortedKeys_makeFields (source : Fields) (h : SortedKeys target) :
    SortedKeys (makeFields eq source target) := by
  induction target with
  | nil => exact SortedKeys.nil
  | cons m target ih =>
    obtain ⟨hlt, htarget⟩ := sortedKeys_cons.mp h
    have hcons : ∀ v, SortedKeys ((m.1, v) :: makeFields eq source target) := fun v =>
      sortedKeys_cons.mpr ⟨fun f hf => by
        obtain ⟨g, hg, hk⟩ := mem_map.mp (mem_makeFields eq hf)
        exact hk ▸ hlt g hg, ih htarget⟩
    unfold makeFields
    split
    · exact hcons _
    · split
      · exact ih htarget
      · exact hcons _

/-- What the new members and the differences are. -/
theorem lookup_makeFields (source : Fields) (h : SortedKeys target) (k : String) :
    (makeFields eq source target).lookup k =
      match target.lookup k with
      | none => none
      | some v =>
        match source.lookup k with
        | none => some v
        | some old => if eq old v then none else some (makePatch eq old v) := by
  induction target with
  | nil => rfl
  | cons m target ih =>
    obtain ⟨name, v⟩ := m
    obtain ⟨hlt, htarget⟩ := sortedKeys_cons.mp h
    unfold makeFields
    by_cases hk : k = name
    · subst hk
      have hrest : (makeFields eq source target).lookup k = none := by
        rw [ih htarget, lookup_eq_none_of_lt hlt]
      rw [lookup_cons, beq_self_eq_true]
      cases source.lookup k with
      | none => simp
      | some old => by_cases he : eq old v <;> simp [he, hrest]
    · rw [lookup_cons, beq_false_of_ne hk]
      rw [← ih htarget]
      split
      · rw [lookup_cons, beq_false_of_ne hk]
      · split
        · rfl
        · rw [lookup_cons, beq_false_of_ne hk]

/-- What a patch between objects names. -/
theorem lookup_makePatch {source : Fields} (hs : SortedKeys source) (ht : SortedKeys target) :
    ∃ patch, makePatch eq (.obj source) (.obj target) = .obj patch ∧ SortedKeys patch ∧
      ∀ k, patch.lookup k =
        match target.lookup k with
        | none => (source.lookup k).map fun _ => .null
        | some v =>
          match source.lookup k with
          | none => some v
          | some old => if eq old v then none else some (makePatch eq old v) := by
  have hremoved := (hs.filter fun f => (target.lookup f.1).isNone).map_value fun _ => JsonValue.null
  refine ⟨_, rfl, SortedKeys.foldl_insertKey hremoved _, fun k => ?_⟩
  have hbase : ((source.filter fun f => (target.lookup f.1).isNone).map
      fun f => (f.1, JsonValue.null)).lookup k =
        if (target.lookup k).isNone then (source.lookup k).map fun _ => .null else none := by
    rw [lookup_map_value fun _ => JsonValue.null, lookup_filter_key fun name => (target.lookup name).isNone]
    cases target.lookup k <;> simp
  rw [lookup_foldl_insertKey (sortedKeys_makeFields eq source ht), lookup_makeFields eq source ht, hbase]
  cases target.lookup k with
  | none => simp
  | some v =>
    cases source.lookup k with
    | none => simp
    | some old => by_cases he : eq old v <;> simp [he]

theorem isNull_makePatch (source target : JsonValue) : (makePatch eq source target).isNull = target.isNull := by
  cases target with
  | obj target => cases source <;> rfl
  | _ => rfl

theorem Sorted.makePatch {source target : JsonValue} (hs : source.Sorted) (ht : target.Sorted) :
    Sorted (makePatch eq source target) := by
  induction target using induct generalizing source with
  | obj target ih =>
    cases source with
    | obj source =>
      obtain ⟨patch, hpatch, hkeys, hlookup⟩ := lookup_makePatch eq hs.keys ht.keys
      rw [hpatch]
      refine .obj hkeys fun m hm => ?_
      have hm := (lookup_eq_some_iff hkeys).mpr hm
      rw [hlookup] at hm
      cases hv : target.lookup m.1 with
      | none =>
        rw [hv] at hm
        obtain ⟨_, -, hnull⟩ := Option.map_eq_some_iff.mp hm
        exact hnull ▸ .null
      | some v =>
        cases hold : source.lookup m.1 with
        | none =>
          simp only [hv, hold, Option.some.injEq] at hm
          exact hm ▸ ht.lookup hv
        | some old =>
          simp only [hv, hold] at hm
          split at hm
          · cases hm
          · exact Option.some.inj hm ▸ ih _ (mem_of_lookup hv) (hs.lookup hold) (ht.lookup hv)
    | _ => exact ht
  | _ => rwa [makePatch_of_not_obj eq (Bool.and_false _)]

end Making

/-! ### Patches written down -/

section Written

/-- A comparison of values that tells objects apart by their members. -/
structure Compares (eq : JsonValue → JsonValue → Bool) : Prop where
  refl : ∀ {v : JsonValue}, v.Sorted → eq v v = true
  symm : ∀ {v w : JsonValue}, v.Sorted → w.Sorted → eq v w = true → eq w v = true
  members : ∀ {fs gs : Fields}, Sorted (.obj fs) → Sorted (.obj gs) → eq (.obj fs) (.obj gs) = true →
    ∀ k, fs.lookup k = none ∧ gs.lookup k = none ∨
      ∃ a b, fs.lookup k = some a ∧ gs.lookup k = some b ∧ eq a b = true

theorem looseEq_compares : Compares looseEq :=
  ⟨looseEq_refl, looseEq_symm, fun hf _ => looseEq_members hf.keys⟩

variable (eq : JsonValue → JsonValue → Bool) (f : Decimal → Decimal)

/-- What the written patch from `source` to `target` makes of `start`, which stands where `source` does. -/
def patched (start source target : JsonValue) : JsonValue :=
  if eq source target then start else applyPatch start ((makePatch eq source target).mapNum f)

variable {source target : Fields} {new old : JsonValue}

/-- What the written patch between objects makes of an object, member by member. -/
theorem lookup_patch {start : Fields} (hstart : SortedKeys start) (hs : SortedKeys source)
    (ht : SortedKeys target) (hn : NullFree (.obj target)) :
    ∃ fields, applyPatch (.obj start) ((makePatch eq (.obj source) (.obj target)).mapNum f) = .obj fields ∧
      SortedKeys fields ∧ ∀ k, fields.lookup k =
        match target.lookup k with
        | none => if (source.lookup k).isSome then none else start.lookup k
        | some v =>
          match source.lookup k with
          | none => some (applyPatch ((start.lookup k).getD .null) (v.mapNum f))
          | some old =>
            if eq old v then start.lookup k
            else some (applyPatch ((start.lookup k).getD .null) ((makePatch eq old v).mapNum f)) := by
  obtain ⟨patch, hpatch, hkeys, hlookup⟩ := lookup_makePatch eq hs ht
  refine ⟨applyFields start (mapNumFields f patch), by rw [hpatch]; rfl, SortedKeys.applyFields hstart _, fun k => ?_⟩
  rw [lookup_applyFields (SortedKeys.mapNumFields f hkeys), lookup_mapNumFields, hlookup]
  cases htarget : target.lookup k with
  | none => cases source.lookup k <;> rfl
  | some v =>
    have hnull := (hn.lookup htarget).isNull
    cases source.lookup k with
    | none => simp [isNull_mapNum, hnull]
    | some old => by_cases he : eq old v <;> simp [he, isNull_mapNum, isNull_makePatch, hnull]

variable {eq}

/-- There is nothing to patch between objects that `eq` does not tell apart. -/
theorem makePatch_of_eq (hc : Compares eq) (hs : Sorted (.obj source))
    (ht : Sorted (.obj target)) (h : eq (.obj source) (.obj target) = true) :
    makePatch eq (.obj source) (.obj target) = .obj [] := by
  obtain ⟨patch, hpatch, hkeys, hlookup⟩ := lookup_makePatch eq hs.keys ht.keys
  rw [hpatch]
  refine congrArg obj (sortedKeys_ext hkeys SortedKeys.nil fun k => ?_)
  rw [hlookup]
  rcases hc.members hs ht h k with ⟨ha, hb⟩ | ⟨a, b, ha, hb, he⟩
  · rw [ha, hb]
    rfl
  · simp [ha, hb, he]

/-- So a patch between objects can be applied without comparing them. -/
theorem patched_obj (hc : Compares eq) {start : Fields} (hs : Sorted (.obj source))
    (ht : Sorted (.obj target)) : patched eq f (.obj start) (.obj source) (.obj target) =
      applyPatch (.obj start) ((makePatch eq (.obj source) (.obj target)).mapNum f) := by
  unfold patched
  split
  · rename_i h
    rw [makePatch_of_eq hc hs ht h]
    rfl
  · rfl

/-- Whether the change from an old value to a new one can be made and undone by written patches: values
that `eq` does not tell apart are the same once written, and old values that are replaced or lost are
not changed by being written. -/
inductive Survives (eq : JsonValue → JsonValue → Bool) (f : Decimal → Decimal) : JsonValue → JsonValue → Prop
  | members {old new : Fields}
      (lost : ∀ k a, old.lookup k = some a → new.lookup k = none → a.mapNum f = a)
      (both : ∀ k a b, old.lookup k = some a → new.lookup k = some b → Survives eq f a b) :
      Survives eq f (.obj old) (.obj new)
  | same {old new : JsonValue} (hobj : (old.isObj && new.isObj) = false) (h : eq old new = true)
      (hv : old = new.mapNum f) : Survives eq f old new
  | other {old new : JsonValue} (hobj : (old.isObj && new.isObj) = false) (h : eq old new = false)
      (hv : old.mapNum f = old) : Survives eq f old new

theorem isObj_mapNum (v : JsonValue) : (v.mapNum f).isObj = v.isObj := by cases v <;> rfl

theorem survives_iff_of_not_obj (hobj : (old.isObj && new.isObj) = false) :
    Survives eq f old new ↔ (eq old new = true → old = new.mapNum f) ∧
      (eq old new = false → old.mapNum f = old) := by
  constructor
  · intro h
    cases h with
    | members => cases hobj
    | same _ h hv => exact ⟨fun _ => hv, fun hne => absurd (h.symm.trans hne) (by decide)⟩
    | other _ h hv => exact ⟨fun he => absurd (he.symm.trans h) (by decide), fun _ => hv⟩
  · rintro ⟨hsame, hother⟩
    by_cases h : eq old new = true
    · exact .same hobj h (hsame h)
    · exact .other hobj (Bool.eq_false_iff.mpr h) (hother (Bool.eq_false_iff.mpr h))

theorem survives_obj_iff {old new : Fields} : Survives eq f (.obj old) (.obj new) ↔
    (∀ k a, old.lookup k = some a → new.lookup k = none → a.mapNum f = a) ∧
      ∀ k a b, old.lookup k = some a → new.lookup k = some b → Survives eq f a b := by
  constructor
  · intro h
    cases h with
    | members lost both => exact ⟨lost, both⟩
    | same hobj => cases hobj
    | other hobj => cases hobj
  · exact fun ⟨lost, both⟩ => .members lost both

/-- Where one side is no object, the patch is the target. -/
theorem patched_of_not_obj (start : JsonValue) {source target : JsonValue}
    (hobj : (source.isObj && target.isObj) = false) (hstart : (start.isObj && target.isObj) = false)
    (ht : target.Sorted) (hn : target.NullFree) :
    patched eq f start source target = if eq source target then start else target.mapNum f := by
  unfold patched
  rw [makePatch_of_not_obj eq hobj]
  split
  · rfl
  · by_cases htarget : target.isObj = true
    · refine applyPatch_nullFree ?_ (ht.mapNum f) (hn.mapNum f)
      rwa [htarget, Bool.and_true] at hstart
    · exact applyPatch_of_not_obj start (by rw [isObj_mapNum]; exact Bool.eq_false_iff.mpr htarget)

theorem Compares.comm (hc : Compares eq) {a b : JsonValue} (ha : a.Sorted) (hb : b.Sorted) : eq a b = eq b a :=
  Bool.eq_iff_iff.mpr ⟨hc.symm ha hb, hc.symm hb ha⟩

theorem patched_iff_of_not_obj (hc : Compares eq) (ho : old.Sorted) (hn : new.Sorted)
    (hno : old.NullFree) (hnn : new.NullFree) (hobj : (old.isObj && new.isObj) = false) :
    patched eq f old old new = new.mapNum f ∧ patched eq f (new.mapNum f) new old = old ↔
      Survives eq f old new := by
  have hobj' : (new.isObj && old.isObj) = false := by rw [Bool.and_comm, hobj]
  rw [survives_iff_of_not_obj f hobj, patched_of_not_obj f old hobj hobj hn hnn,
    patched_of_not_obj f _ hobj' (by rw [isObj_mapNum, hobj']) ho hno, hc.comm hn ho]
  cases eq old new <;> simp [eq_comm]

/-- A written patch between objects makes `res` of the old one, and the patch back the old one of `res`,
exactly when what is lost can be written and the members in both do the same. -/
theorem patched_obj_iff (hc : Compares eq) {old new res : Fields} (ho : Sorted (.obj old))
    (hn : Sorted (.obj new)) (hr : SortedKeys res) (hno : NullFree (.obj old)) (hnn : NullFree (.obj new))
    (hsame : ∀ k, new.lookup k = none ↔ res.lookup k = none)
    (hnew : ∀ k, old.lookup k = none → res.lookup k = (new.lookup k).map (mapNum f)) :
    patched eq f (.obj old) (.obj old) (.obj new) = .obj res ∧
        patched eq f (.obj res) (.obj new) (.obj old) = .obj old ↔
      (∀ k a, old.lookup k = some a → new.lookup k = none → a.mapNum f = a) ∧
        ∀ k a b c, old.lookup k = some a → new.lookup k = some b → res.lookup k = some c →
          patched eq f a a b = c ∧ patched eq f c b a = a := by
  obtain ⟨forth, hforth, hforthKeys, hforthLookup⟩ := lookup_patch eq f ho.keys ho.keys hn.keys hnn
  obtain ⟨back, hback, hbackKeys, hbackLookup⟩ := lookup_patch eq f hr hn.keys ho.keys hno
  have hforthIff : ∀ k, forth.lookup k = res.lookup k ↔ ∀ a b c, old.lookup k = some a →
      new.lookup k = some b → res.lookup k = some c → patched eq f a a b = c := fun k => by
    rw [hforthLookup]
    cases hb : new.lookup k with
    | none =>
      rw [(hsame k).mp hb]
      cases old.lookup k <;> simp
    | some b =>
      cases ha : old.lookup k with
      | none =>
        rw [hnew k ha, hb]
        simp [@applyPatch_nullFree .null _ rfl ((hn.lookup hb).mapNum f) ((hnn.lookup hb).mapNum f)]
      | some a =>
        cases hc' : res.lookup k with
        | none => exact absurd ((hsame k).mpr hc') (by rw [hb]; exact Option.some_ne_none b)
        | some c => by_cases he : eq a b <;> simp [patched, he]
  have hbackIff : ∀ k, back.lookup k = old.lookup k ↔
      (∀ a, old.lookup k = some a → new.lookup k = none → a.mapNum f = a) ∧ ∀ a b c, old.lookup k = some a →
        new.lookup k = some b → res.lookup k = some c → patched eq f c b a = a := fun k => by
    rw [hbackLookup]
    cases ha : old.lookup k with
    | none =>
      cases hb : new.lookup k with
      | none => simp [(hsame k).mp hb]
      | some b => simp
    | some a =>
      cases hb : new.lookup k with
      | none =>
        rw [(hsame k).mp hb]
        simp [@applyPatch_nullFree .null _ rfl ((ho.lookup ha).mapNum f) ((hno.lookup ha).mapNum f)]
      | some b =>
        cases hc' : res.lookup k with
        | none => exact absurd ((hsame k).mpr hc') (by rw [hb]; exact Option.some_ne_none b)
        | some c => by_cases he : eq b a <;> simp [patched, he]
  rw [patched_obj f hc ho hn, patched_obj f hc hn ho, hforth, hback, obj.injEq, obj.injEq,
    sortedKeys_eq_iff hforthKeys hr, sortedKeys_eq_iff hbackKeys ho.keys]
  constructor
  · intro ⟨h, h'⟩
    exact ⟨fun k => ((hbackIff k).mp (h' k)).1, fun k a b c ha hb hc =>
      ⟨(hforthIff k).mp (h k) a b c ha hb hc, ((hbackIff k).mp (h' k)).2 a b c ha hb hc⟩⟩
  · intro ⟨lost, both⟩
    exact ⟨fun k => (hforthIff k).mpr fun a b c ha hb hc => (both k a b c ha hb hc).1,
      fun k => (hbackIff k).mpr ⟨lost k, fun a b c ha hb hc => (both k a b c ha hb hc).2⟩⟩

/-- A written patch makes of the old value the new one as written, and the patch back makes of that the
old value, exactly when the change survives. -/
theorem patched_iff (hc : Compares eq) (ho : old.Sorted) (hn : new.Sorted) (hno : old.NullFree) (hnn : new.NullFree) :
    patched eq f old old new = new.mapNum f ∧ patched eq f (new.mapNum f) new old = old ↔
      Survives eq f old new := by
  induction new using induct generalizing old with
  | obj new ih =>
    cases old with
    | obj old =>
      have hmember : ∀ k a b, old.lookup k = some a → new.lookup k = some b →
          (patched eq f a a b = b.mapNum f ∧ patched eq f (b.mapNum f) b a = a ↔ Survives eq f a b) :=
        fun k a b ha hb =>
          ih _ (mem_of_lookup hb) (ho.lookup ha) (hn.lookup hb) (hno.lookup ha) (hnn.lookup hb)
      have hlookup := lookup_mapNumFields f new
      show patched eq f _ _ _ = .obj (mapNumFields f new) ∧ patched eq f (.obj (mapNumFields f new)) _ _ = _ ↔ _
      rw [patched_obj_iff f hc ho hn (SortedKeys.mapNumFields f hn.keys) hno hnn
        (fun k => by rw [hlookup, Option.map_eq_none_iff]) (fun k _ => hlookup k), survives_obj_iff]
      refine and_congr_right fun _ => ⟨fun h k a b ha hb => ?_, fun h k a b c ha hb hc' => ?_⟩
      · exact (hmember k a b ha hb).mp (h k a b _ ha hb (by rw [hlookup, hb]; rfl))
      · rw [hlookup, hb] at hc'
        cases hc'
        exact (hmember k a b ha hb).mpr (h k a b ha hb)
    | _ => exact patched_iff_of_not_obj f hc ho hn hno hnn rfl
  | _ => exact patched_iff_of_not_obj f hc ho hn hno hnn (Bool.and_false _)

end Written

end JsonValue

end TokenBill.General
