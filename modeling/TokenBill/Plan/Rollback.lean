import TokenBill.Plan.PolicyPack

/-!
# Applying a pack and rolling it back

The patches of a pack as they are read back from their texts. Applying the first to the
current settings should set exactly the verified entries, and applying the second to that
give the current settings again. This holds exactly when the old value of every setting
that is written survives its change (`Survives`): the patch leaves out values that only
Python's `==` holds for equal, and long fractions are rounded where they are written.
-/

namespace TokenBill.PolicyPack

open General JsonValue List

/-! ### What applying and rolling back should give -/

/-- Settings with a verified entry set to its value. -/
def settleEntry (doc : Fields) (e : PolicyEntry) : Option Fields :=
  if e.verifiedKey then do
    let v ← JsonText.loads e.valueJson.toList
    (set doc e.key v).toOption
  else some doc

def settle (doc : Fields) (entries : List PolicyEntry) : Option Fields := entries.foldlM settleEntry doc

/-- The patch sets the verified entries and nothing else, and the patch back undoes it. -/
def Restores (current : Current) (pack : Pack) : Prop :=
  ∃ patch rollback changed, JsonText.loads pack.mergePatchJson.toList = some patch ∧
    JsonText.loads pack.rollbackPatchJson.toList = some rollback ∧
    settle current.fields pack.entries = some changed ∧
    applyPatch (.obj current.fields) patch = .obj changed ∧
    applyPatch (.obj changed) rollback = .obj current.fields

/-- Whether a key is verified. -/
def isVerified (key : String) : Bool :=
  match allowedKey key with
  | .ok entry => entry.verified
  | .error _ => false

def writes (current : Current) (active : List Proposal) : List (String × JsonValue) :=
  ((active.filter fun p => isVerified p.key).map fun p =>
    (p.key, (finalValue p.key p.value current).json)).reverse

/-- The old value of every setting that is written survives. -/
def Reversible (current : Current) (active : List Proposal) : Prop :=
  ∀ key new old, (writes current active).lookup key = some new → get current.fields key = some old →
    Survives looseEq written old new

/-! ### Paths -/

/-- A section, if there is one, and a name. -/
abbrev Path : Type := Option String × String

def joinPath : Path → String
  | (none, name) => name
  | (some part, name) => part ++ "." ++ name

theorem joinPath_path (key : String) : joinPath (path key) = key := by
  have hsplit := takeWhile_append_dropWhile (p := fun c : Char => decide (c ≠ '.')) (l := key.toList)
  unfold path
  cases hdrop : key.toList.dropWhile fun c => decide (c ≠ '.') with
  | nil => rfl
  | cons c tail =>
    have hc : c = '.' := by
      have hnot := head_dropWhile_not (fun c : Char => decide (c ≠ '.')) (by rw [hdrop]; nofun)
      simp only [hdrop, head_cons] at hnot
      simpa using hnot
    rw [hdrop, hc] at hsplit
    refine String.toList_injective (Eq.trans ?_ hsplit)
    simp [joinPath]

theorem path_injective : Function.Injective path := fun k l h => by
  rw [← joinPath_path k, h, joinPath_path]

/-- A name that is no section, or a name in a section. -/
def validPath : Path → Bool
  | (none, name) => name ∉ sections
  | (some part, _) => part ∈ sections

theorem validPath_of_allowed {key : String} {entry : AllowedKey} (h : allowedKey key = .ok entry) :
    validPath (path key) = true := by
  have hall : ∀ entry ∈ allowlist, validPath (path entry.key) = true := by decide +kernel
  unfold allowedKey at h
  cases hfind : allowlist.find? fun entry => decide (entry.key = key) with
  | none =>
    rw [hfind] at h
    cases h
  | some found =>
    have hkey : found.key = key := by simpa using find?_some hfind
    exact hkey ▸ hall found (mem_of_find?_eq_some hfind)

def getAt (doc : Fields) : Path → Option JsonValue
  | (none, name) => doc.lookup name
  | (some part, name) => (members doc part).lookup name

/-- A document with a value written at a path. -/
def setAt (doc : Fields) (p : Path) (v : JsonValue) : Fields :=
  match p with
  | (none, name) => insertKey name v doc
  | (some part, name) => insertKey part (.obj (insertKey name v (members doc part))) doc

theorem get_eq (doc : Fields) (key : String) : get doc key = getAt doc (path key) := by
  unfold get
  split <;> simp_all [getAt]

def SectionsOk (doc : Fields) : Prop := ∀ part ∈ sections, ∀ v, doc.lookup part = some v → v.isObj = true

variable {doc : Fields} {v : JsonValue} {p : Path} {part : String} {current : Current}

theorem set_eq (hdoc : SectionsOk doc) {key : String} (hkey : validPath (path key) = true)
    (v : JsonValue) : set doc key v = .ok (setAt doc (path key) v) := by
  unfold set
  split
  · rename_i hpath
    rw [hpath]
    rfl
  · rename_i part name hpath
    rw [hpath] at hkey ⊢
    have hobj := hdoc part (by simpa [validPath] using hkey)
    show _ = Except.ok (insertKey part (.obj (insertKey name v (members doc part))) doc)
    unfold members
    cases hpart : doc.lookup part with
    | none => rfl
    | some w =>
      have hw := hobj w hpart
      cases w with
      | obj => rfl
      | _ => cases hw

theorem sorted_members (h : Sorted (.obj doc)) (part : String) : Sorted (.obj (members doc part)) := by
  unfold members
  cases hpart : doc.lookup part with
  | none => exact .obj .nil nofun
  | some w =>
    have hw := h.lookup hpart
    cases w with
    | obj => exact hw
    | _ => exact .obj .nil nofun

theorem nullFree_members (h : NullFree (.obj doc)) (part : String) : NullFree (.obj (members doc part)) := by
  unfold members
  cases hpart : doc.lookup part with
  | none => exact .obj nofun
  | some w =>
    have hw := h.lookup hpart
    cases w with
    | obj => exact hw
    | _ => exact .obj nofun

theorem sorted_setAt (h : Sorted (.obj doc)) (p : Path) (hv : Sorted v) : Sorted (.obj (setAt doc p v)) := by
  obtain ⟨_ | part, name⟩ := p
  · exact h.insertKey name hv
  · exact h.insertKey part ((sorted_members h part).insertKey name hv)

theorem nullFree_setAt (h : NullFree (.obj doc)) (p : Path) (hv : NullFree v) : NullFree (.obj (setAt doc p v)) := by
  obtain ⟨_ | part, name⟩ := p
  · exact h.insertKey name hv
  · exact h.insertKey part ((nullFree_members h part).insertKey name hv)

/-! ### Settings with values written -/

theorem members_setAt (doc : Fields) (part name : String) (v : JsonValue) :
    members (setAt doc (some part, name) v) part = insertKey name v (members doc part) := by
  show ((List.lookup part (insertKey part _ doc)).map JsonValue.fields).getD [] = _
  rw [lookup_insertKey, if_pos rfl]
  rfl

def top : Path → String
  | (none, name) => name
  | (some part, _) => part

theorem lookup_setAt_of_ne (doc : Fields) {name : String} (h : name ≠ top p) (v : JsonValue) :
    (setAt doc p v).lookup name = doc.lookup name := by
  obtain ⟨_ | part, n⟩ := p <;> exact (lookup_insertKey _ _ _ _).trans (if_neg h)

theorem members_setAt_of_ne (doc : Fields) (h : part ≠ top p) (v : JsonValue) :
    members (setAt doc p v) part = members doc part := by
  unfold members
  rw [lookup_setAt_of_ne doc h]

/-- A value that may have been written over an old one, as it was and as it is read back. -/
def Overlaid (last old new res : Option JsonValue) : Prop :=
  new = last.or old ∧ res = (last.map (mapNum written)).or old

/-- `new` is `old` with the last values written, and `res` is `old` with these values as they are read back. -/
structure Tracks (old : Fields) (last : Path → Option JsonValue) (new res : Fields) : Prop where
  newSorted : Sorted (.obj new)
  newFree : NullFree (.obj new)
  resSorted : Sorted (.obj res)
  lastOk : ∀ p v, last p = some v → v.Sorted ∧ v.NullFree
  plain : ∀ name, name ∉ sections →
    Overlaid (last (none, name)) (old.lookup name) (new.lookup name) (res.lookup name)
  part : ∀ part ∈ sections,
    ((new.lookup part = old.lookup part ∧ res.lookup part = old.lookup part) ∨
      (new.lookup part = some (.obj (members new part)) ∧ res.lookup part = some (.obj (members res part)))) ∧
    ∀ name, Overlaid (last (some part, name)) ((members old part).lookup name)
      ((members new part).lookup name) ((members res part).lookup name)

def update (last : Path → Option JsonValue) (p : Path) (v : JsonValue) (q : Path) : Option JsonValue :=
  if p = q then some v else last q

theorem Overlaid.none {old : Option JsonValue} : Overlaid .none old old old := ⟨rfl, rfl⟩

theorem overlaid_some (old : Option JsonValue) (v : JsonValue) :
    Overlaid (some v) old (some v) (some (v.mapNum written)) := ⟨rfl, rfl⟩

theorem Tracks.start {old : Fields} (hs : Sorted (.obj old)) (hn : NullFree (.obj old)) :
    Tracks old (fun _ => none) old old :=
  ⟨hs, hn, hs, nofun, fun _ _ => .none, fun _ _ => ⟨.inl ⟨rfl, rfl⟩, fun _ => .none⟩⟩

/-- Writing one more value. -/
theorem Tracks.write {old new res : Fields} {last : Path → Option JsonValue} (h : Tracks old last new res)
    (hp : validPath p = true) (hs : v.Sorted) (hn : v.NullFree) :
    Tracks old (update last p v) (setAt new p v) (setAt res p (v.mapNum written)) where
  newSorted := sorted_setAt h.newSorted p hs
  newFree := nullFree_setAt h.newFree p hn
  resSorted := sorted_setAt h.resSorted p (hs.mapNum written)
  lastOk q w hw := by
    unfold update at hw
    split at hw
    · cases hw
      exact ⟨hs, hn⟩
    · exact h.lastOk q w hw
  plain name hname := by
    obtain ⟨_ | part, n⟩ := p
    · by_cases hname' : name = n
      · subst hname'
        have hlookup : ∀ (doc : Fields) (w : JsonValue), (setAt doc (none, name) w).lookup name = some w :=
          fun doc w => (lookup_insertKey _ _ _ _).trans (if_pos rfl)
        rw [hlookup, hlookup, update, if_pos rfl]
        exact overlaid_some _ v
      · rw [lookup_setAt_of_ne new hname', lookup_setAt_of_ne res hname', update,
          if_neg fun h => hname' (Prod.ext_iff.mp h).2.symm]
        exact h.plain name hname
    · have hpart : name ≠ part := fun heq => hname (heq ▸ of_decide_eq_true hp)
      rw [lookup_setAt_of_ne new hpart, lookup_setAt_of_ne res hpart]
      exact h.plain name hname
  part part hpart := by
    by_cases htop : part = top p
    · obtain ⟨_ | part', n⟩ := p
      · obtain rfl : part = n := htop
        exact absurd hpart (of_decide_eq_true hp)
      · obtain rfl : part = part' := htop
        have hlookup : ∀ (doc : Fields) (w : JsonValue), (setAt doc (some part, n) w).lookup part =
            some (.obj (members (setAt doc (some part, n) w) part)) := fun doc w => by
          rw [members_setAt]
          exact (lookup_insertKey _ _ _ _).trans (if_pos rfl)
        refine ⟨.inr ⟨hlookup new v, hlookup res _⟩, fun name => ?_⟩
        rw [members_setAt, members_setAt, lookup_insertKey, lookup_insertKey]
        by_cases hname : name = n
        · subst hname
          rw [if_pos rfl, if_pos rfl, update, if_pos rfl]
          exact overlaid_some _ v
        · rw [if_neg hname, if_neg hname, update, if_neg fun h => hname (Prod.ext_iff.mp h).2.symm]
          exact (h.part part hpart).2 name
    · rw [lookup_setAt_of_ne new htop, lookup_setAt_of_ne res htop, members_setAt_of_ne new htop,
        members_setAt_of_ne res htop]
      refine ⟨(h.part part hpart).1, fun name => ?_⟩
      rw [update, if_neg fun heq => htop (by rw [heq]; rfl)]
      exact (h.part part hpart).2 name

/-! ### When the patches do what they should -/

section Overlaid

variable {last old new res : Option JsonValue} (h : Overlaid last old new res)

include h

theorem Overlaid.same : new = .none ↔ res = .none := by
  obtain ⟨rfl, rfl⟩ := h
  cases last <;> simp

theorem Overlaid.fresh (hold : old = .none) : res = new.map (mapNum written) := by
  obtain ⟨rfl, rfl⟩ := h
  cases last <;> simp [hold]

theorem Overlaid.kept (hnew : new = .none) : old = .none := by
  obtain ⟨rfl, rfl⟩ := h
  cases last <;> simp_all

end Overlaid

/-- A value that is not written stays, and one that is written must survive. -/
theorem overlaid_iff {last : Option JsonValue} {a b c : JsonValue}
    (hlast : ∀ v, last = some v → v.Sorted ∧ v.NullFree) (ha : a.Sorted) (hn : a.NullFree)
    (h : Overlaid last (some a) (some b) (some c)) :
    patched looseEq written a a b = c ∧ patched looseEq written c b a = a ↔
      ∀ v, last = some v → Survives looseEq written a v := by
  obtain ⟨hb, hc⟩ := h
  cases last with
  | none =>
    obtain rfl : b = a := Option.some.inj hb
    obtain rfl : c = b := Option.some.inj hc
    have hself : patched looseEq written c c c = c := if_pos (looseEq_refl ha)
    simp [hself]
  | some v =>
    obtain rfl : b = v := Option.some.inj hb
    obtain rfl : c = b.mapNum written := Option.some.inj hc
    obtain ⟨hbs, hbn⟩ := hlast b rfl
    rw [patched_iff written looseEq_compares ha hbs hn hbn]
    exact ⟨fun h v hv => Option.some.inj hv ▸ h, fun h => h b rfl⟩

variable {old new res : Fields} {last : Path → Option JsonValue}

theorem lookup_eq_members (h : SectionsOk doc) (hpart : part ∈ sections)
    (hv : doc.lookup part = some v) : v = .obj (members doc part) := by
  have hobj := h part hpart v hv
  unfold members
  rw [hv]
  cases v with
  | obj => rfl
  | _ => cases hobj

theorem members_of_none (h : doc.lookup part = none) : members doc part = [] := by
  unfold members
  rw [h]
  rfl

/-- A section with values written in it. -/
theorem Tracks.part_iff (hs : Sorted (.obj old)) (hn : NullFree (.obj old)) (h : Tracks old last new res)
    (hpart : part ∈ sections) :
    patched looseEq written (.obj (members old part)) (.obj (members old part)) (.obj (members new part)) =
        .obj (members res part) ∧
      patched looseEq written (.obj (members res part)) (.obj (members new part)) (.obj (members old part)) =
        .obj (members old part) ↔
    ∀ name v a, last (some part, name) = some v → (members old part).lookup name = some a →
      Survives looseEq written a v := by
  have hover := (h.part part hpart).2
  have hsold := sorted_members hs part
  have hnold := nullFree_members hn part
  rw [patched_obj_iff written looseEq_compares hsold (sorted_members h.newSorted part)
    (sorted_members h.resSorted part).keys hnold (nullFree_members h.newFree part)
    (fun k => (hover k).same) (fun k hk => (hover k).fresh hk)]
  constructor
  · intro ⟨_, hboth⟩ name v a hv ha
    have hname := hover name
    rw [ha] at hname
    cases hb : (members new part).lookup name with
    | none => cases hname.kept hb
    | some b =>
      cases hc : (members res part).lookup name with
      | none => exact absurd (hname.same.mpr hc) (by rw [hb]; exact Option.some_ne_none b)
      | some c =>
        rw [hb, hc] at hname
        exact (overlaid_iff (h.lastOk _) (hsold.lookup ha) (hnold.lookup ha) hname).mp
          (hboth name a b c ha hb hc) v hv
  · refine fun hall => ⟨fun k a ha hb => ?_, fun k a b c ha hb hc => ?_⟩
    · have hnone := (hover k).kept hb
      rw [ha] at hnone
      cases hnone
    · have hname := hover k
      rw [ha, hb, hc] at hname
      exact (overlaid_iff (h.lastOk _) (hsold.lookup ha) (hnold.lookup ha) hname).mpr
        fun v hv => hall k v a hv ha

/-- The patches do what they should exactly when every old value that is written over survives. -/
theorem Tracks.patched_iff (hs : Sorted (.obj old)) (hn : NullFree (.obj old)) (ho : SectionsOk old)
    (h : Tracks old last new res) :
    patched looseEq written (.obj old) (.obj old) (.obj new) = .obj res ∧
        patched looseEq written (.obj res) (.obj new) (.obj old) = .obj old ↔
      ∀ p, validPath p = true → ∀ v a, last p = some v → getAt old p = some a → Survives looseEq written a v := by
  have hsame : ∀ k, new.lookup k = none ↔ res.lookup k = none := fun k => by
    by_cases hk : k ∈ sections
    · rcases (h.part k hk).1 with ⟨hnew, hres⟩ | ⟨hnew, hres⟩
      · rw [hnew, hres]
      · simp [hnew, hres]
    · exact (h.plain k hk).same
  have hfresh : ∀ k, old.lookup k = none → res.lookup k = (new.lookup k).map (mapNum written) := fun k hold => by
    by_cases hk : k ∈ sections
    · rcases (h.part k hk).1 with ⟨hnew, hres⟩ | ⟨hnew, hres⟩
      · rw [hnew, hres, hold]
        rfl
      · rw [hnew, hres]
        refine congrArg (fun fields => some (JsonValue.obj fields)) ?_
        refine sortedKeys_ext (sorted_members h.resSorted k).keys
          (SortedKeys.mapNumFields written (sorted_members h.newSorted k).keys) fun name => ?_
        rw [lookup_mapNumFields, ((h.part k hk).2 name).fresh (by rw [members_of_none hold]; rfl)]
    · exact (h.plain k hk).fresh hold
  have hkept : ∀ k, new.lookup k = none → old.lookup k = none := fun k hnew => by
    by_cases hk : k ∈ sections
    · rcases (h.part k hk).1 with ⟨hold, -⟩ | ⟨hobj, -⟩
      · rw [← hold, hnew]
      · rw [hnew] at hobj
        cases hobj
    · exact (h.plain k hk).kept hnew
  have hself : ∀ {a : JsonValue}, a.Sorted → patched looseEq written a a a = a := fun ha =>
    if_pos (looseEq_refl ha)
  rw [patched_obj_iff written looseEq_compares hs h.newSorted h.resSorted.keys hn h.newFree hsame hfresh]
  constructor
  · rintro ⟨-, hboth⟩ ⟨_ | part, name⟩ hp v a hv ha
    · have hname := h.plain name (of_decide_eq_true hp)
      rw [show old.lookup name = some a from ha] at hname
      cases hb : new.lookup name with
      | none => cases hname.kept hb
      | some b =>
        cases hc : res.lookup name with
        | none => exact absurd (hname.same.mpr hc) (by rw [hb]; exact Option.some_ne_none b)
        | some c =>
          rw [hb, hc] at hname
          exact (overlaid_iff (h.lastOk _) (hs.lookup ha) (hn.lookup ha) hname).mp
            (hboth name a b c ha hb hc) v hv
    · have hpart : part ∈ sections := of_decide_eq_true hp
      have ha : (members old part).lookup name = some a := ha
      cases hold : old.lookup part with
      | none =>
        rw [members_of_none hold] at ha
        cases ha
      | some w =>
        obtain rfl := lookup_eq_members ho hpart hold
        rcases (h.part part hpart).1 with ⟨hnew, hres⟩ | ⟨hnew, hres⟩
        · have hname := (h.part part hpart).2 name
          have hmembers : ∀ {doc : Fields}, doc.lookup part = old.lookup part →
              members doc part = members old part := fun hdoc => by
            unfold members
            rw [hdoc]
          rw [hmembers hnew, hmembers hres, ha] at hname
          have hsorted := (sorted_members hs part).lookup ha
          exact (overlaid_iff (h.lastOk _) hsorted ((nullFree_members hn part).lookup ha) hname).mp
            ⟨hself hsorted, hself hsorted⟩ v hv
        · exact (h.part_iff hs hn hpart).mp (hboth part _ _ _ hold hnew hres) name v a hv ha
  · refine fun hall => ⟨fun k a ha hb => ?_, fun k a b c ha hb hc => ?_⟩
    · rw [hkept k hb] at ha
      cases ha
    · by_cases hk : k ∈ sections
      · have ha' := lookup_eq_members ho hk ha
        rcases (h.part k hk).1 with ⟨hnew, hres⟩ | ⟨hnew, hres⟩
        · obtain rfl : b = a := Option.some.inj (hb.symm.trans (hnew.trans ha))
          obtain rfl : c = b := Option.some.inj (hc.symm.trans (hres.trans ha))
          exact ⟨hself (hs.lookup ha), hself (hs.lookup ha)⟩
        · obtain rfl := Option.some.inj (hb.symm.trans hnew)
          obtain rfl := Option.some.inj (hc.symm.trans hres)
          subst ha'
          exact (h.part_iff hs hn hk).mpr fun name v a hv ha => hall (some k, name) (decide_eq_true hk) v a hv ha
      · have hname := h.plain k hk
        rw [ha, hb, hc] at hname
        exact (overlaid_iff (h.lastOk _) (hs.lookup ha) (hn.lookup ha) hname).mpr
          fun v hv => hall (none, k) (decide_eq_true hk) v a hv ha

/-! ### The entries of a pack -/

def lastAt (ws : List (String × JsonValue)) (p : Path) : Option JsonValue :=
  (ws.find? fun w => decide (path w.1 = p)).map (·.2)

theorem lastAt_cons (w : String × JsonValue) (ws : List (String × JsonValue)) :
    lastAt (w :: ws) = update (lastAt ws) (path w.1) w.2 := by
  funext p
  unfold lastAt update
  rw [find?_cons]
  by_cases h : path w.1 = p <;> simp [h]

theorem lastAt_path (ws : List (String × JsonValue)) (key : String) : lastAt ws (path key) = ws.lookup key := by
  induction ws with
  | nil => rfl
  | cons w ws ih =>
    rw [lastAt_cons, update, ih, lookup_cons]
    by_cases h : key = w.1
    · simp [h]
    · rw [if_neg fun hp => h (path_injective hp).symm, beq_false_of_ne h]

theorem Tracks.sectionsOk_new (ho : SectionsOk old) (h : Tracks old last new res) : SectionsOk new := by
  intro part hpart v hv
  rcases (h.part part hpart).1 with ⟨hnew, -⟩ | ⟨hnew, -⟩
  · exact ho part hpart v (hnew ▸ hv)
  · rw [hnew] at hv
    cases hv
    rfl

theorem Tracks.sectionsOk_res (ho : SectionsOk old) (h : Tracks old last new res) : SectionsOk res := by
  intro part hpart v hv
  rcases (h.part part hpart).1 with ⟨-, hres⟩ | ⟨-, hres⟩
  · exact ho part hpart v (hres ▸ hv)
  · rw [hres] at hv
    cases hv
    rfl

/-- One proposal written: its entry, and the settings with and without the text in between. -/
theorem addEntry_tracks {chars : Chars} {ws : List (String × JsonValue)}
    {acc acc' : List PolicyEntry × Fields} {p : Proposal}
    (h : Tracks current.fields (lastAt ws) acc.2 res) (hadd : addEntry chars current acc p = .ok acc') :
    ∃ entry res', acc'.1 = acc.1 ++ [entry] ∧ settleEntry res entry = some res' ∧
      Tracks current.fields (lastAt (writes current [p] ++ ws)) acc'.2 res' := by
  obtain ⟨entry, hentry, hadd⟩ := bind_eq_ok.mp hadd
  obtain ⟨-, -, hadd⟩ := bind_eq_ok.mp hadd
  obtain ⟨desired, hdesired, hadd⟩ := bind_eq_ok.mp hadd
  obtain rfl := pure_eq_ok.mp hadd
  have hverified : isVerified p.key = entry.verified := by
    unfold isVerified
    rw [hentry]
  have hpath := validPath_of_allowed hentry
  have hload : JsonText.loads (entryOf p entry (finalValue p.key p.value current)).valueJson.toList =
      some ((finalValue p.key p.value current).json.mapNum written) := by
    show JsonText.loads (String.ofList _).toList = _
    rw [String.toList_ofList, loads_canonicalJson (finalValue p.key p.value current).sorted]
  refine ⟨entryOf p entry (finalValue p.key p.value current), ?_⟩
  unfold setVerified at hdesired
  cases hv : entry.verified with
  | false =>
    rw [hv] at hdesired hverified
    obtain rfl := Except.ok.inj hdesired
    refine ⟨res, rfl, if_neg (by rw [show (entryOf p entry _).verifiedKey = _ from hv]; decide), ?_⟩
    have hws : writes current [p] = [] := by simp [writes, hverified]
    rwa [hws]
  | true =>
    rw [hv, if_pos rfl, set_eq (h.sectionsOk_new current.objects) hpath] at hdesired
    rw [hv] at hverified
    obtain rfl := Except.ok.inj hdesired
    have hws : writes current [p] = [(p.key, (finalValue p.key p.value current).json)] := by
      simp [writes, hverified]
    refine ⟨setAt res (path p.key) ((finalValue p.key p.value current).json.mapNum written), rfl, ?_, ?_⟩
    · unfold settleEntry
      rw [if_pos (show (entryOf p entry _).verifiedKey = true from hv), hload]
      show (set res p.key _).toOption = _
      rw [set_eq (h.sectionsOk_res current.objects) hpath]
      rfl
    · rw [hws, singleton_append, lastAt_cons]
      exact h.write hpath (finalValue p.key p.value current).sorted (finalValue p.key p.value current).nullFree

/-- All proposals written. -/
theorem foldlM_addEntry_tracks {chars : Chars} {current : Current} {active : List Proposal}
    {ws : List (String × JsonValue)} {acc acc' : List PolicyEntry × Fields}
    (h : Tracks current.fields (lastAt ws) acc.2 res) (hadd : active.foldlM (addEntry chars current) acc = .ok acc') :
    ∃ entries res', acc'.1 = acc.1 ++ entries ∧ settle res entries = some res' ∧
      Tracks current.fields (lastAt (writes current active ++ ws)) acc'.2 res' := by
  induction active generalizing ws acc res with
  | nil =>
    obtain rfl := pure_eq_ok.mp hadd
    exact ⟨[], res, (append_nil _).symm, rfl, h⟩
  | cons p active ih =>
    rw [foldlM_cons] at hadd
    obtain ⟨next, hnext, hadd⟩ := bind_eq_ok.mp hadd
    obtain ⟨entry, mid, hfirst, hsettle, hmid⟩ := addEntry_tracks h hnext
    obtain ⟨entries, res', hrest, hsettles, hres⟩ := ih hmid hadd
    refine ⟨entry :: entries, res', by rw [hrest, hfirst, append_assoc]; rfl, ?_, ?_⟩
    · unfold settle
      rw [foldlM_cons, hsettle]
      exact hsettles
    · have hws : writes current (p :: active) = writes current active ++ writes current [p] := by
        unfold writes
        rw [← reverse_append, ← map_append, ← filter_append]
        rfl
      rwa [hws, append_assoc]

theorem writes_valid {active : List Proposal} {w : String × JsonValue}
    (h : w ∈ writes current active) : validPath (path w.1) = true := by
  obtain ⟨p, hp, rfl⟩ := mem_map.mp (mem_reverse.mp h)
  have hverified := (mem_filter.mp hp).2
  unfold isVerified at hverified
  split at hverified
  · rename_i hentry
    exact validPath_of_allowed hentry
  · cases hverified

theorem reversible_iff {active : List Proposal} : Reversible current active ↔
    ∀ p, validPath p = true → ∀ v a, lastAt (writes current active) p = some v → getAt current.fields p = some a →
      Survives looseEq written a v := by
  constructor
  · intro h p _ v a hv ha
    obtain ⟨w, hw, -⟩ := Option.map_eq_some_iff.mp hv
    obtain rfl : path w.1 = p := by simpa using find?_some hw
    exact h w.1 v a (by rwa [← lastAt_path]) (by rwa [get_eq])
  · intro h key new old hnew hold
    have hmem := mem_of_lookup hnew
    exact h (path key) (writes_valid hmem) new old (by rwa [lastAt_path]) (by rwa [← get_eq])

/-- The patch of a pack sets its verified entries and nothing else, and the patch back undoes it, exactly when
the old values of the settings it writes survive. -/
theorem assemble_restores_iff {chars : Chars} {hookText : String} {inp : PackInput} {current : Current}
    {includeTradeoffs : Bool} {pack : Pack}
    (h : assemble chars hookText "claude-code" inp current includeTradeoffs = .ok (some pack)) :
    Restores current pack ↔ ∃ active, activeProposals chars inp current includeTradeoffs = .ok active ∧
      Reversible current active := by
  obtain ⟨active, desired, hactive, hentries, hpatch, hrollback, -⟩ := assemble_eq_some h
  have hstart := Tracks.start current.sorted current.nullFree
  obtain ⟨entries, changed, hadded, hsettle, htracks⟩ := @foldlM_addEntry_tracks _ _ _ _ [] _ _ hstart hentries
  obtain rfl : pack.entries = entries := hadded
  rw [append_nil] at htracks
  have hread : ∀ {source target : Fields}, Sorted (.obj source) → Sorted (.obj target) →
      JsonText.loads (String.ofList (canonicalJson (makePatch looseEq (.obj source) (.obj target)))).toList =
        some ((makePatch looseEq (.obj source) (.obj target)).mapNum written) := fun hs ht => by
    rw [String.toList_ofList, loads_canonicalJson (Sorted.makePatch looseEq hs ht)]
  have hiff := htracks.patched_iff current.sorted current.nullFree current.objects
  rw [patched_obj written looseEq_compares current.sorted htracks.newSorted,
    patched_obj written looseEq_compares htracks.newSorted current.sorted, ← reversible_iff] at hiff
  constructor
  · rintro ⟨patch, rollback, settled, hp, hr, hs, hforth, hback⟩
    rw [hpatch, hread current.sorted htracks.newSorted] at hp
    rw [hrollback, hread htracks.newSorted current.sorted] at hr
    obtain rfl := Option.some.inj hp
    obtain rfl := Option.some.inj hr
    obtain rfl := Option.some.inj (hs.symm.trans hsettle)
    exact ⟨active, hactive, hiff.mp ⟨hforth, hback⟩⟩
  · rintro ⟨active', hactive', hreversible⟩
    obtain rfl := Except.ok.inj (hactive'.symm.trans hactive)
    obtain ⟨hforth, hback⟩ := hiff.mpr hreversible
    exact ⟨_, _, changed, by rw [hpatch, hread current.sorted htracks.newSorted],
      by rw [hrollback, hread htracks.newSorted current.sorted], hsettle, hforth, hback⟩

/-! ### A fraction that is rounded -/

def ascii : Chars where
  isSpace c := decide (c = ' ' ∨ (9 ≤ c.toNat ∧ c.toNat ≤ 13) ∨ (28 ≤ c.toNat ∧ c.toNat ≤ 31))
  isDigit := Char.isDigit
  decimal c := if c.isDigit then some (c.toNat - 48) else none

def longBudget : Current where
  fields := [("skillListingBudgetFraction", .num (.ofScaled 1234567890123456789012345678901 31))]
  sorted := .obj (pairwise_singleton _ _) (forall_mem_singleton.mpr (.num _))
  nullFree := .obj (forall_mem_singleton.mpr (.num _))
  objects := by decide

/-- The proposal of a finding to set the budget to a half. -/
def halfBudget : PackInput where
  cohort := "all"
  proposals := [{
    key := "skillListingBudgetFraction"
    value := ⟨.num (.ofScaled 5 1), .num _, .num _, false⟩
    leverId := "fix:skills"
    projection := none
    needsEval := false
    tradeoff := false
    primary := true }]
  findingIds := []
  snippets := []
  litellm := none
  conflicts := []

def restoredText (current : Current) (pack : Pack) : Option (List Char) := do
  let rollback ← JsonText.loads pack.rollbackPatchJson.toList
  let changed ← settle current.fields pack.entries
  some (JsonText.render (applyPatch (.obj changed) rollback))

theorem Restores.text {pack : Pack} (h : Restores current pack) :
    restoredText current pack = some (JsonText.render (.obj current.fields)) := by
  obtain ⟨patch, rollback, changed, -, hrollback, hsettle, -, hback⟩ := h
  unfold restoredText
  rw [hrollback, hsettle]
  exact congrArg (fun v => some (JsonText.render v)) hback

def packOf (result : Except PackError (Option Pack)) : Option Pack := result.toOption.join

theorem packOf_eq_some {result : Except PackError (Option Pack)} {pack : Pack} (h : packOf result = some pack) :
    result = .ok (some pack) := by
  cases result with
  | error e => cases h
  | ok pack? => exact congrArg Except.ok h

theorem longBudget_run : (packOf (assemble ascii "" "claude-code" halfBudget longBudget false)).map (fun pack =>
    decide (restoredText longBudget pack = some (JsonText.render (.obj longBudget.fields)))) = some false := by
  decide +kernel

theorem longBudget_not_restored :
    ∃ pack, assemble ascii "" "claude-code" halfBudget longBudget false = .ok (some pack) ∧
      ¬Restores longBudget pack := by
  obtain ⟨pack, hpack, hfalse⟩ := Option.map_eq_some_iff.mp longBudget_run
  exact ⟨pack, packOf_eq_some hpack, fun h => of_decide_eq_false hfalse h.text⟩

theorem assemble_restores_iff_used :
    ∃ pack, assemble ascii "" "claude-code" halfBudget longBudget false = .ok (some pack) ∧
      (Restores longBudget pack ↔ ∃ active, activeProposals ascii halfBudget longBudget false = .ok active ∧
        Reversible longBudget active) := by
  obtain ⟨pack, hpack, -⟩ := Option.map_eq_some_iff.mp longBudget_run
  exact ⟨pack, packOf_eq_some hpack, assemble_restores_iff (packOf_eq_some hpack)⟩

end TokenBill.PolicyPack
