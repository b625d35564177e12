import TokenBill.General.SortedTables
import Mathlib.Data.String.Basic

/-!
# Documents and their merge patches

A document is an object, a value that is no object, or `null`; it says nothing about the other values
but that they can be compared. The members of an object stand in the order of their names. A merge
patch names the members that change, where `null` removes a member and an object is a patch of what is
there. The patch from one document to another one without `null` makes the second of the first.
A value is put at a path through the objects of a document, and nothing that the path does not pass
or reach changes.
-/

namespace TokenBill.General

open List

/-- A document over other values. -/
inductive Document (α : Type) where
  | null
  | leaf (v : α)
  | obj (members : List (String × Document α))

namespace Document

variable {α : Type}

/-- The members of an object. -/
abbrev Members (α : Type) : Type := List (String × Document α)

/-- What holds of a document when it holds of the members in it. -/
@[elab_as_elim]
theorem induct {P : Document α → Prop} (null : P .null) (leaf : ∀ v, P (.leaf v))
    (obj : ∀ members : Members α, (∀ m ∈ members, P m.2) → P (.obj members)) (d : Document α) : P d :=
  @Document.rec α P (fun members => ∀ m ∈ members, P m.2) (fun m => P m.2) null leaf obj (fun _ h => nomatch h)
    (fun _ _ hm hms => forall_mem_cons.mpr ⟨hm, hms⟩) (fun _ _ hd => hd) d

def members : Document α → Members α
  | .obj members => members
  | _ => []

@[simp] theorem members_obj (ms : Members α) : (obj ms).members = ms := rfl

def isObj : Document α → Bool
  | .obj _ => true
  | _ => false

def isNull : Document α → Bool
  | .null => true
  | _ => false

/-- The members of every object stand in order. -/
inductive Sorted : Document α → Prop
  | null : Sorted .null
  | leaf (v : α) : Sorted (.leaf v)
  | obj {members : Members α} (hkeys : SortedKeys members) (h : ∀ m ∈ members, Sorted m.2) : Sorted (.obj members)

/-- A document is not `null`, and neither is a member in it. -/
inductive NullFree : Document α → Prop
  | leaf (v : α) : NullFree (.leaf v)
  | obj {members : Members α} (h : ∀ m ∈ members, NullFree m.2) : NullFree (.obj members)

variable {ms : Members α} {d : Document α} {p q : List String} {changes : List (List String × Document α)}

theorem Sorted.keys (h : Sorted (.obj ms)) : SortedKeys ms := by
  cases h
  assumption

theorem Sorted.lookup (h : Sorted (.obj ms)) {k : String} (hk : ms.lookup k = some d) : d.Sorted := by
  cases h with
  | obj _ h => exact h _ (mem_of_lookup hk)

theorem NullFree.lookup (h : NullFree (.obj ms)) {k : String} (hk : ms.lookup k = some d) : d.NullFree := by
  cases h with
  | obj h => exact h _ (mem_of_lookup hk)

theorem NullFree.isNull (h : d.NullFree) : d.isNull = false := by
  cases h <;> rfl

theorem Sorted.members (h : d.Sorted) : Sorted (.obj d.members) := by
  cases h with
  | obj hkeys h => exact .obj hkeys h
  | null | leaf => exact .obj SortedKeys.nil fun _ hm => nomatch hm

theorem NullFree.members (h : d.NullFree) : NullFree (.obj d.members) := by
  cases h with
  | obj h => exact .obj h
  | leaf => exact .obj fun _ hm => nomatch hm

theorem Sorted.insertKey (h : Sorted (.obj ms)) (k : String) (hd : d.Sorted) : Sorted (.obj (insertKey k d ms)) := by
  cases h with
  | obj hkeys h =>
    refine .obj (hkeys.insertKey k d) fun m hm => ?_
    rcases mem_insertKey hm with rfl | hm
    · exact hd
    · exact h m hm

theorem NullFree.insertKey (h : NullFree (.obj ms)) (k : String)
    (hd : d.NullFree) : NullFree (.obj (General.insertKey k d ms)) := by
  cases h with
  | obj h =>
    refine .obj fun m hm => ?_
    rcases mem_insertKey hm with rfl | hm
    · exact hd
    · exact h m hm

/-! ### Equality -/

section Equality

variable [DecidableEq α]

mutual

/-- Whether two documents are the same. -/
def same : Document α → Document α → Bool
  | .null, d => d.isNull
  | .leaf v, d =>
    match d with
    | .leaf w => decide (v = w)
    | _ => false
  | .obj ms, d =>
    match d with
    | .obj ns => sameMembers ms ns
    | _ => false

def sameMembers : Members α → Members α → Bool
  | [], ns => ns.isEmpty
  | (k, d) :: ms, ns =>
    match ns with
    | (l, e) :: ns => decide (k = l) && same d e && sameMembers ms ns
    | [] => false

end

theorem sameMembers_cons (m n : String × Document α) (ms ns : Members α) :
    sameMembers (m :: ms) (n :: ns) = (decide (m.1 = n.1) && same m.2 n.2 && sameMembers ms ns) := rfl

theorem same_iff {d e : Document α} : same d e = true ↔ d = e := by
  induction d using induct generalizing e with
  | null =>
    cases e with
    | null => exact iff_of_true rfl rfl
    | _ => exact iff_of_false nofun nofun
  | leaf v =>
    cases e with
    | leaf w => exact decide_eq_true_iff.trans ⟨congrArg leaf, leaf.inj⟩
    | _ => exact iff_of_false nofun nofun
  | obj ms ih =>
    cases e with
    | obj ns =>
      show sameMembers ms ns = true ↔ _
      rw [obj.injEq]
      induction ms generalizing ns with
      | nil =>
        cases ns with
        | nil => exact iff_of_true rfl rfl
        | cons n ns => exact iff_of_false nofun nofun
      | cons m ms ihs =>
        cases ns with
        | nil => exact iff_of_false nofun nofun
        | cons n ns =>
          rw [forall_mem_cons] at ih
          rw [sameMembers_cons, Bool.and_eq_true, Bool.and_eq_true, decide_eq_true_eq, ih.1, ihs ih.2,
            List.cons.injEq, Prod.ext_iff]
    | _ => exact iff_of_false nofun nofun

end Equality

/-! ### Applying -/

mutual

/-- A document with a patch applied. -/
def applyPatch (target : Document α) : Document α → Document α
  | .null => .null
  | .leaf v => .leaf v
  | .obj patch => .obj (applyMembers target.members patch)

def applyMembers (target : Members α) : Members α → Members α
  | [] => target
  | (k, d) :: patch =>
    applyMembers (if d.isNull then eraseKey k target
      else insertKey k (applyPatch ((target.lookup k).getD .null) d) target) patch

end

theorem applyMembers_cons (target : Members α) (m : String × Document α) (patch : Members α) :
    applyMembers target (m :: patch) = applyMembers (if m.2.isNull then eraseKey m.1 target
      else insertKey m.1 (applyPatch ((target.lookup m.1).getD .null) m.2) target) patch := rfl

theorem applyPatch_obj (target : Document α) (patch : Members α) :
    applyPatch target (.obj patch) = .obj (applyMembers target.members patch) := rfl

/-- What is under a name after a patch. -/
theorem lookup_applyMembers {patch : Members α} (h : SortedKeys patch) (target : Members α) (k : String) :
    (applyMembers target patch).lookup k =
      match patch.lookup k with
      | none => target.lookup k
      | some d => if d.isNull then none else some (applyPatch ((target.lookup k).getD .null) d) := by
  induction patch generalizing target with
  | nil => rfl
  | cons m patch ih =>
    obtain ⟨hlt, hpatch⟩ := sortedKeys_cons.mp h
    rw [applyMembers_cons, ih hpatch, lookup_cons]
    by_cases hk : k = m.1
    · subst hk
      rw [lookup_eq_none_of_lt hlt, beq_self_eq_true]
      cases hd : m.2.isNull with
      | true => simp [lookup_eraseKey, hd]
      | false => simp [lookup_insertKey, hd]
    · rw [beq_false_of_ne hk]
      have htarget : (if m.2.isNull then eraseKey m.1 target
          else insertKey m.1 (applyPatch ((target.lookup m.1).getD .null) m.2) target).lookup k =
            target.lookup k := by
        split
        · rw [lookup_eraseKey, if_neg hk]
        · rw [lookup_insertKey, if_neg hk]
      rw [htarget]

theorem sortedKeys_applyMembers {target : Members α} (h : SortedKeys target) (patch : Members α) :
    SortedKeys (applyMembers target patch) := by
  induction patch generalizing target with
  | nil => exact h
  | cons m patch ih =>
    rw [applyMembers_cons]
    refine ih ?_
    split
    · exact h.eraseKey m.1
    · exact h.insertKey m.1 _

/-- A patch without `null` replaces what is no object. -/
theorem applyPatch_nullFree {target d : Document α} (ht : target.isObj = false) (hs : d.Sorted)
    (hn : d.NullFree) : applyPatch target d = d := by
  induction d using induct generalizing target with
  | null | leaf => rfl
  | obj ms ih =>
    have htarget : target.members = [] := by cases target <;> first | rfl | cases ht
    rw [applyPatch_obj, htarget]
    refine congrArg obj (sortedKeys_ext (sortedKeys_applyMembers SortedKeys.nil ms) hs.keys fun k => ?_)
    rw [lookup_applyMembers hs.keys]
    cases hk : ms.lookup k with
    | none => rfl
    | some d =>
      dsimp only
      rw [(hn.lookup hk).isNull]
      exact congrArg some (ih _ (mem_of_lookup hk) rfl (hs.lookup hk) (hn.lookup hk))

/-! ### Making -/

def insertAll (changes base : Members α) : Members α := changes.foldl (fun ms m => insertKey m.1 m.2 ms) base

theorem lookup_insertAll {changes : Members α} (h : SortedKeys changes) (base : Members α) (k : String) :
    (insertAll changes base).lookup k = (changes.lookup k).or (base.lookup k) :=
  lookup_foldl_insertKey h base k

theorem sortedKeys_insertAll {base : Members α} (h : SortedKeys base) (changes : Members α) :
    SortedKeys (insertAll changes base) :=
  h.foldl_insertKey changes

def removed (source target : Members α) : Members α :=
  (source.filter fun m => (target.lookup m.1).isNone).map fun m => (m.1, .null)

section Making

variable [DecidableEq α]

mutual

/-- The patch that turns a document into another. -/
def makePatch (source : Document α) : Document α → Document α
  | .null => .null
  | .leaf v => .leaf v
  | .obj target =>
    match source with
    | .obj source => .obj (insertAll (changed source target) (removed source target))
    | _ => .obj target

/-- The members that are new or differ. -/
def changed (source : Members α) : Members α → Members α
  | [] => []
  | (k, d) :: target =>
    match source.lookup k with
    | none => (k, d) :: changed source target
    | some old => if same old d then changed source target else (k, makePatch old d) :: changed source target

end

theorem changed_cons (source : Members α) (m : String × Document α) (target : Members α) :
    changed source (m :: target) =
      match source.lookup m.1 with
      | none => m :: changed source target
      | some old => if same old m.2 then changed source target else (m.1, makePatch old m.2) :: changed source target :=
  rfl

def diff (source target : Members α) : Members α := insertAll (changed source target) (removed source target)

theorem makePatch_obj (source target : Members α) :
    makePatch (.obj source) (.obj target) = .obj (diff source target) := rfl

theorem isNull_makePatch (source target : Document α) : (makePatch source target).isNull = target.isNull := by
  cases target with
  | obj target => cases source <;> rfl
  | _ => rfl

variable {target : Members α}

theorem mem_changed {source : Members α} {m : String × Document α} (h : m ∈ changed source target) :
    m.1 ∈ target.map (·.1) := by
  induction target with
  | nil => cases h
  | cons n target ih =>
    rw [changed_cons] at h
    rw [map_cons]
    split at h
    · rcases mem_cons.mp h with rfl | h
      · exact mem_cons_self
      · exact mem_cons_of_mem _ (ih h)
    · split at h
      · exact mem_cons_of_mem _ (ih h)
      · rcases mem_cons.mp h with rfl | h
        · exact mem_cons_self
        · exact mem_cons_of_mem _ (ih h)

theorem sortedKeys_changed (source : Members α) (h : SortedKeys target) : SortedKeys (changed source target) := by
  induction target with
  | nil => exact SortedKeys.nil
  | cons m target ih =>
    obtain ⟨hlt, htarget⟩ := sortedKeys_cons.mp h
    have hcons (d : Document α) : SortedKeys ((m.1, d) :: changed source target) :=
      sortedKeys_cons.mpr ⟨fun n hn => by
        obtain ⟨n', hn', hk⟩ := mem_map.mp (mem_changed hn)
        exact hk ▸ hlt n' hn', ih htarget⟩
    rw [changed_cons]
    split
    · exact hcons _
    · split
      · exact ih htarget
      · exact hcons _

/-- What the new members and the differences are. -/
theorem lookup_changed (source : Members α) (h : SortedKeys target) (k : String) :
    (changed source target).lookup k =
      match target.lookup k with
      | none => none
      | some d =>
        match source.lookup k with
        | none => some d
        | some old => if same old d then none else some (makePatch old d) := by
  induction target with
  | nil => rfl
  | cons m target ih =>
    obtain ⟨name, d⟩ := m
    obtain ⟨hlt, htarget⟩ := sortedKeys_cons.mp h
    rw [changed_cons]
    by_cases hk : k = name
    · subst hk
      have hrest : (changed source target).lookup k = none := by
        rw [ih htarget, lookup_eq_none_of_lt hlt]
      rw [lookup_cons, beq_self_eq_true]
      cases source.lookup k with
      | none => simp
      | some old => by_cases he : same old d <;> simp [he, hrest]
    · rw [lookup_cons, beq_false_of_ne hk]
      rw [← ih htarget]
      split
      · rw [lookup_cons, beq_false_of_ne hk]
      · split
        · rfl
        · rw [lookup_cons, beq_false_of_ne hk]

theorem sortedKeys_diff {source : Members α} (h : SortedKeys source) (target : Members α) :
    SortedKeys (diff source target) := by
  have hremoved : SortedKeys (removed source target) := (h.filter _).map_value fun _ => Document.null
  exact sortedKeys_insertAll hremoved _

/-- What the patch between two objects names. -/
theorem lookup_diff (source : Members α) (h : SortedKeys target) (k : String) :
    (diff source target).lookup k =
      match target.lookup k with
      | none => (source.lookup k).map fun _ => .null
      | some d =>
        match source.lookup k with
        | none => some d
        | some old => if same old d then none else some (makePatch old d) := by
  have hremoved : (removed source target).lookup k =
      if (target.lookup k).isNone then (source.lookup k).map fun _ => .null else none := by
    rw [removed, lookup_map_value fun _ => Document.null,
      lookup_filter_key fun name => (target.lookup name).isNone]
    cases target.lookup k <;> simp
  rw [diff, lookup_insertAll (sortedKeys_changed source h), lookup_changed source h, hremoved]
  cases target.lookup k with
  | none => simp
  | some d =>
    cases source.lookup k with
    | none => simp
    | some old => by_cases he : same old d <;> simp [he]

/-- The patch to a document without `null`, applied, makes that document. -/
theorem applyPatch_makePatch {source target : Document α} (hs : source.Sorted) (ht : target.Sorted)
    (hn : target.NullFree) : applyPatch source (makePatch source target) = target := by
  induction target using induct generalizing source with
  | null => cases hn
  | leaf v => rfl
  | obj target ih =>
    cases source with
    | obj source =>
      rw [makePatch_obj, applyPatch_obj]
      refine congrArg obj (sortedKeys_ext (sortedKeys_applyMembers hs.keys _) ht.keys fun k => ?_)
      rw [members_obj, lookup_applyMembers (sortedKeys_diff hs.keys _), lookup_diff source ht.keys]
      cases hnew : target.lookup k with
      | none => cases hold : source.lookup k <;> rfl
      | some d =>
        have hnull := (hn.lookup hnew).isNull
        cases hold : source.lookup k with
        | none => simp [hnull, applyPatch_nullFree (by rfl : isObj .null = false) (ht.lookup hnew) (hn.lookup hnew)]
        | some old =>
          by_cases he : same old d = true
          · obtain rfl := same_iff.mp he
            simp [he]
          · simp [he, isNull_makePatch, hnull,
              ih _ (mem_of_lookup hnew) (hs.lookup hold) (ht.lookup hnew) (hn.lookup hnew)]
    | _ => exact applyPatch_nullFree rfl ht hn

end Making

/-! ### Paths -/

def at? : List String → Document α → Option (Document α)
  | [], d => some d
  | part :: path, d => (d.members.lookup part).bind (at? path)

/-- A document with a value put at a path. What is no object on the way becomes one. -/
def put (v : Document α) : List String → Document α → Document α
  | [], _ => v
  | part :: path, d => .obj (insertKey part (put v path ((d.members.lookup part).getD .null)) d.members)

theorem put_cons (v : Document α) (part : String) (path : List String) (d : Document α) :
    put v (part :: path) d =
      .obj (insertKey part (put v path ((d.members.lookup part).getD .null)) d.members) := rfl

theorem at?_cons (part : String) (path : List String) (d : Document α) :
    at? (part :: path) d = (d.members.lookup part).bind (at? path) := rfl

theorem at?_put (v : Document α) (path : List String) (d : Document α) : at? path (put v path d) = some v := by
  induction path generalizing d with
  | nil => rfl
  | cons part path ih =>
    rw [put_cons, at?_cons, members_obj, lookup_insertKey, if_pos rfl, Option.bind_some, ih]

def Apart (p q : List String) : Prop := ¬ p <+: q ∧ ¬ q <+: p

instance (p q : List String) : Decidable (Apart p q) := inferInstanceAs (Decidable (_ ∧ _))

theorem Apart.symm (h : Apart p q) : Apart q p := And.symm h

theorem Apart.tail {a : String} (h : Apart (a :: p) (a :: q)) : Apart p q :=
  ⟨fun hp => h.1 (cons_prefix_cons.mpr ⟨rfl, hp⟩), fun hq => h.2 (cons_prefix_cons.mpr ⟨rfl, hq⟩)⟩

theorem at?_null (h : Apart p q) : at? q (.null : Document α) = none := by
  cases q with
  | nil => exact absurd nil_prefix h.2
  | cons part q => rfl

/-- A value that is put changes nothing apart from its path. -/
theorem at?_put_of_apart (v : Document α) (h : Apart p q) (d : Document α) : at? q (put v p d) = at? q d := by
  induction p generalizing q d with
  | nil => exact absurd nil_prefix h.1
  | cons a p ih =>
    cases q with
    | nil => exact absurd nil_prefix h.2
    | cons b q =>
      rw [put_cons, at?_cons, at?_cons, members_obj, lookup_insertKey]
      by_cases hab : b = a
      · subst hab
        rw [if_pos rfl, Option.bind_some, ih h.tail]
        cases d.members.lookup b with
        | none => exact at?_null h.tail
        | some e => rfl
      · rw [if_neg hab]

theorem Sorted.put {v : Document α} (hv : v.Sorted) (path : List String) (h : d.Sorted) : (put v path d).Sorted := by
  induction path generalizing d with
  | nil => exact hv
  | cons part path ih =>
    rw [put_cons]
    refine h.members.insertKey part (ih ?_)
    cases hk : d.members.lookup part with
    | none => exact .null
    | some e => exact h.members.lookup hk

theorem NullFree.put {v : Document α} (hv : v.NullFree) (path : List String)
    (h : NullFree (.obj d.members)) : (Document.put v path d).NullFree := by
  induction path generalizing d with
  | nil => exact hv
  | cons part path ih =>
    rw [put_cons]
    refine h.insertKey part (ih ?_)
    cases hk : d.members.lookup part with
    | none => exact .obj fun _ hm => nomatch hm
    | some e => exact (h.lookup hk).members

def putAll (changes : List (List String × Document α)) (d : Document α) : Document α :=
  changes.foldl (fun d c => put c.2 c.1 d) d

theorem Sorted.putAll (hc : ∀ c ∈ changes, c.2.Sorted) (h : d.Sorted) : (putAll changes d).Sorted := by
  induction changes generalizing d with
  | nil => exact h
  | cons c changes ih =>
    rw [forall_mem_cons] at hc
    exact ih hc.2 (hc.1.put c.1 h)

theorem NullFree.putAll (hc : ∀ c ∈ changes, c.2.NullFree) (h : d.NullFree) : (Document.putAll changes d).NullFree := by
  induction changes generalizing d with
  | nil => exact h
  | cons c changes ih =>
    rw [forall_mem_cons] at hc
    exact ih hc.2 (NullFree.put hc.1 c.1 h.members)

theorem at?_putAll_of_apart (h : ∀ c ∈ changes, Apart c.1 q) (d : Document α) : at? q (putAll changes d) = at? q d := by
  induction changes generalizing d with
  | nil => rfl
  | cons c changes ih =>
    rw [forall_mem_cons] at h
    exact (ih h.2 _).trans (at?_put_of_apart c.2 h.1 d)

/-- Values at paths that are apart are all there. -/
theorem at?_putAll (h : changes.Pairwise fun c c' => Apart c.1 c'.1) {c : List String × Document α} (hc : c ∈ changes)
    (d : Document α) : at? c.1 (putAll changes d) = some c.2 := by
  induction changes generalizing d with
  | nil => cases hc
  | cons b changes ih =>
    rw [pairwise_cons] at h
    rcases mem_cons.mp hc with rfl | hc
    · exact (at?_putAll_of_apart (fun c' hc' => (h.1 c' hc').symm) _).trans (at?_put c.2 c.1 d)
    · exact ih h.2 hc _

end Document

end TokenBill.General
