import TokenBill.General.Tables

/-!
# Tries of labelled paths

A trie that keeps, at every place, the labels of the paths that pass it. It represents a table of one path for each
label: a place has a label exactly when it begins the label's path. Inserting and removing paths keep that, and the
deepest place of a path gives the longest prefix that the path shares with one of the table, and the labels that
share it.
-/

namespace TokenBill.General

open List

/-- A trie: the labels that pass, and what is below. -/
inductive Trie (α L : Type) where
  | node (labels : List L) (children : List (α × Trie α L))

namespace Trie

variable {α L : Type} [DecidableEq α] [DecidableEq L]

/-! ### Operations -/

def empty : Trie α L := .node [] []

def labels : Trie α L → List L
  | .node ls _ => ls

def child (h : α) : Trie α L → Option (Trie α L)
  | .node _ cs => cs.lookup h

def addLabel (l : L) (ls : List L) : List L := if l ∈ ls then ls else ls ++ [l]

def dropLabel (l : L) (ls : List L) : List L := ls.filter fun m => decide (m ≠ l)

def insert (l : L) : List α → Trie α L → Trie α L
  | [], .node ls cs => .node (addLabel l ls) cs
  | h :: path, .node ls cs => .node (addLabel l ls) (upsert Prod.fst (h, insert l path ((cs.lookup h).getD empty)) cs)

/-- A path removed under a label, with what is emptied. -/
def remove (l : L) : List α → Trie α L → Trie α L
  | [], .node ls cs => .node (dropLabel l ls) cs
  | h :: path, .node ls cs =>
    match cs.lookup h with
    | none => .node (dropLabel l ls) cs
    | some c =>
      if dropLabel l c.labels = [] then .node (dropLabel l ls) (cs.filter fun e => decide (e.1 ≠ h))
      else .node (dropLabel l ls) (upsert Prod.fst (h, remove l path c) cs)

/-- How far a path goes where labels pass, and the labels there. -/
def deepest : List α → Trie α L → Nat × List L
  | [], t => (0, t.labels)
  | h :: path, t =>
    match t.child h with
    | none => (0, t.labels)
    | some c => if c.labels = [] then (0, t.labels) else ((deepest path c).1 + 1, (deepest path c).2)

/-! ### The labels at a place -/

/-- The labels at a place. -/
def at? : List α → Trie α L → List L
  | [], t => t.labels
  | h :: p, t =>
    match t.child h with
    | none => []
    | some c => at? p c

omit [DecidableEq L] in
theorem at?_cons (h : α) (p : List α) (t : Trie α L) : at? (h :: p) t = ((t.child h).map (at? p)).getD [] := by
  unfold at?
  cases t.child h <;> rfl

omit [DecidableEq L] in
theorem at?_empty (p : List α) : at? p (empty : Trie α L) = [] := by
  cases p <;> rfl

omit [DecidableEq α] in
theorem mem_addLabel {l m : L} {ls : List L} : m ∈ addLabel l ls ↔ m ∈ ls ∨ m = l := by
  unfold addLabel
  split
  · rename_i h
    exact ⟨.inl, fun hm => hm.elim id fun hm => hm ▸ h⟩
  · rw [mem_append, mem_singleton]

omit [DecidableEq α] in
theorem mem_dropLabel {l m : L} {ls : List L} : m ∈ dropLabel l ls ↔ m ∈ ls ∧ m ≠ l := by
  unfold dropLabel
  rw [mem_filter, decide_eq_true_eq]

theorem mem_at?_insert {l m : L} {path p : List α} {t : Trie α L} :
    m ∈ at? p (insert l path t) ↔ m ∈ at? p t ∨ m = l ∧ p <+: path := by
  induction path generalizing p t with
  | nil =>
    obtain ⟨ls, cs⟩ := t
    cases p with
    | nil =>
      show m ∈ addLabel l ls ↔ m ∈ ls ∨ _
      rw [mem_addLabel, and_iff_left (prefix_refl _)]
    | cons h p =>
      show m ∈ at? (h :: p) (.node ls cs) ↔ _
      rw [or_iff_left fun hm => absurd hm.2 (by simp)]
  | cons h path ih =>
    obtain ⟨ls, cs⟩ := t
    cases p with
    | nil =>
      show m ∈ addLabel l ls ↔ m ∈ ls ∨ _
      rw [mem_addLabel, and_iff_left nil_prefix]
    | cons g p =>
      rw [at?_cons, at?_cons]
      dsimp only [insert, child]
      rw [lookup_upsert]
      by_cases hg : g = h
      · subst hg
        rw [if_pos rfl, Option.map_some, Option.getD_some, ih, cons_prefix_cons, and_iff_right rfl]
        cases cs.lookup g with
        | none => rw [Option.getD_none, at?_empty]; rfl
        | some c => rfl
      · rw [if_neg hg, or_iff_left fun hm => hg (cons_prefix_cons.mp hm.2).1]

omit [DecidableEq L] in
theorem lookup_filter_ne {β : Type} {h g : α} (hg : g ≠ h) (cs : List (α × β)) :
    (cs.filter fun e => decide (e.1 ≠ h)).lookup g = cs.lookup g := by
  induction cs with
  | nil => rfl
  | cons e cs ih =>
    by_cases he : e.1 = h
    · rw [filter_cons_of_neg (by simpa using he), ih, lookup_cons, beq_false_of_ne fun hge => hg (hge.trans he)]
    · rw [filter_cons_of_pos (by simpa using he), lookup_cons, lookup_cons, ih]

omit [DecidableEq L] in
theorem lookup_filter_self {β : Type} (h : α) (cs : List (α × β)) : (cs.filter fun e => decide (e.1 ≠ h)).lookup h = none := by
  rw [lookup_eq_none_iff]
  intro e he
  have hne : e.1 ≠ h := by simpa using (mem_filter.mp he).2
  simpa using Ne.symm hne

/-- A label that passes a place passes the places before it. -/
def Closed (t : Trie α L) : Prop := ∀ p q m, m ∈ at? (p ++ q) t → m ∈ at? p t

theorem mem_at?_remove {l m : L} {path p : List α} {t : Trie α L} (hclosed : Closed t)
    (hl : ∀ p, l ∈ at? p t → p <+: path) : m ∈ at? p (remove l path t) ↔ m ∈ at? p t ∧ m ≠ l := by
  induction path generalizing p t with
  | nil =>
    obtain ⟨ls, cs⟩ := t
    cases p with
    | nil => exact mem_dropLabel
    | cons g p =>
      show m ∈ at? (g :: p) (.node ls cs) ↔ _
      exact (and_iff_left_of_imp fun hm hml => absurd (hl _ (hml ▸ hm)) (by simp)).symm
  | cons h path ih =>
    obtain ⟨ls, cs⟩ := t
    have hother : ∀ {g : α} {p : List α}, g ≠ h → m ∈ at? (g :: p) (.node ls cs) → m ≠ l := fun hg hm hml =>
      hg (cons_prefix_cons.mp (hl _ (hml ▸ hm))).1
    unfold remove
    cases hc : cs.lookup h with
    | none =>
      cases p with
      | nil => exact mem_dropLabel
      | cons g p =>
        refine (and_iff_left_of_imp fun hm => ?_).symm
        by_cases hg : g = h
        · rw [at?_cons] at hm
          dsimp only [child] at hm
          rw [hg, hc] at hm
          cases hm
        · exact hother hg hm
    | some c =>
      have hbelow : ∀ q, at? (h :: q) (.node ls cs) = at? q c := fun q => by
        rw [at?_cons]
        dsimp only [child]
        rw [hc]
        rfl
      dsimp only
      split
      · rename_i hempty
        cases p with
        | nil => exact mem_dropLabel
        | cons g p =>
          rw [at?_cons]
          dsimp only [child]
          by_cases hg : g = h
          · subst hg
            rw [lookup_filter_self, hbelow]
            refine ⟨fun hm => absurd hm not_mem_nil, fun hm => ?_⟩
            have hroot : m ∈ at? [g] (.node ls cs) := hclosed [g] p m (by rw [singleton_append, hbelow]; exact hm.1)
            rw [hbelow] at hroot
            have hdrop : m ∈ dropLabel l c.labels := mem_dropLabel.mpr ⟨hroot, hm.2⟩
            rw [hempty] at hdrop
            cases hdrop
          · rw [lookup_filter_ne hg]
            rw [show ((cs.lookup g).map (at? p)).getD [] = at? (g :: p) (.node ls cs) from (at?_cons g p (.node ls cs)).symm]
            exact (and_iff_left_of_imp (hother hg)).symm
      · cases p with
        | nil => exact mem_dropLabel
        | cons g p =>
          rw [at?_cons]
          dsimp only [child]
          rw [lookup_upsert]
          by_cases hg : g = h
          · subst hg
            rw [if_pos rfl, Option.map_some, Option.getD_some, hbelow]
            refine ih (fun p q m hm => ?_) fun p hp => ?_
            · have hcons := hclosed (g :: p) q m (by rw [cons_append, hbelow]; exact hm)
              rwa [hbelow] at hcons
            · exact (cons_prefix_cons.mp (hl (g :: p) (by rw [hbelow]; exact hp))).2
          · rw [if_neg hg]
            rw [show ((cs.lookup g).map (at? p)).getD [] = at? (g :: p) (.node ls cs) from (at?_cons g p (.node ls cs)).symm]
            exact (and_iff_left_of_imp (hother hg)).symm

/-! ### Tables -/

/-- A place has a label exactly when it begins the path of the label. -/
def Represents (t : Trie α L) (table : L → Option (List α)) : Prop :=
  ∀ p m, m ∈ at? p t ↔ ∃ path, table m = some path ∧ p <+: path

omit [DecidableEq L] in
theorem represents_empty : Represents (empty : Trie α L) fun _ => none := by
  intro p m
  rw [at?_empty]
  simp

omit [DecidableEq L] in
theorem Represents.closed {t : Trie α L} {table : L → Option (List α)} (h : Represents t table) : Closed t := by
  intro p q m hm
  obtain ⟨path, hpath, hp⟩ := (h _ _).mp hm
  exact (h _ _).mpr ⟨path, hpath, (prefix_append p q).trans hp⟩

theorem Represents.insert {t : Trie α L} {table : L → Option (List α)} (h : Represents t table) {l : L}
    (hl : table l = none) (path : List α) : Represents (Trie.insert l path t) (Function.update table l (some path)) := by
  intro p m
  rw [mem_at?_insert, h]
  by_cases hm : m = l
  · subst hm
    rw [Function.update_self, hl]
    simp
  · rw [Function.update_of_ne hm, or_iff_left fun hml => hm hml.1]

theorem Represents.remove {t : Trie α L} {table : L → Option (List α)} (h : Represents t table) {l : L}
    {path : List α} (hl : table l = some path) : Represents (Trie.remove l path t) (Function.update table l none) := by
  intro p m
  have honly : ∀ p, l ∈ at? p t → p <+: path := fun p hp => by
    obtain ⟨path', hpath, hprefix⟩ := (h _ _).mp hp
    rwa [Option.some.inj (hl.symm.trans hpath)]
  rw [mem_at?_remove h.closed honly, h]
  by_cases hm : m = l
  · subst hm
    rw [Function.update_self]
    simp
  · rw [Function.update_of_ne hm, and_iff_left hm]

/-! ### The deepest place -/

def shared : List α → List α → Nat
  | a :: as, b :: bs => if a = b then shared as bs + 1 else 0
  | _, _ => 0

omit [DecidableEq L] in
theorem shared_le (as bs : List α) : shared as bs ≤ as.length := by
  induction as generalizing bs with
  | nil => exact Nat.le_of_eq (by unfold shared; rfl)
  | cons a as ih =>
    cases bs with
    | nil => exact Nat.zero_le _
    | cons b bs =>
      unfold shared
      split
      · exact Nat.succ_le_succ (ih bs)
      · exact Nat.zero_le _

omit [DecidableEq L] in
theorem take_prefix_iff {k : Nat} {as bs : List α} (hk : k ≤ as.length) : as.take k <+: bs ↔ k ≤ shared as bs := by
  induction as generalizing k bs with
  | nil =>
    rw [Nat.le_zero.mp hk]
    simp
  | cons a as ih =>
    cases k with
    | zero => simp
    | succ k =>
      cases bs with
      | nil => simp [shared]
      | cons b bs =>
        unfold shared
        rw [take_succ_cons, cons_prefix_cons, ih (Nat.le_of_succ_le_succ hk)]
        by_cases hab : a = b
        · rw [if_pos hab, and_iff_right hab, Nat.succ_le_succ_iff]
        · rw [if_neg hab]
          exact ⟨fun h => absurd h.1 hab, fun h => absurd h (Nat.not_succ_le_zero k)⟩

omit [DecidableEq L] in
theorem deepest_place (path : List α) (t : Trie α L) :
    (deepest path t).1 ≤ path.length ∧ (deepest path t).2 = at? (path.take (deepest path t).1) t ∧
      (0 < (deepest path t).1 → (deepest path t).2 ≠ []) ∧
      ((deepest path t).1 < path.length → at? (path.take ((deepest path t).1 + 1)) t = []) := by
  induction path generalizing t with
  | nil => exact ⟨Nat.le_refl _, rfl, fun h => absurd h (Nat.lt_irrefl 0), fun h => absurd h (Nat.lt_irrefl 0)⟩
  | cons h path ih =>
    unfold deepest
    cases hc : t.child h with
    | none =>
      refine ⟨Nat.zero_le _, rfl, fun h => absurd h (Nat.lt_irrefl 0), fun _ => ?_⟩
      show at? [h] t = []
      rw [at?_cons, hc]
      rfl
    | some c =>
      dsimp only
      split
      · rename_i hempty
        refine ⟨Nat.zero_le _, rfl, fun h => absurd h (Nat.lt_irrefl 0), fun _ => ?_⟩
        show at? [h] t = []
        rw [at?_cons, hc]
        exact hempty
      · rename_i hne
        obtain ⟨hle, heq, hpos, hstop⟩ := ih c
        have hbelow : ∀ q, at? (h :: q) t = at? q c := fun q => by
          rw [at?_cons, hc]
          rfl
        refine ⟨Nat.succ_le_succ hle, ?_, fun _ => ?_, fun hlt => ?_⟩
        · rw [take_succ_cons, hbelow]
          exact heq
        · rcases Nat.eq_zero_or_pos (deepest path c).1 with hzero | hpos'
          · rw [heq, hzero]
            exact hne
          · exact hpos hpos'
        · rw [take_succ_cons, hbelow]
          exact hstop (Nat.lt_of_succ_lt_succ hlt)

omit [DecidableEq L] in
/-- The deepest place of a path is as deep as the longest prefix it shares with a path of the table, and its labels
are those of the paths that share it. -/
theorem Represents.deepest {t : Trie α L} {table : L → Option (List α)} (h : Represents t table) (path : List α) :
    (∀ m, m ∈ (Trie.deepest path t).2 ↔ ∃ tail, table m = some tail ∧ shared path tail = (Trie.deepest path t).1) ∧
      (∀ m tail, table m = some tail → shared path tail ≤ (Trie.deepest path t).1) ∧
      (0 < (Trie.deepest path t).1 → (Trie.deepest path t).2 ≠ []) := by
  obtain ⟨hle, heq, hpos, hstop⟩ := deepest_place path t
  have hmost : ∀ m tail, table m = some tail → shared path tail ≤ (Trie.deepest path t).1 := by
    intro m tail hm
    by_contra hlt
    have hlt := Nat.lt_of_not_le hlt
    have hlength : (Trie.deepest path t).1 < path.length := Nat.lt_of_lt_of_le hlt (shared_le path tail)
    have hmem := (h (path.take ((Trie.deepest path t).1 + 1)) m).mpr ⟨tail, hm, (take_prefix_iff hlength).mpr hlt⟩
    rw [hstop hlength] at hmem
    cases hmem
  refine ⟨fun m => ?_, hmost, hpos⟩
  rw [heq, h]
  constructor
  · rintro ⟨tail, hm, hprefix⟩
    exact ⟨tail, hm, Nat.le_antisymm (hmost m tail hm) ((take_prefix_iff hle).mp hprefix)⟩
  · rintro ⟨tail, hm, hshared⟩
    exact ⟨tail, hm, (take_prefix_iff hle).mpr (Nat.le_of_eq hshared.symm)⟩

end Trie

end TokenBill.General
