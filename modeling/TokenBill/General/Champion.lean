import TokenBill.General.Bracketing
import Mathlib.Data.List.Perm.Lattice

/-!
# Choices that do not depend on the order

A choice keeps one of two elements. Folded over a list in any order and bracketing it gives one
element exactly when an element of the list is chosen against every other (`orderFree_iff`). The
choice need be neither commutative nor associative.
-/

namespace TokenBill.General

open List

variable {α : Type}

/-- The elements that a choice can give of a list, bracketed in any way. -/
abbrev Chosen (choose : α → α → α) : List α → α → Prop :=
  Bracketing fun a b => (.ok (choose a b) : Except Empty α)

/-- In every order and bracketing the same element is chosen. -/
def OrderFree (choose : α → α → α) (xs : List α) : Prop :=
  ∀ ys zs c d, ys.Perm xs → zs.Perm xs → Chosen choose ys c → Chosen choose zs d → c = d

/-- An element that is chosen on either side of another. -/
def Beats (choose : α → α → α) (w x : α) : Prop := choose w x = w ∧ choose x w = w

namespace Chosen

variable {choose : α → α → α} {xs ys : List α} {a b c w : α}

theorem node (ha : Chosen choose xs a) (hb : Chosen choose ys b) : Chosen choose (xs ++ ys) (choose a b) :=
  Bracketing.node ha hb rfl

theorem foldl (ha : Chosen choose xs a) (ys : List α) : Chosen choose (xs ++ ys) (ys.foldl choose a) := by
  induction ys generalizing xs a with
  | nil =>
    rw [append_nil]
    exact ha
  | cons y ys ih =>
    rw [append_cons]
    exact ih (ha.node (.leaf y))

theorem exists_of_ne_nil (choose : α → α → α) (h : xs ≠ []) : ∃ c, Chosen choose xs c := by
  obtain ⟨x, xs, rfl⟩ := exists_cons_of_ne_nil h
  exact ⟨_, foldl (.leaf x) xs⟩

variable (hsel : ∀ a b, choose a b = a ∨ choose a b = b)
include hsel

theorem mem (h : Chosen choose xs c) : c ∈ xs := by
  induction h with
  | leaf a => exact mem_singleton_self a
  | @node xs ys a b c _ _ hc iha ihb =>
    rw [← Except.ok.inj hc]
    rcases hsel a b with h | h <;> rw [h]
    · exact mem_append_left ys iha
    · exact mem_append_right xs ihb

theorem champion (h : Chosen choose xs c) (hw : w ∈ xs) (hbeats : ∀ x ∈ xs, Beats choose w x) : c = w := by
  induction h with
  | leaf a => exact (mem_singleton.mp hw).symm
  | @node xs ys a b c ha hb hc iha ihb =>
    rw [← Except.ok.inj hc]
    have hxs : ∀ x ∈ xs, Beats choose w x := fun x hx => hbeats x (mem_append_left ys hx)
    have hys : ∀ y ∈ ys, Beats choose w y := fun y hy => hbeats y (mem_append_right xs hy)
    rcases mem_append.mp hw with hw | hw
    · rw [iha hw hxs]
      exact (hys b (mem hsel hb)).1
    · rw [ihb hw hys]
      exact (hxs a (mem hsel ha)).2

/-- What loses once is not always chosen: the copies of `w` meet `x` first. -/
theorem exists_ne [DecidableEq α] {x : α} (hx : x ∈ xs) (hne : x ≠ w)
    (hlost : choose w x = x ∨ choose x w = x) (hw : w ∈ xs) : ∃ ys c, ys.Perm xs ∧ Chosen choose ys c ∧ c ≠ w := by
  -- the copies of `w`, and the rest without `x`
  obtain ⟨ws, hws⟩ := exists_of_ne_nil choose
    (ne_nil_of_mem (mem_filter.mpr ⟨hw, decide_eq_true rfl⟩) : xs.filter (· = w) ≠ [])
  have hself : ws = w := of_decide_eq_true (mem_filter.mp (mem hsel hws)).2
  subst hself
  have hxrest : x ∈ xs.filter fun y => !decide (y = ws) :=
    mem_filter.mpr ⟨hx, by simpa using hne⟩
  obtain ⟨rest, hrest⟩ : ∃ rest, (xs.filter fun y => !decide (y = ws)).Perm (x :: rest) :=
    ⟨_, perm_cons_erase hxrest⟩
  have hrestne : ∀ r ∈ rest, r ≠ ws := fun r hr => by
    have hmem := hrest.mem_iff.mpr (mem_cons_of_mem x hr)
    simpa using (mem_filter.mp hmem).2
  have hsplit : (xs.filter (· = ws) ++ x :: rest).Perm xs :=
    (List.Perm.append_left _ hrest.symm).trans (filter_append_perm _ xs)
  -- `x` is chosen of the copies of `w` and `x`
  obtain ⟨ys, hys, hperm⟩ : ∃ ys, Chosen choose ys x ∧ ys.Perm (xs.filter (· = ws) ++ [x]) := by
    rcases hlost with h | h
    · have hlast := hws.node (.leaf x)
      rw [h] at hlast
      exact ⟨_, hlast, List.Perm.refl _⟩
    · have hfirst := Chosen.node (.leaf x) hws
      rw [h] at hfirst
      exact ⟨_, hfirst, perm_append_comm⟩
  have hall : (ys ++ rest).Perm xs := by
    refine (hperm.append_right rest).trans ?_
    rw [append_assoc]
    exact hsplit
  refine ⟨ys ++ rest, rest.foldl choose x, hall, hys.foldl rest, ?_⟩
  have hfold : Chosen choose (x :: rest) (rest.foldl choose x) := Chosen.foldl (.leaf x) rest
  rcases mem_cons.mp (mem hsel hfold) with h | h
  · rw [h]
    exact hne
  · exact hrestne _ h

end Chosen

/-- The same element is always chosen exactly if one is chosen against every other. -/
theorem orderFree_iff [DecidableEq α] {choose : α → α → α} (hsel : ∀ a b, choose a b = a ∨ choose a b = b)
    {xs : List α} (hne : xs ≠ []) : OrderFree choose xs ↔ ∃ w ∈ xs, ∀ x ∈ xs, Beats choose w x := by
  constructor
  · intro hfree
    obtain ⟨w, hw⟩ := Chosen.exists_of_ne_nil choose hne
    have hmem := hw.mem hsel
    refine ⟨w, hmem, fun x hx => ?_⟩
    by_contra hbeats
    have hxw : x ≠ w := by
      rintro rfl
      exact hbeats ⟨(or_self_iff.mp (hsel x x)), (or_self_iff.mp (hsel x x))⟩
    have hlost : choose w x = x ∨ choose x w = x := by
      rcases hsel w x with h | h
      · rcases hsel x w with h' | h'
        · exact .inr h'
        · exact absurd ⟨h, h'⟩ hbeats
      · exact .inl h
    obtain ⟨ys, c, hperm, hc, hcw⟩ := Chosen.exists_ne hsel hx hxw hlost hmem
    exact hcw (hfree ys xs c w hperm (List.Perm.refl _) hc hw)
  · rintro ⟨w, hw, hbeats⟩ ys zs c d hys hzs hc hd
    rw [hc.champion hsel (hys.mem_iff.mpr hw) fun x hx => hbeats x (hys.mem_iff.mp hx),
      hd.champion hsel (hzs.mem_iff.mpr hw) fun x hx => hbeats x (hzs.mem_iff.mp hx)]

/-- Where the order does not matter, three elements are chosen from alike in both bracketings. -/
theorem OrderFree.assoc {choose : α → α → α} {a b c : α} (h : OrderFree choose [a, b, c]) :
    choose (choose a b) c = choose a (choose b c) :=
  h _ _ _ _ (List.Perm.refl _) (List.Perm.refl _)
    (Chosen.node (Chosen.node (.leaf a) (.leaf b)) (.leaf c)) (Chosen.node (.leaf a) (Chosen.node (.leaf b) (.leaf c)))

end TokenBill.General

/-!
## The best of a list

What a pass through a list keeps when it goes on with whatever beats what it has, and why it is the best of the list
when beating is transitive.
-/

namespace TokenBill.General

open List

variable {α : Type} {r : α → α → Prop} [DecidableRel r]

/-- The last of a list that beats what was best before it. -/
def best (r : α → α → Prop) [DecidableRel r] (xs : List α) : Option α :=
  xs.foldl (fun best x =>
    match best with
    | none => some x
    | some b => if r b x then some x else some b) none

theorem best_spec (htrans : ∀ a b c, ¬r a b → ¬r b c → ¬r a c) (hasymm : ∀ a b, r a b → ¬r b a) {xs : List α} {c : α}
    (h : best r xs = some c) : c ∈ xs ∧ ∀ x ∈ xs, ¬r c x := by
  have hirrefl : ∀ a, ¬r a a := fun a ha => hasymm a a ha ha
  suffices hall : ∀ (xs : List α) (b : α) (seen : List α), b ∈ seen → (∀ x ∈ seen, ¬r b x) →
      ∀ c, xs.foldl (fun best x =>
        match best with
        | none => some x
        | some b => if r b x then some x else some b) (some b) = some c → c ∈ seen ++ xs ∧ ∀ x ∈ seen ++ xs, ¬r c x by
    cases xs with
    | nil => cases h
    | cons x xs =>
      exact hall xs x [x] mem_cons_self (fun y hy => by rw [mem_singleton.mp hy]; exact hirrefl x) c h
  intro xs
  induction xs with
  | nil =>
    intro b seen hb hbest c hc
    obtain rfl := Option.some.inj hc
    rw [append_nil]
    exact ⟨hb, hbest⟩
  | cons x xs ih =>
    intro b seen hb hbest c hc
    rw [foldl_cons] at hc
    rw [append_cons]
    dsimp only at hc
    split at hc
    · rename_i hbx
      refine ih x (seen ++ [x]) (mem_append_right _ (mem_singleton.mpr rfl)) (fun y hy => ?_) c hc
      rcases mem_append.mp hy with hy | hy
      · exact htrans x b y (hasymm b x hbx) (hbest y hy)
      · rw [mem_singleton.mp hy]
        exact hirrefl x
    · rename_i hbx
      refine ih b (seen ++ [x]) (mem_append_left _ hb) (fun y hy => ?_) c hc
      rcases mem_append.mp hy with hy | hy
      · exact hbest y hy
      · rw [mem_singleton.mp hy]
        exact hbx

theorem best_eq_none {xs : List α} (h : best r xs = none) : xs = [] := by
  have hsome : ∀ (xs : List α) (b : α), xs.foldl (fun best x =>
      match best with
      | none => some x
      | some b => if r b x then some x else some b) (some b) ≠ none := by
    intro xs
    induction xs with
    | nil => exact fun b hb => by cases hb
    | cons x xs ih =>
      intro b
      rw [foldl_cons]
      dsimp only
      split
      · exact ih x
      · exact ih b
  cases xs with
  | nil => rfl
  | cons x xs => exact absurd h (hsome xs x)

end TokenBill.General
