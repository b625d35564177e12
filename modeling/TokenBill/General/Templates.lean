import Mathlib.Data.List.Basic

/-!
# Texts of a fixed shape

A template has one class of characters for each position. A text of that shape has its parts at fixed
positions, so a text that fits a narrower template has the same parts under a wider one.
-/

namespace TokenBill.General

open List

/-- One class of characters for each position. -/
abbrev Template : Type := List (Char → Bool)

def only (c : Char) : Char → Bool := fun d => decide (d = c)

/-- A text has the shape of a template. -/
def fits : Template → List Char → Bool
  | [], [] => true
  | p :: ps, c :: cs => p c && fits ps cs
  | _, _ => false

theorem fits_cons_cons (p : Char → Bool) (ps : Template) (c : Char) (cs : List Char) :
    fits (p :: ps) (c :: cs) = (p c && fits ps cs) := rfl

/-- `s[i:j]`. -/
def slice (i j : Nat) (cs : List Char) : List Char := (cs.take j).drop i

/-- The text of a shape in front of a text, and what follows it. -/
def takeShape (t : Template) (cs : List Char) : Option (List Char × List Char) :=
  if fits t (cs.take t.length) then some (cs.take t.length, cs.drop t.length) else none

variable {cs a : List Char} {t u : Template}

theorem fits_length (h : fits t cs) : cs.length = t.length := by
  induction t generalizing cs with
  | nil =>
    cases cs with
    | nil => rfl
    | cons c cs => cases h
  | cons p ps ih =>
    cases cs with
    | nil => cases h
    | cons c cs =>
      simp only [fits_cons_cons, Bool.and_eq_true] at h
      rw [length_cons, length_cons, ih h.2]

theorem fits_cons {p : Char → Bool} (h : fits (p :: t) cs) : ∃ c rest, cs = c :: rest ∧ p c ∧ fits t rest := by
  cases cs with
  | nil => cases h
  | cons c rest =>
    simp only [fits_cons_cons, Bool.and_eq_true] at h
    exact ⟨c, rest, rfl, h.1, h.2⟩

theorem fits_split (h : fits (t ++ u) cs) : fits t (cs.take t.length) ∧ fits u (cs.drop t.length) := by
  induction t generalizing cs with
  | nil => exact ⟨rfl, h⟩
  | cons p ps ih =>
    cases cs with
    | nil => cases h
    | cons c cs =>
      simp only [cons_append, fits_cons_cons, Bool.and_eq_true] at h
      obtain ⟨h1, h2⟩ := ih h.2
      refine ⟨?_, h2⟩
      simp only [length_cons, take_succ_cons, fits_cons_cons, Bool.and_eq_true]
      exact ⟨h.1, h1⟩

def Wider (p q : Char → Bool) : Prop := ∀ c, p c → q c

theorem fits_wider (h : List.Forall₂ Wider t u) (hcs : fits t cs) : fits u cs := by
  induction h generalizing cs with
  | nil => exact hcs
  | cons hpq _ ih =>
    cases cs with
    | nil => cases hcs
    | cons c cs =>
      simp only [fits_cons_cons, Bool.and_eq_true] at hcs ⊢
      exact ⟨hpq c hcs.1, ih hcs.2⟩

theorem takeShape_eq_some {b : List Char} (h : takeShape t cs = some (a, b)) : fits t a ∧ cs = a ++ b := by
  unfold takeShape at h
  split at h
  · obtain ⟨rfl, rfl⟩ := Prod.mk.inj (Option.some.inj h)
    exact ⟨‹_›, (take_append_drop _ _).symm⟩
  · cases h

theorem takeShape_append (h : fits t a) (b : List Char) : takeShape t (a ++ b) = some (a, b) := by
  have hlen := fits_length h
  unfold takeShape
  rw [← hlen, take_left' rfl, drop_left' rfl, if_pos h]

theorem takeShape_length {r : List Char × List Char} (h : takeShape t cs = some r) :
    cs.length = t.length + r.2.length := by
  obtain ⟨hfits, hcs⟩ := takeShape_eq_some h
  rw [hcs, length_append, fits_length hfits]

theorem takeShape_none {p : Char → Bool} {c : Char} (cs : List Char) (h : p c = false) :
    takeShape (p :: t) (c :: cs) = none := by
  unfold takeShape
  rw [if_neg]
  simp [fits, h]

theorem takeShape_nil (p : Char → Bool) (t : Template) : takeShape (p :: t) [] = none := by
  unfold takeShape
  rw [if_neg]
  simp [fits]

/-- What a template takes, a template of wider classes takes as well. -/
theorem takeShape_wider (h : List.Forall₂ Wider t u) {b : List Char}
    (hcs : takeShape t cs = some (a, b)) : takeShape u cs = some (a, b) := by
  obtain ⟨hfits, rfl⟩ := takeShape_eq_some hcs
  exact takeShape_append (fits_wider h hfits) b

/-! ### Parts of a text -/

theorem slice_append_left {i j : Nat} (h : j ≤ a.length) (b : List Char) : slice i j (a ++ b) = slice i j a := by
  unfold slice
  rw [take_append_of_le_length h]

theorem slice_append_right {n : Nat} (h : a.length = n) (i j : Nat) (b : List Char) :
    slice (n + i) (n + j) (a ++ b) = slice i j b := by
  unfold slice
  rw [← h, take_length_add_append, drop_length_add_append]

theorem length_slice (i j : Nat) (cs : List Char) : (slice i j cs).length = min j cs.length - i := by
  unfold slice
  rw [length_drop, length_take]

end TokenBill.General
