import Mathlib.Data.List.Basic

/-!
# Postconditions of fallible computations

`Post P E x`: if `x` returns, its result satisfies `P`, and if it raises, its error
satisfies `E`. One rule for each way of putting computations together.
-/

namespace TokenBill.General

variable {α β σ ε : Type}

/-- What holds of the result of a computation, or of the error it raises. -/
def Post (P : α → Prop) (E : ε → Prop) : Except ε α → Prop
  | .ok a => P a
  | .error e => E e

namespace Post

variable {P : α → Prop} {E : ε → Prop} {x : Except ε α}

theorem pure {a : α} (h : P a) : Post P E (Pure.pure a : Except ε α) := h

theorem of_ok (h : Post P E x) {a : α} (hx : x = .ok a) : P a := by
  subst hx
  exact h

theorem of_error (h : Post P E x) {e : ε} (hx : x = .error e) : E e := by
  subst hx
  exact h

theorem mono {Q : α → Prop} {F : ε → Prop} (h : Post P E x) (hok : ∀ a, P a → Q a)
    (herr : ∀ e, E e → F e) : Post Q F x := by
  cases x with
  | ok a => exact hok a h
  | error e => exact herr e h

theorem and {P' : α → Prop} {E' : ε → Prop} (h : Post P E x) (h' : Post P' E' x) :
    Post (fun a => P a ∧ P' a) E x := by
  cases x with
  | ok a => exact ⟨h, h'⟩
  | error e => exact h

theorem bind {P' : β → Prop} {f : α → Except ε β} (h : Post P E x)
    (hf : ∀ a, P a → Post P' E (f a)) : Post P' E (x >>= f) := by
  cases x with
  | ok a => exact hf a h
  | error e => exact h

/-- The invariant of a fold. -/
theorem foldlM {I : σ → Prop} {f : σ → β → Except ε σ} {xs : List β}
    (step : ∀ s, I s → ∀ y ∈ xs, Post I E (f s y)) {s : σ} (hs : I s) :
    Post I E (xs.foldlM f s) := by
  induction xs generalizing s with
  | nil => exact hs
  | cons y ys ih =>
    rw [List.foldlM_cons]
    exact (step s hs y List.mem_cons_self).bind fun s' hs' =>
      ih (fun s hs y hy => step s hs y (List.mem_cons_of_mem _ hy)) hs'

theorem mapM {f : β → Except ε α} {xs : List β} (h : ∀ x ∈ xs, Post P E (f x)) :
    Post (fun ys => ∀ y ∈ ys, P y) E (xs.mapM f) := by
  induction xs with
  | nil => exact fun y hy => nomatch hy
  | cons x xs ih =>
    rw [List.mapM_cons]
    exact (h x List.mem_cons_self).bind fun y hy =>
      (ih fun x hx => h x (List.mem_cons_of_mem _ hx)).bind fun ys hys z hz =>
        (List.mem_cons.mp hz).elim (fun hz => hz ▸ hy) (hys z)

end Post

theorem foldl_inv {I : σ → Prop} {f : σ → β → σ} {xs : List β}
    (step : ∀ s, I s → ∀ y ∈ xs, I (f s y)) {s : σ} (hs : I s) : I (xs.foldl f s) := by
  induction xs generalizing s with
  | nil => exact hs
  | cons y ys ih =>
    exact ih (fun s hs y hy => step s hs y (List.mem_cons_of_mem _ hy)) (step s hs y List.mem_cons_self)

end TokenBill.General
