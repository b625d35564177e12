import Mathlib.Algebra.BigOperators.Group.List.Basic
import Mathlib.Algebra.Group.WithOne.Defs

/-!
# Bracketings of a fallible operation

`Bracketing op xs c`: putting the elements `xs` together two at a time, in their order but
bracketed in any way, gives `c`. Where a measure turns the operation into the multiplication of
a commutative semigroup, the measure of the result depends neither on the brackets nor on the
order of the elements (`Bracketing.measure_eq`).
-/

namespace TokenBill.General

open List

variable {α ε μ : Type} {op : α → α → Except ε α}

/-- The results of putting elements together in some bracketing. -/
inductive Bracketing (op : α → α → Except ε α) : List α → α → Prop where
  /-- One element is its own result. -/
  | leaf (a : α) : Bracketing op [a] a
  /-- The results of two parts are put together. -/
  | node {xs ys : List α} {a b c : α} :
    Bracketing op xs a → Bracketing op ys b → op a b = .ok c → Bracketing op (xs ++ ys) c

namespace Bracketing

/-- There is no result of nothing. -/
theorem ne_nil {xs : List α} {c : α} (h : Bracketing op xs c) : xs ≠ [] := by
  induction h with
  | leaf a => exact cons_ne_nil a []
  | node _ _ _ iha _ => exact append_ne_nil_of_left_ne_nil iha _

theorem of_singleton {x c : α} (h : Bracketing op [x] c) : c = x := by
  generalize hxs : [x] = xs at h
  cases h with
  | leaf a => exact (singleton_inj.mp hxs).symm
  | node ha hb hop =>
    rcases singleton_eq_append_iff.mp hxs with ⟨hnil, -⟩ | ⟨-, hnil⟩
    · exact absurd hnil ha.ne_nil
    · exact absurd hnil hb.ne_nil

/-- More than one element are put together by a last operation. -/
theorem last {xs : List α} {c : α} (h : Bracketing op xs c) (hlen : xs.length ≠ 1) :
    ∃ a b ys zs, xs = ys ++ zs ∧ Bracketing op ys a ∧ Bracketing op zs b ∧ op a b = .ok c := by
  cases h with
  | leaf a => exact absurd rfl hlen
  | node ha hb hop => exact ⟨_, _, _, _, rfl, ha, hb, hop⟩

/-- What holds of the elements and is kept by the operation holds of the result. -/
theorem keeps {P : α → Prop} (hop : ∀ {a b c}, P a → P b → op a b = .ok c → P c) {xs : List α} {c : α}
    (h : Bracketing op xs c) (hp : ∀ x ∈ xs, P x) : P c := by
  induction h with
  | leaf a => exact hp a mem_cons_self
  | node ha hb hc iha ihb =>
    exact hop (iha fun x hx => hp x (mem_append_left _ hx))
      (ihb fun x hx => hp x (mem_append_right _ hx)) hc

section Measure

variable [CommSemigroup μ] {P : α → Prop} {m : α → μ}

/-- The measure of a result is the product of the measures of its elements. -/
theorem measure_prod (hkeep : ∀ {a b c}, P a → P b → op a b = .ok c → P c)
    (hop : ∀ {a b c}, P a → P b → op a b = .ok c → m c = m a * m b) {xs : List α} {c : α}
    (h : Bracketing op xs c) (hp : ∀ x ∈ xs, P x) :
    (m c : WithOne μ) = (xs.map fun x => (m x : WithOne μ)).prod := by
  induction h with
  | leaf a => rw [map_singleton, prod_singleton]
  | node ha hb hc iha ihb =>
    have hpa := fun x hx => hp x (mem_append_left _ hx)
    have hpb := fun x hx => hp x (mem_append_right _ hx)
    rw [map_append, prod_append, ← iha hpa, ← ihb hpb,
      hop (ha.keeps hkeep hpa) (hb.keeps hkeep hpb) hc, WithOne.coe_mul]

/-- The measure of a result depends neither on the brackets nor on the order. -/
theorem measure_eq (hkeep : ∀ {a b c}, P a → P b → op a b = .ok c → P c)
    (hop : ∀ {a b c}, P a → P b → op a b = .ok c → m c = m a * m b)
    {xs ys : List α} {c d : α} (hc : Bracketing op xs c) (hd : Bracketing op ys d) (hperm : xs.Perm ys)
    (hp : ∀ x ∈ xs, P x) : m c = m d := by
  have hpd : ∀ x ∈ ys, P x := fun x hx => hp x (hperm.mem_iff.mpr hx)
  rw [← WithOne.coe_inj, hc.measure_prod hkeep hop hp, hd.measure_prod hkeep hop hpd]
  exact (hperm.map _).prod_eq

end Measure

end Bracketing

end TokenBill.General
