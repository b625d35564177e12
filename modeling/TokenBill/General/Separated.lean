import Mathlib.Data.List.Basic

/-!
# Texts joined with a separator

Parts that do not hold the separator are told apart in their join, and a text that is encoded
character by character with a prefix-free code is told apart from its code.
-/

namespace TokenBill.General

open List

variable {α β : Type}

/-- What stands before the first separator, and after it. -/
theorem append_sep_inj {sep : α} {a b xs ys : List α} (ha : sep ∉ a) (hb : sep ∉ b)
    (h : a ++ sep :: xs = b ++ sep :: ys) : a = b ∧ xs = ys := by
  induction a generalizing b with
  | nil =>
    cases b with
    | nil => exact ⟨rfl, (List.cons.inj h).2⟩
    | cons c b =>
      rw [nil_append, cons_append, List.cons.injEq] at h
      exact absurd (h.1 ▸ mem_cons_self) hb
  | cons c a ih =>
    cases b with
    | nil =>
      rw [nil_append, cons_append, List.cons.injEq] at h
      exact absurd (h.1 ▸ mem_cons_self) ha
    | cons d b =>
      rw [cons_append, cons_append, List.cons.injEq] at h
      obtain ⟨h1, h2⟩ := ih (fun hs => ha (mem_cons_of_mem c hs)) (fun hs => hb (mem_cons_of_mem d hs)) h.2
      exact ⟨by rw [h.1, h1], h2⟩

theorem intercalate_inj {sep : α} {ps qs : List (List α)} (hp : ∀ p ∈ ps, sep ∉ p) (hq : ∀ q ∈ qs, sep ∉ q)
    (hps : ps ≠ []) (hqs : qs ≠ []) (h : [sep].intercalate ps = [sep].intercalate qs) : ps = qs := by
  induction ps generalizing qs with
  | nil => exact absurd rfl hps
  | cons p ps ih =>
    obtain ⟨q, qs, rfl⟩ := exists_cons_of_ne_nil hqs
    have hp0 := hp p mem_cons_self
    have hq0 := hq q mem_cons_self
    cases ps with
    | nil =>
      cases qs with
      | nil => simpa using h
      | cons r qs =>
        rw [intercalate_singleton, intercalate_cons_cons] at h
        exact absurd (h ▸ by simp : sep ∈ p) hp0
    | cons r ps =>
      cases qs with
      | nil =>
        rw [intercalate_singleton, intercalate_cons_cons] at h
        exact absurd (h ▸ by simp : sep ∈ q) hq0
      | cons t qs =>
        rw [intercalate_cons_cons, intercalate_cons_cons, append_assoc, append_assoc] at h
        obtain ⟨h1, h2⟩ := append_sep_inj hp0 hq0 h
        have htail := ih (fun x hx => hp x (mem_cons_of_mem p hx)) (fun x hx => hq x (mem_cons_of_mem q hx))
          (cons_ne_nil r ps) (cons_ne_nil t qs) h2
        rw [h1, htail]

/-- A prefix-free code of the letters is a code of the words. -/
theorem flatMap_inj {code : α → List β} (hne : ∀ a, code a ≠ [])
    (hcode : ∀ {a b xs ys}, code a ++ xs = code b ++ ys → a = b) {xs ys : List α}
    (h : xs.flatMap code = ys.flatMap code) : xs = ys := by
  induction xs generalizing ys with
  | nil =>
    cases ys with
    | nil => rfl
    | cons b ys => exact absurd (append_eq_nil_iff.mp h.symm).1 (hne b)
  | cons a xs ih =>
    cases ys with
    | nil => exact absurd (append_eq_nil_iff.mp h).1 (hne a)
    | cons b ys =>
      rw [flatMap_cons, flatMap_cons] at h
      obtain rfl := hcode h
      rw [ih (append_cancel_left h)]

end TokenBill.General

/-!
## Framing by length

A list behind its length and a separator. Whatever follows, the list is found again, also when it holds the
separator itself.
-/

namespace TokenBill.General

open List

variable {α : Type}

def frame (lengthText : Nat → List α) (sep : α) (x : List α) : List α := lengthText x.length ++ sep :: x

/-- A framed list and what follows it are found again. -/
theorem frame_append_inj {lengthText : Nat → List α} {sep : α} (hsep : ∀ n, sep ∉ lengthText n)
    (hinj : Function.Injective lengthText) {x y rest rest' : List α}
    (h : frame lengthText sep x ++ rest = frame lengthText sep y ++ rest') : x = y ∧ rest = rest' := by
  unfold frame at h
  rw [append_assoc, append_assoc] at h
  obtain ⟨hlength, happend⟩ := append_sep_inj (hsep _) (hsep _) h
  exact append_inj happend (hinj hlength)

end TokenBill.General
