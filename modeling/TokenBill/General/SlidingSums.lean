import Mathlib.Algebra.Order.BigOperators.Group.List
import Mathlib.Algebra.Order.Ring.Nat
import Mathlib.Data.List.Sort
import Mathlib.Data.List.TakeWhile
import Mathlib.Order.Bounds.Basic

/-!
# The heaviest window of a sorted list

Two pointers run over a sorted list: the first one over the elements that a window starts at, the other one ahead of it
to the end of the window. The greatest sum they meet is the greatest sum of any window `[t, t + width)`.
-/

namespace TokenBill.General

open List

variable {α : Type} {key : α → ℤ} {weight : α → ℕ} {width : ℤ}

/-- The second pointer moves up to a limit, and the window grows. -/
def advance (key : α → ℤ) (weight : α → ℕ) (limit : ℤ) : List α → ℕ → List α × ℕ
  | [], window => ([], window)
  | x :: ahead, window =>
    if key x < limit then advance key weight limit ahead (window + weight x) else (x :: ahead, window)

/-- The first pointer moves to the end: what is left of it, what is ahead of the second one, the sum of what lies
between, and the greatest sum so far. -/
def sweep (key : α → ℤ) (weight : α → ℕ) (width : ℤ) : List α → List α → ℕ → ℕ → ℕ
  | [], _, _, best => best
  | x :: rest, ahead, window, best =>
    let next := advance key weight (key x + width) ahead window
    sweep key weight width rest next.1 (next.2 - weight x) (max best next.2)

def windowSum (key : α → ℤ) (weight : α → ℕ) (width : ℤ) (l : List α) (t : ℤ) : ℕ :=
  ((l.filter fun x => decide (t ≤ key x ∧ key x < t + width)).map weight).sum

theorem advance_eq (limit : ℤ) (ahead : List α) (window : ℕ) : advance key weight limit ahead window =
    (ahead.dropWhile fun x => decide (key x < limit),
      window + ((ahead.takeWhile fun x => decide (key x < limit)).map weight).sum) := by
  induction ahead generalizing window with
  | nil => rfl
  | cons x ahead ih =>
    by_cases hx : key x < limit
    · have hstep : advance key weight limit (x :: ahead) window = advance key weight limit ahead (window + weight x) :=
        if_pos hx
      rw [hstep, ih, dropWhile_cons_of_pos (by simpa using hx), takeWhile_cons_of_pos (by simpa using hx),
        map_cons, sum_cons, add_assoc]
    · have hstep : advance key weight limit (x :: ahead) window = (x :: ahead, window) := if_neg hx
      rw [hstep, dropWhile_cons_of_neg (by simpa using hx), takeWhile_cons_of_neg (by simpa using hx)]
      rfl

/-- The greatest sum of the windows that start at an element, over what is left from it on. -/
def heaviestFrom (key : α → ℤ) (weight : α → ℕ) (width : ℤ) : List α → ℕ
  | [] => 0
  | x :: rest =>
    max (((x :: rest).filter fun y => decide (key y < key x + width)).map weight).sum (heaviestFrom key weight width rest)

theorem heaviestFrom_cons (x : α) (rest : List α) : heaviestFrom key weight width (x :: rest) =
    max (((x :: rest).filter fun y => decide (key y < key x + width)).map weight).sum
      (heaviestFrom key weight width rest) := rfl

variable {l : List α}

theorem takeWhile_lt_eq_filter (h : l.Pairwise fun a b => key a ≤ key b) (limit : ℤ) :
    l.takeWhile (fun a => decide (key a < limit)) = l.filter fun a => decide (key a < limit) := by
  induction l with
  | nil => rfl
  | cons a l ih =>
    obtain ⟨ha, hl⟩ := pairwise_cons.mp h
    by_cases hlt : key a < limit
    · rw [takeWhile_cons_of_pos (by simpa using hlt), filter_cons_of_pos (by simpa using hlt), ih hl]
    · have hnone : l.filter (fun a => decide (key a < limit)) = [] := by
        refine filter_eq_nil_iff.mpr fun b hb => ?_
        rw [decide_eq_true_eq]
        exact fun hb' => hlt ((ha b hb).trans_lt hb')
      rw [takeWhile_cons_of_neg (by simpa using hlt), filter_cons_of_neg (by simpa using hlt), hnone]

/-- The window of the two pointers: what lies between them is short of the end of every later window. -/
theorem sweep_eq (hwidth : 0 < width) {inside ahead : List α} (h : (inside ++ ahead).Pairwise fun a b => key a ≤ key b)
    (hinside : ∀ x ∈ (inside ++ ahead).head?, ∀ y ∈ inside, key y < key x + width) (best : ℕ) :
    sweep key weight width (inside ++ ahead) ahead (inside.map weight).sum best =
      max best (heaviestFrom key weight width (inside ++ ahead)) := by
  generalize hl : inside ++ ahead = l at h hinside ⊢
  induction l generalizing inside ahead best with
  | nil => exact (max_eq_left (Nat.zero_le _)).symm
  | cons x rest ih =>
    obtain ⟨hx, hrest⟩ := pairwise_cons.mp h
    have hinside : ∀ y ∈ inside, key y < key x + width := hinside x rfl
    -- the window of `x` is what lay inside, and what the second pointer passes
    have hwindow : (x :: rest).takeWhile (fun y => decide (key y < key x + width)) =
        inside ++ ahead.takeWhile fun y => decide (key y < key x + width) := by
      rw [← hl]
      exact takeWhile_append_of_pos fun y hy => decide_eq_true (hinside y hy)
    have hbehind : (x :: rest).dropWhile (fun y => decide (key y < key x + width)) =
        ahead.dropWhile fun y => decide (key y < key x + width) := by
      rw [← hl]
      exact dropWhile_append_of_pos fun y hy => decide_eq_true (hinside y hy)
    have hself : key x < key x + width := by omega
    rw [takeWhile_cons_of_pos (by simpa using hself)] at hwindow
    rw [dropWhile_cons_of_pos (by simpa using hself)] at hbehind
    have hsum : (inside.map weight).sum + ((ahead.takeWhile fun y => decide (key y < key x + width)).map weight).sum =
        (((x :: rest).filter fun y => decide (key y < key x + width)).map weight).sum := by
      rw [← takeWhile_lt_eq_filter h, takeWhile_cons_of_pos (by simpa using hself), hwindow, map_append,
        sum_append]
    have hnext : ((x :: rest).filter fun y => decide (key y < key x + width)) =
        x :: rest.takeWhile fun y => decide (key y < key x + width) := by
      rw [← takeWhile_lt_eq_filter h, takeWhile_cons_of_pos (by simpa using hself)]
    unfold sweep
    rw [advance_eq]
    dsimp only
    rw [hsum, hnext, map_cons, sum_cons, Nat.add_sub_cancel_left, ← hbehind]
    have hsplit := takeWhile_append_dropWhile (p := fun y => decide (key y < key x + width)) (l := rest)
    rw [ih (max best (weight x + _)) hsplit hrest ?_]
    · rw [heaviestFrom_cons, hnext, map_cons, sum_cons, max_assoc]
    · intro z hz y hy
      have hy := of_decide_eq_true (mem_takeWhile_imp (p := fun y => decide (key y < key x + width)) hy)
      have hz : key x ≤ key z := hx z (mem_of_mem_head? hz)
      omega

theorem windowSum_cons (x : α) (rest : List α) (t : ℤ) : windowSum key weight width (x :: rest) t =
    (if t ≤ key x ∧ key x < t + width then weight x else 0) + windowSum key weight width rest t := by
  unfold windowSum
  by_cases hx : t ≤ key x ∧ key x < t + width
  · rw [if_pos hx, filter_cons_of_pos (by simpa using hx), map_cons, sum_cons]
  · rw [if_neg hx, filter_cons_of_neg (by simpa using hx), zero_add]

theorem heaviestFrom_isGreatest (h : l.Pairwise fun a b => key a ≤ key b) :
    IsGreatest (Set.range (windowSum key weight width l)) (heaviestFrom key weight width l) := by
  induction l with
  | nil => exact ⟨⟨0, rfl⟩, by rintro _ ⟨t, rfl⟩; exact le_refl _⟩
  | cons x rest ih =>
    obtain ⟨hx, hrest⟩ := pairwise_cons.mp h
    obtain ⟨⟨s, hs⟩, hupper⟩ := ih hrest
    have hbound : ∀ t, windowSum key weight width (x :: rest) t ≤ heaviestFrom key weight width (x :: rest) := by
      intro t
      rw [heaviestFrom_cons]
      by_cases ht : t ≤ key x
      · refine le_max_of_le_left ?_
        refine ((monotone_filter_right _ fun y hy => ?_).map _).sum_le_sum fun _ _ => Nat.zero_le _
        have hy := of_decide_eq_true hy
        exact decide_eq_true (by omega)
      · rw [windowSum_cons, if_neg fun hin => ht hin.1, zero_add]
        exact le_max_of_le_right (hupper ⟨t, rfl⟩)
    refine ⟨?_, by rintro _ ⟨t, rfl⟩; exact hbound t⟩
    rw [heaviestFrom_cons]
    rcases le_total (heaviestFrom key weight width rest)
      (((x :: rest).filter fun y => decide (key y < key x + width)).map weight).sum with hle | hle
    · -- the window that starts at `x`
      rw [max_eq_left hle]
      refine ⟨key x, ?_⟩
      unfold windowSum
      congr 2
      refine filter_congr fun y hy => ?_
      have hy : key x ≤ key y := by
        rcases mem_cons.mp hy with rfl | hy
        · exact le_refl _
        · exact hx y hy
      rw [decide_eq_decide]
      omega
    · -- a window of the rest, which `x` can only make heavier
      rw [max_eq_right hle]
      refine ⟨s, le_antisymm ?_ ?_⟩
      · have hs := hbound s
        rwa [heaviestFrom_cons, max_eq_right hle] at hs
      · rw [windowSum_cons, hs]
        exact Nat.le_add_left _ _

def heaviestWindow (key : α → ℤ) (weight : α → ℕ) (width : ℤ) (l : List α) : ℕ := sweep key weight width l l 0 0

/-- Over a sorted list the two pointers meet the heaviest window. -/
theorem heaviestWindow_isGreatest (hwidth : 0 < width) (h : l.Pairwise fun a b => key a ≤ key b) :
    IsGreatest (Set.range (windowSum key weight width l)) (heaviestWindow key weight width l) := by
  have hsweep := @sweep_eq α key weight width hwidth [] l h (fun _ _ => nofun) 0
  rw [nil_append, max_eq_right (Nat.zero_le _)] at hsweep
  unfold heaviestWindow
  rw [show sweep key weight width l l 0 0 = heaviestFrom key weight width l from hsweep]
  exact heaviestFrom_isGreatest h

theorem windowSum_perm {l' : List α} (h : l.Perm l') (t : ℤ) :
    windowSum key weight width l t = windowSum key weight width l' t :=
  ((h.filter _).map _).sum_eq

end TokenBill.General

/-!
## Windows of a sorted list

`bisect_right` of a list that is sorted by a key counts the elements up to a key, and the slice between two of
them is what lies after the one key and up to the other.
-/

namespace TokenBill.General

open List

variable {α β : Type} [LinearOrder β]

/-- `bisect_right` of the keys of a sorted list. -/
def bisectRight (key : α → β) (l : List α) (t : β) : Nat := (l.takeWhile fun a => decide (key a ≤ t)).length

variable {l : List α}

/-- The elements up to a key are in front of a sorted list. -/
theorem takeWhile_le_eq_filter {key : α → β} (h : l.Pairwise fun a b => key a ≤ key b) (t : β) :
    l.takeWhile (fun a => decide (key a ≤ t)) = l.filter fun a => decide (key a ≤ t) := by
  induction l with
  | nil => rfl
  | cons a l ih =>
    obtain ⟨ha, hl⟩ := pairwise_cons.mp h
    by_cases hle : key a ≤ t
    · rw [takeWhile_cons_of_pos (by simpa using hle), filter_cons_of_pos (by simpa using hle), ih hl]
    · have hnone : l.filter (fun a => decide (key a ≤ t)) = [] := by
        refine filter_eq_nil_iff.mpr fun b hb => ?_
        rw [decide_eq_true_eq]
        exact fun hb' => hle ((ha b hb).trans hb')
      rw [takeWhile_cons_of_neg (by simpa using hle), filter_cons_of_neg (by simpa using hle), hnone]

theorem bisectRight_eq_countP {key : α → β} (h : l.Pairwise fun a b => key a ≤ key b) (t : β) :
    bisectRight key l t = l.countP fun a => decide (key a ≤ t) := by
  rw [bisectRight, takeWhile_le_eq_filter h, countP_eq_length_filter]

/-- The rest of a sorted list after the elements up to a key. -/
theorem drop_bisectRight {key : α → β} (h : l.Pairwise fun a b => key a ≤ key b) (t : β) :
    l.drop (bisectRight key l t) = l.filter fun a => decide (t < key a) := by
  induction l with
  | nil => rfl
  | cons a l ih =>
    obtain ⟨ha, hl⟩ := pairwise_cons.mp h
    by_cases hle : key a ≤ t
    · have hstep : bisectRight key (a :: l) t = bisectRight key l t + 1 := by
        rw [bisectRight, takeWhile_cons_of_pos (by simpa using hle), length_cons, bisectRight]
      rw [hstep, drop_succ_cons, ih hl, filter_cons_of_neg (by simpa using hle)]
    · have hzero : bisectRight key (a :: l) t = 0 := by
        rw [bisectRight, takeWhile_cons_of_neg (by simpa using hle), length_nil]
      rw [hzero, drop_zero]
      refine (filter_eq_self.mpr fun b hb => ?_).symm
      rw [decide_eq_true_eq]
      rcases mem_cons.mp hb with rfl | hb
      · exact lt_of_not_ge hle
      · exact (lt_of_not_ge hle).trans_le (ha b hb)

/-- The slice between two `bisect_right` is what lies after the first key and up to the second. -/
theorem mem_window {key : α → β} (h : l.Pairwise fun a b => key a ≤ key b) (s t : β) {a : α} :
    a ∈ (l.take (bisectRight key l t)).drop (bisectRight key l s) ↔ a ∈ l ∧ s < key a ∧ key a ≤ t := by
  have htake : l.take (bisectRight key l t) = l.filter fun a => decide (key a ≤ t) := by
    rw [← takeWhile_le_eq_filter h]
    exact (prefix_iff_eq_take.mp ( takeWhile_prefix _)).symm
  have hsub : (l.filter fun a => decide (key a ≤ t)).Pairwise fun a b => key a ≤ key b := h.filter _
  by_cases hst : s ≤ t
  · -- the elements up to the first key are all in front of the slice
    have hsame : bisectRight key l s = bisectRight key (l.filter fun a => decide (key a ≤ t)) s := by
      rw [bisectRight_eq_countP h, bisectRight_eq_countP hsub, countP_filter]
      refine countP_congr fun b _ => ?_
      rw [Bool.and_eq_true, decide_eq_true_eq, decide_eq_true_eq]
      exact ⟨fun hb => ⟨hb, hb.trans hst⟩, fun hb => hb.1⟩
    rw [htake, hsame, drop_bisectRight hsub, mem_filter, mem_filter, decide_eq_true_eq, decide_eq_true_eq]
    exact ⟨fun ⟨⟨ha, ht⟩, hs⟩ => ⟨ha, hs, ht⟩, fun ⟨ha, hs, ht⟩ => ⟨⟨ha, ht⟩, hs⟩⟩
  · have hlen : (l.filter fun a => decide (key a ≤ t)).length ≤ bisectRight key l s := by
      rw [bisectRight_eq_countP h, ← countP_eq_length_filter]
      refine countP_mono_left fun b _ hb => ?_
      rw [decide_eq_true_eq] at hb ⊢
      exact hb.trans (le_of_not_ge hst)
    rw [htake, drop_eq_nil_of_le hlen]
    refine iff_of_false not_mem_nil fun ⟨_, hs, ht⟩ => hst (hs.le.trans ht)

/-- More of some elements of a sorted list are up to the second key if one lies between. -/
theorem bisectRight_lt_iff {key : α → β} (h : l.Pairwise fun a b => key a ≤ key b) (s t : β) :
    bisectRight key l s < bisectRight key l t ↔ ∃ a ∈ l, s < key a ∧ key a ≤ t := by
  rw [bisectRight_eq_countP h, bisectRight_eq_countP h]
  constructor
  · intro hlt
    by_contra hnone
    push Not at hnone
    refine absurd hlt (Nat.not_lt.mpr (countP_mono_left fun a ha hat => ?_))
    rw [decide_eq_true_eq] at hat ⊢
    by_contra hsa
    exact absurd hat (not_le.mpr (hnone a ha (lt_of_not_ge hsa)))
  · rintro ⟨a, ha, hs, ht⟩
    obtain ⟨front, back, rfl⟩ := append_of_mem ha
    have hmono : ∀ m : List α, m.countP (fun b => decide (key b ≤ s)) ≤ m.countP fun b => decide (key b ≤ t) := fun m =>
      countP_mono_left fun b _ hb => by
        rw [decide_eq_true_eq] at hb ⊢
        exact hb.trans (hs.le.trans ht)
    rw [countP_append, countP_append, countP_cons_of_neg (by simpa using hs),
      countP_cons_of_pos (by simpa using ht)]
    have hfront := hmono front
    have hback := hmono back
    omega

end TokenBill.General
