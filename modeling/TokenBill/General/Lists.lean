import Mathlib.Algebra.BigOperators.Group.List.Basic
import Mathlib.Data.List.Dedup
import Mathlib.Data.List.Sort

/-!
# Lists and fallible traversals

General facts about lists that the rest of the development uses: a traversal that
may fail read pointwise, a list cut into the fibres of a function, and the first
smallest element taken out of a list.
-/

namespace TokenBill.General

open List

/-! ### Fallible computations -/

variable {α β ε : Type}

variable {f : α → Except ε β} {x : Except ε α} {a : α} {xs l : List α} {ys : List β} {R : α → β → Prop}

theorem bind_eq_ok {b : β} : (x >>= f) = .ok b ↔ ∃ a, x = .ok a ∧ f a = .ok b := by
  cases x <;> simp [bind, Except.bind]

theorem map_eq_ok {f : α → β} {b : β} : (f <$> x) = .ok b ↔ ∃ a, x = .ok a ∧ f a = b := by
  cases x <;> simp [Functor.map, Except.map]

@[simp] theorem pure_eq_ok {b : α} : (pure a : Except ε α) = .ok b ↔ a = b := by
  simp [pure, Except.pure]

theorem toOption_eq_some : x.toOption = some a ↔ x = .ok a := by
  cases x <;> simp [Except.toOption]

/-- A traversal succeeds with `ys` exactly when every element succeeds with its own. -/
theorem mapM_eq_ok : xs.mapM f = .ok ys ↔ List.Forall₂ (fun x y => f x = .ok y) xs ys := by
  induction xs generalizing ys with
  | nil => simp [mapM_nil, pure, Except.pure, eq_comm]
  | cons x xs ih =>
    rw [mapM_cons, bind_eq_ok]
    constructor
    · rintro ⟨y, hy, h⟩
      obtain ⟨zs, hzs, hz⟩ := bind_eq_ok.mp h
      obtain rfl := pure_eq_ok.mp hz
      exact .cons hy (ih.mp hzs)
    · intro h
      cases h with
      | cons hy h => exact ⟨_, hy, bind_eq_ok.mpr ⟨_, ih.mpr h, rfl⟩⟩

/-- A check of a list passes if each of its elements does. -/
theorem forM_eq_ok {f : α → Except ε Unit} : xs.forM f = .ok () ↔ ∀ x ∈ xs, f x = .ok () := by
  induction xs with
  | nil => exact ⟨fun _ x hx => absurd hx not_mem_nil, fun _ => rfl⟩
  | cons x xs ih =>
    rw [forall_mem_cons, ← ih]
    show (f x >>= fun _ => xs.forM f) = .ok () ↔ _
    rw [bind_eq_ok]
    exact ⟨fun ⟨_, hx, hxs⟩ => ⟨hx, hxs⟩, fun ⟨hx, hxs⟩ => ⟨(), hx, hxs⟩⟩

theorem mapM_exists_ok (h : ∀ x ∈ xs, ∃ y, f x = .ok y) : ∃ ys, xs.mapM f = .ok ys := by
  induction xs with
  | nil => exact ⟨[], rfl⟩
  | cons x xs ih =>
    obtain ⟨y, hy⟩ := h x mem_cons_self
    obtain ⟨ys, hys⟩ := ih fun x hx => h x (mem_cons_of_mem _ hx)
    exact ⟨y :: ys, mapM_eq_ok.mpr (.cons hy (mapM_eq_ok.mp hys))⟩

/-- A fold whose every step succeeds from a state of the invariant succeeds and keeps it. -/
theorem foldlM_ok {σ : Type} {f : σ → α → Except ε σ} {I : σ → Prop}
    (step : ∀ s, I s → ∀ x ∈ l, ∃ s', f s x = .ok s' ∧ I s') {s : σ} (hs : I s) :
    ∃ s', l.foldlM f s = .ok s' ∧ I s' := by
  induction l generalizing s with
  | nil => exact ⟨s, rfl, hs⟩
  | cons x xs ih =>
    obtain ⟨s1, h1, hs1⟩ := step s hs x mem_cons_self
    obtain ⟨s2, h2, hs2⟩ := ih (fun s hs x hx => step s hs x (mem_cons_of_mem _ hx)) hs1
    exact ⟨s2, by rw [foldlM_cons]; exact bind_eq_ok.mpr ⟨s1, h1, h2⟩, hs2⟩

/-! ### Related lists -/

theorem flatMap_perm_of_forall₂ {γ : Type} {f : α → List γ} {g : β → List γ}
    (h : List.Forall₂ (fun x y => (g y).Perm (f x)) xs ys) : (ys.flatMap g).Perm (xs.flatMap f) := by
  induction h with
  | nil => exact .refl _
  | cons h _ ih => simpa using h.append ih

theorem exists_of_mem_right (h : List.Forall₂ R xs ys) {y : β} (hy : y ∈ ys) : ∃ x ∈ xs, R x y := by
  induction h with
  | nil => cases hy
  | cons h _ ih =>
    rcases mem_cons.mp hy with rfl | hy
    · exact ⟨_, mem_cons_self, h⟩
    · obtain ⟨x, hx, hr⟩ := ih hy
      exact ⟨x, mem_cons_of_mem _ hx, hr⟩

theorem exists_of_mem_left (h : List.Forall₂ R xs ys) {x : α} (hx : x ∈ xs) : ∃ y ∈ ys, R x y := by
  obtain ⟨y, hy, hr⟩ := exists_of_mem_right h.flip hx
  exact ⟨y, hy, hr⟩

theorem forall₂_imp_of_mem {S : α → β → Prop} (h : List.Forall₂ R xs ys)
    (himp : ∀ x ∈ xs, ∀ y ∈ ys, R x y → S x y) : List.Forall₂ S xs ys := by
  induction h with
  | nil => exact .nil
  | cons h _ ih =>
    refine .cons (himp _ mem_cons_self _ mem_cons_self h) (ih fun x hx y hy => ?_)
    exact himp x (mem_cons_of_mem _ hx) y (mem_cons_of_mem _ hy)

theorem map_eq_of_forall₂ {γ : Type} {f : α → γ} {g : β → γ}
    (h : List.Forall₂ (fun x y => f x = g y) xs ys) : xs.map f = ys.map g :=
  forall₂_eq_eq_eq ▸ forall₂_map_left_iff.mpr (forall₂_map_right_iff.mpr h)

/-- A list that permutes an image is the image of a permuted list. -/
theorem exists_perm_map_eq {f : α → β} {m : List β} (h : m.Perm (l.map f)) :
    ∃ l' : List α, l'.Perm l ∧ l'.map f = m := by
  obtain ⟨l', hm, hp⟩ := (congrFun (congrFun (eq_map_comp_perm f) m) l).mpr h
  exact ⟨l', hp, hm.symm⟩

/-! ### Fibres -/

/-- Lists over distinct keys, each without repetition and each the list of one key, make a list
without repetition. -/
theorem nodup_flatten_of_keys {f : α → β} {ks : List β} {ls : List (List α)}
    (h : List.Forall₂ (fun k l => l.Nodup ∧ ∀ a ∈ l, f a = k) ks ls) (hk : ks.Nodup) :
    ls.flatten.Nodup := by
  induction h with
  | nil => exact nodup_nil
  | @cons k l ks ls hl rest ih =>
    obtain ⟨hnot, hk⟩ := nodup_cons.mp hk
    rw [flatten_cons]
    refine nodup_append'.mpr ⟨hl.1, ih hk, fun a ha ha' => hnot ?_⟩
    obtain ⟨l', hl', ha'⟩ := mem_flatten.mp ha'
    obtain ⟨k', hk', hr⟩ := exists_of_mem_right rest hl'
    rw [← hl.2 a ha, hr.2 a ha']
    exact hk'

/-- Lists over distinct keys: two that hold elements of one f are the same. -/
theorem eq_of_same_key {f : α → β} {ks : List β} {ls : List (List α)}
    (h : List.Forall₂ (fun k l => ∀ a ∈ l, f a = k) ks ls) (hk : ks.Nodup) {l' : List α}
    (hl : l ∈ ls) (hl' : l' ∈ ls) {a' : α} (ha : a ∈ l) (ha' : a' ∈ l') (he : f a = f a') : l = l' := by
  induction h with
  | nil => cases hl
  | @cons k m ks ls hm rest ih =>
    obtain ⟨hnot, hk⟩ := nodup_cons.mp hk
    have other : ∀ l'' ∈ ls, ∀ b ∈ l'', f b ∈ ks := fun l'' hl'' b hb => by
      obtain ⟨k', hk', hr⟩ := exists_of_mem_right rest hl''
      exact hr b hb ▸ hk'
    rcases mem_cons.mp hl with rfl | h1 <;> rcases mem_cons.mp hl' with rfl | h1'
    · rfl
    · exact absurd (he ▸ other l' h1' a' ha') (hm a ha ▸ hnot)
    · exact absurd (he ▸ other l h1 a ha) (hm a' ha' ▸ hnot)
    · exact ih hk h1 h1'

/-- A list cut into the fibres of a function over distinct keys that cover it. -/
theorem flatten_fibres_perm [DecidableEq β] (f : α → β) {l : List α} {keys : List β}
    (hn : keys.Nodup) (hk : ∀ a ∈ l, f a ∈ keys) :
    ((keys.map fun k => l.filter fun a => decide (f a = k)).flatten).Perm l := by
  induction keys generalizing l with
  | nil =>
    cases l with
    | nil => exact .refl _
    | cons a l => exact absurd (hk a mem_cons_self) (by simp)
  | cons k keys ih =>
    obtain ⟨hnot, hn⟩ := nodup_cons.mp hn
    have rest := ih (l := l.filter fun a => !decide (f a = k)) hn (by
      intro a ha
      obtain ⟨ha, hne⟩ := mem_filter.mp ha
      exact (mem_cons.mp (hk a ha)).resolve_left (by simpa using hne))
    have same : (keys.map fun k' => (l.filter fun a => !decide (f a = k)).filter
        fun a => decide (f a = k')) = keys.map fun k' => l.filter fun a => decide (f a = k') := by
      refine map_congr_left fun k' hk' => ?_
      rw [filter_filter]
      refine filter_congr fun a _ => ?_
      by_cases hf : f a = k' <;> simp [hf]
      rintro rfl
      exact hnot hk'
    rw [same] at rest
    rw [map_cons, flatten_cons]
    exact (List.Perm.append_left _ rest).trans (filter_append_perm _ l)

/-- The fibres over all values of a function, in the order they first appear or any other. -/
theorem flatten_fibres_dedup_perm [DecidableEq β] (f : α → β) (l : List α) {keys : List β}
    (hp : keys.Perm (l.map f).dedup) :
    ((keys.map fun k => l.filter fun a => decide (f a = k)).flatten).Perm l :=
  flatten_fibres_perm f (hp.nodup_iff.mpr (nodup_dedup _)) fun _ ha =>
    hp.mem_iff.mpr (mem_dedup.mpr (mem_map_of_mem ha))

/-! ### Taking out a smallest element -/

/-- `min(l, key=...)` with the list that remains: the first smallest element taken out. -/
def popMin (le : α → α → Bool) : List α → Option (α × List α)
  | [] => none
  | x :: xs =>
    match popMin le xs with
    | none => some (x, [])
    | some (m, rest) => if le x m then some (x, xs) else some (m, x :: rest)

theorem popMin_eq_none {le : α → α → Bool} : popMin le l = none ↔ l = [] := by
  cases l with
  | nil => simp [popMin]
  | cons x xs =>
    simp only [popMin, reduceCtorEq, iff_false]
    split
    · simp
    · split <;> simp

/-- What is taken out and what remains are the list. -/
theorem popMin_perm {le : α → α → Bool} {rest : List α} {m : α}
    (h : popMin le l = some (m, rest)) : (m :: rest).Perm l := by
  induction l generalizing m rest with
  | nil => cases h
  | cons x xs ih =>
    unfold popMin at h
    split at h
    · rename_i hn
      obtain ⟨rfl, rfl⟩ : x = m ∧ [] = rest := by simpa using h
      rw [popMin_eq_none.mp hn]
    · rename_i m' rest' hs
      split at h
      · obtain ⟨rfl, rfl⟩ : x = m ∧ xs = rest := by simpa using h
        exact .refl _
      · obtain ⟨rfl, rfl⟩ : m' = m ∧ x :: rest' = rest := by simpa using h
        exact (List.Perm.swap x m' rest').trans ((ih hs).cons x)

end TokenBill.General
