import Mathlib.Data.List.Basic
import Mathlib.Order.Lattice

/-!
# Keeping the largest version

Versions arrive in batches. Of a batch the largest version is taken, and it replaces the stored row
if it is above what the row reads back as. Reading a row back may give more than was stored
(`order_le`), so a stored row can hold out against versions above the one it was stored from. The
largest version is stored in the end, whatever the batches, if every other version is read back
below it or is stored as the same row (`run_largest`); a version that is not is stored for good
when it comes first (`run_first`).
-/

namespace TokenBill.General

open List

/-- Versions with their order, and the rows they are stored as with the order they are read back with. -/
structure Keeping (V ρ O : Type) [LinearOrder O] where
  order : V → O
  row : V → ρ
  kept : ρ → O

namespace Keeping

variable {V ρ O : Type} [LinearOrder O] (K : Keeping V ρ O)

/-- The larger of two versions, the first of equals. -/
def larger (cur : Option V) (v : V) : V :=
  match cur with
  | none => v
  | some b => if K.order b < K.order v then v else b

def best (batch : List V) : Option V := batch.foldl (fun cur v => some (K.larger cur v)) none

/-- The row after a version. -/
def put (stored : Option ρ) (v : V) : Option ρ :=
  match stored with
  | none => some (K.row v)
  | some r => if K.kept r < K.order v then some (K.row v) else some r

/-- The row after a batch. -/
def step (stored : Option ρ) (batch : List V) : Option ρ :=
  match K.best batch with
  | none => stored
  | some b => K.put stored b

def run (batches : List (List V)) : Option ρ := batches.foldl K.step none

/-! ### The best version of a batch -/

theorem best_foldl (batch : List V) (cur : V) :
    ∃ b, batch.foldl (fun cur v => some (K.larger cur v)) (some cur) = some b ∧ b ∈ cur :: batch ∧
      ∀ v ∈ cur :: batch, K.order v ≤ K.order b := by
  induction batch generalizing cur with
  | nil => exact ⟨cur, rfl, mem_cons_self, fun v hv => by rw [mem_singleton.mp hv]⟩
  | cons v batch ih =>
    rw [foldl_cons, larger]
    split
    · rename_i hlt
      obtain ⟨b, hb, hmem, hle⟩ := ih v
      refine ⟨b, hb, mem_cons_of_mem _ hmem, fun w hw => ?_⟩
      rcases mem_cons.mp hw with rfl | hw
      · exact hlt.le.trans (hle v mem_cons_self)
      · exact hle w hw
    · rename_i hlt
      obtain ⟨b, hb, hmem, hle⟩ := ih cur
      refine ⟨b, hb, ?_, fun w hw => ?_⟩
      · rcases mem_cons.mp hmem with rfl | hmem
        · exact mem_cons_self
        · exact mem_cons_of_mem _ (mem_cons_of_mem _ hmem)
      · rcases mem_cons.mp hw with rfl | hw
        · exact hle w mem_cons_self
        · rcases mem_cons.mp hw with rfl | hw
          · exact (not_lt.mp hlt).trans (hle cur mem_cons_self)
          · exact hle w (mem_cons_of_mem _ hw)

variable {batch : List V} {batches : List (List V)} {p : V}

theorem exists_best (h : batch ≠ []) :
    ∃ b, K.best batch = some b ∧ b ∈ batch ∧ ∀ v ∈ batch, K.order v ≤ K.order b := by
  obtain ⟨v, batch, rfl⟩ := exists_cons_of_ne_nil h
  exact K.best_foldl batch v

/-! ### Runs -/

/-- A row that no version of the batches is above stays. -/
theorem foldl_stays {r : ρ} (h : ∀ batch ∈ batches, ∀ v ∈ batch, K.order v ≤ K.kept r) :
    batches.foldl K.step (some r) = some r := by
  induction batches with
  | nil => rfl
  | cons batch batches ih =>
    have hstep : K.step (some r) batch = some r := by
      rcases eq_or_ne batch [] with rfl | hne
      · rfl
      · obtain ⟨b, hb, hmem, -⟩ := K.exists_best hne
        unfold step put
        rw [hb]
        exact if_neg (not_lt.mpr (h batch mem_cons_self b hmem))
    rw [foldl_cons, hstep]
    exact ih fun batch hbatch => h batch (mem_cons_of_mem _ hbatch)

/-- A version that comes first is stored for good if no other is above what its row is read back as. -/
theorem run_first {q : V} (h : ∀ batch ∈ batches, ∀ v ∈ batch, K.order v ≤ K.kept (K.row q)) :
    K.run ([q] :: batches) = some (K.row q) := K.foldl_stays h

/-- Every version is read back below `p`, or is stored as the row of `p`. -/
def Yields (vs : List V) (p : V) : Prop := ∀ q ∈ vs, K.kept (K.row q) < K.order p ∨ K.row q = K.row p

variable {K}

/-- The rows of a run are rows of its versions. -/
theorem step_of_row {vs : List V} {stored : Option ρ} (hb : ∀ v ∈ batch, v ∈ vs)
    (hs : ∀ r, stored = some r → ∃ v ∈ vs, K.row v = r) :
    ∀ r, K.step stored batch = some r → ∃ v ∈ vs, K.row v = r := by
  intro r hr
  rcases eq_or_ne batch [] with rfl | hne
  · exact hs r hr
  obtain ⟨b, hbest, hmem, -⟩ := K.exists_best hne
  unfold step put at hr
  rw [hbest] at hr
  cases hstored : stored with
  | none =>
    rw [hstored] at hr
    exact ⟨b, hb b hmem, Option.some.inj hr⟩
  | some r' =>
    rw [hstored] at hr
    dsimp only at hr
    split at hr
    · exact ⟨b, hb b hmem, Option.some.inj hr⟩
    · exact hs r (hstored.trans hr)

theorem run_of_row {vs : List V} (hb : ∀ batch ∈ batches, ∀ v ∈ batch, v ∈ vs) {r : ρ}
    (hr : K.run batches = some r) : ∃ v ∈ vs, K.row v = r := by
  have hall : ∀ {bs : List (List V)} {stored : Option ρ}, (∀ batch ∈ bs, ∀ v ∈ batch, v ∈ vs) →
      (∀ r, stored = some r → ∃ v ∈ vs, K.row v = r) →
      ∀ r, bs.foldl K.step stored = some r → ∃ v ∈ vs, K.row v = r := by
    intro bs
    induction bs with
    | nil => exact fun _ hs => hs
    | cons batch bs ih =>
      intro stored hbs hs
      exact ih (fun b hb => hbs b (mem_cons_of_mem _ hb)) (step_of_row (hbs batch mem_cons_self) hs)
  exact hall hb (fun r hr => absurd hr.symm (Option.some_ne_none r)) r hr

variable {vs : List V} (order_le : ∀ v ∈ vs, K.order v ≤ K.kept (K.row v))
include order_le

/-- The row of `p` stays where the other versions yield to it. -/
theorem step_row (hp : p ∈ vs) (hy : K.Yields vs p) (hb : ∀ v ∈ batch, v ∈ vs) :
    K.step (some (K.row p)) batch = some (K.row p) := by
  rcases eq_or_ne batch [] with rfl | hne
  · rfl
  obtain ⟨b, hbest, hmem, -⟩ := K.exists_best hne
  unfold step put
  rw [hbest]
  dsimp only
  split
  · rename_i hlt
    rcases hy b (hb b hmem) with h | h
    · exact absurd (hlt.trans_le (order_le b (hb b hmem))) (not_lt.mpr (h.le.trans (order_le p hp)))
    · rw [h]
  · rfl

/-- A batch with `p` stores its row where the other versions yield to it. -/
theorem step_mem {stored : Option ρ} (hy : K.Yields vs p) (hb : ∀ v ∈ batch, v ∈ vs)
    (hp : p ∈ batch) (hs : ∀ r, stored = some r → ∃ v ∈ vs, K.row v = r) : K.step stored batch = some (K.row p) := by
  obtain ⟨b, hbest, hmem, hle⟩ := K.exists_best (ne_nil_of_mem hp)
  have hrow : K.row b = K.row p := by
    rcases hy b (hb b hmem) with h | h
    · exact absurd (h.trans_le (hle p hp)) (not_lt.mpr (order_le b (hb b hmem)))
    · exact h
  unfold step put
  rw [hbest]
  cases hstored : stored with
  | none => exact congrArg some hrow
  | some r =>
    dsimp only
    split
    · exact congrArg some hrow
    · rename_i hlt
      obtain ⟨v, hv, rfl⟩ := hs r hstored
      rcases hy v hv with h | h
      · exact absurd (h.trans_le (hle p hp)) hlt
      · exact congrArg some h

theorem run_largest (hy : K.Yields vs p)
    (hbatches : ∀ batch ∈ batches, ∀ v ∈ batch, v ∈ vs) (hp : ∃ batch ∈ batches, p ∈ batch) :
    K.run batches = some (K.row p) := by
  have hmem : p ∈ vs := by
    obtain ⟨batch, hbatch, hpb⟩ := hp
    exact hbatches batch hbatch p hpb
  have hstays : ∀ {bs : List (List V)}, (∀ batch ∈ bs, ∀ v ∈ batch, v ∈ vs) →
      bs.foldl K.step (some (K.row p)) = some (K.row p) := by
    intro bs hbs
    induction bs with
    | nil => rfl
    | cons batch bs ih =>
      rw [foldl_cons, step_row order_le hmem hy (hbs batch mem_cons_self)]
      exact ih fun batch hbatch => hbs batch (mem_cons_of_mem _ hbatch)
  have hall : ∀ {bs : List (List V)} {stored : Option ρ}, (∀ batch ∈ bs, ∀ v ∈ batch, v ∈ vs) →
      (∃ batch ∈ bs, p ∈ batch) → (∀ r, stored = some r → ∃ v ∈ vs, K.row v = r) →
      bs.foldl K.step stored = some (K.row p) := by
    intro bs
    induction bs with
    | nil =>
      rintro stored - ⟨batch, hbatch, -⟩ -
      exact absurd hbatch not_mem_nil
    | cons batch bs ih =>
      intro stored hbs hp hs
      have hhead := hbs batch mem_cons_self
      have htail : ∀ b ∈ bs, ∀ v ∈ b, v ∈ vs := fun b hb => hbs b (mem_cons_of_mem _ hb)
      rw [foldl_cons]
      by_cases hpb : p ∈ batch
      · rw [step_mem order_le hy hhead hpb hs]
        exact hstays htail
      · obtain ⟨b, hb, hpb'⟩ := hp
        rcases mem_cons.mp hb with rfl | hb
        · exact absurd hpb' hpb
        · exact ih htail ⟨b, hb, hpb'⟩ (step_of_row hhead hs)
  exact hall hbatches hp fun r hr => absurd hr.symm (Option.some_ne_none r)

end Keeping

end TokenBill.General
