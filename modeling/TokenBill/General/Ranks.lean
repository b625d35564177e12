import Mathlib.Data.List.Sort
import Mathlib.Algebra.Order.Ring.Int

/-!
# Items by rank

The item of a list at a position of the host, where a negative position counts from the end, and
the value of a rank: the item at a position of the sorted list.
-/

namespace TokenBill.General

/-- `xs[i]` of the host, nothing outside the list. -/
def index {α : Type} (xs : List α) (i : Int) : Option α :=
  if 0 ≤ i then xs[i.toNat]? else if 0 ≤ i + xs.length then xs[(i + xs.length).toNat]? else none

example : [0, 2, -1, -3, 3, -4].map (index [5, 6, 7]) = [some 5, some 7, some 7, some 5, none, none] := by decide

def ranked (values : List Int) (i : Int) : Option Int := index (values.insertionSort (· ≤ ·)) i

theorem ranked_eq {values : List Int} {i : Int} (h0 : 0 ≤ i) (hlt : i < values.length) :
    ∃ v, ranked values i = some v ∧ v ∈ values := by
  have hn : i.toNat < (values.insertionSort (· ≤ ·)).length := by
    rw [List.length_insertionSort]
    omega
  refine ⟨(values.insertionSort (· ≤ ·))[i.toNat], ?_, (List.mem_insertionSort _).mp (List.getElem_mem hn)⟩
  unfold ranked index
  rw [if_pos h0, List.getElem?_eq_getElem hn]

/-- A higher rank has no smaller value. -/
theorem ranked_mono {values : List Int} {i j : Int} {v w : Int} (h0 : 0 ≤ i) (hij : i ≤ j)
    (hv : ranked values i = some v) (hw : ranked values j = some w) : v ≤ w := by
  unfold ranked index at hv hw
  rw [if_pos h0] at hv
  rw [if_pos (h0.trans hij)] at hw
  obtain ⟨hi, rfl⟩ := List.getElem?_eq_some_iff.mp hv
  obtain ⟨hj, rfl⟩ := List.getElem?_eq_some_iff.mp hw
  have hsorted := List.pairwise_insertionSort (· ≤ ·) values
  rcases (Int.toNat_le_toNat hij).eq_or_lt with heq | hlt
  · exact le_of_eq (by congr 1)
  · exact List.pairwise_iff_getElem.mp hsorted _ _ hi hj hlt

end TokenBill.General
