import TokenBill.General.Lists
import Mathlib.Data.List.GetD

/-!
# Components by shared keys

Union-find as the labels it finds: the label of an item is the root of its tree.
Uniting two items gives the items of the larger root the smaller one, so a root is
the first item of its component. `link` unites an item with the first item of each
of its keys.
-/

namespace TokenBill.General

open List

variable {κ : Type} [DecidableEq κ]

/-- `find(i)`. -/
def labelOf (labels : List Nat) (i : Nat) : Nat := labels.getD i i

/-- `union(a, b)`. -/
def unite (labels : List Nat) (a b : Nat) : List Nat :=
  let ra := labelOf labels a
  let rb := labelOf labels b
  labels.map fun r => if r = max ra rb then min ra rb else r

theorem length_unite (labels : List Nat) (a b : Nat) : (unite labels a b).length = labels.length :=
  length_map _

variable {labels : List Nat} {α : Type}

/-- The label of an item after two items are united. -/
theorem labelOf_unite {x : Nat} (a b : Nat) (hx : x < labels.length) :
    labelOf (unite labels a b) x =
      if labelOf labels x = max (labelOf labels a) (labelOf labels b) then
        min (labelOf labels a) (labelOf labels b)
      else labelOf labels x := by
  unfold unite labelOf
  rw [getD_eq_getElem _ _ (by rwa [length_map]), getElem_map,
    getD_eq_getElem labels x hx]

theorem unite_of_eq {a b x y : Nat} (hx : x < labels.length) (hy : y < labels.length)
    (h : labelOf labels x = labelOf labels y) : labelOf (unite labels a b) x = labelOf (unite labels a b) y := by
  rw [labelOf_unite a b hx, labelOf_unite a b hy, h]

theorem unite_self {a b : Nat} (ha : a < labels.length) (hb : b < labels.length) :
    labelOf (unite labels a b) a = labelOf (unite labels a b) b := by
  rw [labelOf_unite a b ha, labelOf_unite a b hb]
  rcases le_total (labelOf labels a) (labelOf labels b) with h | h
  · rw [max_eq_right h, min_eq_left h, if_pos rfl]
    split <;> rfl
  · rw [max_eq_left h, min_eq_right h, if_pos rfl]
    split <;> rfl

/-- Labels after the pairs of a list that are related are united. -/
def uniteRelated (related : Nat → Nat → Bool) (labels : List Nat) (pairs : List (Nat × Nat)) : List Nat :=
  pairs.foldl (fun labels p => if related p.1 p.2 then unite labels p.1 p.2 else labels) labels

/-- The labels of related pairs become equal, and equal labels stay equal. -/
theorem uniteRelated_spec {related : Nat → Nat → Bool} {pairs : List (Nat × Nat)} {labels : List Nat}
    (hpairs : ∀ p ∈ pairs, p.1 < labels.length ∧ p.2 < labels.length) :
    (uniteRelated related labels pairs).length = labels.length ∧
      (∀ x < labels.length, ∀ y < labels.length, labelOf labels x = labelOf labels y →
        labelOf (uniteRelated related labels pairs) x = labelOf (uniteRelated related labels pairs) y) ∧
      ∀ p ∈ pairs, related p.1 p.2 →
        labelOf (uniteRelated related labels pairs) p.1 =
          labelOf (uniteRelated related labels pairs) p.2 := by
  induction pairs generalizing labels with
  | nil => exact ⟨rfl, fun _ _ _ _ h => h, fun p hp => nomatch hp⟩
  | cons p ps ih =>
    obtain ⟨hp1, hp2⟩ := hpairs p mem_cons_self
    set next := if related p.1 p.2 then unite labels p.1 p.2 else labels with hnext
    have hlen : next.length = labels.length := by
      rw [hnext]
      split
      · exact length_unite _ _ _
      · rfl
    obtain ⟨ihlen, ihkeep, ihpairs⟩ := @ih next fun q hq => by
      rw [hlen]
      exact hpairs q (mem_cons_of_mem _ hq)
    have hstep : uniteRelated related labels (p :: ps) = uniteRelated related next ps := rfl
    rw [hstep]
    rw [hlen] at ihlen ihkeep
    refine ⟨ihlen, fun x hx y hy h => ihkeep x hx y hy ?_, fun q hq hrel => ?_⟩
    · rw [hnext]
      split
      · exact unite_of_eq hx hy h
      · exact h
    · rcases mem_cons.mp hq with rfl | hq
      · refine ihkeep _ hp1 _ hp2 ?_
        rw [hnext, if_pos hrel]
        exact unite_self hp1 hp2
      · exact ihpairs q hq hrel

def classesOf {α : Type} (labels : List Nat) (items : List α) : List (List α) :=
  (labels.dedup.insertionSort (· ≤ ·)).map fun root =>
    ((items.zip labels).filter fun item => decide (item.2 = root)).map (·.1)

theorem mem_classesOf {items g : List α} :
    g ∈ classesOf labels items ↔ ∃ root ∈ labels,
      g = ((items.zip labels).filter fun item => decide (item.2 = root)).map (·.1) := by
  unfold classesOf
  simp only [mem_map, mem_insertionSort, mem_dedup, eq_comm]

theorem classesOf_ne_nil {items g : List α}
    (h : labels.length = items.length) (hg : g ∈ classesOf labels items) : g ≠ [] := by
  obtain ⟨root, hroot, rfl⟩ := mem_classesOf.mp hg
  rw [← @map_snd_zip _ _ items labels h.le] at hroot
  obtain ⟨item, hitem, rfl⟩ := mem_map.mp hroot
  exact ne_nil_of_mem (mem_map_of_mem (mem_filter.mpr ⟨hitem, decide_eq_true rfl⟩))

theorem classesOf_flatten {items : List α}
    (h : labels.length = items.length) : (classesOf labels items).flatten.Perm items := by
  have hkeys : (labels.dedup.insertionSort (· ≤ ·)).Perm ((items.zip labels).map (·.2)).dedup := by
    rw [show (items.zip labels).map (·.2) = labels from map_snd_zip h.le]
    exact perm_insertionSort _ _
  have hperm := (flatten_fibres_dedup_perm (fun item : α × Nat => item.2) (items.zip labels) hkeys).map
    Prod.fst
  rw [show (items.zip labels).map Prod.fst = items from map_fst_zip h.ge, map_flatten,
    map_map] at hperm
  exact hperm

theorem classesOf_same {items g : List α} (hlen : labels.length = items.length)
    {x y : α} {j : Nat} (hg : g ∈ classesOf labels items) (hx : x ∈ g) (hy : items[j]? = some y)
    (h : ∀ i : Nat, items[i]? = some x → labelOf labels i = labelOf labels j) : y ∈ g := by
  obtain ⟨root, -, rfl⟩ := mem_classesOf.mp hg
  obtain ⟨⟨x', r⟩, hmem, rfl⟩ := mem_map.mp hx
  obtain ⟨hzip, hr⟩ := mem_filter.mp hmem
  obtain ⟨i, hi⟩ := mem_iff_getElem?.mp hzip
  obtain ⟨hxi, hri⟩ := getElem?_zip_eq_some.mp hi
  have hlabel := h i hxi
  unfold labelOf at hlabel
  have hj : j < labels.length := by
    rw [hlen]
    exact (List.getElem?_eq_some_iff.mp hy).1
  have hlj : labels[j]? = some root := by
    rw [getElem?_eq_getElem hj]
    rw [getD_eq_getElem?_getD, hri, getD_eq_getElem _ _ hj] at hlabel
    rw [← hlabel]
    exact congrArg some (of_decide_eq_true hr)
  refine mem_map.mpr ⟨(y, root), mem_filter.mpr ⟨?_, decide_eq_true rfl⟩, rfl⟩
  exact mem_iff_getElem?.mpr ⟨j, getElem?_zip_eq_some.mpr ⟨hy, hlj⟩⟩

/-- Unite item `i` with the first item of each of its keys. -/
def link (i : Nat) : List κ → List Nat × List (κ × Nat) → List Nat × List (κ × Nat)
  | [], state => state
  | key :: keys, (labels, first) =>
    match first.lookup key with
    | some j => link i keys (unite labels j i, first)
    | none => link i keys (labels, (key, i) :: first)

def keyLabels (keys : List (List κ)) : List Nat :=
  (keys.zipIdx.foldl (fun state item => link item.2 item.1 state)
    (List.range keys.length, ([] : List (κ × Nat)))).1

/-- The items of each component, in the order of the components' first items. -/
def components {α : Type} (keys : α → List κ) (items : List α) : List (List α) :=
  let labels := keyLabels (items.map keys)
  labels.dedup.insertionSort (· ≤ ·) |>.map fun root =>
    ((items.zip labels).filter fun item => decide (item.2 = root)).map (·.1)

end TokenBill.General
