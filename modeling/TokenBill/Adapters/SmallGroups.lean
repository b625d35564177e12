import TokenBill.Adapters.TeamRollup
import TokenBill.General.GroupSums
import Mathlib.Algebra.Order.BigOperators.Group.List

/-!
# Merging small groups conserves and protects

The groups of `k` users are summed up by label, in running cells. What `merge_small_groups` gives out has distinct
labels and at least `k` users in every row, and adds up to the rows, but for the small groups where they are too few
together: these are dropped.
-/

namespace TokenBill.Admin

open General List

variable {α M : Type} [AddCommMonoid M] {combine : α → α → Except Error α} {value : α → M} {k : ℕ} {label : String}
  {rows big : List (Row α)}

def Adds (combine : α → α → Except Error α) (value : α → M) : Prop :=
  ∀ a b c, combine a b = .ok c → value c = value a + value b

def usersOf (rows : List (Row α)) : ℕ := (rows.map (·.2.1)).sum

def valueOf (value : α → M) (rows : List (Row α)) : M := (rows.map fun r => value r.2.2).sum

def largeOf (k : ℕ) (label : String) (rows : List (Row α)) : List (Row α) := rows.filter (isBigRow k label)

def smallOf (k : ℕ) (label : String) (rows : List (Row α)) : List (Row α) := rows.filter fun r => !isBigRow k label r

theorem usersOf_split (k : ℕ) (label : String) (rows : List (Row α)) :
    usersOf (largeOf k label rows) + usersOf (smallOf k label rows) = usersOf rows := by
  unfold usersOf largeOf smallOf
  rw [← sum_append, ← map_append]
  exact ((filter_append_perm (isBigRow k label) rows).map _).sum_eq

theorem valueOf_split (value : α → M) (k : ℕ) (label : String) (rows : List (Row α)) :
    valueOf value (largeOf k label rows) + valueOf value (smallOf k label rows) = valueOf value rows := by
  unfold valueOf largeOf smallOf
  rw [← sum_append, ← map_append]
  exact ((filter_append_perm (isBigRow k label) rows).map _).sum_eq

/-! ### Groups of one label -/

/-- A group has the users and the payloads of some rows. -/
def RowSums (value : α → M) (l : List (Row α)) (s : ℕ × α) : Prop := s.1 = usersOf l ∧ value s.2 = valueOf value l

theorem RowSums.single (r : Row α) : RowSums value [r] r.2 := ⟨by simp [usersOf], by simp [valueOf]⟩

theorem RowSums.add {l : List (Row α)} {s : ℕ × α} {r : Row α} {p : α} (ha : Adds combine value) (h : RowSums value l s)
    (hp : combine s.2 r.2.2 = .ok p) : RowSums value (l ++ [r]) (s.1 + r.2.1, p) := by
  unfold RowSums usersOf valueOf at h ⊢
  rw [map_append, sum_append, map_append, sum_append, ← h.1, ← h.2, ha _ _ _ hp]
  simp

/-- A group is added to the one of its label. -/
theorem addBig_summarizes {big' : List (Row α)} {r : Row α} (ha : Adds combine value)
    (h : Summarizes Prod.fst (RowSums value) big rows) (hadd : addBig combine big r = .ok big') :
    Summarizes Prod.fst (RowSums value) big' (rows ++ [r]) := by
  unfold addBig at hadd
  split at hadd
  · rename_i hnone
    obtain rfl := Except.ok.inj hadd
    refine h.add (x := r) (s := r.2) ?_
    rw [h.fibre_of_none hnone]
    exact RowSums.single r
  · rename_i prev hprev
    cases hp : combine prev.2 r.2.2 with
    | error e =>
      rw [hp] at hadd
      cases hadd
    | ok p =>
      rw [hp] at hadd
      obtain rfl := Except.ok.inj hadd
      exact h.add ((h.sums_of_some hprev).add ha hp)

theorem foldlM_addBig {big' rs : List (Row α)} (ha : Adds combine value)
    (h : Summarizes Prod.fst (RowSums value) big rows) (hadd : rs.foldlM (addBig combine) big = .ok big') :
    Summarizes Prod.fst (RowSums value) big' (rows ++ rs) := by
  induction rs generalizing big rows with
  | nil =>
    obtain rfl := Except.ok.inj hadd
    rwa [append_nil]
  | cons r rs ih =>
    rw [foldlM_cons] at hadd
    obtain ⟨next, hnext, hadd⟩ := bind_eq_ok.mp hadd
    have hall := ih (addBig_summarizes ha h hnext) hadd
    rwa [append_assoc, singleton_append] at hall

/-- Where every two payloads can be combined all groups can be added. -/
theorem foldlM_addBig_ok (hc : ∀ a b, ∃ c, combine a b = .ok c) (rs : List (Row α)) (big : List (Row α)) :
    ∃ big', rs.foldlM (addBig combine) big = .ok big' := by
  refine (foldlM_ok (I := fun _ => True) (fun big _ r _ => ?_) trivial).imp fun _ h => h.1
  unfold addBig
  cases big.lookup r.1 with
  | none => exact ⟨_, rfl, trivial⟩
  | some prev =>
    obtain ⟨c, hc⟩ := hc prev.2 r.2.2
    exact ⟨upsert (·.1) (r.1, prev.1 + r.2.1, c) big, by dsimp only; rw [hc]; rfl, trivial⟩

theorem combineAll_value {ps : List α} {payload : Option α} (ha : Adds combine value)
    (h : combineAll combine ps = .ok payload) :
    payload.isSome = !ps.isEmpty ∧ ∀ p ∈ payload, value p = (ps.map value).sum := by
  cases ps with
  | nil =>
    obtain rfl := Except.ok.inj h
    exact ⟨rfl, nofun⟩
  | cons p ps =>
    have hfold : ∀ (ps : List α) (p q : α), ps.foldlM combine p = .ok q → value q = value p + (ps.map value).sum := by
      intro ps
      induction ps with
      | nil =>
        intro p q hq
        obtain rfl := Except.ok.inj hq
        simp
      | cons p' ps ih =>
        intro p q hq
        rw [foldlM_cons] at hq
        obtain ⟨c, hc, hq⟩ := bind_eq_ok.mp hq
        rw [ih c q hq, ha _ _ _ hc, map_cons, sum_cons, add_assoc]
    have h : some <$> ps.foldlM combine p = .ok payload := h
    cases hq : ps.foldlM combine p with
    | error e =>
      rw [hq] at h
      cases h
    | ok q =>
      rw [hq] at h
      obtain rfl := Except.ok.inj h
      refine ⟨rfl, fun q' hq' => ?_⟩
      obtain rfl := Option.some.inj (Option.mem_def.mp hq')
      rw [hfold ps p _ hq, map_cons, sum_cons]

theorem combineAll_ok (hc : ∀ a b, ∃ c, combine a b = .ok c) (ps : List α) :
    ∃ payload, combineAll combine ps = .ok payload := by
  cases ps with
  | nil => exact ⟨none, rfl⟩
  | cons p ps =>
    obtain ⟨q, hq, -⟩ := foldlM_ok (I := fun _ => True) (l := ps) (s := p)
      (fun a _ b _ => (hc a b).imp fun c h => ⟨h, trivial⟩) trivial
    have hall : combineAll combine (p :: ps) = some <$> ps.foldlM combine p := rfl
    exact ⟨some q, by rw [hall, hq]; rfl⟩

/-! ### The rows -/

/-- What `merge_small_groups` gives out for some rows. -/
structure MergedSmall (value : α → M) (k : ℕ) (label : String) (rows out : List (Row α)) (dropped : ℕ) : Prop where
  distinct : (out.map (·.1)).Nodup
  protects : ∀ r ∈ out, k ≤ r.2.1
  labels : ∀ l, l ∈ out.map (·.1) ↔
    (∃ r ∈ largeOf k label rows, r.1 = l) ∨ (k ≤ usersOf (smallOf k label rows) ∧ l = label)
  /-- Where the small groups have `k` users together nothing is lost. -/
  conserves : k ≤ usersOf (smallOf k label rows) →
    usersOf out = usersOf rows ∧ valueOf value out = valueOf value rows ∧ dropped = 0
  /-- Otherwise exactly these are dropped. -/
  drops : usersOf (smallOf k label rows) < k →
    usersOf out = usersOf (largeOf k label rows) ∧ valueOf value out = valueOf value (largeOf k label rows) ∧
      dropped = (smallOf k label rows).length

/-- The groups of `k` users by label, in order. -/
theorem sorted_big (h : Summarizes Prod.fst (RowSums value) big (largeOf k label rows)) :
    let out := big.insertionSort fun a b => a.1 ≤ b.1
    (out.map (·.1)).Nodup ∧ (∀ r ∈ out, k ≤ r.2.1) ∧ (∀ l, l ∈ out.map (·.1) ↔ ∃ r ∈ largeOf k label rows, r.1 = l) ∧
      label ∉ out.map (·.1) ∧ usersOf out = usersOf (largeOf k label rows) ∧
      valueOf value out = valueOf value (largeOf k label rows) := by
  intro out
  have hperm : out.Perm big := perm_insertionSort _ _
  have hlabels : ∀ l, l ∈ out.map (·.1) ↔ ∃ r ∈ largeOf k label rows, r.1 = l := fun l =>
    (hperm.map _).mem_iff.trans (h.keys l)
  have hlarge : ∀ r ∈ largeOf k label rows, k ≤ r.2.1 ∧ r.1 ≠ label := fun r hr => by
    simpa [isBigRow] using (mem_filter.mp hr).2
  refine ⟨(hperm.map _).nodup_iff.mpr h.nodup, fun r hr => ?_, hlabels, fun hl => ?_, ?_, ?_⟩
  · -- the label has a row, whose users count
    obtain ⟨x, hx, hxr⟩ := (hlabels r.1).mp (mem_map_of_mem hr)
    have hsum := (h.cells (k := r.1) (s := r.2) (hperm.mem_iff.mp hr)).1
    have hmem : x ∈ fibre Prod.fst (largeOf k label rows) r.1 := mem_filter.mpr ⟨hx, decide_eq_true hxr⟩
    rw [hsum]
    exact (hlarge x hx).1.trans (le_sum_of_mem (mem_map_of_mem hmem))
  · obtain ⟨r, hr, hrl⟩ := (hlabels label).mp hl
    exact (hlarge r hr).2 hrl
  · have hsum := h.sum (v := fun s : ℕ × α => s.1) (g := fun r => r.2.1) fun hs => hs.1
    exact ((hperm.map _).sum_eq).trans hsum
  · have hsum := h.sum (v := fun s : ℕ × α => value s.2) (g := fun r => value r.2.2) fun hs => hs.2
    exact ((hperm.map _).sum_eq).trans hsum

end TokenBill.Admin
