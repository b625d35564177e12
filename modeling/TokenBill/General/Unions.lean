import TokenBill.General.Tally

/-!
# Unions of tables that agree

Pairs from several tables are collected under their keys, and a key with two values is a conflict. The union
depends only on which pairs there are. A stable sort of a list does not see that a part of it was sorted before.
-/

namespace TokenBill.General

open List

variable {κ β ε : Type} [DecidableEq κ] [DecidableEq β]

def Functional (pairs : List (κ × β)) : Prop := ∀ p ∈ pairs, ∀ q ∈ pairs, p.1 = q.1 → p = q

/-- A pair joins a table. -/
def unionStep (fail : κ × β → ε) (table : List (κ × β)) (p : κ × β) : Except ε (List (κ × β)) :=
  match table.find? fun q => decide (q.1 = p.1) with
  | none => .ok (table ++ [p])
  | some q => if q.2 = p.2 then .ok table else .error (fail p)

def union (fail : κ × β → ε) (pairs : List (κ × β)) : Except ε (List (κ × β)) :=
  pairs.foldlM (unionStep fail) []

variable {fail : κ × β → ε} {pairs table : List (κ × β)}

theorem unionStep_spec {p : κ × β} {table' : List (κ × β)} (h : unionStep fail table p = .ok table')
    (hn : (table.map (·.1)).Nodup) :
    (table'.map (·.1)).Nodup ∧ (∀ q, q ∈ table' ↔ q ∈ table ∨ q = p) := by
  unfold unionStep at h
  split at h
  · rename_i hnone
    obtain rfl := Except.ok.inj h
    have hkey : p.1 ∉ table.map (·.1) := fun hmem => by
      obtain ⟨q, hq, hqp⟩ := mem_map.mp hmem
      simpa [hqp] using find?_eq_none.mp hnone q hq
    refine ⟨?_, fun q => by simp⟩
    rw [map_append, map_singleton]
    exact nodup_append.mpr ⟨hn, nodup_singleton _, fun a ha b hb hab => hkey (by
      rw [mem_singleton] at hb
      rwa [← hb, ← hab])⟩
  · rename_i q hsome
    split at h
    · rename_i hvalue
      obtain rfl := Except.ok.inj h
      have hq : q = p := Prod.ext (by simpa using find?_some hsome) hvalue
      refine ⟨hn, fun q' => ⟨Or.inl, fun h => h.elim id fun h => ?_⟩⟩
      rw [h, ← hq]
      exact mem_of_find?_eq_some hsome
    · cases h

/-- What a union holds: the pairs, each key once. -/
theorem union_spec (h : union fail pairs = .ok table) :
    Functional pairs ∧ (table.map (·.1)).Nodup ∧ ∀ p, p ∈ table ↔ p ∈ pairs := by
  have functional_of : ∀ {t : List (κ × β)}, (t.map (·.1)).Nodup → Functional t := fun hn p hp q hq hkey =>
    inj_on_of_nodup_map hn hp hq hkey
  have hrun : ∀ (pairs start : List (κ × β)), (start.map (·.1)).Nodup → ∀ {table},
      pairs.foldlM (unionStep fail) start = .ok table →
        (table.map (·.1)).Nodup ∧ ∀ p, p ∈ table ↔ p ∈ start ∨ p ∈ pairs := by
    intro pairs
    induction pairs with
    | nil =>
      intro start hn table h
      obtain rfl := Except.ok.inj h
      exact ⟨hn, by simp⟩
    | cons p pairs ih =>
      intro start hn table h
      rw [foldlM_cons] at h
      cases hstep : unionStep fail start p with
      | error e =>
        rw [hstep] at h
        cases h
      | ok start' =>
        rw [hstep] at h
        obtain ⟨hn', hmem'⟩ := unionStep_spec hstep hn
        obtain ⟨hn'', hmem''⟩ := ih start' hn' h
        refine ⟨hn'', fun q => ?_⟩
        rw [hmem'', hmem', mem_cons, or_assoc]
  obtain ⟨hn, hmem⟩ := hrun pairs [] nodup_nil h
  have hmem : ∀ p, p ∈ table ↔ p ∈ pairs := fun p => by simpa using hmem p
  refine ⟨fun p hp q hq hkey => ?_, hn, hmem⟩
  exact functional_of hn p ((hmem p).mpr hp) q ((hmem q).mpr hq) hkey

theorem union_exists (h : Functional pairs) : ∃ table, union fail pairs = .ok table := by
  have hrun : ∀ (pairs start : List (κ × β)), (start.map (·.1)).Nodup → Functional (start ++ pairs) →
      ∃ table, pairs.foldlM (unionStep fail) start = .ok table := by
    intro pairs
    induction pairs with
    | nil => exact fun start _ _ => ⟨start, rfl⟩
    | cons p pairs ih =>
      intro start hn hf
      have hstep : ∃ start', unionStep fail start p = .ok start' := by
        unfold unionStep
        split
        · exact ⟨_, rfl⟩
        · rename_i q hsome
          have hq : q ∈ start := mem_of_find?_eq_some hsome
          have hkey : q.1 = p.1 := by simpa using find?_some hsome
          rw [hf q (mem_append_left _ hq) p (mem_append_right _ mem_cons_self) hkey]
          exact ⟨start, if_pos rfl⟩
      obtain ⟨start', hstep⟩ := hstep
      obtain ⟨hn', hmem'⟩ := unionStep_spec hstep hn
      have hin : ∀ a ∈ start' ++ pairs, a ∈ start ++ p :: pairs := by
        intro a ha
        rw [mem_append, hmem'] at ha
        simp only [mem_append, mem_cons]
        tauto
      obtain ⟨table, htable⟩ := ih start' hn' fun a ha b hb => hf a (hin a ha) b (hin b hb)
      exact ⟨table, by rw [foldlM_cons, hstep]; exact htable⟩
  exact hrun pairs [] nodup_nil h

/-! ### Stable sorting -/

section

variable {α : Type} {r : α → α → Prop} [DecidableRel r] [Std.Total r] [IsTrans α r]

/-- Elements that differ in the order are inserted in either order. -/
theorem orderedInsert_comm {a b : α} (hab : ¬ r a b) (l : List α) :
    (l.orderedInsert r b).orderedInsert r a = (l.orderedInsert r a).orderedInsert r b := by
  have hba : r b a := (Std.Total.total a b).resolve_left hab
  induction l with
  | nil => simp [List.orderedInsert, hab, hba]
  | cons c l ih =>
    by_cases hac : r a c
    · have hbc : r b c := Trans.trans hba hac
      simp [List.orderedInsert, hac, hbc, hab, hba]
    · by_cases hbc : r b c
      · simp [List.orderedInsert, hac, hbc, hab]
      · simp [List.orderedInsert, hac, hbc, ih]

theorem foldr_orderedInsert (a : α) (l s : List α) :
    (l.orderedInsert r a).foldr (List.orderedInsert r) s = (l.foldr (List.orderedInsert r) s).orderedInsert r a := by
  induction l with
  | nil => rfl
  | cons b l ih =>
    by_cases hab : r a b
    · rw [orderedInsert_cons, if_pos hab]
      rfl
    · rw [orderedInsert_cons, if_neg hab, foldr_cons, ih, foldr_cons]
      exact (orderedInsert_comm hab _).symm

/-- A part that was sorted before is sorted with the rest as it was. -/
theorem insertionSort_append_sorted (xs ys : List α) :
    (xs.insertionSort r ++ ys).insertionSort r = (xs ++ ys).insertionSort r := by
  unfold List.insertionSort
  rw [foldr_append, foldr_append]
  generalize ys.foldr (List.orderedInsert r) [] = s
  induction xs with
  | nil => rfl
  | cons a xs ih =>
    rw [foldr_cons, foldr_orderedInsert, ih]
    rfl

end

/-! ### Sums of tables -/

theorem amountOf_of_nodup {M : Type} [AddCommMonoid M] {table : List (κ × M)} (hn : (table.map (·.1)).Nodup) (k : κ) :
    amountOf table k = table.lookup k := by
  induction table with
  | nil => rfl
  | cons e table ih =>
    obtain ⟨hnot, hn⟩ := nodup_cons.mp hn
    have ih := ih hn
    unfold amountOf at ih ⊢
    by_cases hk : e.1 = k
    · have hrest : table.filter (fun e => decide (e.1 = k)) = [] :=
        filter_eq_nil_iff.mpr fun q hq h =>
          hnot (mem_map.mpr ⟨q, hq, (of_decide_eq_true h).trans hk.symm⟩)
      rw [lookup_cons, hk, beq_self_eq_true, filter_cons_of_pos (by simpa using hk), hrest]
      simp [hk]
    · rw [lookup_cons, beq_false_of_ne fun h => hk h.symm, ← ih, filter_cons_of_neg (by simpa using hk)]
      rw [map_cons]
      simp only [mem_cons, Ne.symm hk, false_or]

end TokenBill.General
