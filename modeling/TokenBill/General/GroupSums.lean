import TokenBill.General.Grouping
import TokenBill.General.Tally

/-!
# Sums over groups

A dictionary of a loop whose values read as running sums holds the sums of the elements of each key,
so its values add up to the amounts of the elements, under any set of keys.
-/

namespace TokenBill.General

open List

variable {α κ σ M : Type} [DecidableEq κ]

theorem map_upsert_value (v : σ → M) (k : κ) (s : σ) (table : List (κ × σ)) :
    (upsert (·.1) (k, s) table).map (fun e => (e.1, v e.2)) =
      upsert (·.1) (k, v s) (table.map fun e => (e.1, v e.2)) := by
  induction table with
  | nil => rfl
  | cons e table ih =>
    rw [map_cons]
    by_cases h : e.1 = k
    · rw [upsert, upsert, if_pos h, if_pos h]
      rfl
    · rw [upsert, upsert, if_neg h, if_neg h, map_cons, ih]

theorem lookup_values (v : σ → M) (table : List (κ × σ)) (k : κ) :
    (table.map fun e => (e.1, v e.2)).lookup k = (table.lookup k).map v := by
  induction table with
  | nil => rfl
  | cons e table ih =>
    rw [map_cons, lookup_cons, lookup_cons, ih]
    cases k == e.1 <;> rfl

variable [AddCommMonoid M] {key : α → κ} {step : Option σ → α → σ} {v : σ → M} {g : α → M}

/-- A dictionary of running sums is the one of the amounts. -/
theorem values_collect (hstep : ∀ held x, v (step held x) = (held.map v).getD 0 + g x) (xs : List α) :
    (collect key step xs).map (fun e => (e.1, v e.2)) = tally (xs.map fun x => (key x, g x)) := by
  have hrun : ∀ (xs : List α) (table : List (κ × σ)),
      (xs.foldl (collectStep key step) table).map (fun e => (e.1, v e.2)) =
        (xs.map fun x => (key x, g x)).foldl addAt (table.map fun e => (e.1, v e.2)) := by
    intro xs
    induction xs with
    | nil => exact fun _ => rfl
    | cons x xs ih =>
      intro table
      rw [foldl_cons, map_cons, foldl_cons, ih, collectStep, map_upsert_value, hstep, addAt,
        lookup_values]
  exact hrun xs []

/-- The sums under some keys add up to the amounts under them. -/
theorem sum_collect (hstep : ∀ held x, v (step held x) = (held.map v).getD 0 + g x) (xs : List α) (p : κ → Bool) :
    (((collect key step xs).filter fun e => p e.1).map fun e => v e.2).sum =
      ((xs.filter fun x => p (key x)).map g).sum := by
  have h := sum_tally (xs.map fun x => (key x, g x)) p
  rw [← values_collect hstep, filter_map, filter_map, map_map, map_map] at h
  exact h

/-! ### Lists put together by key -/

/-- The elements of a key, in lists that are put together, are those of its list. -/
theorem filter_flatten_eq {f : α → κ} {R : κ → List α → Prop} {ks : List κ} {ls : List (List α)}
    (h : List.Forall₂ R ks ls) (hf : ∀ {k l}, R k l → ∀ a ∈ l, f a = k) (hn : ks.Nodup) (k : κ) :
    (k ∈ ks → R k (ls.flatten.filter fun a => decide (f a = k))) ∧
      (k ∉ ks → (ls.flatten.filter fun a => decide (f a = k)) = []) := by
  induction h with
  | nil => exact ⟨fun hk => absurd hk not_mem_nil, fun _ => rfl⟩
  | @cons k' l' ks ls hl _ ih =>
    obtain ⟨hnot, hn⟩ := nodup_cons.mp hn
    obtain ⟨ih1, ih2⟩ := ih hn
    rw [flatten_cons, filter_append]
    by_cases heq : k' = k
    · subst heq
      have hsame : (l'.filter fun a => decide (f a = k')) = l' :=
        filter_eq_self.mpr fun a ha => decide_eq_true (hf hl a ha)
      rw [hsame, ih2 hnot, append_nil]
      exact ⟨fun _ => hl, fun hk => absurd mem_cons_self hk⟩
    · have hother : (l'.filter fun a => decide (f a = k)) = [] :=
        filter_eq_nil_iff.mpr fun a ha => by simpa [hf hl a ha] using heq
      rw [hother, nil_append]
      exact ⟨fun hk => ih1 ((mem_cons.mp hk).resolve_left (Ne.symm heq)),
        fun hk => ih2 fun hmem => hk (mem_cons_of_mem _ hmem)⟩

theorem sum_at_key {g : κ × σ → M} {table : List (κ × σ)} (hn : (table.map (·.1)).Nodup) (k : κ) :
    ((table.filter fun e => decide (e.1 = k)).map g).sum = ((table.lookup k).map fun s => g (k, s)).getD 0 := by
  induction table with
  | nil => rfl
  | cons e table ih =>
    obtain ⟨hnot, hn⟩ := nodup_cons.mp hn
    rw [filter_cons, lookup_cons]
    by_cases h : e.1 = k
    · have hnone : (table.filter fun x => decide (x.1 = k)) = [] :=
        filter_eq_nil_iff.mpr fun x hx hk => hnot (mem_map.mpr ⟨x, hx, (of_decide_eq_true hk).trans h.symm⟩)
      rw [if_pos (decide_eq_true h), hnone, h.symm, beq_self_eq_true]
      simp
    · rw [if_neg (by simpa using h), ih hn, beq_false_of_ne (Ne.symm h)]

/-- Amounts added key by key, over distinct keys that cover the elements. -/
theorem sum_fibres {f : α → κ} (g : α → M) {xs : List α} {ks : List κ} (hn : ks.Nodup)
    (hk : ∀ x ∈ xs, f x ∈ ks) :
    (ks.map fun k => ((xs.filter fun x => decide (f x = k)).map g).sum).sum = (xs.map g).sum := by
  rw [← ((flatten_fibres_perm f hn hk).map g).sum_eq, map_flatten, sum_flatten, map_map, map_map]
  rfl

/-- What a table reads under distinct keys that cover it adds up to the table. -/
theorem sum_lookup {table : List (κ × σ)} (hn : (table.map (·.1)).Nodup) {ks : List κ} (hks : ks.Nodup)
    (hcover : ∀ e ∈ table, e.1 ∈ ks) (g : κ × σ → M) :
    (ks.map fun k => ((table.lookup k).map fun s => g (k, s)).getD 0).sum = (table.map g).sum := by
  rw [← sum_fibres g hks hcover]
  exact congrArg List.sum (map_congr_left fun k _ => (sum_at_key hn k).symm)

theorem mem_keys_tally {entries : List (κ × M)} {k : κ} :
    k ∈ (tally entries).map (·.1) ↔ k ∈ entries.map (·.1) := by
  constructor
  · intro h
    obtain ⟨⟨k, total⟩, hmem, rfl⟩ := mem_map.mp h
    have hamount := mem_tally.mp hmem
    unfold amountOf at hamount
    split at hamount
    · assumption
    · cases hamount
  · intro h
    exact mem_map.mpr ⟨(k, _), mem_tally.mpr (if_pos h), rfl⟩

theorem sum_by_tally {N : Type} [AddCommMonoid N] (entries : List (κ × M)) (p : κ → Bool) (g : κ × M → N) :
    ((entries.filter fun e => p e.1).map g).sum =
      (((tally entries).filter fun e => p e.1).map fun e =>
        ((entries.filter fun e' => decide (e'.1 = e.1)).map g).sum).sum := by
  have hn : (((tally entries).filter fun e => p e.1).map (·.1)).Nodup :=
    (nodup_tally entries).sublist (filter_sublist.map _)
  have hk : ∀ e ∈ entries.filter (fun e => p e.1), e.1 ∈ ((tally entries).filter fun e => p e.1).map (·.1) :=
    fun e he => by
      obtain ⟨he, hp⟩ := mem_filter.mp he
      obtain ⟨t, ht, hkey⟩ := mem_map.mp (mem_keys_tally.mpr (mem_map_of_mem he))
      exact mem_map.mpr ⟨t, mem_filter.mpr ⟨ht, (congrArg p hkey).trans hp⟩, hkey⟩
  rw [← sum_fibres g hn hk, map_map]
  refine congrArg List.sum (map_congr_left fun e he => ?_)
  dsimp only [Function.comp_apply]
  rw [filter_filter]
  refine congrArg (fun l => (List.map g l).sum) (filter_congr fun e' _ => ?_)
  by_cases h : e'.1 = e.1
  · rw [h, (mem_filter.mp he).2, Bool.and_true]
  · rw [decide_eq_false h, Bool.false_and]

end TokenBill.General

/-!
## Tables of running cells

A table is kept in a loop: each element goes to the cell of its key. When every cell sums up the elements of its key,
and a sum does not depend on the order of what is summed, the table depends on the elements only, but for the order
of its keys.
-/

namespace TokenBill.General

open List

variable {α κ σ : Type} [DecidableEq κ] {key : α → κ} {Sums : List α → σ → Prop} {table : List (κ × σ)} {xs ys : List α}

def fibre (key : α → κ) (xs : List α) (k : κ) : List α := xs.filter fun x => decide (key x = k)

/-- A table has a cell under the key of each element, which sums up the elements of the key. -/
structure Summarizes (key : α → κ) (Sums : List α → σ → Prop) (table : List (κ × σ)) (xs : List α) : Prop where
  nodup : (table.map (·.1)).Nodup
  keys : ∀ k, k ∈ table.map (·.1) ↔ ∃ x ∈ xs, key x = k
  cells : ∀ {k s}, (k, s) ∈ table → Sums (fibre key xs k) s

namespace Summarizes

theorem nil : Summarizes key Sums [] [] where
  nodup := nodup_nil
  keys k := by simp
  cells h := by cases h

theorem fibre_of_none (h : Summarizes key Sums table xs) {k : κ} (hk : table.lookup k = none) : fibre key xs k = [] := by
  refine filter_eq_nil_iff.mpr fun x hx hxk => ?_
  obtain ⟨e, he, hek⟩ := mem_map.mp ((h.keys k).mpr ⟨x, hx, of_decide_eq_true hxk⟩)
  simpa [hek] using lookup_eq_none_iff.mp hk e he

theorem sums_of_some (h : Summarizes key Sums table xs) {k : κ} {s : σ} (hk : table.lookup k = some s) :
    Sums (fibre key xs k) s := h.cells (mem_of_lookup hk)

/-- An element goes to the cell of its key. -/
theorem add (h : Summarizes key Sums table xs) {x : α} {s : σ} (hs : Sums (fibre key xs (key x) ++ [x]) s) :
    Summarizes key Sums (upsert (·.1) (key x, s) table) (xs ++ [x]) := by
  have hnodup : ((upsert (·.1) (key x, s) table).map (·.1)).Nodup := nodup_map_upsert h.nodup
  have hlookup : ∀ k, (upsert (·.1) (key x, s) table).lookup k = if k = key x then some s else table.lookup k :=
    fun k => lookup_upsert (key x) s k table
  have hmem : ∀ {table : List (κ × σ)} {k : κ}, k ∈ table.map (·.1) ↔ table.lookup k ≠ none := by
    intro table k
    rw [ne_eq, lookup_eq_none_iff]
    push Not
    simp only [mem_map, bne_iff_ne, ne_eq, not_not]
    exact exists_congr fun e => and_congr_right fun _ => eq_comm
  refine ⟨hnodup, fun k => ?_, fun {k s'} hks => ?_⟩
  · rw [hmem, hlookup]
    by_cases hk : k = key x
    · rw [if_pos hk]
      exact iff_of_true nofun ⟨x, by simp, hk.symm⟩
    · rw [if_neg hk, ← hmem, h.keys]
      constructor
      · rintro ⟨y, hy, hyk⟩
        exact ⟨y, mem_append_left _ hy, hyk⟩
      · rintro ⟨y, hy, hyk⟩
        rcases mem_append.mp hy with hy | hy
        · exact ⟨y, hy, hyk⟩
        · exact absurd (mem_singleton.mp hy ▸ hyk.symm) hk
  · have hks := lookup_of_mem hnodup hks
    rw [hlookup] at hks
    unfold fibre at hs ⊢
    by_cases hk : k = key x
    · rw [if_pos hk] at hks
      obtain rfl := Option.some.inj hks
      rw [hk, filter_append]
      simpa using hs
    · rw [if_neg hk] at hks
      have hother : ([x].filter fun y => decide (key y = k)) = [] := by
        rw [filter_cons_of_neg (by simpa using fun h => hk h.symm)]
        rfl
      rw [filter_append, hother, append_nil]
      exact h.sums_of_some hks

/-- The order of the elements does not matter where it does not matter to the sums. -/
theorem perm {table' : List (κ × σ)} (h : Summarizes key Sums table xs) (h' : Summarizes key Sums table' ys)
    (hp : xs.Perm ys) (hsame : ∀ {l l' s s'}, l.Perm l' → Sums l s → Sums l' s' → s = s') : table.Perm table' := by
  have hsub : ∀ {table table' : List (κ × σ)} {xs ys : List α}, Summarizes key Sums table xs →
      Summarizes key Sums table' ys → xs.Perm ys → ∀ e ∈ table, e ∈ table' := by
    intro table table' xs ys h h' hp e he
    obtain ⟨x, hx, hxk⟩ := (h.keys e.1).mp (mem_map_of_mem he)
    obtain ⟨e', he', hk⟩ := mem_map.mp ((h'.keys e.1).mpr ⟨x, hp.mem_iff.mp hx, hxk⟩)
    have hs : Sums (fibre key xs e.1) e.2 := h.cells he
    have hs' : Sums (fibre key ys e.1) e'.2 := hk ▸ h'.cells (k := e'.1) (s := e'.2) he'
    have hvalue : e.2 = e'.2 := hsame (hp.filter _) hs hs'
    rwa [Prod.ext hk.symm hvalue]
  exact (perm_ext_iff_of_nodup h.nodup.of_map h'.nodup.of_map).mpr fun e =>
    ⟨hsub h h' hp e, hsub h' h hp.symm e⟩

theorem sum {M : Type} [AddCommMonoid M] (h : Summarizes key Sums table xs) {v : σ → M} {g : α → M}
    (hv : ∀ {l s}, Sums l s → v s = (l.map g).sum) : (table.map fun e => v e.2).sum = (xs.map g).sum := by
  rw [← sum_fibres g h.nodup fun x hx => (h.keys _).mpr ⟨x, hx, rfl⟩, map_map]
  exact congrArg List.sum (map_congr_left fun e he => hv (h.cells (k := e.1) (s := e.2) he))

end Summarizes

end TokenBill.General
