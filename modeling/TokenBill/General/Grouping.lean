import TokenBill.General.Lists
import TokenBill.General.Tables

/-!
# Elements collected under keys

A dictionary filled in a loop, `table[key(x)] = step(table.get(key(x)), x)`, in the order the
keys first appear: under each key it holds the elements of the key, one step after another. Sums
over the elements split into sums over the keys.
-/

namespace TokenBill.General

open List

variable {α κ σ : Type} [DecidableEq κ]

def collectStep (key : α → κ) (step : Option σ → α → σ) (table : List (κ × σ)) (x : α) : List (κ × σ) :=
  upsert (·.1) (key x, step (table.lookup (key x)) x) table

def collect (key : α → κ) (step : Option σ → α → σ) (xs : List α) : List (κ × σ) :=
  xs.foldl (collectStep key step) []

theorem lookup_foldl_collectStep (key : α → κ) (step : Option σ → α → σ) (xs : List α)
    (table : List (κ × σ)) (k : κ) :
    (xs.foldl (collectStep key step) table).lookup k =
      (xs.filter fun x => decide (key x = k)).foldl (fun held x => some (step held x)) (table.lookup k) := by
  induction xs generalizing table with
  | nil => rfl
  | cons x xs ih =>
    rw [foldl_cons, ih, collectStep, lookup_upsert]
    by_cases hk : key x = k
    · rw [if_pos hk.symm, filter_cons, if_pos (by simpa using hk), foldl_cons, hk]
    · rw [if_neg (fun h => hk h.symm), filter_cons, if_neg (by simpa using hk)]

/-- What a key holds: the steps of its elements, from nothing. -/
theorem lookup_collect (key : α → κ) (step : Option σ → α → σ) (xs : List α) (k : κ) :
    (collect key step xs).lookup k =
      (xs.filter fun x => decide (key x = k)).foldl (fun held x => some (step held x)) none :=
  lookup_foldl_collectStep key step xs [] k

theorem nodup_collect (key : α → κ) (step : Option σ → α → σ) (xs : List α) :
    ((collect key step xs).map (·.1)).Nodup :=
  @List.foldlRecOn _ _ (fun table => (table.map (·.1)).Nodup) xs (collectStep key step) [] nodup_nil
    fun _ h _ _ => nodup_map_upsert h

theorem foldl_collectStep_of_nodup (key : α → κ) {xs : List α} (table : List (κ × α))
    (h : (table.map (·.1) ++ xs.map key).Nodup) :
    xs.foldl (collectStep key fun _ x => x) table = table ++ xs.map fun x => (key x, x) := by
  induction xs generalizing table with
  | nil => simp
  | cons x xs ih =>
    have hnot : key x ∉ table.map (·.1) := fun hmem =>
      disjoint_of_nodup_append h hmem mem_cons_self
    have hstep : collectStep key (fun _ x => x) table x = table ++ [(key x, x)] := upsert_append hnot
    rw [foldl_cons, hstep, ih]
    · simp
    · simpa using h

/-- Steps that leave a state leave one of some elements. -/
theorem foldl_some_eq {f : Option σ → α → σ} {xs : List α} {s : σ}
    (h : xs.foldl (fun held x => some (f held x)) none = some s) :
    ∃ x rest, xs = x :: rest ∧ rest.foldl (fun held x => f (some held) x) (f none x) = s := by
  have hrun : ∀ (xs : List α) (s : σ), xs.foldl (fun held x => some (f held x)) (some s) =
      some (xs.foldl (fun held x => f (some held) x) s) := by
    intro xs
    induction xs with
    | nil => exact fun _ => rfl
    | cons x xs ih => exact fun s => ih _
  cases xs with
  | nil => cases h
  | cons x rest =>
    rw [foldl_cons, hrun] at h
    exact ⟨x, rest, rfl, Option.some.inj h⟩

/-- An entry of the dictionary comes from the elements of its key, of which there is one. -/
theorem mem_collect {key : α → κ} {step : Option σ → α → σ} {xs : List α} {k : κ} {s : σ}
    (h : (k, s) ∈ collect key step xs) :
    ∃ x rest, xs.filter (fun x => decide (key x = k)) = x :: rest ∧
      rest.foldl (fun held x => step (some held) x) (step none x) = s :=
  foldl_some_eq ((lookup_collect key step xs k).symm.trans (lookup_of_mem (nodup_collect key step xs) h))

/-- The keys of the dictionary are those of the elements. -/
theorem mem_keys_collect {key : α → κ} {step : Option σ → α → σ} {xs : List α} {k : κ} :
    k ∈ (collect key step xs).map (·.1) ↔ ∃ x ∈ xs, key x = k := by
  constructor
  · intro h
    obtain ⟨⟨k, s⟩, hmem, rfl⟩ := mem_map.mp h
    obtain ⟨x, rest, hx, -⟩ := mem_collect hmem
    have hx : x ∈ xs.filter fun x => decide (key x = k) := hx ▸ mem_cons_self
    exact ⟨x, (mem_filter.mp hx).1, of_decide_eq_true (mem_filter.mp hx).2⟩
  · rintro ⟨x, hx, rfl⟩
    have hstart : ∀ (l : List α) (held : Option σ), l ≠ [] →
        ∃ s, l.foldl (fun held x => some (step held x)) held = some s := by
      intro l
      induction l with
      | nil => exact fun _ h => absurd rfl h
      | cons y l ih =>
        intro held _
        cases l with
        | nil => exact ⟨_, rfl⟩
        | cons z l => exact ih _ (cons_ne_nil _ _)
    have hmem : x ∈ xs.filter fun y => decide (key y = key x) := mem_filter.mpr ⟨hx, by simp⟩
    obtain ⟨s, hs⟩ := hstart _ none (ne_nil_of_mem hmem)
    rw [← lookup_collect] at hs
    exact mem_map.mpr ⟨(key x, s), mem_of_lookup hs, rfl⟩

/-- What a key reads after the values are filtered. -/
theorem lookup_filterMap {β γ : Type} (f : β → Option γ) {l : List (κ × β)} (hn : (l.map (·.1)).Nodup) (k : κ) :
    (l.filterMap fun e => (f e.2).map fun v => (e.1, v)).lookup k = (l.lookup k).bind f := by
  induction l with
  | nil => rfl
  | cons e l ih =>
    obtain ⟨hnot, hn⟩ := nodup_cons.mp hn
    have ih := ih hn
    rw [filterMap_cons, lookup_cons]
    by_cases hk : k = e.1
    · rw [hk, beq_self_eq_true, Option.bind_some]
      cases hf : f e.2 with
      | some v => simp
      | none =>
        have hrest : l.lookup e.1 = none := lookup_eq_none_iff.mpr fun p hp => by
          simpa using fun he => hnot (mem_map.mpr ⟨p, hp, he.symm⟩)
        rw [hk, hrest] at ih
        exact ih
    · rw [beq_false_of_ne hk]
      cases f e.2 with
      | none => exact ih
      | some v => exact (lookup_cons ..).trans (by rw [beq_false_of_ne hk]; exact ih)

/-! ### Groups -/

/-- The elements of each key, `groups[key(x)].append(x)`: the first one and the others. -/
def groupsOf (key : α → κ) (xs : List α) : List (κ × α × List α) :=
  collect key (fun held x => match held with
    | none => (x, [])
    | some g => (g.1, g.2 ++ [x])) xs

theorem mem_groupsOf {key : α → κ} {xs : List α} {k : κ} {g : α × List α} (h : (k, g) ∈ groupsOf key xs) :
    g.1 :: g.2 = xs.filter fun x => decide (key x = k) := by
  obtain ⟨x, rest, hx, hg⟩ := mem_collect h
  have hrun : ∀ (rest : List α) (s : α × List α),
      rest.foldl (fun (held : α × List α) x => (held.1, held.2 ++ [x])) s = (s.1, s.2 ++ rest) := by
    intro rest
    induction rest with
    | nil => exact fun s => by rw [foldl_nil, append_nil]
    | cons y rest ih => exact fun s => by rw [foldl_cons, ih, append_assoc]; rfl
  have hg : g = (x, rest) := hg.symm.trans (hrun rest (x, []))
  rw [hx, hg]

theorem keys_groupsOf_nodup (key : α → κ) (xs : List α) : ((groupsOf key xs).map (·.1)).Nodup :=
  nodup_collect key _ xs

theorem exists_group (key : α → κ) {xs : List α} {x : α} (h : x ∈ xs) :
    ∃ g, (key x, g) ∈ groupsOf key xs := by
  have hkey : key x ∈ (groupsOf key xs).map (·.1) := mem_keys_collect.mpr ⟨x, h, rfl⟩
  obtain ⟨⟨k, g⟩, hmem, hk⟩ := mem_map.mp hkey
  exact ⟨g, hk ▸ hmem⟩

theorem groupsOf_perm (key : α → κ) (xs : List α) :
    ((groupsOf key xs).flatMap fun g => g.2.1 :: g.2.2).Perm xs := by
  have hlists : (groupsOf key xs).map (fun g => g.2.1 :: g.2.2) =
      ((groupsOf key xs).map (·.1)).map fun k => xs.filter fun x => decide (key x = k) := by
    rw [map_map]
    exact map_congr_left fun ⟨k, g⟩ hg => mem_groupsOf (k := k) (g := g) hg
  rw [flatMap_def, hlists]
  refine flatten_fibres_perm key (keys_groupsOf_nodup key xs) fun x hx => ?_
  obtain ⟨g, hg⟩ : ∃ g, (key x, g) ∈ groupsOf key xs := exists_group key hx
  exact mem_map_of_mem hg

/-! ### Keys under keys -/

section Nested

variable {κ' : Type} [DecidableEq κ'] {key : α → κ} {sub : α → κ'} {step : Option σ → α → σ} {xs : List α}

/-- A dictionary of dictionaries, `table[key(x)][sub(x)] = step(…)`. -/
def collectTwice (key : α → κ) (sub : α → κ') (step : Option σ → α → σ) (xs : List α) : List (κ × List (κ' × σ)) :=
  collect key (fun held x => collectStep sub step (held.getD []) x) xs

/-- An inner dictionary is that of the elements of its key. -/
theorem mem_collectTwice {k : κ} {table : List (κ' × σ)} (h : (k, table) ∈ collectTwice key sub step xs) :
    table = collect sub step (xs.filter fun x => decide (key x = k)) := by
  obtain ⟨x, rest, hx, htable⟩ := mem_collect h
  rw [hx, ← htable]
  rfl

/-- An entry comes from the elements of its two keys. -/
theorem mem_mem_collectTwice {k : κ} {table : List (κ' × σ)} (h : (k, table) ∈ collectTwice key sub step xs)
    {e : κ' × σ} (he : e ∈ table) :
    ∃ x rest, xs.filter (fun x => decide (key x = k ∧ sub x = e.1)) = x :: rest ∧
      rest.foldl (fun held x => step (some held) x) (step none x) = e.2 := by
  rw [mem_collectTwice h] at he
  obtain ⟨x, rest, hx, hrest⟩ := mem_collect he
  refine ⟨x, rest, ?_, hrest⟩
  rw [← hx, filter_filter]
  refine filter_congr fun y _ => ?_
  rw [Bool.eq_iff_iff, Bool.and_eq_true, decide_eq_true_eq, decide_eq_true_eq, decide_eq_true_eq, and_comm]

end Nested

/-! ### Sums over keys -/

variable {M : Type} [AddCommMonoid M]

theorem sum_of_keys (key : α → κ) (f : α → M) (xs : List α) {keys : List κ} (hn : keys.Nodup) :
    ((xs.filter fun x => decide (key x ∈ keys)).map f).sum =
      (keys.map fun k => ((xs.filter fun x => decide (key x = k)).map f).sum).sum := by
  have hperm := flatten_fibres_perm key (l := xs.filter fun x => decide (key x ∈ keys)) hn
    fun x hx => of_decide_eq_true (mem_filter.mp hx).2
  rw [← (hperm.map f).sum_eq, map_flatten, sum_flatten, map_map, map_map]
  refine congrArg List.sum (map_congr_left fun k hk => ?_)
  simp only [Function.comp_apply, filter_filter]
  congr 2
  refine filter_congr fun x _ => ?_
  by_cases hx : key x = k
  · simp [hx, hk]
  · simp [hx]

theorem sum_of_parts (key : α → κ) (f : α → M) (xs : List α) {parts : List (List κ)}
    (h : parts.flatten.Perm (xs.map key).dedup) :
    (parts.map fun part => ((xs.filter fun x => decide (key x ∈ part)).map f).sum).sum =
      (xs.map f).sum := by
  have hn : parts.flatten.Nodup := h.nodup_iff.mpr (nodup_dedup _)
  have hparts : (parts.map fun part => ((xs.filter fun x => decide (key x ∈ part)).map f).sum) =
      parts.map fun part => (part.map fun k => ((xs.filter fun x => decide (key x = k)).map f).sum).sum :=
    map_congr_left fun part hpart => sum_of_keys key f xs (nodup_flatten.mp hn |>.1 part hpart)
  have hall : xs.filter (fun x => decide (key x ∈ parts.flatten)) = xs := by
    refine filter_eq_self.mpr fun x hx => ?_
    exact decide_eq_true (h.mem_iff.mpr (mem_dedup.mpr (mem_map_of_mem hx)))
  rw [hparts]
  conv_rhs => rw [← hall, sum_of_keys key f xs hn]
  rw [map_flatten, sum_flatten, map_map]
  rfl

/-- Groups of one key each, and what each is merged to: the sums of a key stay. -/
theorem sum_regroup {β : Type} {key : α → κ} {key' : β → κ} {f : α → M} {f' : β → M} {parts : List (List α)}
    {merged : List β}
    (h : List.Forall₂ (fun part m => (∀ x ∈ part, key x = key' m) ∧ f' m = (part.map f).sum) parts merged) (k : κ) :
    ((merged.filter fun x => decide (key' x = k)).map f').sum =
      ((parts.flatten.filter fun x => decide (key x = k)).map f).sum := by
  induction h with
  | nil => rfl
  | @cons part m parts merged hm _ ih =>
    rw [flatten_cons, filter_append, map_append, sum_append, ← ih, filter_cons]
    by_cases hk : key' m = k
    · have hall : part.filter (fun x => decide (key x = k)) = part :=
        filter_eq_self.mpr fun x hx => decide_eq_true ((hm.1 x hx).trans hk)
      rw [if_pos (decide_eq_true hk), map_cons, sum_cons, hall, hm.2]
    · have hnone : part.filter (fun x => decide (key x = k)) = [] :=
        filter_eq_nil_iff.mpr fun x hx hx' => hk ((hm.1 x hx).symm.trans (of_decide_eq_true hx'))
      rw [if_neg (by simpa using hk), hnone, map_nil, sum_nil, zero_add]

end TokenBill.General
