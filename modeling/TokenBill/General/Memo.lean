import TokenBill.General.Tables
import Mathlib.Algebra.BigOperators.Group.List.Basic
import Mathlib.Algebra.Order.Ring.Nat

/-!
# Bounded memos

A memo of a function keeps results under keys, the least recently used first, and drops the oldest while the keys
it holds cost more than its size. Its recorded cost is always that of its keys, and never more than its size. A
sequence of calls through a memo returns what the function returns, for every size, exactly when no two arguments
of the sequence that share a key have different results.
-/

namespace TokenBill.General

open List

/-- A memo: its size, the cost recorded of what it holds, the entries with the least recently used first, and how
often a key was there or not. -/
structure Memo (K V : Type) where
  (maxBytes bytes : Nat)
  items : List (K × V)
  (hits misses : Nat)

namespace Memo

variable {K V X : Type} [DecidableEq K] (cost : K → Nat)

/-! ### Operations -/

def empty (maxBytes : Nat) : Memo K V := ⟨maxBytes, 0, [], 0, 0⟩

def moveToEnd (items : List (K × V)) (k : K) (v : V) : List (K × V) :=
  items.filter (fun e => decide (e.1 ≠ k)) ++ [(k, v)]

/-- What a memo holds under a key, which becomes the most recently used. -/
def get (m : Memo K V) (k : K) : Option V × Memo K V :=
  match m.items.lookup k with
  | some v => (some v, { m with items := moveToEnd m.items k v, hits := m.hits + 1 })
  | none => (none, { m with misses := m.misses + 1 })

def evict (maxBytes : Nat) : Nat → List (K × V) → Nat × List (K × V)
  | bytes, [] => (bytes, [])
  | bytes, e :: items => if maxBytes < bytes then evict maxBytes (bytes - cost e.1) items else (bytes, e :: items)

/-- A result is kept under a key, unless it is too large or the key is there. -/
def put (m : Memo K V) (k : K) (v : V) : Memo K V :=
  if m.maxBytes < cost k then m
  else if k ∈ m.items.map (·.1) then m
  else
    { m with
      bytes := (evict cost m.maxBytes (m.bytes + cost k) (m.items ++ [(k, v)])).1
      items := (evict cost m.maxBytes (m.bytes + cost k) (m.items ++ [(k, v)])).2 }

/-- The memos that operations reach from an empty one. -/
inductive Reach (maxBytes : Nat) : Memo K V → Prop
  | empty : Reach maxBytes (Memo.empty maxBytes)
  | get {m : Memo K V} (h : Reach maxBytes m) (k : K) : Reach maxBytes (m.get k).2
  | put {m : Memo K V} (h : Reach maxBytes m) (k : K) (v : V) : Reach maxBytes (m.put cost k v)

/-! ### What a memo costs -/

def total (items : List (K × V)) : Nat := (items.map fun e => cost e.1).sum

/-- The recorded cost is that of the entries and not above the size. -/
structure Bounded (m : Memo K V) : Prop where
  nodup : (m.items.map (·.1)).Nodup
  bytes_eq : m.bytes = total cost m.items
  bytes_le : m.bytes ≤ m.maxBytes

omit [DecidableEq K] in
theorem total_append (items more : List (K × V)) : total cost (items ++ more) = total cost items + total cost more := by
  unfold total
  rw [map_append, sum_append]

variable {items : List (K × V)} {k : K} {v : V} {m : Memo K V} {x : X} {xs : List X}

/-- Moving an entry to the end keeps the entries. -/
theorem moveToEnd_perm (hnodup : (items.map (·.1)).Nodup)
    (h : items.lookup k = some v) : (moveToEnd items k v).Perm items := by
  induction items with
  | nil => cases h
  | cons e items ih =>
    obtain ⟨hout, hnodup⟩ := nodup_cons.mp hnodup
    rw [lookup_cons] at h
    unfold moveToEnd
    by_cases hk : k = e.1
    · rw [beq_iff_eq.mpr hk] at h
      have hrest : items.filter (fun e => decide (e.1 ≠ k)) = items := by
        refine filter_eq_self.mpr fun f hf => decide_eq_true fun hfk => hout ?_
        have hmem : f.1 ∈ items.map (·.1) := mem_map_of_mem hf
        rwa [hfk, hk] at hmem
      have he : e = (k, v) := Prod.ext hk.symm (Option.some.inj h)
      rw [filter_cons_of_neg (by simp [hk]), hrest, he]
      exact perm_append_singleton (k, v) items
    · rw [beq_false_of_ne hk] at h
      rw [filter_cons_of_pos (by simpa using Ne.symm hk), cons_append]
      exact (ih hnodup h).cons e

theorem Bounded.get (h : m.Bounded cost) (k : K) : (m.get k).2.Bounded cost := by
  unfold Memo.get
  cases hv : m.items.lookup k with
  | none => exact ⟨h.nodup, h.bytes_eq, h.bytes_le⟩
  | some v =>
    have hperm := moveToEnd_perm h.nodup hv
    exact ⟨(hperm.map _).nodup_iff.mpr h.nodup, h.bytes_eq.trans (hperm.map _).sum_eq.symm, h.bytes_le⟩

omit [DecidableEq K] in
/-- What is left after dropping costs what is recorded of it, and not more than the size. -/
theorem evict_spec (maxBytes : Nat) (items : List (K × V)) {bytes : Nat} (h : bytes = total cost items) :
    (evict cost maxBytes bytes items).1 = total cost (evict cost maxBytes bytes items).2 ∧
      (evict cost maxBytes bytes items).1 ≤ maxBytes ∧ (evict cost maxBytes bytes items).2 <:+ items := by
  induction items generalizing bytes with
  | nil =>
    subst h
    exact ⟨rfl, Nat.zero_le _, suffix_refl _⟩
  | cons e items ih =>
    unfold evict
    split
    · have hrest : bytes - cost e.1 = total cost items := by
        rw [h]
        unfold total
        rw [map_cons, sum_cons, Nat.add_sub_cancel_left]
      obtain ⟨heq, hle, hsuffix⟩ := ih hrest
      exact ⟨heq, hle, hsuffix.trans (suffix_cons e items)⟩
    · rename_i hle
      exact ⟨h, Nat.le_of_not_lt hle, suffix_refl _⟩

theorem Bounded.put (h : m.Bounded cost) (k : K) (v : V) : (m.put cost k v).Bounded cost := by
  unfold Memo.put
  split
  · exact h
  · split
    · exact h
    · rename_i hk
      have htotal : m.bytes + cost k = total cost (m.items ++ [(k, v)]) := by
        rw [total_append, h.bytes_eq]
        simp [total]
      obtain ⟨heq, hle, hsuffix⟩ := evict_spec cost m.maxBytes (m.items ++ [(k, v)]) htotal
      have hnodup : ((m.items ++ [(k, v)]).map (·.1)).Nodup := by
        rw [map_append, map_singleton]
        refine h.nodup.append (nodup_singleton k) fun x hx hxk => hk ?_
        have hxk' : x = k := mem_singleton.mp hxk
        rwa [← hxk']
      exact ⟨hnodup.sublist (hsuffix.sublist.map _), heq, hle⟩

theorem maxBytes_get (m : Memo K V) (k : K) : (m.get k).2.maxBytes = m.maxBytes := by
  unfold Memo.get
  split <;> rfl

theorem maxBytes_put (m : Memo K V) (k : K) (v : V) : (m.put cost k v).maxBytes = m.maxBytes := by
  unfold Memo.put
  split
  · rfl
  · split <;> rfl

/-- After every operation the recorded cost is that of the entries and not above the size. -/
theorem Reach.bounded {maxBytes : Nat} (h : Reach cost maxBytes m) : m.Bounded cost ∧ m.maxBytes = maxBytes := by
  induction h with
  | empty => exact ⟨⟨nodup_nil, rfl, Nat.zero_le _⟩, rfl⟩
  | get _ k ih => exact ⟨ih.1.get cost k, (maxBytes_get _ k).trans ih.2⟩
  | put _ k v ih => exact ⟨ih.1.put cost k v, (maxBytes_put cost _ k v).trans ih.2⟩

/-! ### Calls -/

variable (key : X → K) (f : X → V)

/-- A call of a function through a memo. -/
def call (m : Memo K V) (x : X) : V × Memo K V :=
  match m.get (key x) with
  | (some v, m) => (v, m)
  | (none, m) => (f x, m.put cost (key x) (f x))

def calls (m : Memo K V) : List X → List V × Memo K V
  | [] => ([], m)
  | x :: xs => ((call cost key f m x).1 :: (calls (call cost key f m x).2 xs).1, (calls (call cost key f m x).2 xs).2)

theorem calls_append (m : Memo K V) (xs ys : List X) : calls cost key f m (xs ++ ys) =
    ((calls cost key f m xs).1 ++ (calls cost key f (calls cost key f m xs).2 ys).1,
      (calls cost key f (calls cost key f m xs).2 ys).2) := by
  induction xs generalizing m with
  | nil => rfl
  | cons x xs ih => rw [cons_append, calls, ih, calls, cons_append]

theorem length_calls (m : Memo K V) (xs : List X) : (calls cost key f m xs).1.length = xs.length := by
  induction xs generalizing m with
  | nil => rfl
  | cons x xs ih => exact congrArg (· + 1) (ih _)

theorem call_of_lookup (h : m.items.lookup (key x) = some v) :
    call cost key f m x = (v, { m with items := moveToEnd m.items (key x) v, hits := m.hits + 1 }) := by
  unfold call Memo.get
  rw [h]

theorem call_of_lookup_none (h : m.items.lookup (key x) = none) :
    call cost key f m x = (f x, Memo.put cost { m with misses := m.misses + 1 } (key x) (f x)) := by
  unfold call Memo.get
  rw [h]

/-! ### Calls that return what the function returns -/

/-- Every entry is the result of an argument that was seen. -/
def Sound (seen : List X) (m : Memo K V) : Prop := ∀ e ∈ m.items, ∃ x ∈ seen, key x = e.1 ∧ f x = e.2

theorem mem_put {e : K × V} (h : e ∈ (m.put cost k v).items) : e ∈ m.items ∨ e = (k, v) := by
  unfold Memo.put at h
  split at h
  · exact .inl h
  · split at h
    · exact .inl h
    · have hsuffix : ∀ (maxBytes : Nat) (items : List (K × V)) (bytes : Nat),
          (evict cost maxBytes bytes items).2 <:+ items := by
        intro maxBytes items
        induction items with
        | nil => intro bytes; exact suffix_refl _
        | cons e items ih =>
          intro bytes
          unfold evict
          split
          · exact (ih _).trans (suffix_cons e items)
          · exact suffix_refl _
      rcases mem_append.mp ((hsuffix _ _ _).subset h) with h | h
      · exact .inl h
      · exact .inr (mem_singleton.mp h)

/-- A call whose argument agrees with the arguments seen under its key returns what the function returns. -/
theorem Sound.call {seen : List X} (h : Sound key f seen m) (hx : ∀ y ∈ seen, key y = key x → f y = f x) :
    (Memo.call cost key f m x).1 = f x ∧ Sound key f (x :: seen) (Memo.call cost key f m x).2 := by
  cases hv : m.items.lookup (key x) with
  | none =>
    rw [call_of_lookup_none cost key f hv]
    refine ⟨rfl, fun e he => ?_⟩
    rcases mem_put cost he with he | rfl
    · obtain ⟨y, hy, hye⟩ := h e he
      exact ⟨y, mem_cons_of_mem _ hy, hye⟩
    · exact ⟨x, mem_cons_self, rfl, rfl⟩
  | some v =>
    rw [call_of_lookup cost key f hv]
    have hmem := mem_of_lookup hv
    obtain ⟨y, hy, hkey, hval⟩ := h _ hmem
    refine ⟨hval.symm.trans (hx y hy hkey), fun e he => ?_⟩
    rcases mem_append.mp he with he | he
    · obtain ⟨z, hz, hze⟩ := h e (mem_of_mem_filter he)
      exact ⟨z, mem_cons_of_mem _ hz, hze⟩
    · rw [mem_singleton.mp he]
      exact ⟨y, mem_cons_of_mem _ hy, hkey, hval⟩

theorem Sound.calls {seen : List X} (h : Sound key f seen m)
    (hxs : ∀ x ∈ xs, ∀ y ∈ seen ++ xs, key y = key x → f y = f x) :
    (Memo.calls cost key f m xs).1 = xs.map f ∧ ∀ e ∈ (Memo.calls cost key f m xs).2.items,
      ∃ x ∈ seen ++ xs, key x = e.1 ∧ f x = e.2 := by
  induction xs generalizing seen m with
  | nil =>
    refine ⟨rfl, fun e he => ?_⟩
    obtain ⟨x, hx, hxe⟩ := h e he
    exact ⟨x, mem_append_left _ hx, hxe⟩
  | cons x xs ih =>
    have hswap : ∀ {y : X}, y ∈ x :: seen ++ xs → y ∈ seen ++ x :: xs := fun {y} hy => by
      simp only [cons_append, mem_cons, mem_append] at hy ⊢
      tauto
    obtain ⟨hfirst, hsound⟩ := h.call cost key f fun y hy hk => hxs x mem_cons_self y (mem_append_left _ hy) hk
    obtain ⟨hrest, hitems⟩ := ih hsound fun z hz y hy hk => hxs z (mem_cons_of_mem _ hz) y (hswap hy) hk
    refine ⟨?_, fun e he => ?_⟩
    · rw [Memo.calls, hfirst, hrest, map_cons]
    · obtain ⟨y, hy, hye⟩ := hitems e he
      exact ⟨y, hswap hy, hye⟩

/-! ### A memo that holds everything -/

omit [DecidableEq K] in
theorem evict_of_le {maxBytes bytes : Nat} (h : bytes ≤ maxBytes) :
    evict cost maxBytes bytes items = (bytes, items) := by
  cases items with
  | nil => rfl
  | cons e items => exact if_neg (Nat.not_lt.mpr h)

theorem lookup_moveToEnd (h : items.lookup k = some v) (l : K) : (moveToEnd items k v).lookup l = items.lookup l := by
  have hsplit : ∀ (items : List (K × V)), (moveToEnd items k v).lookup l =
      if l = k then some v else items.lookup l := by
    intro items
    unfold moveToEnd
    induction items with
    | nil =>
      rw [filter_nil, nil_append, lookup_cons]
      by_cases hl : l = k
      · rw [beq_iff_eq.mpr hl, if_pos hl]
      · rw [beq_false_of_ne hl, if_neg hl]
    | cons e items ih =>
      by_cases he : e.1 = k
      · rw [filter_cons_of_neg (by simpa using he), ih, lookup_cons]
        by_cases hl : l = k
        · rw [if_pos hl, if_pos hl]
        · rw [if_neg hl, if_neg hl, beq_false_of_ne fun hle => hl (hle.trans he)]
      · rw [filter_cons_of_pos (by simpa using he), cons_append, lookup_cons, lookup_cons, ih]
        by_cases hl : l = e.1
        · rw [beq_iff_eq.mpr hl]
          exact (if_neg fun hlk => he (hl.symm.trans hlk)).symm
        · rw [beq_false_of_ne hl]
  rw [hsplit]
  by_cases hl : l = k
  · rw [if_pos hl, hl, h]
  · rw [if_neg hl]

/-- A call for which there is room returns what is held under its key from then on, and drops nothing. -/
theorem lookup_call (hroom : m.bytes + cost (key x) ≤ m.maxBytes) :
    (call cost key f m x).2.items.lookup (key x) = some (call cost key f m x).1 ∧
      (∀ k v, m.items.lookup k = some v → (call cost key f m x).2.items.lookup k = some v) ∧
      (call cost key f m x).2.bytes ≤ m.bytes + cost (key x) ∧ (call cost key f m x).2.maxBytes = m.maxBytes := by
  cases hv : m.items.lookup (key x) with
  | some v =>
    rw [call_of_lookup cost key f hv]
    refine ⟨(lookup_moveToEnd hv _).trans hv, fun k w hk => (lookup_moveToEnd hv k).trans hk, Nat.le_add_right _ _, rfl⟩
  | none =>
    rw [call_of_lookup_none cost key f hv]
    have hnew : key x ∉ m.items.map (·.1) := fun hmem => by
      obtain ⟨e, he, hek⟩ := mem_map.mp hmem
      rw [lookup_eq_none_iff] at hv
      exact absurd hek.symm (by simpa using hv e he)
    have hput : Memo.put cost { m with misses := m.misses + 1 } (key x) (f x) =
        { m with bytes := m.bytes + cost (key x), items := m.items ++ [(key x, f x)], misses := m.misses + 1 } := by
      have hcost : ¬m.maxBytes < cost (key x) := Nat.not_lt.mpr (Nat.le_trans (Nat.le_add_left _ _) hroom)
      unfold Memo.put
      rw [if_neg hcost, if_neg hnew, evict_of_le cost hroom]
    rw [hput]
    refine ⟨?_, fun k v hk => ?_, Nat.le_refl _, rfl⟩
    · rw [lookup_append, hv, Option.none_or, lookup_cons, beq_self_eq_true]
    · rw [lookup_append, hk, Option.some_or]

def costs (xs : List X) : Nat := (xs.map fun x => cost (key x)).sum

/-- With room for all calls, what is held is returned. -/
theorem eq_of_lookup (hroom : m.bytes + costs cost key xs ≤ m.maxBytes)
    (hcalls : (calls cost key f m xs).1 = xs.map f) (hk : m.items.lookup k = some v) :
    ∀ x ∈ xs, key x = k → f x = v := by
  induction xs generalizing m with
  | nil => intro x hx; cases hx
  | cons x xs ih =>
    unfold costs at hroom
    rw [map_cons, sum_cons, ← Nat.add_assoc] at hroom
    rw [calls, map_cons] at hcalls
    obtain ⟨hfirst, hrest⟩ := List.cons.inj hcalls
    obtain ⟨hheld, hkeeps, hbytes, hmax⟩ := lookup_call cost key f (Nat.le_trans (Nat.le_add_right _ _) hroom)
    intro y hy hyk
    rcases mem_cons.mp hy with rfl | hy
    · have hsome := hkeeps k v hk
      rw [← hyk, hheld] at hsome
      rw [← hfirst]
      exact Option.some.inj hsome
    · have hroom' : (call cost key f m x).2.bytes + costs cost key xs ≤ (call cost key f m x).2.maxBytes :=
        Nat.le_trans (Nat.add_le_add_right hbytes _) (hmax ▸ hroom)
      exact ih hroom' hrest (hkeeps k v hk) y hy hyk

/-- With room for all calls, arguments that share a key have one result. -/
theorem agree_of_calls (hroom : m.bytes + costs cost key xs ≤ m.maxBytes)
    (hcalls : (calls cost key f m xs).1 = xs.map f) : ∀ x ∈ xs, ∀ y ∈ xs, key x = key y → f x = f y := by
  induction xs generalizing m with
  | nil => intro x hx; cases hx
  | cons x xs ih =>
    unfold costs at hroom
    rw [map_cons, sum_cons, ← Nat.add_assoc] at hroom
    rw [calls, map_cons] at hcalls
    obtain ⟨hfirst, hrest⟩ := List.cons.inj hcalls
    obtain ⟨hheld, -, hbytes, hmax⟩ := lookup_call cost key f (Nat.le_trans (Nat.le_add_right _ _) hroom)
    have hroom' : (call cost key f m x).2.bytes + costs cost key xs ≤ (call cost key f m x).2.maxBytes :=
      Nat.le_trans (Nat.add_le_add_right hbytes _) (hmax ▸ hroom)
    have hlater : ∀ y ∈ xs, key y = key x → f y = f x := fun y hy hyx => by
      rw [eq_of_lookup cost key f hroom' hrest hheld y hy hyx, hfirst]
    intro y hy z hz hyz
    rcases mem_cons.mp hy with hyx | hys
    · rcases mem_cons.mp hz with hzx | hzs
      · rw [hyx, hzx]
      · rw [hyx, hlater z hzs (by rw [← hyz, hyx])]
    · rcases mem_cons.mp hz with hzx | hzs
      · rw [hzx, hlater y hys (by rw [hyz, hzx])]
      · exact ih hroom' hrest y hys z hzs hyz

/-- Through memos of every size a sequence of calls returns what the function returns exactly when arguments that
share a key have one result. -/
theorem calls_eq_map_iff (xs : List X) :
    (∀ maxBytes, (calls cost key f (empty maxBytes) xs).1 = xs.map f) ↔
      ∀ x ∈ xs, ∀ y ∈ xs, key x = key y → f x = f y := by
  constructor
  · intro h
    refine agree_of_calls cost key f (m := empty (costs cost key xs)) ?_ (h _)
    exact Nat.le_of_eq (Nat.zero_add _)
  · intro h maxBytes
    have hsound : Sound key f [] (empty maxBytes : Memo K V) := fun e he => by cases he
    exact (hsound.calls cost key f fun x hx y hy hk => h y hy x hx hk).1

end Memo

end TokenBill.General
