import TokenBill.General.Tables

/-!
# Computations that keep what they have computed

A computation with a state may raise, and leaves a state when it does. Where a table of the state holds what its
keys compute, a key that is looked up before it is computed has the result of computing it, and the table still
holds what its keys compute: so nothing that follows depends on what was computed before.
-/

namespace TokenBill.General

/-- Computations that may raise, on a state. -/
abbrev Kept (ε σ : Type) : Type → Type := ExceptT ε (StateM σ)

namespace Kept

variable {ε σ α β : Type} {inv : σ → Prop}

/-- What a computation returns or raises in a state, and the state it leaves. -/
def exec (x : Kept ε σ α) (s : σ) : Except ε α × σ := x s

def ofExcept (v : Except ε α) : Kept ε σ α := fun s => (v, s)

/-- From every state with an invariant a computation leaves one, and what it returns is as wanted. -/
def Ensures (inv : σ → Prop) (x : Kept ε σ α) (post : α → Prop) : Prop :=
  ∀ s, inv s → inv (x.exec s).2 ∧ ∀ a, (x.exec s).1 = .ok a → post a

theorem ensures_pure {post : α → Prop} {a : α} (h : post a) : Ensures inv (pure a : Kept ε σ α) post :=
  fun _ hs => ⟨hs, fun _ ha => Except.ok.inj ha ▸ h⟩

theorem ensures_ofExcept {post : α → Prop} {v : Except ε α} (h : ∀ a, v = .ok a → post a) :
    Ensures inv (ofExcept v : Kept ε σ α) post :=
  fun _ hs => ⟨hs, h⟩

theorem Ensures.bind {x : Kept ε σ α} {f : α → Kept ε σ β} {mid : α → Prop} {post : β → Prop}
    (hx : Ensures inv x mid) (hf : ∀ a, mid a → Ensures inv (f a) post) : Ensures inv (x >>= f) post := by
  intro s hs
  obtain ⟨hinv, hmid⟩ := hx s hs
  have hexec : (x >>= f).exec s = match (x.exec s).1 with
      | .ok a => (f a).exec (x.exec s).2
      | .error e => (.error e, (x.exec s).2) := by
    show ExceptT.bindCont f (x.exec s).1 (x.exec s).2 = _
    cases (x.exec s).1 with
    | ok a => rfl
    | error e => rfl
  rw [hexec]
  cases hr : (x.exec s).1 with
  | error e => exact ⟨hinv, fun _ h => by cases h⟩
  | ok a => exact hf a (hmid a hr) _ hinv

/-! ### Tables -/

variable {K V : Type} [DecidableEq K]

/-- Every entry of a table is what its key computes. -/
def Coherent (f : K → Except ε V) (table : List (K × V)) : Prop := ∀ k v, table.lookup k = some v → f k = .ok v

theorem coherent_nil (f : K → Except ε V) : Coherent f [] := fun _ _ h => by cases h

theorem Coherent.cons {f : K → Except ε V} {table : List (K × V)} (h : Coherent f table) {k : K} {v : V}
    (hv : f k = .ok v) : Coherent f ((k, v) :: table) := by
  intro k' v' hlookup
  rw [List.lookup_cons] at hlookup
  split at hlookup
  · rename_i heq
    rw [eq_of_beq heq, hv, Option.some.inj hlookup]
  · exact h k' v' hlookup

/-- The entry of a key in a table of the state, computed and kept when there is none. -/
def lookOr (get : σ → List (K × V)) (set : σ → List (K × V) → σ) (k : K) (compute : Except ε V) : Kept ε σ V :=
  fun s => match (get s).lookup k with
    | some v => (.ok v, s)
    | none => match compute with
      | .ok v => (.ok v, set s ((k, v) :: get s))
      | .error e => (.error e, s)

/-- A key that is looked up first has what it computes. -/
theorem ensures_lookOr (get : σ → List (K × V)) (set : σ → List (K × V) → σ) {k : K} {f : K → Except ε V}
    (hget : ∀ s, inv s → Coherent f (get s))
    (hset : ∀ s v, inv s → f k = .ok v → inv (set s ((k, v) :: get s))) :
    Ensures inv (lookOr get set k (f k)) fun v => f k = .ok v := by
  intro s hs
  unfold exec lookOr
  cases hlookup : (get s).lookup k with
  | some v => exact ⟨hs, fun a ha => Except.ok.inj ha ▸ hget s hs k v hlookup⟩
  | none =>
    cases hv : f k with
    | ok v => exact ⟨hset s v hs hv, fun a ha => Except.ok.inj ha ▸ rfl⟩
    | error e => exact ⟨hs, fun _ h => by cases h⟩

end Kept

end TokenBill.General

/-!
## Computations that raise without a trace

A computation with a state is atomic when it leaves the state that it was given whenever it raises. A computation
without a state is, and a step that cannot raise may follow an atomic one. Two atomic computations one after the other
need not be: what the first has done stays when the second raises.
-/

namespace TokenBill.General.Kept

variable {ε σ α β : Type}

/-! ### Runs -/

@[simp]
theorem exec_get_bind (f : σ → Kept ε σ α) (s : σ) :
    ((MonadState.get : Kept ε σ σ) >>= f).exec s = (f s).exec s := rfl

variable {f : α → Kept ε σ β} {x : Kept ε σ α}

theorem exec_bind_ok {s : σ} {a : α} (h : (x.exec s).1 = .ok a) : (x >>= f).exec s = (f a).exec (x.exec s).2 := by
  show ExceptT.bindCont f (x.exec s).1 (x.exec s).2 = _
  rw [h]
  rfl

theorem exec_bind_error {s : σ} {e : ε} (h : (x.exec s).1 = .error e) :
    (x >>= f).exec s = (.error e, (x.exec s).2) := by
  show ExceptT.bindCont f (x.exec s).1 (x.exec s).2 = _
  rw [h]
  rfl

/-! ### Atomic computations -/

/-- A computation that raises leaves the state that it was given. -/
def Atomic (x : Kept ε σ α) : Prop := ∀ s e, (x.exec s).1 = .error e → (x.exec s).2 = s

theorem atomic_ofExcept (v : Except ε α) : Atomic (ofExcept v : Kept ε σ α) := fun _ _ _ => rfl

theorem atomic_get_bind {f : σ → Kept ε σ α} (h : ∀ s, Atomic (f s)) :
    Atomic ((MonadState.get : Kept ε σ σ) >>= f) := fun s e he => h s s e he

/-- What has no state comes first. -/
theorem Atomic.ofExcept_bind {v : Except ε α} (h : ∀ a, Atomic (f a)) : Atomic (ofExcept v >>= f) := by
  intro s e he
  cases v with
  | ok a => exact h a s e he
  | error _ => rfl

/-- What cannot raise comes last. -/
theorem Atomic.bind_modify (hx : Atomic x) (f : α → σ → σ) : Atomic (x >>= fun a => modify (f a)) := by
  intro s e he
  cases hr : (x.exec s).1 with
  | ok a =>
    rw [exec_bind_ok hr] at he
    cases he
  | error e' =>
    rw [exec_bind_error hr]
    exact hx s e' hr

/-! ### What a computation never undoes -/

/-- The state that a computation leaves is related to the one that it was given. -/
def Advances (R : σ → σ → Prop) (x : Kept ε σ α) : Prop := ∀ s, R s (x.exec s).2

variable {R : σ → σ → Prop}

theorem advances_ofExcept (hrefl : ∀ s, R s s) (v : Except ε α) : Advances R (ofExcept v : Kept ε σ α) :=
  fun s => hrefl s

theorem advances_get_bind {f : σ → Kept ε σ α} (h : ∀ s, Advances R (f s)) :
    Advances R ((MonadState.get : Kept ε σ σ) >>= f) := fun s => h s s

theorem Advances.bind (htrans : ∀ s t u, R s t → R t u → R s u)
    (hx : Advances R x) (hf : ∀ a, Advances R (f a)) : Advances R (x >>= f) := by
  intro s
  cases hr : (x.exec s).1 with
  | ok a =>
    rw [exec_bind_ok hr]
    exact htrans _ _ _ (hx s) (hf a _)
  | error e =>
    rw [exec_bind_error hr]
    exact hx s

/-- A loop advances when each of its rounds does. -/
theorem advances_forM (hrefl : ∀ s, R s s) (htrans : ∀ s t u, R s t → R t u → R s u) {f : α → Kept ε σ PUnit}
    (hf : ∀ a, Advances R (f a)) (items : List α) : Advances R (items.forM f) := by
  induction items with
  | nil => exact fun s => hrefl s
  | cons a items ih =>
    exact (hf a).bind htrans fun _ => ih

end TokenBill.General.Kept
