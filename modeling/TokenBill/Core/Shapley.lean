import TokenBill.General.Lists
import TokenBill.General.Post
import TokenBill.General.Shapley
import TokenBill.Core.Records
import Mathlib.Algebra.BigOperators.Field

/-!
# Shapley credits

`core/shapley.py`: the credits of players for the values of their coalitions, exact up to
ten players and by random orders above, converted to integers by the largest-remainder
rule, so that they add up to the value of the grand coalition over the empty one.
`scale_credits` rescales credits to a total by the same rule.

A mapping is a list of pairs in the order of its keys. A value function may raise, and is
asked in the order of the source. The standard errors of `shapley_mc` are left out: no
credit depends on them.
-/

namespace TokenBill

open General List

/-- Integer credits of players. -/
abbrev Credits : Type := List (String × Int)

def Credits.total (credits : Credits) : Int := (credits.map (·.2)).sum

/-! ### The largest-remainder rule -/

/-- The order of the players that get a unit first: by fractional part, then by id. -/
def remainderLe (a b : String × ℚ) : Bool :=
  let ra := a.2 - a.2.floor
  let rb := b.2 - b.2.floor
  decide (rb < ra) || decide (ra = rb) && decide (a.1 ≤ b.1)

/-- `largest_remainder`, of shares in the order of their keys. -/
def largestRemainder (shares : List (String × ℚ)) (target : Int) : Except Error Credits :=
  let deficit := target - (shares.map fun s => s.2.floor).sum
  if deficit < 0 ∨ (shares.length : Int) < deficit then
    .error (.usage "largest_remainder: target is not reachable by rounding")
  else
    let order := shares.insertionSort fun a b => remainderLe a b
    let bumped := order.take deficit.toNat
    .ok (shares.map fun s => (s.1, s.2.floor + if s ∈ bumped then 1 else 0))

variable {credits : Credits} {target : Int}

theorem largestRemainder_total {shares : List (String × ℚ)}
    (hnodup : shares.Nodup) (h : largestRemainder shares target = .ok credits) :
    credits.total = target ∧ credits.map (·.1) = shares.map (·.1) := by
  unfold largestRemainder at h
  dsimp only at h
  split at h
  · cases h
  · rename_i hreach
    cases h
    set deficit := target - (shares.map fun s => s.2.floor).sum
    set order := shares.insertionSort fun a b => remainderLe a b = true
    have hperm : order.Perm shares := perm_insertionSort _ _
    have hbumped : (order.take deficit.toNat).Nodup :=
      (hperm.nodup_iff.mpr hnodup).sublist (take_sublist _ _)
    have hsub : ∀ s ∈ order.take deficit.toNat, s ∈ shares := fun s hs =>
      hperm.mem_iff.mp (mem_of_mem_take hs)
    have hlen : (order.take deficit.toNat).length = deficit.toNat := by
      rw [length_take, hperm.length_eq]
      omega
    constructor
    · unfold Credits.total
      rw [map_map]
      refine (sum_bumped hnodup hbumped hsub fun s => s.2.floor).trans ?_
      rw [hlen]
      omega
    · rw [map_map]
      rfl

/-- Shares that add up to the target are always rounded. -/
theorem largestRemainder_ok {shares : List (String × ℚ)}
    (h : (shares.map (·.2)).sum = target) : ∃ credits, largestRemainder shares target = .ok credits := by
  obtain ⟨hle, hge⟩ := sum_floor_bounds shares (·.2) h
  refine ⟨_, if_neg ?_⟩
  rw [not_or]
  omega

/-- Integer shares are not changed. -/
theorem largestRemainder_int {credits : Credits} :
    largestRemainder (credits.map fun s => (s.1, (s.2 : ℚ))) credits.total = .ok credits := by
  have hfloor : ∀ n : Int, ((n : ℚ)).floor = n := Rat.floor_intCast
  unfold largestRemainder
  simp only [map_map, Function.comp_def, hfloor]
  rw [if_neg]
  · simp [Credits.total]
  · simp [Credits.total]

/-! ### Exact credits -/

/-- `_check_players`: the players in order. -/
def checkPlayers (players : List String) : Except Error (List String) :=
  if players.Nodup then .ok (players.insertionSort (· ≤ ·))
  else .error (.usage "shapley: duplicate player ids")

/-- `MAX_EXACT_PLAYERS` of `shapley_exact`. -/
def maxExactPlayers : Nat := 10

section Values

variable {ε : Type} (value : Finset String → Except ε Int)

/-- The Shapley share of a player: over the coalitions of the others, in the order of their masks. -/
def exactShare (k : Nat) (others : List String) (player : String) : Except ε ℚ :=
  others.sublists.foldlM (fun total members => do
    let withP ← value (insert player members.toFinset)
    let without ← value members.toFinset
    pure (total + shapleyWeight k members.length * (withP - without))) 0

/-- `shapley_exact`. -/
def shapleyExact (usage : Error → ε) (players : List String) : Except ε Credits :=
  match checkPlayers players with
  | .error e => .error (usage e)
  | .ok ordered =>
    if maxExactPlayers < ordered.length then
      .error (usage (.usage "shapley_exact supports at most 10 players"))
    else if ordered = [] then .ok []
    else do
      let phi ← ordered.mapM fun player => do
        let share ← exactShare value ordered.length (ordered.erase player) player
        pure (player, share)
      let all ← value ordered.toFinset
      let empty ← value ∅
      (largestRemainder phi (all - empty)).mapError usage

theorem sum_sublists {l : List String} (hl : l.Nodup) (g : Finset String → ℚ) :
    (l.sublists.map fun members => g members.toFinset).sum = ∑ S ∈ l.toFinset.powerset, g S := by
  have hinj : ∀ a ∈ l.sublists, ∀ b ∈ l.sublists, a.toFinset = b.toFinset → a = b := fun a ha b hb h => by
    rw [mem_sublists] at ha hb
    exact (hl.perm_iff_eq_of_sublist ha hb).mp
      ((perm_ext_iff_of_nodup (hl.sublist ha) (hl.sublist hb)).mpr fun x => by
        rw [← mem_toFinset, h, mem_toFinset])
  have hset : (l.sublists.map List.toFinset).toFinset = l.toFinset.powerset := by
    ext S
    rw [mem_toFinset, mem_map, Finset.mem_powerset]
    constructor
    · rintro ⟨members, hm, rfl⟩
      exact fun x hx => by
        rw [mem_toFinset] at hx ⊢
        exact (mem_sublists.mp hm).subset hx
    · intro hS
      refine ⟨l.filter (· ∈ S), mem_sublists.mpr filter_sublist, ?_⟩
      ext x
      simpa using @hS x
  rw [← hset, sum_toFinset g (List.Nodup.map_on hinj (nodup_sublists.mpr hl)), map_map]
  rfl

variable {v : Finset String → Int} {players : List String}

theorem exactShare_ok (hv : ∀ S, value S = .ok (v S)) {others : List String}
    {player : String} (hnodup : (player :: others).Nodup) :
    exactShare value (others.length + 1) others player =
      .ok (shapley (player :: others).toFinset (fun S => (v S : ℚ)) player) := by
  obtain ⟨hnew, hothers⟩ := nodup_cons.mp hnodup
  have hfold : ∀ (l : List (List String)) (start : ℚ), l.foldlM (fun total members => do
      let withP ← value (insert player members.toFinset)
      let without ← value members.toFinset
      pure (total + shapleyWeight (others.length + 1) members.length * (withP - without))) start =
      .ok (start + (l.map fun members => shapleyWeight (others.length + 1) members.length *
        ((v (insert player members.toFinset) : ℚ) - v members.toFinset)).sum) := fun l => by
    induction l with
    | nil => exact fun start => congrArg Except.ok (add_zero start).symm
    | cons members l ih =>
      intro start
      rw [foldlM_cons, hv, hv]
      refine (ih _).trans (congrArg Except.ok ?_)
      rw [map_cons, sum_cons, add_assoc]
  have hcard : (player :: others).toFinset.card = others.length + 1 := by
    rw [toFinset_card_of_nodup hnodup, length_cons]
  have herase : (player :: others).toFinset.erase player = others.toFinset := by
    rw [toFinset_cons]
    exact Finset.erase_insert (by simpa using hnew)
  unfold exactShare shapley
  rw [hfold, zero_add, hcard, herase, ← sum_sublists hothers fun S =>
    shapleyWeight (others.length + 1) S.card * ((v (insert player S) : ℚ) - v S)]
  refine congrArg (fun l => Except.ok (List.sum l)) (map_congr_left fun members hm => ?_)
  rw [toFinset_card_of_nodup (hothers.sublist (mem_sublists.mp hm))]

variable {usage : Error → ε}

/-- Shares of the players in their order, rounded to the value of all of them over that of none. -/
theorem rounded_total {shares : List (String × ℚ)} {credits : Credits} {all empty : Int} (hnodup : players.Nodup)
    (hkeys : shares.map (·.1) = players.insertionSort (· ≤ ·))
    (h : (largestRemainder shares (all - empty)).mapError usage = .ok credits) :
    credits.map (·.1) = players.insertionSort (· ≤ ·) ∧ credits.total = all - empty := by
  have hshares : shares.Nodup := by
    refine List.Nodup.of_map (·.1) ?_
    rw [hkeys]
    exact (perm_insertionSort _ _).nodup_iff.mpr hnodup
  cases hround : largestRemainder shares (all - empty) with
  | error e =>
    rw [hround] at h
    cases h
  | ok rounded =>
    rw [hround] at h
    cases h
    obtain ⟨htotal, hmap⟩ := largestRemainder_total hshares hround
    exact ⟨hmap.trans hkeys, htotal⟩

theorem shapleyExact_total {credits : Credits} (h : shapleyExact value usage players = .ok credits) :
    credits.map (·.1) = players.insertionSort (· ≤ ·) ∧ players.Nodup ∧ (players ≠ [] →
      ∃ all empty, value players.toFinset = .ok all ∧ value ∅ = .ok empty ∧
        credits.total = all - empty) := by
  unfold shapleyExact checkPlayers at h
  by_cases hnodup : players.Nodup
  · rw [if_pos hnodup] at h
    have hset : (players.insertionSort (· ≤ ·)).toFinset = players.toFinset :=
      toFinset_eq_of_perm _ _ (perm_insertionSort _ _)
    dsimp only at h
    split at h
    · cases h
    · split at h
      · rename_i hnil
        cases h
        exact ⟨hnil.symm, hnodup, fun hne => absurd (hnil ▸ perm_insertionSort _ players).nil_eq.symm hne⟩
      · obtain ⟨phi, hphi, h⟩ := bind_eq_ok.mp h
        obtain ⟨all, hall, h⟩ := bind_eq_ok.mp h
        obtain ⟨empty, hempty, h⟩ := bind_eq_ok.mp h
        have hpairs : List.Forall₂ (fun player (s : String × ℚ) => player = s.1) (players.insertionSort (· ≤ ·)) phi :=
          (mapM_eq_ok.mp hphi).imp fun player s hone => by
            obtain ⟨share, -, hshare⟩ := bind_eq_ok.mp hone
            obtain rfl := pure_eq_ok.mp hshare
            rfl
        have hkeys : phi.map (·.1) = players.insertionSort (· ≤ ·) := by
          have heq : List.Forall₂ Eq (players.insertionSort (· ≤ ·)) (phi.map (·.1)) := forall₂_map_right_iff.mpr hpairs
          rw [forall₂_eq_eq_eq] at heq
          exact heq.symm
        obtain ⟨hmap, htotal⟩ := rounded_total hnodup hkeys h
        exact ⟨hmap, hnodup, fun _ => ⟨all, empty, hset ▸ hall, hempty, htotal⟩⟩
  · rw [if_neg hnodup] at h
    cases h

/-- Where every coalition has its value, the credits of at most ten distinct players are their Shapley
values, rounded. -/
theorem shapleyExact_eq (hv : ∀ S, value S = .ok (v S))
    (hnodup : players.Nodup) (hlen : players.length ≤ maxExactPlayers) :
    shapleyExact value usage players = (largestRemainder ((players.insertionSort (· ≤ ·)).map fun player =>
      (player, shapley players.toFinset (fun S => (v S : ℚ)) player)) (v players.toFinset - v ∅)).mapError usage := by
  unfold shapleyExact checkPlayers
  rw [if_pos hnodup]
  have hperm : (players.insertionSort (· ≤ ·)).Perm players := perm_insertionSort _ _
  rw [← toFinset_eq_of_perm _ _ hperm]
  generalize players.insertionSort (· ≤ ·) = ordered at hperm
  have hord : ordered.Nodup := hperm.nodup_iff.mpr hnodup
  dsimp only
  rw [if_neg (by rw [hperm.length_eq]; omega)]
  split
  · rename_i hnil
    subst hnil
    rw [toFinset_nil, sub_self]
    rfl
  · have hshares : (ordered.mapM fun player => do
        let share ← exactShare value ordered.length (ordered.erase player) player
        pure (player, share)) =
        .ok (ordered.map fun player => (player, shapley ordered.toFinset (fun S => (v S : ℚ)) player)) := by
      refine mapM_eq_ok.mpr ?_
      rw [forall₂_map_right_iff, forall₂_same]
      intro player hplayer
      have hsplit := perm_cons_erase hplayer
      have hshare := exactShare_ok value hv (hsplit.nodup_iff.mp hord)
      rw [← toFinset_eq_of_perm _ _ hsplit, ← length_cons, ← hsplit.length_eq] at hshare
      rw [hshare]
      rfl
    rw [hshares, hv, hv]
    rfl

/-- The shares add up to what the rounding has to reach. -/
theorem sum_shapley_shares (hnodup : players.Nodup) (v : Finset String → Int) :
    (((players.insertionSort (· ≤ ·)).map fun player =>
      (player, shapley players.toFinset (fun S => (v S : ℚ)) player)).map (·.2)).sum =
        ((v players.toFinset - v ∅ : Int) : ℚ) := by
  have hperm : (players.insertionSort (· ≤ ·)).Perm players := perm_insertionSort _ _
  rw [map_map, Int.cast_sub, ← sum_shapley players.toFinset fun S => (v S : ℚ)]
  exact ((hperm.map _).sum_eq).trans (sum_toFinset _ hnodup).symm

/-- Credits are given whenever every coalition has its value, for at most ten distinct players: the
shares add up to what the rounding has to reach. -/
theorem shapleyExact_ok {v : Finset String → Int} (hv : ∀ S, value S = .ok (v S)) {players : List String}
    (hnodup : players.Nodup) (hlen : players.length ≤ maxExactPlayers) :
    ∃ credits, shapleyExact value usage players = .ok credits := by
  obtain ⟨credits, hround⟩ := largestRemainder_ok (sum_shapley_shares hnodup v)
  refine ⟨credits, ?_⟩
  rw [shapleyExact_eq value hv hnodup hlen, hround]
  rfl

/-! ### Credits by random orders -/

/-- The marginal contributions of an order, added to the sums of the players. -/
def addMarginals (empty : Int) (sums : String → Int) (order : List String) : Except ε (String → Int) := do
  let state ← order.foldlM (fun (state : (String → Int) × Finset String × Int) player => do
    let after ← value (insert player state.2.1)
    pure (Function.update state.1 player (state.1 player + (after - state.2.2)),
      insert player state.2.1, after)) (sums, ∅, empty)
  pure state.1

/-- `shapley_mc`, for the orders the generator shuffles. -/
def shapleyMc (usage : Error → ε) (players : List String) (orders : List (List String)) :
    Except ε Credits :=
  match checkPlayers players with
  | .error e => .error (usage e)
  | .ok ordered =>
    if orders = [] then .error (usage (.usage "shapley_mc: permutations must be a positive int"))
    else if ordered = [] then .ok []
    else do
      let empty ← value ∅
      let sums ← orders.foldlM (addMarginals value empty) fun _ => 0
      let all ← value ordered.toFinset
      (largestRemainder (ordered.map fun p => (p, (sums p : ℚ) / orders.length)) (all - empty)).mapError
        usage

theorem shapleyMc_total {orders : List (List String)} {credits : Credits}
    (h : shapleyMc value usage players orders = .ok credits) :
    credits.map (·.1) = players.insertionSort (· ≤ ·) ∧ players.Nodup ∧ (players ≠ [] →
      ∃ all empty, value players.toFinset = .ok all ∧ value ∅ = .ok empty ∧
        credits.total = all - empty) := by
  unfold shapleyMc checkPlayers at h
  by_cases hnodup : players.Nodup
  · rw [if_pos hnodup] at h
    have hset : (players.insertionSort (· ≤ ·)).toFinset = players.toFinset :=
      toFinset_eq_of_perm _ _ (perm_insertionSort _ _)
    dsimp only at h
    split at h
    · cases h
    · split at h
      · rename_i hnil
        cases h
        exact ⟨hnil.symm, hnodup, fun hne => absurd (hnil ▸ perm_insertionSort _ players).nil_eq.symm hne⟩
      · obtain ⟨empty, hempty, h⟩ := bind_eq_ok.mp h
        obtain ⟨sums, -, h⟩ := bind_eq_ok.mp h
        obtain ⟨all, hall, h⟩ := bind_eq_ok.mp h
        obtain ⟨hmap, htotal⟩ := rounded_total hnodup (by rw [map_map]; exact map_id _) h
        exact ⟨hmap, hnodup, fun _ => ⟨all, empty, hset ▸ hall, hempty, htotal⟩⟩
  · rw [if_neg hnodup] at h
    cases h

/-- An order of all players hands out the value of all of them over that of none. -/
theorem addMarginals_ok (hv : ∀ S, value S = .ok (v S)) {N : Finset String}
    {order : List String} (hN : order.toFinset = N) (sums : String → Int) :
    ∃ sums', addMarginals value (v ∅) sums order = .ok sums' ∧
      ∑ p ∈ N, sums' p = ∑ p ∈ N, sums p + (v N - v ∅) := by
  have hrun : ∀ (order : List String) (sums : String → Int) (S : Finset String), order.toFinset ⊆ N →
      ∃ sums', order.foldlM (fun (state : (String → Int) × Finset String × Int) player => do
          let after ← value (insert player state.2.1)
          pure (Function.update state.1 player (state.1 player + (after - state.2.2)),
            insert player state.2.1, after)) (sums, S, v S) =
          .ok (sums', S ∪ order.toFinset, v (S ∪ order.toFinset)) ∧
        ∑ p ∈ N, sums' p = ∑ p ∈ N, sums p + (v (S ∪ order.toFinset) - v S) := fun order => by
    induction order with
    | nil =>
      intro sums S _
      rw [toFinset_nil, Finset.union_empty, sub_self]
      exact ⟨sums, rfl, (add_zero _).symm⟩
    | cons player order ih =>
      intro sums S hsub
      rw [toFinset_cons, Finset.insert_subset_iff] at hsub
      obtain ⟨sums', hsums, htotal⟩ := ih
        (Function.update sums player (sums player + (v (insert player S) - v S))) (insert player S) hsub.2
      have hset : S ∪ (player :: order).toFinset = insert player S ∪ order.toFinset := by
        rw [toFinset_cons, Finset.union_insert, Finset.insert_union]
      refine ⟨sums', ?_, ?_⟩
      · rw [foldlM_cons, hv, hset]
        exact hsums
      · rw [htotal, hset, Finset.sum_update_of_mem hsub.1,
          Finset.sum_eq_add_sum_sdiff_singleton_of_mem hsub.1 sums]
        ring
  obtain ⟨sums', hsums, htotal⟩ := hrun order sums ∅ hN.le
  rw [Finset.empty_union, hN] at hsums htotal
  refine ⟨sums', ?_, htotal⟩
  unfold addMarginals
  rw [hsums]
  rfl

/-- Credits by random orders of the players are given whenever every coalition has its value. -/
theorem shapleyMc_ok {v : Finset String → Int} (hv : ∀ S, value S = .ok (v S)) {players : List String}
    {orders : List (List String)} (hnodup : players.Nodup) (hne : orders ≠ [])
    (horders : ∀ order ∈ orders, order.Perm players) :
    ∃ credits, shapleyMc value usage players orders = .ok credits := by
  unfold shapleyMc checkPlayers
  rw [if_pos hnodup]
  have hperm : (players.insertionSort (· ≤ ·)).Perm players := perm_insertionSort _ _
  generalize players.insertionSort (· ≤ ·) = ordered at hperm
  have hord : ordered.Nodup := hperm.nodup_iff.mpr hnodup
  dsimp only
  rw [if_neg hne]
  split
  · exact ⟨[], rfl⟩
  · have hfold : ∀ (l : List (List String)) (sums : String → Int), (∀ order ∈ l, order.Perm players) →
        ∃ sums', l.foldlM (addMarginals value (v ∅)) sums = .ok sums' ∧
          ∑ p ∈ ordered.toFinset, sums' p =
            ∑ p ∈ ordered.toFinset, sums p + l.length * (v ordered.toFinset - v ∅) := fun l => by
      induction l with
      | nil => exact fun sums _ => ⟨sums, rfl, by simp⟩
      | cons order l ih =>
        intro sums hl
        have hset : order.toFinset = ordered.toFinset :=
          toFinset_eq_of_perm _ _ ((hl order mem_cons_self).trans hperm.symm)
        obtain ⟨sums₁, h₁, htotal₁⟩ := addMarginals_ok value hv hset sums
        obtain ⟨sums₂, h₂, htotal₂⟩ := ih sums₁ fun order horder => hl order (mem_cons_of_mem _ horder)
        refine ⟨sums₂, ?_, ?_⟩
        · rw [foldlM_cons, h₁]
          exact h₂
        · rw [htotal₂, htotal₁, length_cons]
          push_cast
          ring
    obtain ⟨sums, hsums, htotal⟩ := hfold orders (fun _ => 0) horders
    rw [hv, hv]
    have hlen : (orders.length : ℚ) ≠ 0 := by
      exact_mod_cast fun h => hne (length_eq_zero_iff.mp h)
    have hsum : ((ordered.map fun p => (p, (sums p : ℚ) / orders.length)).map (·.2)).sum =
        ((v ordered.toFinset - v ∅ : Int) : ℚ) := by
      rw [map_map]
      refine (sum_toFinset (fun p => (sums p : ℚ) / orders.length) hord).symm.trans ?_
      rw [← Finset.sum_div, div_eq_iff hlen, ← Int.cast_sum, htotal]
      push_cast
      simp [mul_comm]
    obtain ⟨credits, hround⟩ := largestRemainder_ok hsum
    refine ⟨credits, ?_⟩
    refine bind_eq_ok.mpr ⟨_, rfl, bind_eq_ok.mpr ⟨sums, hsums, bind_eq_ok.mpr ⟨_, rfl, ?_⟩⟩⟩
    rw [hround]
    rfl

/-! ### Errors -/

variable {E : ε → Prop}

theorem exactShare_post (hv : ∀ S, Post (fun _ => True) E (value S)) (k : Nat) (others : List String)
    (player : String) : Post (fun _ => True) E (exactShare value k others player) :=
  Post.foldlM (fun _ _ _ _ => (hv _).bind fun _ _ => (hv _).bind fun _ _ => Post.pure trivial) trivial

theorem largestRemainder_post (hu : ∀ e, E (usage e)) (shares : List (String × ℚ)) (target : Int) :
    Post (fun _ => True) E ((largestRemainder shares target).mapError usage) := by
  cases largestRemainder shares target with
  | ok credits => trivial
  | error e => exact hu e

/-- The errors of exact credits are those of the values, or of the check. -/
theorem shapleyExact_post (hv : ∀ S, Post (fun _ => True) E (value S)) (hu : ∀ e, E (usage e))
    (players : List String) : Post (fun _ => True) E (shapleyExact value usage players) := by
  unfold shapleyExact
  split
  · exact hu _
  · split
    · exact hu _
    · split
      · trivial
      · exact (Post.mapM (P := fun _ => True) fun player _ =>
          (exactShare_post value hv _ _ player).bind fun _ _ => Post.pure trivial).bind
          fun _ _ => (hv _).bind fun _ _ => (hv _).bind fun _ _ => largestRemainder_post hu _ _

/-- So are the errors of credits by random orders. -/
theorem shapleyMc_post (hv : ∀ S, Post (fun _ => True) E (value S)) (hu : ∀ e, E (usage e))
    (players : List String) (orders : List (List String)) :
    Post (fun _ => True) E (shapleyMc value usage players orders) := by
  have horder : ∀ empty sums order, Post (fun _ => True) E (addMarginals value empty sums order) :=
    fun empty sums order => (Post.foldlM (I := fun _ => True)
      (fun _ _ _ _ => (hv _).bind fun _ _ => Post.pure trivial) trivial).bind fun _ _ => Post.pure trivial
  unfold shapleyMc
  split
  · exact hu _
  · split
    · exact hu _
    · split
      · trivial
      · exact (hv _).bind fun _ _ => (Post.foldlM (fun _ _ _ _ => horder _ _ _) trivial).bind
          fun _ _ => (hv _).bind fun _ _ => largestRemainder_post hu _ _

end Values

/-! ### Scaled credits -/

/-- The shares of `scale_credits`. -/
def scaledShares (credits : Credits) (target : Int) : List (String × ℚ) :=
  if credits.total = 0 then credits.map fun s => (s.1, (target : ℚ) / credits.length)
  else credits.map fun s => (s.1, ((s.2 * target : Int) : ℚ) / credits.total)

/-- `scale_credits`. -/
def scaleCredits (credits : Credits) (target : Int) : Except Error Credits :=
  let ordered := credits.insertionSort fun a b => a.1 ≤ b.1
  if ordered = [] then
    if target ≠ 0 then .error (.usage "scale_credits: no credits to scale to a non-zero total")
    else .ok []
  else largestRemainder (scaledShares ordered target) target

theorem scaledShares_keys (credits : Credits) (target : Int) :
    (scaledShares credits target).map (·.1) = credits.map (·.1) := by
  unfold scaledShares
  split <;> rw [map_map] <;> rfl

theorem scaledShares_sum (hne : credits ≠ []) : ((scaledShares credits target).map (·.2)).sum = target := by
  have hlen : (credits.length : ℚ) ≠ 0 := by exact_mod_cast (length_pos_of_ne_nil hne).ne'
  unfold scaledShares
  split
  · rw [map_map]
    simp only [Function.comp_def, map_const', sum_replicate, nsmul_eq_mul]
    exact mul_div_cancel₀ _ hlen
  · rename_i htotal
    have hcast : ((credits.total : Int) : ℚ) ≠ 0 := by exact_mod_cast htotal
    rw [map_map]
    simp only [Function.comp_def]
    have hsum : ∀ (l : Credits) (d : ℚ), (l.map fun s => ((s.2 * target : Int) : ℚ) / d).sum =
        ((l.total : Int) : ℚ) * target / d := fun l d => by
      induction l with
      | nil => simp [Credits.total]
      | cons s l ih =>
        have htot : Credits.total (s :: l) = s.2 + Credits.total l := sum_cons
        rw [map_cons, sum_cons, ih, htot]
        push_cast
        ring
    rw [hsum]
    exact mul_div_cancel_left₀ _ hcast

theorem scaleCredits_total {scaled : Credits} (hnodup : (credits.map (·.1)).Nodup)
    (h : scaleCredits credits target = .ok scaled) :
    scaled.total = target ∧ (scaled.map (·.1)).Perm (credits.map (·.1)) := by
  have hperm : (credits.insertionSort fun a b => a.1 ≤ b.1).Perm credits := perm_insertionSort _ _
  unfold scaleCredits at h
  generalize credits.insertionSort (fun a b => a.1 ≤ b.1) = ordered at h hperm
  dsimp only at h
  split at h
  · rename_i hnil
    rw [hnil] at hperm
    split at h <;> cases h
    rename_i ht
    exact ⟨(not_not.mp ht).symm, hperm.map _⟩
  · have hkeys := scaledShares_keys ordered target
    have hshares : (scaledShares ordered target).Nodup := by
      refine List.Nodup.of_map (·.1) ?_
      rw [hkeys]
      exact ((hperm.map _).nodup_iff).mpr hnodup
    obtain ⟨htotal, hmap⟩ := largestRemainder_total hshares h
    exact ⟨htotal, (hmap.trans hkeys) ▸ hperm.map _⟩

theorem scaleCredits_ok (target : Int) (hne : credits ≠ []) : ∃ scaled, scaleCredits credits target = .ok scaled := by
  have hperm : (credits.insertionSort fun a b => a.1 ≤ b.1).Perm credits := perm_insertionSort _ _
  unfold scaleCredits
  generalize credits.insertionSort (fun a b => a.1 ≤ b.1) = ordered at hperm
  have hord : ordered ≠ [] := fun h => hne (by rw [h] at hperm; exact hperm.nil_eq.symm)
  rw [if_neg hord]
  exact largestRemainder_ok (scaledShares_sum hord)

/-- Credits that already add up to the target are not changed, unless they cancel. -/
theorem scaleCredits_self (h : credits.total ≠ 0) :
    scaleCredits credits credits.total = .ok (credits.insertionSort fun a b => a.1 ≤ b.1) := by
  have hperm : (credits.insertionSort fun a b => a.1 ≤ b.1).Perm credits := perm_insertionSort _ _
  unfold scaleCredits
  generalize credits.insertionSort (fun a b => a.1 ≤ b.1) = ordered at hperm
  have htotal : credits.total = Credits.total ordered := ((hperm.map _).sum_eq).symm
  have hord : ordered ≠ [] := fun hnil => by
    rw [htotal, hnil] at h
    exact h rfl
  rw [htotal] at h ⊢
  rw [if_neg hord, ← largestRemainder_int]
  congr 1
  unfold scaledShares
  rw [if_neg h]
  refine map_congr_left fun s _ => ?_
  have hcast : ((Credits.total ordered : Int) : ℚ) ≠ 0 := by exact_mod_cast h
  rw [Int.cast_mul, mul_div_cancel_right₀ _ hcast]

theorem scaleCredits_cancel {scaled : Credits} (h : credits.total = 0)
    (hs : scaleCredits credits 0 = .ok scaled) : ∀ s ∈ scaled, s.2 = 0 := by
  have hperm : (credits.insertionSort fun a b => a.1 ≤ b.1).Perm credits := perm_insertionSort _ _
  unfold scaleCredits at hs
  generalize credits.insertionSort (fun a b => a.1 ≤ b.1) = ordered at hs hperm
  have htotal : Credits.total ordered = 0 := ((hperm.map _).sum_eq).trans h
  dsimp only at hs
  split at hs
  · cases hs
    exact fun s hs => nomatch hs
  · have hzero : scaledShares ordered 0 = (ordered.map fun s => (s.1, (0 : Int))).map
        fun s => (s.1, (s.2 : ℚ)) := by
      unfold scaledShares
      rw [if_pos htotal, map_map]
      refine map_congr_left fun s _ => ?_
      simp
    have hsum : Credits.total (ordered.map fun s => (s.1, (0 : Int))) = 0 := by
      simp [Credits.total, map_map, Function.comp_def]
    have hround := @largestRemainder_int (ordered.map fun s => (s.1, (0 : Int)))
    rw [hsum] at hround
    rw [hzero, hround] at hs
    cases hs
    intro s hs
    obtain ⟨x, -, rfl⟩ := mem_map.mp hs
    rfl

end TokenBill
