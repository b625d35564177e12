import TokenBill.Core.Shapley

/-!
# The axioms of the rounded credits

Rounding by largest remainder moves a share by less than a unit and gives no unit to a share that is
whole (`largestRemainder_spec`), so the integer credits keep what the Shapley values have: efficiency,
nothing for a null player, the same up to one unit for symmetric players (`shapley_axioms`).
-/

namespace TokenBill

open General List

/-! ### The order of the remainders -/

def fraction (s : String × ℚ) : ℚ := s.2 - s.2.floor

theorem fraction_nonneg (s : String × ℚ) : 0 ≤ fraction s := sub_nonneg.mpr (Rat.floor_le s.2)

theorem fraction_lt_one (s : String × ℚ) : fraction s < 1 := by
  have hlt := @Rat.lt_floor s.2
  unfold fraction
  linarith

theorem sum_fraction (shares : List (String × ℚ)) : (shares.map fraction).sum =
    (shares.map (·.2)).sum - ((shares.map fun s => s.2.floor).sum : Int) := by
  induction shares with
  | nil => simp
  | cons s l ih =>
    simp only [map_cons, sum_cons, Int.cast_add, ih, fraction]
    ring

theorem remainderLe_iff {a b : String × ℚ} : remainderLe a b = true ↔
    fraction b < fraction a ∨ fraction a = fraction b ∧ a.1 ≤ b.1 := by
  simp [remainderLe, fraction]

instance : Std.Total fun a b : String × ℚ => remainderLe a b = true := ⟨fun a b => by
  rw [remainderLe_iff, remainderLe_iff]
  rcases lt_trichotomy (fraction a) (fraction b) with h | h | h
  · exact .inr (.inl h)
  · rcases le_total a.1 b.1 with hname | hname
    · exact .inl (.inr ⟨h, hname⟩)
    · exact .inr (.inr ⟨h.symm, hname⟩)
  · exact .inl (.inl h)⟩

instance : IsTrans (String × ℚ) fun a b => remainderLe a b = true := ⟨fun a b c hab hbc => by
  rw [remainderLe_iff] at *
  rcases hab with hab | ⟨hab, hname⟩
  · rcases hbc with hbc | ⟨hbc, -⟩
    · exact .inl (hbc.trans hab)
    · exact .inl (hbc ▸ hab)
  · rcases hbc with hbc | ⟨hbc, hname'⟩
    · exact .inl (hab ▸ hbc)
    · exact .inr ⟨hab.trans hbc, hname.trans hname'⟩⟩

/-! ### What a share is rounded to -/

variable {credits : Credits} {players : List String}

/-- A share is rounded down, or up if it is not whole. -/
theorem largestRemainder_spec {shares : List (String × ℚ)} {target : Int}
    (hsum : (shares.map (·.2)).sum = target) (h : largestRemainder shares target = .ok credits) :
    ∀ c ∈ credits, ∃ s ∈ shares, s.1 = c.1 ∧
      (c.2 = s.2.floor ∨ c.2 = s.2.floor + 1 ∧ (s.2.floor : ℚ) < s.2) := by
  unfold largestRemainder at h
  dsimp only at h
  split at h
  · cases h
  · rename_i hreach
    cases h
    set deficit := target - (shares.map fun s => s.2.floor).sum with hdeficit
    have hperm : (shares.insertionSort fun a b => remainderLe a b = true).Perm shares := perm_insertionSort _ _
    have hsorted := pairwise_insertionSort (fun a b => remainderLe a b = true) shares
    generalize (shares.insertionSort fun a b => remainderLe a b = true) = order at hperm hsorted
    rw [← take_append_drop deficit.toNat order, pairwise_append] at hsorted
    have hlen : (order.take deficit.toNat).length = deficit.toNat := by
      rw [length_take, hperm.length_eq]
      omega
    have hparts : ((order.take deficit.toNat).map fraction).sum + ((order.drop deficit.toNat).map fraction).sum =
        (order.take deficit.toNat).length := by
      have hpos : (deficit.toNat : Int) = deficit := by omega
      rw [← sum_append, ← map_append, take_append_drop, (hperm.map _).sum_eq, sum_fraction, hsum,
        hlen, ← Int.cast_sub, ← hdeficit]
      exact_mod_cast congrArg (Int.cast (R := ℚ)) hpos.symm
    have hpos := pos_of_first (fun s _ => fraction_nonneg s) (fun s _ => fraction_lt_one s)
      (fun a ha b hb => by
        rcases remainderLe_iff.mp (hsorted.2.2 a ha b hb) with hlt | ⟨heq, -⟩
        · exact hlt.le
        · exact heq.ge) hparts
    intro c hc
    obtain ⟨s, hs, rfl⟩ := mem_map.mp hc
    refine ⟨s, hs, rfl, ?_⟩
    split_ifs with hb
    · exact .inr ⟨rfl, sub_pos.mp (hpos s hb)⟩
    · exact .inl (add_zero _)

/-- A rounded share is off by less than a unit. -/
theorem rounded_near {n : Int} {x : ℚ} (h : n = x.floor ∨ n = x.floor + 1 ∧ (x.floor : ℚ) < x) :
    |(n : ℚ) - x| < 1 := by
  have hle := Rat.floor_le x
  have hlt := @Rat.lt_floor x
  rw [abs_lt]
  rcases h with rfl | ⟨rfl, hfrac⟩
  · constructor <;> linarith
  · push_cast
    constructor <;> linarith

/-! ### The order of the players -/

theorem checkPlayers_perm {others : List String} (h : players.Perm others) :
    checkPlayers players = checkPlayers others := by
  unfold checkPlayers
  have hsort : players.insertionSort (· ≤ ·) = others.insertionSort (· ≤ ·) :=
    (((perm_insertionSort _ players).trans h).trans (perm_insertionSort _ others).symm).eq_of_pairwise
      (fun a b _ _ => le_antisymm) (pairwise_insertionSort _ _) (pairwise_insertionSort _ _)
  rw [hsort]
  by_cases hn : players.Nodup
  · rw [if_pos hn, if_pos (h.nodup_iff.mp hn)]
  · rw [if_neg hn, if_neg fun hn' => hn (h.nodup_iff.mpr hn')]

theorem shapleyExact_refused {ε : Type} (value : Finset String → Except ε Int) (usage : Error → ε)
    (players : List String) (h : ¬ players.Nodup ∨ maxExactPlayers < players.length) :
    ∃ e, shapleyExact value usage players = .error e := by
  unfold shapleyExact checkPlayers
  by_cases hnodup : players.Nodup
  · rw [if_pos hnodup]
    dsimp only
    rw [if_pos (by rw [length_insertionSort]; exact h.resolve_left (not_not.mpr hnodup))]
    exact ⟨_, rfl⟩
  · rw [if_neg hnodup]
    exact ⟨_, rfl⟩

theorem accepted_of_ok {ε : Type} {value : Finset String → Except ε Int} {usage : Error → ε}
    (h : shapleyExact value usage players = .ok credits) : players.Nodup ∧ players.length ≤ maxExactPlayers := by
  by_contra hbad
  obtain ⟨e, he⟩ := shapleyExact_refused value usage players (by
    by_cases hn : players.Nodup
    · exact .inr (not_le.mp fun hle => hbad ⟨hn, hle⟩)
    · exact .inl hn)
  rw [h] at he
  cases he

/-! ### The axioms -/

/-- The credits of a game with the players `N` that is worth `v`. -/
structure Fair (N : Finset String) (v : Finset String → Int) (credits : Credits) : Prop where
  players : (credits.map (·.1)).toFinset = N ∧ (credits.map (·.1)).Nodup
  efficient : credits.total = v N - v ∅
  near : ∀ c ∈ credits, |(c.2 : ℚ) - shapley N (fun S => (v S : ℚ)) c.1| < 1
  null : ∀ c ∈ credits, (∀ S ⊆ N.erase c.1, v (insert c.1 S) = v S) → c.2 = 0
  symmetric : ∀ c ∈ credits, ∀ d ∈ credits,
    (∀ S ⊆ (N.erase c.1).erase d.1, v (insert c.1 S) = v (insert d.1 S)) → |c.2 - d.2| ≤ 1

theorem fair_of_rounded (hnodup : players.Nodup) {v : Finset String → Int}
    (h : largestRemainder ((players.insertionSort (· ≤ ·)).map fun player =>
      (player, shapley players.toFinset (fun S => (v S : ℚ)) player)) (v players.toFinset - v ∅) = .ok credits) :
    Fair players.toFinset v credits := by
  have hperm : (players.insertionSort (· ≤ ·)).Perm players := perm_insertionSort _ _
  have hspec := largestRemainder_spec (sum_shapley_shares hnodup v) h
  have hkeys : ∀ c ∈ credits, c.1 ∈ players.toFinset ∧
      (c.2 = (shapley players.toFinset (fun S => (v S : ℚ)) c.1).floor ∨
        c.2 = (shapley players.toFinset (fun S => (v S : ℚ)) c.1).floor + 1 ∧
          ((shapley players.toFinset (fun S => (v S : ℚ)) c.1).floor : ℚ) <
            shapley players.toFinset (fun S => (v S : ℚ)) c.1) := fun c hc => by
    obtain ⟨s, hs, hname, hround⟩ := hspec c hc
    obtain ⟨p, hp, rfl⟩ := mem_map.mp hs
    subst hname
    exact ⟨mem_toFinset.mpr (hperm.mem_iff.mp hp), hround⟩
  have hshares : ((players.insertionSort (· ≤ ·)).map fun player =>
      (player, shapley players.toFinset (fun S => (v S : ℚ)) player)).map (·.1) = players.insertionSort (· ≤ ·) := by
    rw [map_map]
    exact map_id _
  obtain ⟨htotal, hnames⟩ := largestRemainder_total
    (List.Nodup.of_map (·.1) (by rw [hshares]; exact hperm.nodup_iff.mpr hnodup)) h
  rw [hshares] at hnames
  constructor
  · exact ⟨hnames ▸ toFinset_eq_of_perm _ _ hperm, hnames ▸ hperm.nodup_iff.mpr hnodup⟩
  · exact htotal
  · exact fun c hc => rounded_near (hkeys c hc).2
  · intro c hc hnull
    have hzero := shapley_null players.toFinset (fun S => (v S : ℚ)) (i := c.1) fun S hS => by rw [hnull S hS]
    have hround := (hkeys c hc).2
    rw [hzero] at hround
    rcases hround with hround | ⟨-, hlt⟩
    · exact hround.trans (Rat.floor_intCast 0)
    · have hfloor : Rat.floor 0 = 0 := Rat.floor_intCast 0
      rw [hfloor] at hlt
      exact absurd hlt (by simp)
  · intro c hc d hd hsymm
    have heq := shapley_symm players.toFinset (fun S => (v S : ℚ)) (hkeys c hc).1 (hkeys d hd).1
      fun S hS => by rw [hsymm S hS]
    have hc' := (hkeys c hc).2
    have hd' := (hkeys d hd).2
    rw [heq] at hc'
    rw [abs_le]
    omega

/-- The exact version gives at most ten distinct players credits that keep the axioms, whatever the order
they are listed in; the Monte-Carlo version hands out the value of all over that of none, whatever orders it
draws; scaled credits add up to their target, and only no credits cannot be scaled to another total than 0. -/
theorem shapley_axioms :
    (∀ (ε : Type) (usage : Error → ε) (players : List String) (v : Finset String → Int),
      (players.Nodup ∧ players.length ≤ maxExactPlayers ↔
        ∃ credits, shapleyExact (fun S => .ok (v S)) usage players = .ok credits) ∧
      (∀ credits, shapleyExact (fun S => .ok (v S)) usage players = .ok credits →
        Fair players.toFinset v credits) ∧
      ∀ others, players.Perm others →
        shapleyExact (fun S => .ok (v S)) usage players = shapleyExact (fun S => .ok (v S)) usage others) ∧
    (∀ (ε : Type) (usage : Error → ε) (players : List String) (v : Finset String → Int) (orders : List (List String)),
      players.Nodup → orders ≠ [] → (∀ order ∈ orders, order.Perm players) →
        ∃ credits, shapleyMc (fun S => .ok (v S)) usage players orders = .ok credits ∧
          credits.total = v players.toFinset - v ∅) ∧
    ∀ (credits : Credits) (target : Int), (credits.map (·.1)).Nodup →
      (credits ≠ [] ∨ target = 0 ↔ ∃ scaled, scaleCredits credits target = .ok scaled) ∧
      ∀ scaled, scaleCredits credits target = .ok scaled → scaled.total = target := by
  refine ⟨fun ε usage players v => ⟨⟨fun ⟨hnodup, hlen⟩ => shapleyExact_ok _ (fun _ => rfl) hnodup hlen,
      fun ⟨credits, h⟩ => accepted_of_ok h⟩, fun credits h => ?_, fun others hperm => ?_⟩,
    fun ε usage players v orders hnodup hne horders => ?_, fun credits target hnodup => ⟨⟨?_, ?_⟩, ?_⟩⟩
  · obtain ⟨hnodup, hlen⟩ := accepted_of_ok h
    rw [shapleyExact_eq _ (v := v) (fun _ => rfl) hnodup hlen] at h
    cases hround : largestRemainder ((players.insertionSort (· ≤ ·)).map fun player =>
        (player, shapley players.toFinset (fun S => (v S : ℚ)) player)) (v players.toFinset - v ∅) with
    | error e =>
      rw [hround] at h
      cases h
    | ok rounded =>
      rw [hround] at h
      cases h
      exact fair_of_rounded hnodup hround
  · unfold shapleyExact
    rw [checkPlayers_perm hperm]
  · obtain ⟨credits, h⟩ : ∃ credits, shapleyMc (fun S => .ok (v S)) usage players orders = .ok credits :=
      shapleyMc_ok _ (v := v) (fun _ => rfl) hnodup hne horders
    refine ⟨credits, h, ?_⟩
    obtain ⟨hnames, -, htotal⟩ := shapleyMc_total _ h
    by_cases hnil : players = []
    · subst hnil
      rw [map_eq_nil_iff.mp hnames, toFinset_nil, sub_self]
      rfl
    · obtain ⟨all, empty, hall, hempty, htotal⟩ := htotal hnil
      cases hall
      cases hempty
      exact htotal
  · rintro (hne | rfl)
    · exact scaleCredits_ok target hne
    · by_cases hne : credits = []
      · subst hne
        exact ⟨[], rfl⟩
      · exact scaleCredits_ok 0 hne
  · rintro ⟨scaled, h⟩
    by_cases hne : credits = []
    · subst hne
      refine .inr (not_not.mp fun ht => ?_)
      have hrefused : scaleCredits [] target =
          .error (.usage "scale_credits: no credits to scale to a non-zero total") := by
        simp [scaleCredits, ht]
      rw [h] at hrefused
      cases hrefused
    · exact .inl hne
  · exact fun scaled h => (scaleCredits_total hnodup h).1

/-- Two players, one of whom adds nothing; three drawn orders; credits that cancel. -/
theorem shapley_axioms_two :
    (∃ credits, shapleyExact (fun S => .ok (if "a" ∈ S then 7 else 0)) (fun e : Error => e) ["b", "a"] = .ok credits ∧
      Fair ["b", "a"].toFinset (fun S => if "a" ∈ S then 7 else 0) credits) ∧
    (∃ credits, shapleyMc (fun S => .ok (if "a" ∈ S then 7 else 0)) (fun e : Error => e) ["b", "a"]
      [["a", "b"], ["b", "a"], ["a", "b"]] = .ok credits ∧ credits.total = 7) ∧
    ∃ scaled, scaleCredits [("a", 3), ("b", -3)] 7 = .ok scaled ∧ scaled.total = 7 := by
  obtain ⟨hexact, hmc, hscale⟩ := shapley_axioms
  refine ⟨?_, ?_, ?_⟩
  · obtain ⟨hiff, hfair, -⟩ := hexact Error (fun e => e) ["b", "a"] fun S => if "a" ∈ S then 7 else 0
    obtain ⟨credits, h⟩ := hiff.mp ⟨by decide, by decide⟩
    exact ⟨credits, h, hfair credits h⟩
  · exact hmc Error (fun e => e) ["b", "a"] (fun S => if "a" ∈ S then 7 else 0)
      [["a", "b"], ["b", "a"], ["a", "b"]] (by decide) (by decide) (by decide)
  · obtain ⟨hiff, htotal⟩ := hscale [("a", 3), ("b", -3)] 7 (by decide)
    obtain ⟨scaled, h⟩ := hiff.mp (.inl (by decide))
    exact ⟨scaled, h, htotal scaled h⟩

end TokenBill
