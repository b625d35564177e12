import TokenBill.Core.Findings
import TokenBill.General.Apportion
import TokenBill.General.Grouping
import TokenBill.General.Tally
import Mathlib.Data.Prod.Lex

/-!
# Shards and samples of lanes

`core/shards.py`: the plan of shards of an index of lanes, the lanes of a shard, and the stratified sample. A team is
one shard, or one shard for each of its lane kinds where it has too many requests. The sample takes of every stratum,
of a lane kind, a billing class and a decile of spend, its quota by the largest remainders.
-/

namespace TokenBill.Shards

open General List

/-! ### Shards -/

/-- `LaneIndexRow`. -/
structure LaneIndexRow where
  laneKey : String
  team : Option String
  (laneKind billingClass : String)
  requests : Nat
  pointNano : Int

/-- `ShardKey`. -/
structure ShardKey where
  (team laneKind : Option String)

/-- `_team`. -/
def teamOf (team : Option String) : Option String := if team = some "" then none else team

/-- `_team_order`. -/
def teamOrder : Option String → Nat ×ₗ String
  | none => toLex (0, "")
  | some team => toLex (1, team)

/-- `totals`: the requests of each team. -/
def totals (index : List LaneIndexRow) : List (Option String × Nat) :=
  collect (fun row => teamOf row.team) (fun held row => held.getD 0 + row.requests) index

/-- `sorted(kinds[team])`. -/
def kindsOf (index : List LaneIndexRow) (team : Option String) : List String :=
  (((index.filter fun row => teamOf row.team = team).map (·.laneKind)).dedup).insertionSort (· ≤ ·)

def teamShards (maxRequests : Nat) (index : List LaneIndexRow) (team : Option String × Nat) : List ShardKey :=
  if maxRequests < team.2 then (kindsOf index team.1).map fun kind => ⟨team.1, some kind⟩
  else [⟨team.1, none⟩]

/-- `plan_shards`, with what its `UsageError` says. -/
def planShards (index : List LaneIndexRow) (maxRequests : Int) : Except String (List ShardKey) :=
  if maxRequests < 1 then .error "plan_shards: max_requests must be a positive int"
  else .ok (((totals index).insertionSort fun a b => teamOrder a.1 ≤ teamOrder b.1).flatMap
    (teamShards maxRequests.toNat index))

/-- `Lane.team`: of the first request. -/
def laneTeam (lane : Lane) : Option String := lane.requests.head?.bind (·.attribution.team)

/-- `shard_of_lanes`. -/
def shardOfLanes (lanes : List Lane) (key : ShardKey) : List Lane :=
  lanes.filter fun lane => decide (teamOf (laneTeam lane) = teamOf key.team) &&
    (key.laneKind = none || key.laneKind = some lane.kind.value)

/-! ### Samples -/

/-- A stratum: a lane kind, a billing class and a decile. -/
abbrev Stratum : Type := String × String × Nat

def Stratum.order (s : Stratum) : String ×ₗ String ×ₗ Nat := toLex (s.1, toLex (s.2.1, s.2.2))

def spendOrder (row : LaneIndexRow) : Int ×ₗ String := toLex (row.pointNano, row.laneKey)

/-- `_deciles`. -/
def deciles (rows : List LaneIndexRow) : List (String × Nat) :=
  (rows.insertionSort fun a b => spendOrder a ≤ spendOrder b).zipIdx.map fun row =>
    (row.1.laneKey, row.2 * 10 / rows.length)

/-- `rows`: by lane key, the last row of a key. -/
def rowsOf (index : List LaneIndexRow) : List LaneIndexRow :=
  (collect (·.laneKey) (fun _ row => row) (index.insertionSort fun a b => a.laneKey ≤ b.laneKey)).map (·.2)

/-- `groups`: the rows of each lane kind and billing class. -/
def groups (rows : List LaneIndexRow) : List ((String × String) × LaneIndexRow × List LaneIndexRow) :=
  groupsOf (fun row => (row.laneKind, row.billingClass)) rows

def placed (rows : List LaneIndexRow) : List (Stratum × String) :=
  (groups rows).flatMap fun g => (deciles (g.2.1 :: g.2.2)).map fun d => ((g.1.1, g.1.2, d.2), d.1)

/-- `strata`, in their order: the lane keys of each. -/
def strata (rows : List LaneIndexRow) : List (Stratum × List String) :=
  ((groupsOf (·.1) (placed rows)).map fun g => (g.1, (g.2.1 :: g.2.2).map (·.2))).insertionSort fun a b =>
    a.1.order ≤ b.1.order

/-- `alloc`: the quotas `n * len(strata[s]) / total` rounded down, and a unit more by the largest remainders, the first
strata first. The quotas have one denominator, so they are compared by their remainders. -/
def alloc (n : Int) (strata : List (Stratum × List String)) : List Int :=
  apportion n (strata.map fun s => (s.2.length : Int))

/-- `rng(seed, …).sample(members, take)` of the host. -/
abbrev Sampler : Type := Int → Stratum → List String → Nat → List String

def chosenOf (sample : Sampler) (seed : Int) (s : Stratum × List String) (quota : Int) : List String :=
  let members := s.2.insertionSort (· ≤ ·)
  sample seed s.1 members (min quota.toNat members.length)

/-- `stratified_sample`, with what its `UsageError` says. -/
def stratifiedSample (sample : Sampler) (index : List LaneIndexRow) (n seed : Int) : Except String (Finset String) :=
  if n < 0 then .error "stratified_sample: n must be a non-negative int"
  else
    let rows := rowsOf index
    if rows.length ≤ n.toNat then .ok (rows.map (·.laneKey)).toFinset
    else .ok (List.zipWith (chosenOf sample seed) (strata rows) (alloc n (strata rows))).flatten.toFinset

end TokenBill.Shards

/-!
## Every lane in one shard, every stratum near its quota

The teams of the plan are those of the index, once each, and a team with shards of its lane kinds has one for each; so
a row is of one shard. The strata cut the lane keys; the parts of the largest remainders are the quotas rounded down or
up, none is more than its stratum has, and they add up to the size of the sample.
-/

namespace TokenBill.Shards

open General List

/-! ### Shards -/

theorem teamOf_teamOf (team : Option String) : teamOf (teamOf team) = teamOf team := by
  unfold teamOf
  split_ifs <;> simp_all

/-- A row is of a shard: what `shard_where` asks for. -/
def ShardKey.Covers (key : ShardKey) (row : LaneIndexRow) : Prop :=
  teamOf row.team = key.team ∧ ∀ kind, key.laneKind = some kind → row.laneKind = kind

def Indexes (row : LaneIndexRow) (lane : Lane) : Prop :=
  teamOf row.team = teamOf (laneTeam lane) ∧ row.laneKind = lane.kind.value

section

variable {index : List LaneIndexRow} {row : LaneIndexRow} {maxRequests : Nat} {team : Option String × Nat}

theorem mem_kindsOf {kind : String} : kind ∈ kindsOf index team.1 ↔
    ∃ row ∈ index, teamOf row.team = team.1 ∧ row.laneKind = kind := by
  unfold kindsOf
  simp [and_assoc]

theorem nodup_kindsOf (index : List LaneIndexRow) (team : Option String) : (kindsOf index team).Nodup :=
  (perm_insertionSort _ _).nodup_iff.mpr (nodup_dedup _)

theorem team_of_mem_teamShards {key : ShardKey} (h : key ∈ teamShards maxRequests index team) :
    key.team = team.1 := by
  unfold teamShards at h
  split at h
  · obtain ⟨kind, -, rfl⟩ := mem_map.mp h
    rfl
  · obtain rfl := mem_singleton.mp h
    rfl

theorem nodup_teamShards (maxRequests : Nat) (index : List LaneIndexRow) (team : Option String × Nat) :
    (teamShards maxRequests index team).Nodup := by
  unfold teamShards
  split
  · exact (nodup_kindsOf index team.1).map fun a b hab => by simpa using hab
  · exact nodup_singleton _

theorem covers_teamShards (h : row ∈ index) (hteam : teamOf row.team = team.1) :
    ∃! key, key ∈ teamShards maxRequests index team ∧ key.Covers row := by
  unfold teamShards
  split
  · have hkind : row.laneKind ∈ kindsOf index team.1 := mem_kindsOf.mpr ⟨row, h, hteam, rfl⟩
    refine ⟨⟨team.1, some row.laneKind⟩, ⟨mem_map_of_mem hkind, hteam, fun kind hk => Option.some.inj hk⟩, ?_⟩
    rintro key ⟨hkey, hcovers⟩
    obtain ⟨kind, -, rfl⟩ := mem_map.mp hkey
    rw [hcovers.2 kind rfl]
  · refine ⟨⟨team.1, none⟩, ⟨mem_singleton_self _, hteam, fun kind hkind => by cases hkind⟩, ?_⟩
    rintro key ⟨hkey, -⟩
    exact mem_singleton.mp hkey

def orderedTotals (index : List LaneIndexRow) : List (Option String × Nat) :=
  (totals index).insertionSort fun a b => teamOrder a.1 ≤ teamOrder b.1

theorem mem_orderedTotals : team ∈ orderedTotals index ↔ team ∈ totals index := mem_insertionSort _

theorem nodup_orderedTotals (index : List LaneIndexRow) : ((orderedTotals index).map (·.1)).Nodup :=
  ((perm_insertionSort _ _).map _).nodup_iff.mpr (nodup_collect _ _ _)

theorem nodup_plan (maxRequests : Nat) (index : List LaneIndexRow) :
    ((orderedTotals index).flatMap (teamShards maxRequests index)).Nodup := by
  refine nodup_flatMap.mpr ⟨fun team _ => nodup_teamShards maxRequests index team, ?_⟩
  refine (pairwise_map.mp (nodup_orderedTotals index)).imp fun {team team'} hne => ?_
  refine disjoint_left.mpr fun key hkey hkey' => hne ?_
  rw [← team_of_mem_teamShards hkey, team_of_mem_teamShards hkey']

theorem covers_plan (h : row ∈ index) :
    ∃! key, key ∈ (orderedTotals index).flatMap (teamShards maxRequests index) ∧ key.Covers row := by
  have hteam : teamOf row.team ∈ (orderedTotals index).map (·.1) := by
    have hkey : teamOf row.team ∈ (totals index).map (·.1) := mem_keys_collect.mpr ⟨row, h, rfl⟩
    obtain ⟨team, hmem, hteam⟩ := mem_map.mp hkey
    exact mem_map.mpr ⟨team, mem_orderedTotals.mpr hmem, hteam⟩
  obtain ⟨team, hmem, hteam⟩ := mem_map.mp hteam
  obtain ⟨key, ⟨hkey, hcovers⟩, hunique⟩ := @covers_teamShards _ _ maxRequests _ h hteam.symm
  refine ⟨key, ⟨mem_flatMap.mpr ⟨team, hmem, hkey⟩, hcovers⟩, ?_⟩
  rintro key' ⟨hkey', hcovers'⟩
  obtain ⟨team', hmem', hkey'⟩ := mem_flatMap.mp hkey'
  have hsame : team' = team := by
    refine inj_on_of_nodup_map (nodup_orderedTotals index) hmem' hmem ?_
    rw [← team_of_mem_teamShards hkey', hteam, hcovers'.1]
  exact hunique key' ⟨hsame ▸ hkey', hcovers'⟩

theorem mem_shardOfLanes_iff {lanes : List Lane} {lane : Lane} {key : ShardKey} (hlane : lane ∈ lanes)
    (hindexes : Indexes row lane) (hkey : key ∈ (orderedTotals index).flatMap (teamShards maxRequests index)) :
    lane ∈ shardOfLanes lanes key ↔ key.Covers row := by
  have hteam : teamOf key.team = key.team := by
    obtain ⟨team, hmem, hkey⟩ := mem_flatMap.mp hkey
    have hkeys : team.1 ∈ (totals index).map (·.1) := mem_map_of_mem (mem_orderedTotals.mp hmem)
    obtain ⟨row, -, hrow⟩ := mem_keys_collect.mp hkeys
    rw [team_of_mem_teamShards hkey, ← hrow, teamOf_teamOf]
  unfold shardOfLanes ShardKey.Covers
  rw [mem_filter, and_iff_right hlane, hteam, hindexes.1, hindexes.2]
  cases key.laneKind with
  | none => simp
  | some kind =>
    simp only [decide_eq_true_eq, Bool.and_eq_true, Option.some.injEq, forall_eq', reduceCtorEq,
      Bool.or_eq_true, false_or]
    exact and_congr Iff.rfl eq_comm

end

/-! ### The rows of an index -/

section

variable {index : List LaneIndexRow}

def byKey (index : List LaneIndexRow) : List LaneIndexRow := index.insertionSort fun a b => a.laneKey ≤ b.laneKey

theorem byKey_perm (index : List LaneIndexRow) : (byKey index).Perm index := perm_insertionSort _ _

theorem rowsOf_eq (h : (index.map (·.laneKey)).Nodup) : rowsOf index = byKey index := by
  have hnodup : ((byKey index).map (·.laneKey)).Nodup := ((byKey_perm index).map _).nodup_iff.mpr h
  have hcollect : collect (·.laneKey) (fun _ row => row) (byKey index) =
      (byKey index).map fun row => (row.laneKey, row) :=
    foldl_collectStep_of_nodup LaneIndexRow.laneKey [] hnodup
  unfold rowsOf
  rw [show index.insertionSort (fun a b => a.laneKey ≤ b.laneKey) = byKey index from rfl, hcollect, map_map]
  exact map_id _

/-- The order of the rows does not matter. -/
theorem byKey_congr {index' : List LaneIndexRow} (h : (index.map (·.laneKey)).Nodup) (hperm : index'.Perm index) :
    byKey index' = byKey index := by
  have hsame := (byKey_perm index').trans (hperm.trans (byKey_perm index).symm)
  have hsorted : ∀ index : List LaneIndexRow, (byKey index).Pairwise fun a b => a.laneKey ≤ b.laneKey :=
    fun index => pairwise_insertionSort _ index
  refine hsame.eq_of_pairwise ?_ (hsorted index') (hsorted index)
  intro a b ha hb hle hge
  exact inj_on_of_nodup_map h (hperm.subset ((byKey_perm index').subset ha)) ((byKey_perm index).subset hb)
    (le_antisymm hle hge)

end

/-! ### Strata -/

section

variable {rows : List LaneIndexRow}

theorem map_deciles_perm (rows : List LaneIndexRow) :
    ((deciles rows).map (·.1)).Perm (rows.map (·.laneKey)) := by
  unfold deciles
  rw [map_map]
  have hzip : ∀ l : List LaneIndexRow, l.zipIdx.map (fun row => row.1.laneKey) = l.map (·.laneKey) := fun l => by
    conv_rhs => rw [← zipIdx_map_fst 0 l, map_map]
    rfl
  exact (List.Perm.of_eq (hzip _)).trans ((perm_insertionSort _ rows).map _)

theorem map_placed_perm (rows : List LaneIndexRow) : ((placed rows).map (·.2)).Perm (rows.map (·.laneKey)) := by
  have hgroups : ((groups rows).flatMap fun g => (g.2.1 :: g.2.2).map (·.laneKey)).Perm (rows.map (·.laneKey)) := by
    have hperm := (groupsOf_perm (fun row : LaneIndexRow => (row.laneKind, row.billingClass)) rows).map (·.laneKey)
    rw [map_flatMap] at hperm
    exact hperm
  unfold placed
  rw [map_flatMap]
  refine (List.Perm.flatMap_left _ fun g _ => ?_).trans hgroups
  rw [map_map]
  exact map_deciles_perm _

theorem strata_perm (rows : List LaneIndexRow) : ((strata rows).flatMap (·.2)).Perm (rows.map (·.laneKey)) := by
  have hsort : ((strata rows).flatMap (·.2)).Perm
      (((groupsOf (·.1) (placed rows)).map fun g => (g.1, (g.2.1 :: g.2.2).map (·.2))).flatMap (·.2)) :=
    (perm_insertionSort _ _).flatMap_right _
  have hgroups := (groupsOf_perm (fun p : Stratum × String => p.1) (placed rows)).map (·.2)
  rw [map_flatMap] at hgroups
  rw [flatMap_map] at hsort
  exact hsort.trans (hgroups.trans (map_placed_perm rows))

theorem strata_ne_nil {s : Stratum × List String} (h : s ∈ strata rows) : s.2 ≠ [] := by
  obtain ⟨g, -, rfl⟩ := mem_map.mp ((mem_insertionSort _).mp h)
  exact cons_ne_nil _ _

theorem sum_sizes (rows : List LaneIndexRow) :
    ((strata rows).map fun s => (s.2.length : Int)).sum = rows.length := by
  have hlen := (strata_perm rows).length_eq
  rw [length_flatMap, length_map] at hlen
  rw [← hlen, Nat.cast_list_sum, map_map]
  rfl

end

/-! ### Quotas -/

/-- `random.Random.sample`: so many distinct items of the population. -/
def Samples (sample : Sampler) : Prop :=
  ∀ seed s members take, take ≤ members.length →
    (sample seed s members take).length = take ∧ (sample seed s members take).Subperm members

/-- A part is a quota that is rounded down or up, and no more than its stratum has. -/
structure InQuota (n total : Int) (size : Int) (part : Int) : Prop where
  nonneg : 0 ≤ part
  le_size : part ≤ size
  above : total * part < n * size + total
  below : n * size < total * part + total

variable {n : Int} {sample : Sampler}

theorem InQuota.of_rounded {total size part : Int} (h : Rounded n total size part) (hn : 0 ≤ n) (hlt : n < total)
    (hsize : 0 ≤ size) : InQuota n total size part := by
  have htotal : 0 < total := by omega
  have hdiv := Int.mul_ediv_add_emod (n * size) total
  have hmod := Int.emod_lt_of_pos (n * size) htotal
  have hmod₀ := Int.emod_nonneg (n * size) htotal.ne'
  have hle : n * size ≤ total * size := mul_le_mul_of_nonneg_right hlt.le hsize
  have hfloor : n * size / total ≤ size := Int.ediv_le_of_le_mul htotal (by rw [mul_comm size]; exact hle)
  refine ⟨h.nonneg htotal hn hsize, ?_, ?_, ?_⟩
  · rcases h with rfl | ⟨rfl, hpos⟩
    · exact hfloor
    · -- a quota that is not whole is less than the stratum has
      by_contra hmore
      have heq : n * size / total = size := by omega
      rw [heq] at hdiv
      omega
  · rcases h with rfl | ⟨rfl, hpos⟩ <;> linarith
  · rcases h with rfl | ⟨rfl, hpos⟩ <;> linarith

/-- The parts of some strata are taken of them. -/
theorem chosen_subperm (hsample : Samples sample) (seed : Int) {s : Stratum × List String}
    {quota : Int} (h : 0 ≤ quota) (hle : quota ≤ s.2.length) :
    ((chosenOf sample seed s quota).length : Int) = quota ∧ (chosenOf sample seed s quota).Subperm s.2 := by
  have hsort := perm_insertionSort (· ≤ ·) s.2
  have hlen : (s.2.insertionSort (· ≤ ·)).length = s.2.length := hsort.length_eq
  have htake : min quota.toNat (s.2.insertionSort (· ≤ ·)).length = quota.toNat := by rw [hlen]; omega
  unfold chosenOf
  dsimp only
  rw [htake]
  obtain ⟨hlength, hsub⟩ := hsample seed s.1 (s.2.insertionSort (· ≤ ·)) quota.toNat (by rw [hlen]; omega)
  exact ⟨by rw [hlength]; omega, hsub.trans hsort.subperm⟩

theorem nodup_of_subperm {l l' : List String} (h : l.Subperm l') (hn : l'.Nodup) : l.Nodup := by
  obtain ⟨m, hperm, hsub⟩ := h
  exact hperm.nodup_iff.mp (hsub.nodup hn)

/-- Of parts that are taken of lists without a common element, those of a list are what was taken of it. -/
theorem inter_flatten {parts lists : List (List String)} (h : List.Forall₂ List.Subperm parts lists)
    (hnodup : lists.flatten.Nodup) :
    parts.flatten.Subperm lists.flatten ∧
      ∀ p ∈ parts.zip lists, (parts.flatten.toFinset ∩ p.2.toFinset).card = p.1.length := by
  induction h with
  | nil => exact ⟨List.Subperm.refl _, fun p hp => by cases hp⟩
  | @cons part list parts lists hpart hrest ih =>
    rw [flatten_cons] at hnodup
    obtain ⟨hlist, hlists, hdisjoint⟩ := nodup_append'.mp hnodup
    obtain ⟨hsub, hcards⟩ := ih hlists
    rw [flatten_cons, flatten_cons]
    refine ⟨hpart.append hsub, fun p hp => ?_⟩
    rcases mem_cons.mp hp with rfl | hp
    · have hinter : (part ++ parts.flatten).toFinset ∩ list.toFinset = part.toFinset := by
        ext x
        simp only [Finset.mem_inter, mem_toFinset, mem_append]
        constructor
        · rintro ⟨hx | hx, hxlist⟩
          · exact hx
          · exact absurd (hsub.subset hx) (hdisjoint hxlist)
        · exact fun hx => ⟨.inl hx, hpart.subset hx⟩
      rw [hinter, toFinset_card_of_nodup (nodup_of_subperm hpart hlist)]
    · have hp₂ : ∀ x ∈ p.2, x ∈ lists.flatten := fun x hx =>
        mem_flatten_of_mem (of_mem_zip hp).2 hx
      have hinter : (part ++ parts.flatten).toFinset ∩ p.2.toFinset = parts.flatten.toFinset ∩ p.2.toFinset := by
        ext x
        simp only [Finset.mem_inter, mem_toFinset, mem_append]
        constructor
        · rintro ⟨hx | hx, hxp⟩
          · exact absurd (hp₂ x hxp) (hdisjoint (hpart.subset hx))
          · exact ⟨hx, hxp⟩
        · exact fun hx => ⟨.inr hx.1, hx.2⟩
      rw [hinter, hcards p hp]

theorem alloc_inQuota {rows : List LaneIndexRow} (hn : 0 ≤ n) (hlt : n < rows.length) :
    List.Forall₂ (fun (s : Stratum × List String) part => InQuota n rows.length s.2.length part) (strata rows)
      (alloc n (strata rows)) ∧ (alloc n (strata rows)).sum = n := by
  have hsum := sum_sizes rows
  have hpos : 0 < ((strata rows).map fun s => (s.2.length : Int)).sum := by omega
  refine ⟨?_, sum_apportion hpos⟩
  have hrounded : List.Forall₂ (Rounded n _) _ _ := apportion_rounded hpos
  rw [hsum, forall₂_map_left_iff] at hrounded
  exact hrounded.imp fun s part h => InQuota.of_rounded h hn hlt (Int.natCast_nonneg _)

def chosen (sample : Sampler) (seed : Int) (rows : List LaneIndexRow) (n : Int) : List (List String) :=
  List.zipWith (chosenOf sample seed) (strata rows) (alloc n (strata rows))

/-- Of every stratum its part is chosen, and as many as wanted in all. -/
theorem chosen_forall₂ (hsample : Samples sample) (seed : Int) {rows : List LaneIndexRow}
    (hn : 0 ≤ n) (hlt : n < rows.length) :
    List.Forall₂ (fun (part : List String) (s : Stratum × List String) =>
      InQuota n rows.length s.2.length part.length ∧ part.Subperm s.2) (chosen sample seed rows n) (strata rows) ∧
    ((chosen sample seed rows n).map fun part => (part.length : Int)).sum = n := by
  obtain ⟨hquotas, hsum⟩ := alloc_inQuota hn hlt
  have hlengths : List.Forall₂ (fun (part : List String) (s : Stratum × List String) =>
      InQuota n rows.length s.2.length part.length ∧ part.Subperm s.2) (chosen sample seed rows n) (strata rows) ∧
      ((chosen sample seed rows n).map fun part => (part.length : Int)) = alloc n (strata rows) := by
    unfold chosen
    generalize alloc n (strata rows) = parts at hquotas
    generalize strata rows = strata at hquotas
    induction hquotas with
    | nil => exact ⟨.nil, rfl⟩
    | @cons s part strata parts hs _ ih =>
      obtain ⟨hlength, hsub⟩ := chosen_subperm hsample seed hs.nonneg hs.le_size
      refine ⟨.cons ⟨hlength.symm ▸ hs, hsub⟩ ih.1, ?_⟩
      rw [zipWith_cons_cons, map_cons, hlength, ih.2]
  exact ⟨hlengths.1, by rw [hlengths.2, hsum]⟩

theorem InQuota.within_one {total size part : Int} (h : InQuota n total size part) (htotal : 0 < total) :
    |(part : ℚ) - n * size / total| < 1 := by
  have hcast : (0 : ℚ) < total := by exact_mod_cast htotal
  have habove : (total * part : ℚ) < n * size + total := by exact_mod_cast h.above
  have hbelow : (n * size : ℚ) < total * part + total := by exact_mod_cast h.below
  have hdiff : (part : ℚ) - n * size / total = (total * part - n * size) / total := by field_simp
  rw [hdiff, abs_lt, lt_div_iff₀ hcast, div_lt_iff₀ hcast]
  constructor <;> linarith

/-! ### The sample -/

/-- What the sample of an index is: so many of its lane keys, whatever the order of its rows, and of every stratum
within 1 of its quota. -/
structure IsSample (sample : Sampler) (index : List LaneIndexRow) (n seed : Int) (keys : Finset String) : Prop where
  card : keys.card = min n.toNat index.length
  subset : keys ⊆ (index.map (·.laneKey)).toFinset
  order : ∀ index', index'.Perm index → stratifiedSample sample index' n seed = .ok keys
  quota : ∀ s ∈ strata (rowsOf index),
    |((keys ∩ s.2.toFinset).card : ℚ) - min n index.length * s.2.length / index.length| < 1

theorem stratifiedSample_eq {index : List LaneIndexRow} {seed : Int} (hn : 0 ≤ n) :
    stratifiedSample sample index n seed = .ok (if (rowsOf index).length ≤ n.toNat then
      ((rowsOf index).map (·.laneKey)).toFinset else (chosen sample seed (rowsOf index) n).flatten.toFinset) := by
  unfold stratifiedSample
  rw [if_neg (not_lt.mpr hn)]
  dsimp only
  split_ifs <;> rfl

theorem isSample_stratifiedSample (hsample : Samples sample) {index : List LaneIndexRow}
    (seed : Int) (hn : 0 ≤ n) (hindex : (index.map (·.laneKey)).Nodup) :
    ∃ keys, stratifiedSample sample index n seed = .ok keys ∧ IsSample sample index n seed keys := by
  have hrows := rowsOf_eq hindex
  have hperm := byKey_perm index
  have hlength : (rowsOf index).length = index.length := by rw [hrows, hperm.length_eq]
  have hnodup : ((rowsOf index).map (·.laneKey)).Nodup := by
    rw [hrows]
    exact (hperm.map _).nodup_iff.mpr hindex
  have hkeys : ((rowsOf index).map (·.laneKey)).toFinset = (index.map (·.laneKey)).toFinset := by
    rw [hrows]
    exact toFinset_eq_of_perm _ _ (hperm.map _)
  have hstrata := strata_perm (rowsOf index)
  rw [flatMap_def] at hstrata
  have hdisjoint := hstrata.nodup_iff.mpr hnodup
  have hcuts : ∀ s ∈ strata (rowsOf index),
      s.2.Nodup ∧ s.2.toFinset ⊆ ((rowsOf index).map (·.laneKey)).toFinset := by
    intro s hs
    have hmem : s.2 ∈ (strata (rowsOf index)).map (·.2) := mem_map_of_mem hs
    refine ⟨(nodup_flatten.mp hdisjoint).1 _ hmem, fun x hx => ?_⟩
    exact mem_toFinset.mpr (hstrata.subset (mem_flatten_of_mem hmem (mem_toFinset.mp hx)))
  have horder : ∀ index' : List LaneIndexRow, index'.Perm index → stratifiedSample sample index' n seed =
      stratifiedSample sample index n seed := by
    intro index' hperm'
    have hindex' : (index'.map (·.laneKey)).Nodup := (hperm'.map _).nodup_iff.mpr hindex
    rw [stratifiedSample_eq hn, stratifiedSample_eq hn, hrows, rowsOf_eq hindex', byKey_congr hindex hperm']
  refine ⟨_, stratifiedSample_eq hn, ?_⟩
  by_cases hall : (rowsOf index).length ≤ n.toNat
  · -- the whole index
    rw [if_pos hall]
    refine ⟨?_, hkeys.subset, fun index' hperm' => ?_, fun s hs => ?_⟩
    · rw [toFinset_card_of_nodup hnodup, length_map, hlength]
      omega
    · rw [horder index' hperm', stratifiedSample_eq hn, if_pos hall]
    · obtain ⟨hs₁, hs₂⟩ := hcuts s hs
      rw [Finset.inter_eq_right.mpr hs₂, toFinset_card_of_nodup hs₁, min_eq_right (by omega)]
      have hpos : (0 : ℚ) < index.length := by
        have hsize : 0 < s.2.length := length_pos_iff.mpr (strata_ne_nil hs)
        have hle := Finset.card_le_card hs₂
        rw [toFinset_card_of_nodup hs₁, toFinset_card_of_nodup hnodup, length_map, hlength] at hle
        exact_mod_cast lt_of_lt_of_le hsize hle
      have hzero : (s.2.length : ℚ) - ((index.length : ℤ) : ℚ) * s.2.length / index.length = 0 := by
        push_cast
        field_simp
        ring
      rw [hzero, abs_zero]
      exact one_pos
  · rw [if_neg hall]
    have hlt : n < (rowsOf index).length := by omega
    obtain ⟨hchosen, hsum⟩ := chosen_forall₂ hsample seed hn hlt
    have hsubperm : List.Forall₂ List.Subperm (chosen sample seed (rowsOf index) n)
        ((strata (rowsOf index)).map (·.2)) := by
      rw [forall₂_map_right_iff]
      exact hchosen.imp fun part s h => h.2
    obtain ⟨hsub, hcards⟩ := inter_flatten hsubperm hdisjoint
    refine ⟨?_, fun x hx => ?_, fun index' hperm' => ?_, fun s hs => ?_⟩
    · rw [toFinset_card_of_nodup (nodup_of_subperm hsub hdisjoint), length_flatten]
      have hcast : (((chosen sample seed (rowsOf index) n).map List.length).sum : Int) = n := by
        rw [Nat.cast_list_sum, map_map]
        exact hsum
      omega
    · rw [← hkeys]
      exact mem_toFinset.mpr (hstrata.subset (hsub.subset (mem_toFinset.mp hx)))
    · rw [horder index' hperm', stratifiedSample_eq hn, if_neg hall]
    · obtain ⟨part, hpair⟩ : ∃ part,
          (part, s) ∈ (chosen sample seed (rowsOf index) n).zip (strata (rowsOf index)) := by
        obtain ⟨i, hi, rfl⟩ := mem_iff_getElem.mp hs
        have hi' : i < (chosen sample seed (rowsOf index) n).length := hchosen.length_eq ▸ hi
        have hzip : i < ((chosen sample seed (rowsOf index) n).zip (strata (rowsOf index))).length := by
          rw [length_zip]
          omega
        exact ⟨_, (getElem_zip (h := hzip)) ▸ getElem_mem hzip⟩
      have hpart := (forall₂_iff_zip.mp hchosen).2 hpair
      have hcard := hcards (part, s.2) (by
        rw [zip_map_right]
        exact mem_map.mpr ⟨(part, s), hpair, rfl⟩)
      rw [hcard, min_eq_left (by omega)]
      have hwithin := hpart.1.within_one (by omega)
      rw [hlength] at hwithin
      exact_mod_cast hwithin

/-- Every row of an index is of one shard of the plan, which has the lanes of its rows; and the sample of lanes with
distinct keys is so many of them, whatever their order, and near the quota of every stratum. -/
theorem shards_and_sample {sample : Sampler} (hsample : Samples sample) :
    (∀ (index : List LaneIndexRow) (maxRequests : Int), 1 ≤ maxRequests →
      ∃ shards, planShards index maxRequests = .ok shards ∧ shards.Nodup ∧
        ∀ row ∈ index, (∃! key, key ∈ shards ∧ key.Covers row) ∧
          ∀ lanes : List Lane, ∀ lane ∈ lanes, Indexes row lane →
            ∀ key ∈ shards, lane ∈ shardOfLanes lanes key ↔ key.Covers row) ∧
    ∀ (index : List LaneIndexRow) (n seed : Int), 0 ≤ n → (index.map (·.laneKey)).Nodup →
      ∃ keys, stratifiedSample sample index n seed = .ok keys ∧ IsSample sample index n seed keys := by
  refine ⟨fun index maxRequests hmax => ?_, fun index n seed hn hindex =>
    isSample_stratifiedSample hsample seed hn hindex⟩
  refine ⟨(orderedTotals index).flatMap (teamShards maxRequests.toNat index), ?_, nodup_plan _ index, ?_⟩
  · unfold planShards
    rw [if_neg (by omega)]
    rfl
  · intro row hrow
    exact ⟨covers_plan hrow, fun lanes lane hlane hindexes key hkey => mem_shardOfLanes_iff hlane hindexes hkey⟩

def firstItems : Sampler := fun _ _ members take => members.take take

theorem samples_firstItems : Samples firstItems := fun _ _ _ _ h =>
  ⟨length_take_of_le h, (take_sublist _ _).subperm⟩

def sampleRow (key : String) (nano : Int) : LaneIndexRow := ⟨key, none, "main", "billed", 1, nano⟩

def threeRows : List LaneIndexRow := [sampleRow "c" 3, sampleRow "a" 1, sampleRow "b" 2]

/-- Two of three lanes are sampled. -/
theorem sample_of_three : ∃ keys, stratifiedSample firstItems threeRows 2 0 = .ok keys ∧ keys.card = 2 := by
  obtain ⟨keys, hkeys, hsample⟩ := (shards_and_sample samples_firstItems).2 threeRows 2 0 (by decide) (by decide)
  exact ⟨keys, hkeys, hsample.card⟩

/-! ### The findings of several shards -/

/-- `finding_sort_key`. -/
def findingSortKey (f : Finding) : Int ×ₗ String ×ₗ String :=
  toLex (-(((f.recoverable.bind (·.nano)).getD 0 : Int)), toLex (f.detectorId, f.findingId))

/-- The findings of the shards in their order, refused where an id comes again. -/
def collectFindings : List Finding → List Finding → Except Error (List Finding)
  | merged, [] => .ok merged
  | merged, f :: fs =>
    if f.findingId ∈ merged.map (·.findingId) then .error (.contract "merge_findings: duplicate finding_id across shards")
    else collectFindings (merged ++ [f]) fs

/-- `merge_findings`. -/
def mergeFindings (parts : List (List Finding)) : Except Error (List Finding) :=
  (collectFindings [] parts.flatten).map (sortedBy findingSortKey)

theorem collectFindings_eq (fs : List Finding) : ∀ {merged : List Finding}, (merged.map (·.findingId)).Nodup →
    collectFindings merged fs = if ((merged ++ fs).map (·.findingId)).Nodup then .ok (merged ++ fs)
      else .error (.contract "merge_findings: duplicate finding_id across shards") := by
  induction fs with
  | nil => exact fun h => by rw [append_nil, if_pos h, collectFindings]
  | cons f fs ih =>
    intro merged h
    rw [collectFindings]
    split
    · rename_i hmem
      refine (if_neg fun hn => ?_).symm
      rw [map_append, map_cons] at hn
      exact disjoint_of_nodup_append hn hmem mem_cons_self
    · rename_i hnew
      have hnodup : ((merged ++ [f]).map (·.findingId)).Nodup := by
        rw [map_append, map_singleton]
        exact h.append (nodup_singleton _) (disjoint_singleton.mpr hnew)
      rw [ih hnodup, append_assoc, singleton_append]

theorem mergeFindings_eq (parts : List (List Finding)) :
    mergeFindings parts = if (parts.flatten.map (·.findingId)).Nodup then .ok (sortedBy findingSortKey parts.flatten)
      else .error (.contract "merge_findings: duplicate finding_id across shards") := by
  rw [mergeFindings, @collectFindings_eq _ [] nodup_nil, nil_append]
  split <;> rfl

theorem mergeFindings_perm {parts parts' : List (List Finding)} (h : parts.flatten.Perm parts'.flatten) :
    mergeFindings parts = mergeFindings parts' := by
  have hids := (h.map (·.findingId)).nodup_iff
  rw [mergeFindings_eq, mergeFindings_eq]
  by_cases hn : (parts.flatten.map (·.findingId)).Nodup
  · rw [if_pos hn, if_pos (hids.mp hn), sortedBy_eq (fun a ha b hb hkey => ?_) h]
    simp only [findingSortKey, toLex_inj, Prod.mk.injEq] at hkey
    exact inj_on_of_nodup_map hn ha hb hkey.2.2
  · rw [if_neg hn, if_neg fun hn' => hn (hids.mpr hn')]

theorem mapM_mergeFindings (groups : List (List (List Finding))) :
    (∃ merged, groups.mapM mergeFindings = .ok merged ∧ merged.flatten.Perm groups.flatten.flatten) ∨
    (groups.mapM mergeFindings = .error (.contract "merge_findings: duplicate finding_id across shards") ∧
      ¬(groups.flatten.flatten.map (·.findingId)).Nodup) := by
  induction groups with
  | nil => exact .inl ⟨[], rfl, .refl _⟩
  | cons parts groups ih =>
    rw [mapM_cons, mergeFindings_eq, flatten_cons, flatten_append, map_append]
    by_cases hn : (parts.flatten.map (·.findingId)).Nodup
    · rw [if_pos hn]
      obtain ⟨merged, hmerged, hperm⟩ | ⟨herror, hdup⟩ := ih
      · rw [hmerged]
        exact .inl ⟨_, rfl, (sortedBy_perm _ _).append hperm⟩
      · rw [herror]
        exact .inr ⟨rfl, fun h => hdup h.of_append_right⟩
    · rw [if_neg hn]
      exact .inr ⟨rfl, fun h => hn h.of_append_left⟩

/-- Findings merged in any number of levels, in whatever order, are as if all shards were merged at once: the same
findings in the same order, or the same refusal. -/
theorem mergeFindings_levels {groups : List (List (List Finding))} {parts : List (List Finding)}
    (h : groups.flatten.flatten.Perm parts.flatten) :
    (groups.mapM mergeFindings >>= mergeFindings) = mergeFindings parts := by
  obtain ⟨merged, hmerged, hperm⟩ | ⟨herror, hdup⟩ := mapM_mergeFindings groups
  · rw [hmerged]
    exact mergeFindings_perm (hperm.trans h)
  · rw [herror, mergeFindings_eq, if_neg fun hn => hdup ((h.map _).nodup_iff.mpr hn)]
    rfl

/-- A finding of a detector. -/
def findingOf (findingId : String) (nano : Int) : Finding where
  findingId := findingId
  detectorId := "cache"
  kind := "cache-miss"
  detectorVersion := "1"
  category := .lever
  leverClass := .rate
  audience := .org
  title := "Cache misses"
  summary := ""
  scope := []
  nEvents := 1
  nLanes := 1
  nUsers := 1
  firstSeenMs := 0
  costObserved := exactFigure nano .list
  recoverable := some (exactFigure nano .list)

theorem mergeFindings_levels_three :
    ([[[findingOf "a" 1], [findingOf "b" 2]], [[findingOf "c" 1], []]].mapM mergeFindings >>= mergeFindings) =
      mergeFindings [[findingOf "a" 1, findingOf "b" 2, findingOf "c" 1]] :=
  mergeFindings_levels (Perm.refl _)

end TokenBill.Shards
