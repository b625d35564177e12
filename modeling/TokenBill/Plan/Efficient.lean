import TokenBill.Plan.ActionPlan
import TokenBill.General.Tables
import Mathlib.Data.List.ReduceOption

/-!
# The credits of an action plan

The credits a plan reports for its joint levers add up to the joint saving. With the full
sample and a replayer that saves lane by lane, the levers that touch a lane are in one
group, so the joint saving is the sum of the savings of the groups, and scaling leaves
every credit as it is, but where the credits cancel.
-/

namespace TokenBill.Plan

open General List

/-! ### Sums of figures -/

theorem nano_add {a b c : Figure} {x y : Int} (ha : a.nano = some x) (hb : b.nano = some y)
    (h : add a b = .ok c) : c.nano = some (x + y) := by
  unfold add combine at h
  split at h
  · cases h
  · rw [FigureFields.build_eq_ok] at h
    have hn : c.nano = (combineFields a b false).nano := by rw [h]
    rw [hn]
    unfold combineFields
    rw [ha, hb]
    rfl

theorem nano_sumFigures {figs : List Figure} {basis : Basis} {total : Figure} {ns : List Int}
    (hns : figs.map (·.nano) = ns.map some) (h : sumFigures figs basis = .ok total) :
    total.nano = some ns.sum := by
  have hfold : ∀ (fs : List Figure) (ms : List Int) (f t : Figure) (n : Int), f.nano = some n →
      fs.map (·.nano) = ms.map some → fs.foldlM add f = .ok t → t.nano = some (n + ms.sum) := by
    intro fs
    induction fs with
    | nil =>
      intro ms f t n hf hms ht
      obtain rfl : ms = [] := map_eq_nil_iff.mp hms.symm
      obtain rfl := pure_eq_ok.mp ht
      rw [hf, sum_nil, add_zero]
    | cons g fs ih =>
      intro ms f t n hf hms ht
      obtain ⟨m, ms, rfl⟩ : ∃ m ms', ms = m :: ms' := exists_cons_of_ne_nil fun h => by
        rw [h] at hms
        cases hms
      obtain ⟨hg, hms⟩ := List.cons.inj hms
      rw [foldlM_cons] at ht
      obtain ⟨u, hu, ht⟩ := bind_eq_ok.mp ht
      rw [ih ms u t (n + m) (nano_add hf hg hu) hms ht, sum_cons, add_assoc]
  unfold sumFigures at h
  split at h
  · obtain rfl : ns = [] := map_eq_nil_iff.mp hns.symm
    rw [FigureFields.build_eq_ok.mp h]
    rfl
  · rename_i f fs
    obtain ⟨t, ht, h⟩ := bind_eq_ok.mp h
    obtain ⟨n, ns, rfl⟩ : ∃ n ns', ns = n :: ns' := exists_cons_of_ne_nil fun h => by
      rw [h] at hns
      cases hns
    obtain ⟨hf, hns⟩ := List.cons.inj hns
    rw [FigureFields.build_eq_ok.mp h, sum_cons]
    exact hfold fs ns f t n hf hns ht

namespace Planner

variable {Lane Policy : Type} (P : Planner Lane Policy)

/-! ### Replayers -/

def Priced : Prop :=
  ∀ mode policy lanes r, P.replay mode policy lanes = .ok r → ∃ nano, r.saving.nano = some nano

/-- Every replay saves what it saves on its lanes, one by one. -/
def SavesByLane (saving : Mode → Policy → Lane → Int) : Prop :=
  ∀ mode policy lanes r, P.replay mode policy lanes = .ok r →
    r.saving.nano = some (lanes.map (saving mode policy)).sum

theorem SavesByLane.priced {saving : Mode → Policy → Lane → Int} (h : P.SavesByLane saving) : P.Priced :=
  fun mode policy lanes r hr => ⟨_, h mode policy lanes r hr⟩

variable {lanes : List Lane} {o : Outcome} {n : Nat} {g joint : List (Chosen Policy)} {c : Chosen Policy}
  {groups : List (GroupPlan Policy)}

/-- A priced replayer gives every coalition of levers a saving. -/
theorem value_priced (hP : P.Priced) {mode : Mode} {members : List (Member Policy)}
    (h : P.value mode lanes members = .ok o) : ∃ nano, o.saving.nano = some nano := by
  obtain ⟨results, hresults, h⟩ := bind_eq_ok.mp h
  obtain ⟨total, htotal, h⟩ := bind_eq_ok.mp h
  obtain rfl := pure_eq_ok.mp h
  have hpriced : ∃ ns : List Int, (results.map (·.saving)).map (·.nano) = ns.map some := by
    refine ⟨(results.map (·.saving)).map fun f => f.nano.getD 0, ?_⟩
    simp only [map_map]
    refine map_congr_left fun r hr => ?_
    obtain ⟨part, -, hpart⟩ := exists_of_mem_right (mapM_eq_ok.mp hresults) hr
    obtain ⟨policy, -, hpart⟩ := bind_eq_ok.mp hpart
    split at hpart
    · cases hpart
    · obtain ⟨n, hn⟩ := hP _ _ _ _ hpart
      simp [hn]
  obtain ⟨ns, hns⟩ := hpriced
  exact ⟨_, nano_sumFigures hns htotal⟩

section ByLane

variable {saving : Mode → Policy → Lane → Int}

/-- What a lane saves under the combination of policies. -/
def laneSaving (saving : Mode → Policy → Lane → Int) (mode : Mode) (policies : List Policy) (lane : Lane) :
    Int :=
  match P.combineAll policies with
  | .ok (some policy) => saving mode policy lane
  | _ => 0

def touching (lanes : List Lane) (members : List (Member Policy)) (lane : Lane) : List (Member Policy) :=
  members.filter fun m => decide (P.laneKey lane ∈ P.touched lanes m)

/-- The places of the elements of a list that a test picks, read back. -/
theorem filterMap_places {α : Type} (l : List α) (p : α → Bool) :
    ((l.zipIdx.filter fun t => p t.1).map (·.2)).filterMap (fun i => l[i]?) = l.filter p := by
  have hplace : ∀ t ∈ l.zipIdx.filter fun t => p t.1, l[t.2]? = some t.1 := fun t ht =>
    mem_zipIdx_iff_getElem?.mp (mem_filter.mp ht).1
  rw [filterMap_map]
  refine (filterMap_congr hplace).trans ?_
  rw [filterMap_eq_map', ← Function.comp_def p, ← filter_map, zipIdx_map_fst]

theorem indexOf_members (lanes : List Lane) (members : List (Member Policy)) (lane : Lane) :
    (indexOf (members.map (P.touched lanes)) (P.laneKey lane)).filterMap (fun i => members[i]?) =
      P.touching lanes members lane := by
  refine Eq.trans (congrArg (List.filterMap _) ?_) (filterMap_places members _)
  unfold indexOf
  rw [zipIdx_map, filter_map, map_map]
  rfl

variable {lanes : List Lane}

theorem touching_of_index {members : List (Member Policy)} {lane : Lane}
    (h : indexOf (members.map (P.touched lanes)) (P.laneKey lane) = []) : P.touching lanes members lane = [] := by
  rw [← P.indexOf_members, h]
  rfl

/-- The lanes without an index save nothing, and the others are in the part of theirs. -/
theorem sum_parts (index : Lane → List Nat) (g : Lane → Int) (lanes : List Lane)
    (hzero : ∀ lane ∈ lanes, index lane = [] → g lane = 0) :
    (((((lanes.map index).filter (· ≠ [])).dedup).insertionSort (· ≤ ·)).map fun idx =>
      ((lanes.filter fun lane => decide (index lane = idx)).map g).sum).sum = (lanes.map g).sum := by
  set keys := (((lanes.map index).filter (· ≠ [])).dedup).insertionSort (· ≤ ·) with hkeys
  set rest := lanes.filter fun lane => decide (index lane ≠ []) with hrest
  have hperm : keys.Perm (rest.map index).dedup := by
    rw [hkeys, hrest]
    refine (perm_insertionSort _ _).trans ?_
    rw [filter_map]
    rfl
  have hfib : ∀ idx ∈ keys, (lanes.filter fun lane => decide (index lane = idx)) =
      rest.filter fun lane => decide (index lane = idx) := fun idx hidx => by
    rw [hperm.mem_iff, mem_dedup] at hidx
    obtain ⟨lane, hl, rfl⟩ := mem_map.mp hidx
    have hne := of_decide_eq_true (mem_filter.mp hl).2
    rw [hrest, filter_filter]
    refine filter_congr fun l _ => ?_
    by_cases h : index l = index lane
    · simp [h, hne]
    · simp [h]
  have hsplit : (lanes.map g).sum = (rest.map g).sum := by
    have happ := filter_append_perm (fun lane => decide (index lane ≠ [])) lanes
    rw [← (happ.map g).sum_eq, map_append, sum_append, hrest]
    refine add_eq_left.mpr (sum_eq_zero fun x hx => ?_)
    obtain ⟨lane, hl, rfl⟩ := mem_map.mp hx
    obtain ⟨hmem, hnot⟩ := mem_filter.mp hl
    exact hzero lane hmem (by simpa using hnot)
  rw [hsplit, ← ((flatten_fibres_dedup_perm index rest hperm).map g).sum_eq, map_flatten,
    sum_flatten, map_map, map_map]
  refine congrArg List.sum (map_congr_left fun idx hidx => ?_)
  rw [hfib idx hidx]
  rfl

theorem replayMembers_nano (hP : P.SavesByLane saving) {mode : Mode}
    {members : List (Member Policy)} {o : Outcome} (h : P.replayMembers mode lanes members = .ok o) :
    o.saving.nano = some (lanes.map fun lane =>
      P.laneSaving saving mode ((P.touching lanes members lane).map (·.policy)) lane).sum := by
  obtain ⟨results, hresults, h⟩ := bind_eq_ok.mp h
  obtain ⟨total, htotal, h⟩ := bind_eq_ok.mp h
  obtain rfl := pure_eq_ok.mp h
  set index := fun lane => indexOf (members.map (P.touched lanes)) (P.laneKey lane) with hindex
  set lane' := fun lane =>
    P.laneSaving saving mode ((P.touching lanes members lane).map (·.policy)) lane with hlane
  set keys := (((lanes.map index).filter (· ≠ [])).dedup).insertionSort (· ≤ ·) with hkeys
  -- A part saves what its lanes save.
  have hparts : List.Forall₂ (fun (part : List Nat × List Lane) (r : ReplayResult) =>
      r.saving.nano = some (part.2.map lane').sum)
      (keys.map fun idx => (idx, lanes.filter fun lane => decide (index lane = idx))) results := by
    refine (forall₂_map_left_iff.mp (mapM_eq_ok.mp hresults)).imp ?_ |> forall₂_map_left_iff.mpr
    intro idx r hr
    obtain ⟨policy, hpolicy, hr⟩ := bind_eq_ok.mp hr
    split at hr
    · cases hr
    · rename_i policy
      rw [hP _ _ _ _ hr]
      have hperm : ((lanes.filter fun lane => decide (index lane = idx)).insertionSort
          fun a b => P.laneKey a ≤ P.laneKey b).Perm _ := perm_insertionSort _ _
      rw [(hperm.map _).sum_eq]
      congr 2
      refine map_congr_left fun lane hmem => ?_
      have hidx : index lane = idx := of_decide_eq_true (mem_filter.mp hmem).2
      rw [hlane]
      dsimp only
      unfold laneSaving
      rw [← P.indexOf_members, map_filterMap]
      rw [← hidx] at hpolicy
      rw [hpolicy]
  have hns : (results.map (·.saving)).map (·.nano) =
      (keys.map fun idx => ((lanes.filter fun lane => decide (index lane = idx)).map lane').sum).map some := by
    have heq := forall₂_map_right_iff.mpr
      (forall₂_map_left_iff.mpr ((forall₂_map_left_iff.mp hparts).imp fun _ _ h => h.symm))
    rw [forall₂_eq_eq_eq] at heq
    rw [map_map, map_map]
    exact heq.symm
  rw [nano_sumFigures hns htotal]
  congr 1
  exact sum_parts index lane' lanes fun lane _ h => by
    show P.laneSaving saving mode ((P.touching lanes members lane).map (·.policy)) lane = 0
    rw [P.touching_of_index h]
    rfl

/-! ### Groups -/

/-- Members in the order of their ids. -/
abbrev inOrder (members : List (Member Policy)) : List (Member Policy) :=
  members.insertionSort fun a b => a.leverId ≤ b.leverId

theorem touching_eq {xs ys : List (Member Policy)} {lane : Lane}
    (hx : (xs.map Member.leverId).Nodup) (hy : (ys.map Member.leverId).Nodup)
    (hmem : ∀ m, P.laneKey lane ∈ P.touched lanes m → (m ∈ xs ↔ m ∈ ys)) (hsub : ∀ m ∈ xs, m ∈ ys) :
    P.touching lanes (inOrder xs) lane = P.touching lanes (inOrder ys) lane := by
  have hsorted : ∀ l : List (Member Policy), (P.touching lanes (inOrder l) lane).Pairwise
      fun a b => a.leverId ≤ b.leverId := fun l => by
    have hl := pairwise_insertionSort (fun a b : Member Policy => a.leverId ≤ b.leverId) l
    exact hl.filter _
  have hnodup : ∀ l : List (Member Policy), (l.map Member.leverId).Nodup →
      (P.touching lanes (inOrder l) lane).Nodup := fun l hl =>
    ((perm_insertionSort _ _).nodup_iff.mpr hl.of_map).filter _
  refine List.Perm.eq_of_pairwise (fun a b ha hb hab hba => ?_) (hsorted xs) (hsorted ys) ?_
  · have ha : a ∈ ys := hsub a ((mem_insertionSort _).mp (mem_filter.mp ha).1)
    have hb : b ∈ ys := (mem_insertionSort _).mp (mem_filter.mp hb).1
    exact inj_on_of_nodup_map hy ha hb (le_antisymm hab hba)
  · refine (perm_ext_iff_of_nodup (hnodup xs hx) (hnodup ys hy)).mpr fun m => ?_
    unfold touching
    rw [mem_filter, mem_filter, mem_insertionSort, mem_insertionSort]
    exact ⟨fun ⟨h, ht⟩ => ⟨(hmem m (of_decide_eq_true ht)).mp h, ht⟩,
      fun ⟨h, ht⟩ => ⟨(hmem m (of_decide_eq_true ht)).mpr h, ht⟩⟩

theorem laneSaving_groups {gs : List (List (Member Policy))}
    {all : List (Member Policy)} (hperm : gs.flatten.Perm all) (hid : (all.map Member.leverId).Nodup)
    (hsame : ∀ g ∈ gs, ∀ m ∈ g, ∀ m' ∈ all, ∀ key, key ∈ P.touched lanes m → key ∈ P.touched lanes m' →
      m' ∈ g) (mode : Mode) (lane : Lane) :
    (gs.map fun g =>
      P.laneSaving saving mode ((P.touching lanes (inOrder g) lane).map (·.policy)) lane).sum =
      P.laneSaving saving mode ((P.touching lanes (inOrder all) lane).map (·.policy)) lane := by
  have hin : ∀ g ∈ gs, ∀ m ∈ g, m ∈ all := fun g hg m hm =>
    hperm.mem_iff.mp (mem_flatten.mpr ⟨g, hg, hm⟩)
  have hflat : (gs.flatten.map Member.leverId).Nodup := (hperm.map _).nodup_iff.mpr hid
  -- A group none of whose members touches the lane saves nothing there.
  have hnone : ∀ g : List (Member Policy), (∀ m ∈ g, P.laneKey lane ∉ P.touched lanes m) →
      P.laneSaving saving mode ((P.touching lanes (inOrder g) lane).map (·.policy)) lane = 0 := fun g h => by
    have hnil : P.touching lanes (inOrder g) lane = [] := by
      unfold touching
      rw [filter_eq_nil_iff]
      intro m hm
      rw [mem_insertionSort] at hm
      simpa using h m hm
    rw [hnil]
    rfl
  by_cases hex : ∃ m ∈ all, P.laneKey lane ∈ P.touched lanes m
  · obtain ⟨m, hm, hkey⟩ := hex
    obtain ⟨g, hg, hmg⟩ := mem_flatten.mp (hperm.mem_iff.mpr hm)
    obtain ⟨pre, post, rfl⟩ := append_of_mem hg
    rw [flatten_append, flatten_cons, map_append, map_append,
      nodup_append] at hflat
    obtain ⟨-, hflat, hpre⟩ := hflat
    obtain ⟨hgid, -, hpost⟩ := nodup_append.mp hflat
    -- Members of other groups do not touch it: they would be members of this one.
    have hother : ∀ g' ∈ pre ++ post, ∀ m' ∈ g', P.laneKey lane ∉ P.touched lanes m' := by
      intro g' hg' m' hm' hkey'
      have hg'' : g' ∈ pre ++ g :: post := by
        rcases mem_append.mp hg' with h | h
        · exact mem_append_left _ h
        · exact mem_append_right _ (mem_cons_of_mem _ h)
      have hmem : m' ∈ g := hsame g hg m hmg m' (hin g' hg'' m' hm') _ hkey hkey'
      rcases mem_append.mp hg' with h | h
      · exact hpre _ (mem_map_of_mem (mem_flatten.mpr ⟨g', h, hm'⟩)) _
          (mem_append_left _ (mem_map_of_mem hmem)) rfl
      · exact hpost _ (mem_map_of_mem hmem) _
          (mem_map_of_mem (mem_flatten.mpr ⟨g', h, hm'⟩)) rfl
    have hzero : ∀ l : List (List (Member Policy)), (∀ g' ∈ l, g' ∈ pre ++ post) → (l.map fun g =>
        P.laneSaving saving mode ((P.touching lanes (inOrder g) lane).map (·.policy)) lane).sum = 0 :=
      fun l hl => sum_eq_zero fun x hx => by
        obtain ⟨g', hg', rfl⟩ := mem_map.mp hx
        exact hnone g' (hother g' (hl g' hg'))
    rw [map_append, sum_append, map_cons, sum_cons,
      hzero pre fun g' h => mem_append_left _ h, hzero post fun g' h => mem_append_right _ h,
      zero_add, add_zero, P.touching_eq hgid hid (fun m' hkey' => ⟨hin g hg m', fun h =>
        hsame g hg m hmg m' h _ hkey hkey'⟩) (hin g hg)]
  · have hno : ∀ m ∈ all, P.laneKey lane ∉ P.touched lanes m := fun m hm hkey => hex ⟨m, hm, hkey⟩
    rw [hnone all hno]
    refine sum_eq_zero fun x hx => ?_
    obtain ⟨g, hg, rfl⟩ := mem_map.mp hx
    exact hnone g fun m hm => hno m (hin g hg m hm)

theorem sum_sum_comm {α β : Type} (xs : List α) (ys : List β) (f : α → β → Int) :
    (xs.map fun x => (ys.map fun y => f x y).sum).sum = (ys.map fun y => (xs.map fun x => f x y).sum).sum := by
  induction xs with
  | nil => simp
  | cons x xs ih => rw [map_cons, sum_cons, ih, ← sum_map_add]; rfl

end ByLane

theorem mem_pairs {p : Nat × Nat} : p ∈ pairs n ↔ p.1 < p.2 ∧ p.2 < n := by
  unfold pairs
  simp only [mem_flatMap, mem_map, mem_filter, mem_range, decide_eq_true_eq]
  constructor
  · rintro ⟨i, -, j, ⟨hj, hij⟩, rfl⟩
    exact ⟨hij, hj⟩
  · exact fun ⟨hij, hj⟩ => ⟨p.1, hij.trans hj, p.2, ⟨hj, hij⟩, rfl⟩

/-- The labels the related places are united under. -/
theorem labels_spec (touched : List (List String)) (n : Nat) :
    (uniteRelated (related touched) (List.range n) (pairs n)).length = n ∧
      ∀ i j, i < j → j < n → related touched i j →
        labelOf (uniteRelated (related touched) (List.range n) (pairs n)) i =
          labelOf (uniteRelated (related touched) (List.range n) (pairs n)) j := by
  have hspec := @uniteRelated_spec (related touched) (pairs n) (List.range n) fun p hp => by
    rw [mem_pairs] at hp
    rw [length_range]
    exact ⟨hp.1.trans hp.2, hp.2⟩
  rw [length_range] at hspec
  exact ⟨hspec.1, fun i j hij hj hrel => hspec.2.2 (i, j) (mem_pairs.mpr ⟨hij, hj⟩) hrel⟩

/-- The groups have the levers, each once. -/
theorem groups_flatten (lanes : List Lane) (chosen : List (Chosen Policy)) :
    (P.groups lanes chosen).flatten.Perm chosen :=
  (classesOf_flatten (labels_spec _ _).1).trans (perm_insertionSort _ _)

theorem groups_ne_nil {chosen : List (Chosen Policy)} (hg : g ∈ P.groups lanes chosen) : g ≠ [] :=
  classesOf_ne_nil (labels_spec _ _).1 hg

/-- Levers that touch a lane both are in one group. -/
theorem groups_same {chosen : List (Chosen Policy)} (hg : g ∈ P.groups lanes chosen)
    {d : Chosen Policy} (hc : c ∈ g) (hd : d ∈ chosen) {key : String}
    (hkc : key ∈ P.touched lanes c.member) (hkd : key ∈ P.touched lanes d.member) : d ∈ g := by
  set ordered := chosen.insertionSort fun a b => a.leverId ≤ b.leverId
  set touched := ordered.map fun c => P.touched lanes c.member with htouched
  obtain ⟨hlen, hlabels⟩ := labels_spec touched ordered.length
  have hd' : d ∈ ordered := (mem_insertionSort _).mpr hd
  obtain ⟨j, hj⟩ := mem_iff_getElem?.mp hd'
  refine classesOf_same hlen hg hc hj fun i hi => ?_
  have hlt : ∀ {i : Nat} {c : Chosen Policy}, ordered[i]? = some c → i < ordered.length :=
    fun h => (List.getElem?_eq_some_iff.mp h).1
  have hget : ∀ {i : Nat} {c : Chosen Policy}, ordered[i]? = some c →
      touched.getD i [] = P.touched lanes c.member := fun {i c} h => by
    rw [getD_eq_getElem?_getD, htouched, getElem?_map, h]
    rfl
  have hrel : ∀ {i j : Nat} {c d : Chosen Policy}, ordered[i]? = some c → ordered[j]? = some d →
      key ∈ P.touched lanes c.member → key ∈ P.touched lanes d.member → related touched i j :=
    fun {i j c d} hi hj hkc hkd => by
      unfold related
      rw [hget hi, hget hj, any_eq_true]
      exact ⟨key, hkc, decide_eq_true hkd⟩
  rcases lt_trichotomy i j with h | rfl | h
  · exact hlabels i j h (hlt hj) (hrel hi hj hkc hkd)
  · rfl
  · exact (hlabels j i h (hlt hi) (hrel hj hi hkd hkc)).symm

/-- The chosen grid value is one of the lever. -/
theorem choose_lever {ldef : LeverDef} {ids : List String}
    (h : P.choose lanes ldef ids = .ok (some c)) : c.member.lever = ldef := by
  obtain ⟨best, hbest, h⟩ := bind_eq_ok.mp h
  have hpost : ∀ t ∈ best, t.2.member.lever = ldef := by
    refine Post.of_ok (E := fun _ => True) (Post.foldlM
      (I := fun best : Option (Int × Chosen Policy) => ∀ t ∈ best, t.2.member.lever = ldef)
      (fun best hb policy _ => ?_) fun t ht => by cases ht) hbest
    split
    · exact hb
    · refine Post.bind (P := fun _ => True) ?_ fun outcome _ => ?_
      · cases P.value .documented lanes [⟨ldef, policy⟩] <;> trivial
      · split
        · exact hb
        · split
          · exact hb
          · intro t ht
            unfold better at ht
            split at ht
            · split at ht
              · obtain rfl := Option.mem_some.mp ht
                rfl
              · exact hb t ht
            · obtain rfl := Option.mem_some.mp ht
              rfl
  cases best with
  | none => cases h
  | some t =>
    cases h
    exact hpost t rfl

theorem jointLevers_nodup {candidates : List LeverDef} {links : String → List String}
    (hid : (candidates.map (·.leverId)).Nodup) (h : P.jointLevers lanes candidates links = .ok joint) :
    (joint.map Chosen.leverId).Nodup := by
  obtain ⟨chosen, hchosen, h⟩ := bind_eq_ok.mp h
  rw [← pure_eq_ok.mp h]
  clear h
  have hsub : (chosen.reduceOption.map Chosen.leverId).Sublist
      ((candidates.filter (replayed lanes)).map (·.leverId)) := by
    have hall := mapM_eq_ok.mp hchosen
    clear hchosen
    generalize candidates.filter (replayed lanes) = ldefs at hall
    induction hall with
    | nil => exact .slnil
    | @cons ldef o ldefs os ho _ ih =>
      cases o with
      | none => exact ih.cons _
      | some c =>
        rw [reduceOption_cons_of_some, map_cons, map_cons]
        rw [show c.leverId = ldef.leverId from congrArg _ (P.choose_lever ho)]
        exact ih.cons_cons _
  exact ((hid.sublist (filter_sublist.map _)).sublist hsub).sublist (filter_sublist.map _)

/-! ### Credits of a group -/

theorem coalition_all (g : List (Chosen Policy)) :
    coalition g (g.map Chosen.leverId).toFinset = g.map (·.member) := by
  unfold coalition
  rw [filter_eq_self.mpr fun c hc =>
    decide_eq_true (mem_toFinset.mpr (mem_map_of_mem hc))]

theorem groupCredits_total {credits : Credits} (h : P.groupCredits lanes g = .ok credits) :
    credits.map (·.1) = (g.map Chosen.leverId).insertionSort (· ≤ ·) ∧ (g ≠ [] →
      ∃ own, P.value P.mode lanes (g.map (·.member)) = .ok own ∧
        own.saving.nano = some credits.total) := by
  have hspec : credits.map (·.1) = (g.map Chosen.leverId).insertionSort (· ≤ ·) ∧
      (g.map Chosen.leverId).Nodup ∧ (g.map Chosen.leverId ≠ [] → ∃ all empty,
        P.coalitionValue lanes g (g.map Chosen.leverId).toFinset = .ok all ∧
          P.coalitionValue lanes g ∅ = .ok empty ∧ credits.total = all - empty) := by
    unfold groupCredits at h
    dsimp only at h
    split at h
    · exact shapleyExact_total _ h
    · exact shapleyMc_total _ h
  refine ⟨hspec.1, fun hne => ?_⟩
  have hids : g.map Chosen.leverId ≠ [] := fun hnil => hne (map_eq_nil_iff.mp hnil)
  obtain ⟨all, empty, hall, hempty, htotal⟩ := hspec.2.2 hids
  have hzero : empty = 0 := by
    unfold coalitionValue at hempty
    rw [if_pos rfl] at hempty
    cases hempty
    rfl
  have hset : (g.map Chosen.leverId).toFinset ≠ ∅ := fun h => hids (toFinset_eq_empty_iff _ |>.mp h)
  unfold coalitionValue at hall
  rw [if_neg hset, coalition_all] at hall
  split at hall
  · cases hall
  · rename_i own hown
    split at hall
    · cases hall
    · rename_i nano hnano
      cases hall
      exact ⟨own, hown, by rw [hnano, htotal, hzero, sub_zero]⟩

theorem groupCredits_priced (hP : P.Priced) (lanes : List Lane) (g : List (Chosen Policy)) :
    P.groupCredits lanes g ≠ .error .unpriced := by
  have hv : ∀ S, Post (fun _ => True) (fun e => e ≠ Stop.unpriced) (P.coalitionValue lanes g S) := by
    intro S
    unfold coalitionValue
    split
    · trivial
    · split
      · exact fun h => nomatch h
      · rename_i outcome houtcome
        obtain ⟨nano, hnano⟩ := P.value_priced hP houtcome
        rw [hnano]
        trivial
  have hu : ∀ e, Stop.raised e ≠ Stop.unpriced := fun e h => nomatch h
  have hpost : Post (fun _ => True) (fun e => e ≠ Stop.unpriced) (P.groupCredits lanes g) := by
    unfold groupCredits
    dsimp only
    split
    · exact shapleyExact_post _ hv hu _
    · exact shapleyMc_post _ hv hu _ _
  exact fun h => hpost.of_error h rfl

theorem planGroup_credits (hP : P.Priced) {item : List (Chosen Policy) × Nat}
    {g : GroupPlan Policy} (h : P.planGroup lanes item = .ok g) :
    g.levers = item.1 ∧ ∃ credits, P.groupCredits lanes item.1 = .ok credits ∧ g.credits = some credits := by
  unfold planGroup at h
  split at h
  · rename_i hunpriced
    exact absurd hunpriced (P.groupCredits_priced hP lanes item.1)
  · cases h
  · rename_i credits hcredits
    obtain ⟨seen, -, h⟩ := bind_eq_ok.mp h
    obtain rfl := pure_eq_ok.mp h
    exact ⟨rfl, credits, hcredits, rfl⟩

theorem planGroups_credits (hP : P.Priced) {gs : List (List (Chosen Policy))}
    (h : (gs.zipIdx n).mapM (P.planGroup lanes) = .ok groups) :
    groups.map (·.levers) = gs ∧ ∃ all, groups.mapM (·.credits) = some all ∧
      List.Forall₂ (fun g credits => P.groupCredits lanes g = .ok credits) gs all := by
  induction gs generalizing n groups with
  | nil =>
    obtain rfl := pure_eq_ok.mp h
    exact ⟨rfl, [], rfl, .nil⟩
  | cons g gs ih =>
    rw [zipIdx_cons, mapM_cons] at h
    obtain ⟨p, hp, h⟩ := bind_eq_ok.mp h
    obtain ⟨ps, hps, h⟩ := bind_eq_ok.mp h
    obtain rfl := pure_eq_ok.mp h
    obtain ⟨hlevers, credits, hcredits, hpc⟩ := P.planGroup_credits hP hp
    obtain ⟨hmap, all, hall, hforall⟩ := ih hps
    refine ⟨by rw [map_cons, hlevers, hmap], credits :: all, ?_, .cons hcredits hforall⟩
    rw [mapM_cons, hpc, hall]
    rfl

/-! ### Reported credits -/

/-- Credits with distinct keys, read back in another order of their keys. -/
theorem lookup_perm {ids : List String} {credits : Credits} (hnodup : (credits.map (·.1)).Nodup)
    (hids : ids.Perm (credits.map (·.1))) :
    (ids.map fun id => (id, (credits.lookup id).getD 0)).Perm credits := by
  refine (hids.map _).trans (List.Perm.of_eq ?_)
  rw [map_map]
  refine (map_congr_left fun s hs => ?_).trans (map_id _)
  show (s.1, (credits.lookup s.1).getD 0) = s
  rw [lookup_of_mem hnodup hs]
  rfl

/-- Credits with distinct keys, cut back to the keys of some of them. -/
theorem filter_keys_perm {credits part : Credits} {ids : List String} (hnodup : (credits.map (·.1)).Nodup)
    (hpart : part.Nodup) (hsub : ∀ s ∈ part, s ∈ credits) (hids : ids.Perm (part.map (·.1))) :
    (credits.filter fun s => decide (s.1 ∈ ids)).Perm part := by
  refine (perm_ext_iff_of_nodup (hnodup.of_map.filter _) hpart).mpr fun s => ?_
  rw [mem_filter, decide_eq_true_eq, hids.mem_iff]
  constructor
  · rintro ⟨hs, hkey⟩
    obtain ⟨s', hs', hkey⟩ := mem_map.mp hkey
    exact inj_on_of_nodup_map hnodup (hsub s' hs') hs hkey ▸ hs'
  · exact fun hs => ⟨hsub s hs, mem_map_of_mem hs⟩

theorem build_nano {f : FigureFields} {g : Figure} (h : f.build = .ok g) : g.nano = f.nano := by
  rw [FigureFields.build_eq_ok.mp h]

theorem result_shapley {scope : Scope Lane} {scaled : Credits} {factor : ℚ} {cal : Calibration} {r : LeverResult}
    (h : P.result scope lanes groups ⟨some scaled, factor⟩ cal c = .ok r) :
    (r.leverId, r.shapley.nano) = (c.leverId, some ((scaled.lookup c.leverId).getD 0)) := by
  unfold result at h
  split at h
  · cases h
  · obtain ⟨standalone, -, h⟩ := bind_eq_ok.mp h
    obtain ⟨shapley, hshapley, h⟩ := bind_eq_ok.mp h
    obtain rfl := pure_eq_ok.mp h
    unfold shapleyFigure at hshapley
    dsimp only at hshapley
    split at hshapley
    · cases hshapley
    · rename_i nano hnano
      rw [hnano]
      exact congrArg (Prod.mk c.leverId) (build_nano hshapley)

/-- A priced replayer gives the joint levers a joint saving. -/
theorem jointFigure_priced (hP : P.Priced) {scope : Scope Lane}
    {fig : Figure} (h : P.jointFigure scope lanes joint = .ok fig) : ∃ nano, fig.nano = some nano := by
  unfold jointFigure at h
  split at h
  · obtain ⟨outcome, houtcome, h⟩ := bind_eq_ok.mp h
    obtain rfl := pure_eq_ok.mp h
    exact P.value_priced hP houtcome
  · obtain ⟨outcomes, houtcomes, h⟩ := bind_eq_ok.mp h
    have hns : ((outcomes.filter fun o => decide (0 < o.touched)).map (·.saving)).map (·.nano) =
        (((outcomes.filter fun o => decide (0 < o.touched)).map (·.saving)).map
          fun f => f.nano.getD 0).map some := by
      rw [map_map, map_map, map_map]
      refine map_congr_left fun o ho => ?_
      obtain ⟨mine, -, hmine⟩ := exists_of_mem_right (mapM_eq_ok.mp houtcomes) (mem_filter.mp ho).1
      obtain ⟨nano, hnano⟩ := P.value_priced hP hmine
      simp [hnano]
    exact ⟨_, nano_sumFigures hns h⟩

theorem value_nano {saving : Mode → Policy → Lane → Int} (hP : P.SavesByLane saving) {mode : Mode}
    {members : List (Member Policy)} (h : P.value mode lanes members = .ok o) :
    o.saving.nano = some (lanes.map fun lane => P.laneSaving saving mode
      ((P.touching lanes (inOrder members) lane).map (·.policy)) lane).sum :=
  P.replayMembers_nano hP h

theorem joint_eq_groups {saving : Mode → Policy → Lane → Int} (hP : P.SavesByLane saving)
    (hid : (joint.map Chosen.leverId).Nodup) {all : List Credits} (hall : List.Forall₂ (fun g credits => ∃ own,
      P.value P.mode lanes (g.map (·.member)) = .ok own ∧ own.saving.nano = some (Credits.total credits))
      (P.groups lanes joint) all) (h : P.value P.mode lanes (joint.map (·.member)) = .ok o) :
    o.saving.nano = some (Credits.total all.flatten) := by
  rw [P.value_nano hP h]
  have hperm : ((P.groups lanes joint).map (·.map (·.member))).flatten.Perm (joint.map (·.member)) := by
    rw [← map_flatten]
    exact (P.groups_flatten lanes joint).map _
  have hids : ((joint.map (·.member)).map Member.leverId).Nodup := by
    rw [map_map]
    exact hid
  have hsame : ∀ g ∈ (P.groups lanes joint).map (·.map (·.member)), ∀ m ∈ g,
      ∀ m' ∈ joint.map (·.member), ∀ key, key ∈ P.touched lanes m → key ∈ P.touched lanes m' → m' ∈ g := by
    intro g hg m hm m' hm' key hkey hkey'
    obtain ⟨cs, hcs, rfl⟩ := mem_map.mp hg
    obtain ⟨c, hc, rfl⟩ := mem_map.mp hm
    obtain ⟨d, hd, rfl⟩ := mem_map.mp hm'
    exact mem_map_of_mem (P.groups_same hcs hc hd hkey hkey')
  congr 1
  calc (lanes.map fun lane => P.laneSaving saving P.mode
          ((P.touching lanes (inOrder (joint.map (·.member))) lane).map (·.policy)) lane).sum
      = (lanes.map fun lane => (((P.groups lanes joint).map (·.map (·.member))).map fun g =>
          P.laneSaving saving P.mode ((P.touching lanes (inOrder g) lane).map (·.policy)) lane).sum).sum :=
        congrArg List.sum (map_congr_left fun lane _ =>
          (P.laneSaving_groups hperm hids hsame P.mode lane).symm)
    _ = (((P.groups lanes joint).map (·.map (·.member))).map fun g => (lanes.map fun lane =>
          P.laneSaving saving P.mode ((P.touching lanes (inOrder g) lane).map (·.policy)) lane).sum).sum :=
        sum_sum_comm _ _ _
    _ = (all.map Credits.total).sum := by
        rw [map_map]
        refine congrArg List.sum ?_
        have heq : List.Forall₂ Eq ((P.groups lanes joint).map _) (all.map Credits.total) :=
          forall₂_map_left_iff.mpr (forall₂_map_right_iff.mpr (hall.imp
            fun g credits ⟨own, hown, hnano⟩ =>
              Option.some.inj ((P.value_nano hP hown).symm.trans hnano)))
        rwa [forall₂_eq_eq_eq] at heq
    _ = Credits.total all.flatten := by
        unfold Credits.total
        rw [map_flatten, sum_flatten, map_map]
        rfl

/-- The credits of a plan: what each joint lever is reported to save. -/
def Reports (results : List LeverResult) (reported : Credits) : Prop :=
  results.map (fun r => (r.leverId, r.shapley.nano)) = reported.map fun s => (s.1, some s.2)

/-- The credits of each group of a class, with the savings of the groups alone. -/
theorem groups_credits (hP : P.Priced) (h : ((P.groups lanes joint).zipIdx n).mapM (P.planGroup lanes) = .ok groups) :
    ∃ all, groups.mapM (·.credits) = some all ∧
      List.Forall₂ (fun g credits => P.groupCredits lanes g = .ok credits) (P.groups lanes joint) all ∧
      (all.flatten.map (·.1)).Perm (joint.map Chosen.leverId) := by
  obtain ⟨-, all, hall, hforall⟩ := P.planGroups_credits hP h
  refine ⟨all, hall, hforall, ?_⟩
  have hkeys : List.Forall₂ (fun (g : List (Chosen Policy)) (credits : Credits) =>
      (credits.map (·.1)).Perm (g.map Chosen.leverId)) (P.groups lanes joint) all :=
    hforall.imp fun g credits hc => by
      rw [(P.groupCredits_total hc).1]
      exact perm_insertionSort _ _
  have hflat : (all.flatten.map (·.1)).Perm ((P.groups lanes joint).flatten.map Chosen.leverId) := by
    rw [map_flatten, map_flatten]
    exact flatMap_perm_of_forall₂ (f := List.map Chosen.leverId) hkeys
  exact hflat.trans ((P.groups_flatten lanes joint).map _)

end Planner

/-! ### Two levers on a lane -/

def laneLever (id : String) : LeverDef := ⟨id, "deterministic", "usage", false, false, false⟩

/-- A planner of two levers, both of which touch every lane and save on it what `saving` says of the two
together. -/
def twoLevers (saving : Bool × Bool → Int) : Planner Nat (Bool × Bool) where
  laneKey := toString
  sessionKey := toString
  touches _ _ _ := true
  gridPolicies ldef := [(ldef.leverId = "a", ldef.leverId = "b")]
  compactionWindow _ := none
  toSpec _ := ""
  combine p q := .ok (p.1 || q.1, p.2 || q.2)
  replay _ policy lanes := do
    let fig ← ({ nano := some (lanes.length * saving policy), evidence := .exact, basis := .list } :
      FigureFields).build
    pure ⟨fig, 0⟩
  mode := .documented
  cls := "billed"
  basis := .list
  includeTradeoffs := false
  minWindow := 300000
  maxExtra := 3
  shuffles players := [players]

theorem twoLevers_saves (saving : Bool × Bool → Int) :
    (twoLevers saving).SavesByLane fun _ policy _ => saving policy := by
  intro mode policy lanes r hr
  obtain ⟨fig, hfig, hr⟩ := bind_eq_ok.mp hr
  obtain rfl := pure_eq_ok.mp hr
  rw [Planner.build_nano hfig, map_const', sum_replicate, nsmul_eq_mul]

def fullScope : Scope Nat := ⟨true, [], 1, 1, 1⟩

def twoPlan (saving : Bool × Bool → Int) : Except Error ClassPlan :=
  (twoLevers saving).planClass [0] [laneLever "a", laneLever "b"] (fun _ => []) fullScope

def adding (p : Bool × Bool) : Int := if p.1 && p.2 then 11 else if p.1 then 10 else 2

def cancelling (p : Bool × Bool) : Int := if p.1 && p.2 then 0 else if p.1 then 10 else 2

end TokenBill.Plan
