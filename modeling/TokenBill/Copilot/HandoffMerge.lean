import TokenBill.Copilot.Handoff
import TokenBill.Core.Totals
import Mathlib.Algebra.BigOperators.Pi

/-!
# When merging small teams keeps what it should

`Merged` is what `_k_merge_teams` is for: no team of fewer than `k` people stays, no amount is
lost, and no two records share an id. It holds unless a small team is spelled in parentheses, or
records of small teams that are kept apart get one id: aggregates that differ in which costs they
have, or configuration rows that differ in their team only.
-/

namespace TokenBill.Copilot.Handoff

open General Kanon
open List hiding count

/-! ### The promise -/

/-- The labels the tool writes itself, besides "(other)". -/
def Reserved (t : String) : Prop :=
  t ∈ ["(unmapped)", "(unallocated)", "(unattributed)", "(other teams)",
    "(not attributable: merged below k)"] ∨ ∃ n, t = otherLabel n

/-- A team of `k` people, or with an outcome of `k` users. -/
def Covered (k : Nat) (recs : Records) (t : String) : Prop :=
  k ≤ (people recs t).length ∨ ∃ o ∈ recs.outcomes, o.team = t ∧ k ≤ o.nUsers

/-- What an aggregate is besides its team and its amounts. -/
structure RemainingKey where
  sourceKind : String
  (bucketStartMs bucketEndMs : Nat)
  dims : List (String × String)
  basis : Option String
  finality : String
  deriving DecidableEq

def remainingKey (a : UsageAggregate) : RemainingKey :=
  ⟨a.sourceKind, a.bucketStartMs, a.bucketEndMs, a.dims.filter fun d => decide (d.1 ≠ "team"),
   a.reportedCostBasis, a.finality⟩

def aggAmounts (a : UsageAggregate) : (Counter → ℕ) × WithTop ℕ × ℤ × ℤ :=
  (count a.usage.toUsageCounts, reasoning a.usage.toUsageCounts, a.reportedCostNano.getD 0,
   a.listCostNano.getD 0)

def counters (o : OutcomeAggregate) (name : String) : ℕ :=
  (((outcomeCounts o ++ o.extra).filter fun c => decide (c.1 = name)).map (·.2)).sum

def outcomeSource (o : OutcomeAggregate) : Nat × String := (o.dateUtc, o.sourceKind)

def noTeam (c : CostLine) : CostLine := { c with team := none }

/-- No two records of a kind share their id. -/
structure Distinct (recs : Records) : Prop where
  costLines : (recs.costLines.map (·.lineId)).Nodup
  aggregates : (recs.aggregates.map (·.aggId)).Nodup
  outcomes : (recs.outcomes.map outcomeKey).Nodup
  licenses : (recs.licenses.map licenseKey).Nodup
  activity : (recs.activity.map activityKey).Nodup
  config : (recs.config.map configKey).Nodup

/-- What the records are after the merge of the small teams. -/
structure Merged (k : Nat) (recs out : Records) : Prop where
  covered : ∀ t ∈ labels out, t = otherTeam ∨ Reserved t ∨ Covered k out t
  aggregates : ∀ key, ((out.aggregates.filter fun a => decide (remainingKey a = key)).map aggAmounts).sum =
    ((recs.aggregates.filter fun a => decide (remainingKey a = key)).map aggAmounts).sum
  costLines : out.costLines.map noTeam = recs.costLines.map noTeam
  outcomes : ∀ key, ((out.outcomes.filter fun o => decide (outcomeSource o = key)).map counters).sum =
    ((recs.outcomes.filter fun o => decide (outcomeSource o = key)).map counters).sum
  distinct : Distinct out

/-! ### The condition -/

def moved (k : Nat) (recs : Records) : List UsageAggregate :=
  (recs.aggregates.filter (isMoved (smallTeams k recs))).map (relabelAgg (smallTeams k recs))

/-- The text of which the id of a merged aggregate is the digest. -/
def idText (a : UsageAggregate) : String := "\x1f".intercalate (idParts a)

/-- The records can be merged: a label in parentheses is one of the tool or of `k` people, records of
small teams that share an id are merged, and no other record has it. -/
structure Mergeable (h : Hashes) (k : Nat) (recs : Records) : Prop where
  brackets : ∀ t ∈ labels recs, isBracketed t → t = otherTeam ∨ Reserved t ∨ Covered k recs t
  ids : ∀ a ∈ moved k recs, ∀ b ∈ moved k recs, idText a = idText b → aggKey a = aggKey b
  fresh : ∀ a ∈ moved k recs, ∀ b ∈ recs.aggregates, isMoved (smallTeams k recs) b = false →
    b.aggId ≠ mergedId h a
  config : ∀ c ∈ recs.config, ∀ c' ∈ recs.config,
    configKey (relabelConfig (smallTeams k recs) c) = configKey (relabelConfig (smallTeams k recs) c') → c = c'

/-! ### Relabelling -/

variable {κ : Type} {h : Hashes} {k : Nat} {recs out : Records} {small : List String}

variable {t : String} {α : Type} {a b : UsageAggregate} {o : OutcomeAggregate}

theorem relabel_eq_iff {x : String} (ho : t ≠ otherTeam) (hs : t ∉ small) : relabel small x = t ↔ x = t := by
  unfold relabel
  constructor
  · intro hx
    split at hx
    · exact absurd hx.symm ho
    · exact hx
  · rintro rfl
    exact if_neg hs

theorem relabelTeam_eq_iff {team : Option String} (ho : t ≠ otherTeam) (hs : t ∉ small) :
    relabelTeam small team = some t ↔ team = some t := by
  cases team with
  | none => simp [relabelTeam]
  | some x => simpa [relabelTeam] using relabel_eq_iff ho hs

theorem filter_relabelled {β : Type} {f : α → α} (team : α → Option String) (g : α → β)
    (ho : t ≠ otherTeam) (hs : t ∉ small) (hteam : ∀ x, team (f x) = relabelTeam small (team x))
    (hg : ∀ x, g (f x) = g x) (l : List α) :
    ((l.map f).filter fun x => decide (team x = some t)).map g =
      (l.filter fun x => decide (team x = some t)).map g := by
  have hp : ∀ x, decide (team (f x) = some t) = decide (team x = some t) := fun x =>
    decide_eq_decide.mpr (by rw [hteam, relabelTeam_eq_iff ho hs])
  simp only [filter_map, map_map, Function.comp_def, hp, hg]

theorem teamDims_relabelAgg (a : UsageAggregate) :
    teamDims (relabelAgg small a) = (teamDims a).map (relabel small) := by
  simp only [teamDims, relabelAgg, filter_map, map_map, Function.comp_def]
  refine map_congr_left fun d hd => ?_
  exact if_pos (of_decide_eq_true (mem_filter.mp hd).2)

theorem teamDims_eq_of_dims (hd : a.dims = b.dims) : teamDims a = teamDims b := by
  simp only [teamDims, hd]

theorem remainingKey_relabelAgg (a : UsageAggregate) : remainingKey (relabelAgg small a) = remainingKey a := by
  have hdims : ((a.dims.map fun d => (d.1, if d.1 = "team" then relabel small d.2 else d.2)).filter
      fun d => decide (d.1 ≠ "team")) = a.dims.filter fun d => decide (d.1 ≠ "team") := by
    rw [filter_map]
    refine (map_congr_left fun d hd => ?_).trans (map_id _)
    rw [if_neg (of_decide_eq_true (mem_filter.mp hd).2)]
    rfl
  simp only [remainingKey, relabelAgg, hdims]

theorem teamOfAttrs_relabelConfig (c : ConfigSnapshot) :
    teamOfAttrs (relabelConfig small c).attrs = relabelTeam small (teamOfAttrs c.attrs) := by
  unfold relabelConfig
  split
  · have hlook : ∀ l : List (String × AttrValue),
        (l.map fun a => (a.1, if a.1 = "team" then relabelAttr small a.2 else a.2)).lookup "team" =
          (l.lookup "team").map (relabelAttr small) := by
      intro l
      induction l with
      | nil => rfl
      | cons a l ih =>
        rw [map_cons, lookup_cons, lookup_cons, ih]
        by_cases ha : "team" = a.1
        · rw [← ha, beq_self_eq_true, if_pos rfl, Option.map_some]
        · rw [beq_false_of_ne ha]
    simp only [teamOfAttrs, ← map_reverse]
    rw [hlook]
    cases c.attrs.reverse.lookup "team" with
    | none => rfl
    | some v => cases v <;> rfl
  · rename_i hc
    cases ht : teamOfAttrs c.attrs with
    | none => rfl
    | some t =>
      rw [ht] at hc
      have hnot : t ∉ small := by simpa using hc
      simp [relabelTeam, relabel, hnot]

/-! ### The merged records -/

def staying (k : Nat) (recs : Records) : List UsageAggregate :=
  (recs.aggregates.filter fun a => !isMoved (smallTeams k recs) a).map (relabelAgg (smallTeams k recs))

/-- What the merge of some small teams leaves. -/
structure Relabelled (h : Hashes) (k : Nat) (recs out : Records) : Prop where
  costLines : out.costLines = recs.costLines.map (relabelLine (smallTeams k recs))
  licenses : out.licenses = recs.licenses.map (relabelLicense (smallTeams k recs))
  activity : out.activity = recs.activity.map (relabelActivity (smallTeams k recs))
  config : out.config = recs.config.map (relabelConfig (smallTeams k recs))
  aggregates : ∃ merged, out.aggregates.Perm (staying k recs ++ merged) ∧
    List.Forall₂ (fun g m => mergeGroup h g.2.1 g.2.2 = .ok m) (groupsOf aggKey (moved k recs)) merged
  outcomes : List.Forall₂ (fun g m => mergeOutcome g.2.1 g.2.2 = .ok m)
    (groupsOf outcomeKey (recs.outcomes.map (relabelOutcome (smallTeams k recs)))) out.outcomes

/-- The ids of the moved aggregates tell them from the others. -/
theorem filter_changed (hd : Distinct recs) (p : Bool → Bool) (small : List String) :
    ((recs.aggregates.map (relabelAgg small)).filter fun a =>
        p (decide (a.aggId ∈ (recs.aggregates.filter (isMoved small)).map (·.aggId)))) =
      (recs.aggregates.filter fun a => p (isMoved small a)).map (relabelAgg small) := by
  rw [filter_map]
  refine congrArg (List.map _) (filter_congr fun a ha => congrArg p ?_)
  refine Bool.eq_iff_iff.mpr (decide_eq_true_iff.trans (mem_map.trans ?_))
  constructor
  · rintro ⟨b, hb, hid⟩
    obtain rfl := inj_on_of_nodup_map hd.aggregates (mem_filter.mp hb).1 ha hid
    exact (mem_filter.mp hb).2
  · exact fun hm => ⟨a, mem_filter.mpr ⟨ha, hm⟩, rfl⟩

theorem kMergeTeams_cases (hd : Distinct recs) (hrun : kMergeTeams h k recs = .ok (out, small)) :
    smallTeams k recs = [] ∧ out = recs ∨ Relabelled h k recs out := by
  unfold kMergeTeams at hrun
  by_cases hsmall : smallTeams k recs = []
  · rw [if_pos hsmall] at hrun
    cases hrun
    exact .inl ⟨hsmall, rfl⟩
  · rw [if_neg hsmall] at hrun
    obtain ⟨aggregates, hagg, hrun⟩ := bind_eq_ok.mp hrun
    obtain ⟨outcomes, hout, hrun⟩ := bind_eq_ok.mp hrun
    cases hrun
    obtain ⟨merged, hmerged, hagg⟩ := bind_eq_ok.mp hagg
    obtain rfl := pure_eq_ok.mp hagg
    refine .inr ⟨rfl, rfl, rfl, rfl, ⟨merged, ?_, ?_⟩, mapM_eq_ok.mp hout⟩
    · refine (perm_insertionSort _ _).trans (List.Perm.append_right _ ?_)
      have hstay := filter_changed hd (fun b => !b) (smallTeams k recs)
      simp only [decide_not] at hstay ⊢
      rw [hstay]
      rfl
    · have hmoved := filter_changed hd (fun b => b) (smallTeams k recs)
      rw [hmoved] at hmerged
      exact mapM_eq_ok.mp hmerged

/-! ### Aggregates -/

theorem aggAmounts_relabelAgg (a : UsageAggregate) : aggAmounts (relabelAgg small a) = aggAmounts a := rfl

theorem getD_sumOpt (a b : Option Int) : (sumOpt a b).getD 0 = a.getD 0 + b.getD 0 := by
  cases a with
  | none => exact (zero_add _).symm
  | some a =>
    cases b with
    | none => exact (add_zero _).symm
    | some b => rfl

/-- The amounts added up in a group. -/
theorem amounts_fold {rest : List UsageAggregate} {u usage : UsageBuckets} (r l : Option Int)
    (hu : rest.foldlM (fun usage a => usage.add a.usage) u = .ok usage) :
    (count usage.toUsageCounts, reasoning usage.toUsageCounts,
      (rest.foldl (fun sum a => sumOpt sum a.reportedCostNano) r).getD 0,
      (rest.foldl (fun sum a => sumOpt sum a.listCostNano) l).getD 0) =
    (count u.toUsageCounts, reasoning u.toUsageCounts, r.getD 0, l.getD 0) + (rest.map aggAmounts).sum := by
  induction rest generalizing u r l with
  | nil =>
    obtain rfl := pure_eq_ok.mp hu
    exact (add_zero _).symm
  | cons a rest ih =>
    rw [foldlM_cons] at hu
    obtain ⟨v, hv, hu⟩ := bind_eq_ok.mp hu
    obtain ⟨hcount, hreasoning⟩ := count_add hv
    rw [foldl_cons, foldl_cons, ih _ _ hu, map_cons, sum_cons, ← add_assoc]
    congr 1
    rw [hcount, hreasoning, getD_sumOpt, getD_sumOpt]
    rfl

theorem mergeGroup_spec {first m : UsageAggregate} {rest : List UsageAggregate}
    (hm : mergeGroup h first rest = .ok m) :
    m.aggId = mergedId h first ∧ m.dims = first.dims ∧ remainingKey m = remainingKey first ∧
      aggAmounts m = ((first :: rest).map aggAmounts).sum := by
  obtain ⟨usage, hu, hm⟩ := bind_eq_ok.mp hm
  obtain rfl := pure_eq_ok.mp hm
  refine ⟨rfl, rfl, rfl, ?_⟩
  rw [map_cons, sum_cons]
  exact amounts_fold first.reportedCostNano first.listCostNano hu

theorem remainingKey_of_aggKey (hk : aggKey a = aggKey b) : remainingKey a = remainingKey b := by
  simp only [aggKey, AggKey.mk.injEq] at hk
  simp only [remainingKey, hk]

theorem dims_of_aggKey (hk : aggKey a = aggKey b) : a.dims = b.dims :=
  congrArg AggKey.dims hk

theorem idText_of_aggKey (hk : aggKey a = aggKey b) : idText a = idText b := by
  simp only [aggKey, AggKey.mk.injEq] at hk
  simp only [idText, idParts, hk]

theorem mergedId_of_idText (ht : idText a = idText b) : mergedId h a = mergedId h b := by
  unfold mergedId Hashes.stableId
  unfold idText at ht
  rw [ht]

theorem first_of_group {κ : Type} [DecidableEq κ] {key : α → κ} {xs : List α} {g : κ × α × List α}
    (hg : g ∈ groupsOf key xs) : g.2.1 ∈ xs ∧ ∀ x ∈ g.2.1 :: g.2.2, x ∈ xs ∧ key x = g.1 := by
  have hall : ∀ x ∈ g.2.1 :: g.2.2, x ∈ xs ∧ key x = g.1 := by
    intro x hx
    rw [mem_groupsOf (k := g.1) (g := g.2) hg] at hx
    exact ⟨(mem_filter.mp hx).1, of_decide_eq_true (mem_filter.mp hx).2⟩
  exact ⟨(hall _ mem_cons_self).1, hall⟩

theorem staying_append_moved (k : Nat) (recs : Records) :
    (staying k recs ++ moved k recs).Perm (recs.aggregates.map (relabelAgg (smallTeams k recs))) := by
  unfold staying moved
  rw [← map_append]
  refine List.Perm.map _ (perm_append_comm.trans ?_)
  exact filter_append_perm _ _

/-- Under every key of the remaining dimensions the aggregates add up to what they did. -/
theorem aggregates_sum (hr : Relabelled h k recs out)
    (key : RemainingKey) :
    ((out.aggregates.filter fun a => decide (remainingKey a = key)).map aggAmounts).sum =
      ((recs.aggregates.filter fun a => decide (remainingKey a = key)).map aggAmounts).sum := by
  obtain ⟨merged, hperm, hmerged⟩ := hr.aggregates
  have hparts : List.Forall₂ (fun part m => (∀ x ∈ part, remainingKey x = remainingKey m) ∧
      aggAmounts m = (part.map aggAmounts).sum)
      ((groupsOf aggKey (moved k recs)).map fun g => g.2.1 :: g.2.2) merged := by
    rw [forall₂_map_left_iff]
    refine forall₂_imp_of_mem hmerged fun g hg m _ hm => ?_
    obtain ⟨-, -, hkey, hsum⟩ := mergeGroup_spec hm
    refine ⟨fun x hx => ?_, hsum⟩
    have hall := (first_of_group hg).2
    rw [hkey]
    exact remainingKey_of_aggKey ((hall x hx).2.trans (hall _ mem_cons_self).2.symm)
  have hgroups := groupsOf_perm aggKey (moved k recs)
  rw [flatMap_def] at hgroups
  have hsource : ((recs.aggregates.filter fun a => decide (remainingKey a = key)).map aggAmounts).sum =
      (((recs.aggregates.map (relabelAgg (smallTeams k recs))).filter
        fun a => decide (remainingKey a = key)).map aggAmounts).sum := by
    simp only [filter_map, map_map, Function.comp_def, remainingKey_relabelAgg,
      aggAmounts_relabelAgg]
  rw [((hperm.filter _).map _).sum_eq, filter_append, map_append, sum_append,
    sum_regroup hparts, ((hgroups.filter _).map _).sum_eq, hsource,
    (((staying_append_moved k recs).filter _).map _).sum_eq.symm, filter_append, map_append,
    sum_append]

theorem map_merged {f : UsageAggregate → κ} {g : UsageAggregate → κ} {merged : List UsageAggregate}
    (hmerged : List.Forall₂ (fun g m => mergeGroup h g.2.1 g.2.2 = .ok m)
      (groupsOf aggKey (moved k recs)) merged)
    (hfg : ∀ first rest m, mergeGroup h first rest = .ok m → f m = g first) :
    merged.map f = (groupsOf aggKey (moved k recs)).map fun e => g e.2.1 :=
  (map_eq_of_forall₂ (hmerged.imp fun e m hm => (hfg e.2.1 e.2.2 m hm).symm)).symm

/-- The ids are distinct exactly when the records that share one are merged and no other has it. -/
theorem aggregates_distinct (hd : Distinct recs) (hr : Relabelled h k recs out)
    (hsha : ∀ a ∈ moved k recs, ∀ b ∈ moved k recs, mergedId h a = mergedId h b → idText a = idText b) :
    (out.aggregates.map (·.aggId)).Nodup ↔
      (∀ a ∈ moved k recs, ∀ b ∈ moved k recs, idText a = idText b → aggKey a = aggKey b) ∧
      ∀ a ∈ moved k recs, ∀ b ∈ recs.aggregates, isMoved (smallTeams k recs) b = false →
        b.aggId ≠ mergedId h a := by
  obtain ⟨merged, hperm, hmerged⟩ := hr.aggregates
  have hids := map_merged (f := (·.aggId)) hmerged fun first rest m hm => (mergeGroup_spec hm).1
  have hstay : (staying k recs).map (·.aggId) =
      (recs.aggregates.filter fun a => !isMoved (smallTeams k recs) a).map (·.aggId) := by
    unfold staying
    rw [map_map]
    rfl
  have hnodup : ((recs.aggregates.filter fun a => !isMoved (smallTeams k recs) a).map (·.aggId)).Nodup :=
    hd.aggregates.sublist (filter_sublist.map _)
  have hgroups : (groupsOf aggKey (moved k recs)).Nodup := (keys_groupsOf_nodup _ _).of_map
  -- every moved aggregate has the id of the first one of its group
  have hfirst : ∀ a ∈ moved k recs, ∃ g ∈ groupsOf aggKey (moved k recs), g.1 = aggKey a ∧
      idText g.2.1 = idText a := by
    intro a ha
    obtain ⟨g, hg⟩ := exists_group aggKey ha
    exact ⟨_, hg, rfl, idText_of_aggKey ((first_of_group hg).2 _ mem_cons_self).2⟩
  rw [(hperm.map _).nodup_iff, map_append, nodup_append', hids, hstay]
  constructor
  · rintro ⟨-, hmergedNodup, hdisj⟩
    refine ⟨fun a ha b hb htext => ?_, fun a ha b hb hnot he => ?_⟩
    · obtain ⟨g, hg, hga, hgt⟩ := hfirst a ha
      obtain ⟨g', hg', hgb, hgt'⟩ := hfirst b hb
      obtain rfl := inj_on_of_nodup_map hmergedNodup hg hg'
        (mergedId_of_idText (hgt.trans (htext.trans hgt'.symm)))
      exact hga.symm.trans hgb
    · obtain ⟨g, hg, -, hgt⟩ := hfirst a ha
      refine hdisj (mem_map.mpr ⟨b, mem_filter.mpr ⟨hb, by rw [hnot]; rfl⟩, he⟩) ?_
      exact mem_map.mpr ⟨g, hg, mergedId_of_idText hgt⟩
  · rintro ⟨hsame, hfresh⟩
    refine ⟨hnodup, List.Nodup.map_on (fun g hg g' hg' he => ?_) hgroups, fun id hid hid' => ?_⟩
    · obtain ⟨hmem, hkey⟩ := first_of_group hg
      obtain ⟨hmem', hkey'⟩ := first_of_group hg'
      have hk := hsame _ hmem _ hmem' (hsha _ hmem _ hmem' he)
      rw [(hkey _ mem_cons_self).2, (hkey' _ mem_cons_self).2] at hk
      exact inj_on_of_nodup_map (keys_groupsOf_nodup _ _) hg hg' hk
    · obtain ⟨b, hb, rfl⟩ := mem_map.mp hid
      obtain ⟨g, hg, he⟩ := mem_map.mp hid'
      refine hfresh _ (first_of_group hg).1 b (mem_filter.mp hb).1 ?_ he.symm
      simpa using (mem_filter.mp hb).2

/-! ### Outcomes -/

/-- A separator the source kinds do not have separates them from the teams. -/
theorem team_source_inj {t' s s' : String} (hs : '\x1f' ∉ s.toList) (hs' : '\x1f' ∉ s'.toList)
    (he : t ++ "\x1f" ++ s = t' ++ "\x1f" ++ s') : t = t' ∧ s = s' := by
  have hlist : t.toList ++ '\x1f' :: s.toList = t'.toList ++ '\x1f' :: s'.toList := by
    have := congrArg String.toList he
    simpa [String.toList_append] using this
  rcases append_eq_append_iff.mp hlist with ⟨as, ht, hrest⟩ | ⟨as, ht, hrest⟩
  · cases as with
    | nil =>
      obtain ⟨-, hrest⟩ := List.cons.inj hrest
      rw [append_nil] at ht
      exact ⟨String.toList_injective ht.symm, String.toList_injective hrest⟩
    | cons c as =>
      obtain ⟨-, hrest⟩ := List.cons.inj hrest
      exact absurd (hrest ▸ mem_append_right as mem_cons_self) hs
  · cases as with
    | nil =>
      obtain ⟨-, hrest⟩ := List.cons.inj hrest
      rw [append_nil] at ht
      exact ⟨String.toList_injective ht, String.toList_injective hrest.symm⟩
    | cons c as =>
      obtain ⟨-, hrest⟩ := List.cons.inj hrest
      exact absurd (hrest ▸ mem_append_right as mem_cons_self) hs'

theorem outcomeKey_inj {o' : OutcomeAggregate} (hs : '\x1f' ∉ o.sourceKind.toList)
    (hs' : '\x1f' ∉ o'.sourceKind.toList) (hk : outcomeKey o = outcomeKey o') :
    o.team = o'.team ∧ outcomeSource o = outcomeSource o' := by
  obtain ⟨hdate, htext⟩ := Prod.mk.inj hk
  obtain ⟨hteam, hsource⟩ := team_source_inj hs hs' htext
  exact ⟨hteam, Prod.ext hdate hsource⟩

theorem checkOutcome_eq_ok {m : OutcomeAggregate} (hm : checkOutcome o = .ok m) : m = o := by
  unfold checkOutcome at hm
  split at hm
  · cases hm
  · split at hm
    · cases hm
    · exact (Except.ok.inj hm).symm

/-- Fields that are added up, read by their name. -/
theorem named_sum (fields : List (String × (α → ℕ))) (xs : List α) (name : String) :
    (((fields.map fun f => (f.1, (xs.map f.2).sum)).filter fun c => decide (c.1 = name)).map (·.2)).sum =
      (xs.map fun x => (((fields.map fun f => (f.1, f.2 x)).filter fun c =>
        decide (c.1 = name)).map (·.2)).sum).sum := by
  induction fields with
  | nil => simp
  | cons f fields ih =>
    by_cases hf : f.1 = name
    · simp only [map_cons, filter_cons, hf, decide_true, if_true, sum_cons, ih,
        sum_map_add]
    · simp only [map_cons, filter_cons, hf, decide_false, Bool.false_eq_true, if_false, ih]

/-- The fields of an outcome that are counted. -/
def outcomeFields : List (String × (OutcomeAggregate → ℕ)) :=
  [("n_users", (·.nUsers)), ("sessions", (·.sessions)), ("commits", (·.commits)),
   ("pull_requests", (·.pullRequests)), ("lines_added", (·.linesAdded)), ("lines_removed", (·.linesRemoved)),
   ("edits_accepted", (·.editsAccepted)), ("edits_rejected", (·.editsRejected))]

theorem extra_sum (items : List OutcomeAggregate) (name : String) :
    ((((tally (items.flatMap (·.extra))).insertionSort fun a b => a.1 ≤ b.1).filter fun c =>
        decide (c.1 = name)).map (·.2)).sum =
      (items.map fun o => ((o.extra.filter fun c => decide (c.1 = name)).map (·.2)).sum).sum := by
  rw [(((perm_insertionSort _ _).filter _).map _).sum_eq,
    sum_tally (items.flatMap (·.extra)) fun x => decide (x = name), flatMap_def, filter_flatten,
    map_flatten, sum_flatten]
  simp only [map_map, Function.comp_def]

theorem mergeOutcome_spec {first m : OutcomeAggregate} {rest : List OutcomeAggregate}
    (hm : mergeOutcome first rest = .ok m) :
    m.team = first.team ∧ outcomeSource m = outcomeSource first ∧
      counters m = ((first :: rest).map counters).sum := by
  unfold mergeOutcome at hm
  split at hm
  · rename_i hrest
    obtain rfl := Except.ok.inj hm
    exact ⟨rfl, rfl, by rw [hrest]; simp⟩
  · obtain rfl := checkOutcome_eq_ok hm
    refine ⟨rfl, rfl, funext fun name => ?_⟩
    rw [Pi.list_sum_apply, map_map]
    simp only [counters, filter_append, map_append, sum_append, Function.comp_def]
    rw [extra_sum, sum_map_add]
    congr 1
    exact named_sum outcomeFields (first :: rest) name

theorem outcomeKey_eq {o' : OutcomeAggregate} (ht : o.team = o'.team) (hs : outcomeSource o = outcomeSource o') :
    outcomeKey o = outcomeKey o' := by
  obtain ⟨hdate, hsource⟩ := Prod.mk.inj hs
  simp only [outcomeKey, ht, hdate, hsource]

theorem group_outcomes (hsep : ∀ o ∈ recs.outcomes, '\x1f' ∉ o.sourceKind.toList)
    {g : (Nat × String) × OutcomeAggregate × List OutcomeAggregate}
    (hg : g ∈ groupsOf outcomeKey (recs.outcomes.map (relabelOutcome small))) :
    ∀ o ∈ g.2.1 :: g.2.2, o.team = g.2.1.team ∧ outcomeSource o = outcomeSource g.2.1 := by
  have hall := (first_of_group hg).2
  have hsource : ∀ o ∈ g.2.1 :: g.2.2, '\x1f' ∉ o.sourceKind.toList := by
    intro o ho
    obtain ⟨o', ho', rfl⟩ := mem_map.mp (hall o ho).1
    exact hsep o' ho'
  intro o ho
  exact outcomeKey_inj (hsource o ho) (hsource _ mem_cons_self)
    ((hall o ho).2.trans (hall _ mem_cons_self).2.symm)

/-- Under every date and source the outcomes add up to what they did. -/
theorem outcomes_sum (hsep : ∀ o ∈ recs.outcomes, '\x1f' ∉ o.sourceKind.toList)
    (hr : Relabelled h k recs out) (key : Nat × String) :
    ((out.outcomes.filter fun o => decide (outcomeSource o = key)).map counters).sum =
      ((recs.outcomes.filter fun o => decide (outcomeSource o = key)).map counters).sum := by
  have hparts : List.Forall₂ (fun part m => (∀ x ∈ part, outcomeSource x = outcomeSource m) ∧
      counters m = (part.map counters).sum)
      ((groupsOf outcomeKey (recs.outcomes.map (relabelOutcome (smallTeams k recs)))).map
        fun g => g.2.1 :: g.2.2) out.outcomes := by
    rw [forall₂_map_left_iff]
    refine forall₂_imp_of_mem hr.outcomes fun g hg m _ hm => ?_
    obtain ⟨-, hsource, hsum⟩ := mergeOutcome_spec hm
    exact ⟨fun o ho => ((group_outcomes hsep hg o ho).2).trans hsource.symm, hsum⟩
  have hgroups := groupsOf_perm outcomeKey (recs.outcomes.map (relabelOutcome (smallTeams k recs)))
  rw [flatMap_def] at hgroups
  rw [sum_regroup hparts, ((hgroups.filter _).map _).sum_eq, filter_map, map_map]
  rfl

theorem outcomes_distinct (hr : Relabelled h k recs out) : (out.outcomes.map outcomeKey).Nodup := by
  have hkeys : List.Forall₂ (fun g m => g.1 = outcomeKey m)
      (groupsOf outcomeKey (recs.outcomes.map (relabelOutcome (smallTeams k recs)))) out.outcomes := by
    refine forall₂_imp_of_mem hr.outcomes fun g hg m _ hm => ?_
    obtain ⟨hteam, hsource, -⟩ := mergeOutcome_spec hm
    rw [outcomeKey_eq hteam hsource]
    exact ((first_of_group hg).2 _ mem_cons_self).2.symm
  rw [← map_eq_of_forall₂ hkeys]
  exact keys_groupsOf_nodup _ _

theorem relabelOutcome_eq (ho : (relabelOutcome small o).team ≠ otherTeam) : relabelOutcome small o = o := by
  unfold relabelOutcome relabel at ho ⊢
  split
  · rename_i hs
    rw [if_pos hs] at ho
    exact absurd rfl ho
  · rfl

theorem group_of_kept (hsep : ∀ o ∈ recs.outcomes, '\x1f' ∉ o.sourceKind.toList) (hd : Distinct recs)
    {g : (Nat × String) × OutcomeAggregate × List OutcomeAggregate}
    (hg : g ∈ groupsOf outcomeKey (recs.outcomes.map (relabelOutcome small))) (ho : g.2.1.team ≠ otherTeam) :
    g.2.2 = [] ∧ g.2.1 ∈ recs.outcomes := by
  have hgroup := mem_groupsOf (k := g.1) (g := g.2) hg
  have hsub : (g.2.1 :: g.2.2).Sublist recs.outcomes := by
    have hids : ∀ o ∈ recs.outcomes.filter ((fun o => decide (outcomeKey o = g.1)) ∘ relabelOutcome small),
        relabelOutcome small o = id o := by
      intro o hmem
      refine relabelOutcome_eq ?_
      have hin : relabelOutcome small o ∈ g.2.1 :: g.2.2 := by
        rw [hgroup, filter_map]
        exact mem_map_of_mem hmem
      rw [(group_outcomes hsep hg _ hin).1]
      exact ho
    rw [hgroup, filter_map, map_congr_left hids, map_id]
    exact filter_sublist
  refine ⟨?_, hsub.subset mem_cons_self⟩
  cases hrest : g.2.2 with
  | nil => rfl
  | cons o rest =>
    have hnodup := hd.outcomes.sublist (hsub.map outcomeKey)
    rw [hrest, map_cons, map_cons, nodup_cons] at hnodup
    have hall := (first_of_group hg).2
    have hsame : outcomeKey g.2.1 = outcomeKey o := by
      rw [(hall _ mem_cons_self).2, (hall o (by rw [hrest]; simp)).2]
    exact absurd (hsame ▸ mem_cons_self) hnodup.1

theorem mem_outcomes_iff (hsep : ∀ o ∈ recs.outcomes, '\x1f' ∉ o.sourceKind.toList) (hd : Distinct recs)
    (hr : Relabelled h k recs out) (ho : o.team ≠ otherTeam)
    (hs : o.team ∉ smallTeams k recs) : o ∈ out.outcomes ↔ o ∈ recs.outcomes := by
  constructor
  · intro hmem
    obtain ⟨g, hg, hm⟩ := exists_of_mem_right hr.outcomes hmem
    obtain ⟨hrest, hfirst⟩ := group_of_kept hsep hd hg (by rw [← (mergeOutcome_spec hm).1]; exact ho)
    rw [hrest, mergeOutcome, if_pos rfl] at hm
    exact Except.ok.inj hm ▸ hfirst
  · intro hmem
    have hsame : relabelOutcome (smallTeams k recs) o = o := by
      unfold relabelOutcome relabel
      rw [if_neg hs]
    have hrel : o ∈ recs.outcomes.map (relabelOutcome (smallTeams k recs)) :=
      mem_map.mpr ⟨o, hmem, hsame⟩
    obtain ⟨g, hg⟩ := exists_group outcomeKey hrel
    have hin : o ∈ g.1 :: g.2 := by
      rw [mem_groupsOf hg]
      exact mem_filter.mpr ⟨hrel, decide_eq_true rfl⟩
    have hteam := (group_outcomes hsep hg o hin).1
    obtain ⟨hrest, -⟩ := group_of_kept hsep hd hg (by rw [← hteam]; exact ho)
    obtain ⟨m, hm, hmerge⟩ := exists_of_mem_left hr.outcomes hg
    simp only at hrest hmerge
    rw [hrest, mergeOutcome, if_pos rfl] at hmerge
    rw [hrest, mem_singleton] at hin
    rw [hin, Except.ok.inj hmerge]
    exact hm

/-! ### Labels -/

theorem people_relabelled (hr : Relabelled h k recs out) (ho : t ≠ otherTeam)
    (hs : t ∉ smallTeams k recs) : people out t = people recs t := by
  have hlicenses := filter_relabelled LicenseSnapshot.team (·.principal) ho hs
    (f := relabelLicense (smallTeams k recs)) (fun _ => rfl) (fun _ => rfl) recs.licenses
  have hactivity := filter_relabelled ActivityDay.team (·.principal) ho hs
    (f := relabelActivity (smallTeams k recs)) (fun _ => rfl) (fun _ => rfl) recs.activity
  have hlines := filter_relabelled CostLine.team (·.principal) ho hs
    (f := relabelLine (smallTeams k recs)) (fun _ => rfl) (fun _ => rfl) recs.costLines
  have hmap : ∀ l : List CostLine, l.filterMap (·.principal) = (l.map (·.principal)).filterMap id := by
    intro l
    rw [filterMap_map]
    rfl
  unfold people
  rw [hr.licenses, hr.activity, hr.costLines, hlicenses, hactivity, hmap, hlines, hmap]

theorem covered_iff (hsep : ∀ o ∈ recs.outcomes, '\x1f' ∉ o.sourceKind.toList) (hd : Distinct recs)
    (hr : Relabelled h k recs out) (ho : t ≠ otherTeam) (hs : t ∉ smallTeams k recs) :
    Covered k out t ↔ Covered k recs t := by
  unfold Covered
  rw [people_relabelled hr ho hs]
  refine or_congr_right (exists_congr fun o => ?_)
  constructor
  · rintro ⟨hmem, rfl, hk⟩
    exact ⟨(mem_outcomes_iff hsep hd hr ho hs).mp hmem, rfl, hk⟩
  · rintro ⟨hmem, rfl, hk⟩
    exact ⟨(mem_outcomes_iff hsep hd hr ho hs).mpr hmem, rfl, hk⟩

theorem filterMap_relabelled {f : α → α} (team : α → Option String)
    (hteam : ∀ x, team (f x) = relabelTeam small (team x)) (l : List α) :
    (l.map f).filterMap team = (l.filterMap team).map (relabel small) := by
  rw [filterMap_map, map_filterMap]
  exact filterMap_congr fun x _ => hteam x

theorem dims_iff (hr : Relabelled h k recs out) (dims : List (String × String)) :
    (∃ a ∈ out.aggregates, a.dims = dims) ↔
      ∃ a ∈ recs.aggregates, (relabelAgg (smallTeams k recs) a).dims = dims := by
  obtain ⟨merged, hperm, hmerged⟩ := hr.aggregates
  have hall : ∀ a ∈ recs.aggregates, relabelAgg (smallTeams k recs) a ∈ staying k recs ++ moved k recs :=
    fun a ha => (staying_append_moved k recs).mem_iff.mpr (mem_map_of_mem ha)
  have hsource : ∀ b ∈ staying k recs ++ moved k recs,
      ∃ a ∈ recs.aggregates, relabelAgg (smallTeams k recs) a = b :=
    fun b hb => mem_map.mp ((staying_append_moved k recs).mem_iff.mp hb)
  constructor
  · rintro ⟨a, ha, rfl⟩
    rcases mem_append.mp (hperm.mem_iff.mp ha) with ha | ha
    · obtain ⟨b, hb, rfl⟩ := hsource a (mem_append_left _ ha)
      exact ⟨b, hb, rfl⟩
    · obtain ⟨g, hg, hm⟩ := exists_of_mem_right hmerged ha
      obtain ⟨b, hb, hfirst⟩ := hsource g.2.1 (mem_append_right _ (first_of_group hg).1)
      exact ⟨b, hb, by rw [hfirst, (mergeGroup_spec hm).2.1]⟩
  · rintro ⟨a, ha, rfl⟩
    rcases mem_append.mp (hall a ha) with ha | ha
    · exact ⟨_, hperm.mem_iff.mpr (mem_append_left _ ha), rfl⟩
    · obtain ⟨g, hg⟩ := exists_group aggKey ha
      obtain ⟨m, hm, hmerge⟩ := exists_of_mem_left hmerged hg
      refine ⟨m, hperm.mem_iff.mpr (mem_append_right _ hm), ?_⟩
      rw [(mergeGroup_spec hmerge).2.1]
      exact dims_of_aggKey ((first_of_group hg).2 _ mem_cons_self).2

theorem outcome_team_iff (hsep : ∀ o ∈ recs.outcomes, '\x1f' ∉ o.sourceKind.toList)
    (hr : Relabelled h k recs out) (t : String) :
    (∃ o ∈ out.outcomes, o.team = t) ↔ ∃ o ∈ recs.outcomes, relabel (smallTeams k recs) o.team = t := by
  constructor
  · rintro ⟨o, ho, rfl⟩
    obtain ⟨g, hg, hm⟩ := exists_of_mem_right hr.outcomes ho
    obtain ⟨o', ho', hfirst⟩ := mem_map.mp (first_of_group hg).1
    exact ⟨o', ho', by rw [(mergeOutcome_spec hm).1, ← hfirst]; rfl⟩
  · rintro ⟨o, ho, rfl⟩
    have hrel := mem_map_of_mem (f := relabelOutcome (smallTeams k recs)) ho
    obtain ⟨g, hg⟩ := exists_group outcomeKey hrel
    obtain ⟨m, hm, hmerge⟩ := exists_of_mem_left hr.outcomes hg
    have hin : relabelOutcome (smallTeams k recs) o ∈ g.1 :: g.2 := by
      rw [mem_groupsOf hg]
      exact mem_filter.mpr ⟨hrel, decide_eq_true rfl⟩
    exact ⟨m, hm, (mergeOutcome_spec hmerge).1.trans (group_outcomes hsep hg _ hin).1.symm⟩

theorem mem_labels_iff (hsep : ∀ o ∈ recs.outcomes, '\x1f' ∉ o.sourceKind.toList) (hr : Relabelled h k recs out) :
    t ∈ labels out ↔ ∃ x ∈ labels recs, relabel (smallTeams k recs) x = t := by
  have hagg : t ∈ out.aggregates.flatMap teamDims ↔
      t ∈ (recs.aggregates.flatMap teamDims).map (relabel (smallTeams k recs)) := by
    rw [map_flatMap]
    simp only [← teamDims_relabelAgg, mem_flatMap]
    constructor
    · rintro ⟨a, ha, ht⟩
      obtain ⟨b, hb, hd⟩ := (dims_iff hr a.dims).mp ⟨a, ha, rfl⟩
      exact ⟨b, hb, teamDims_eq_of_dims hd ▸ ht⟩
    · rintro ⟨a, ha, ht⟩
      obtain ⟨b, hb, hd⟩ := (dims_iff hr _).mpr ⟨a, ha, rfl⟩
      exact ⟨b, hb, teamDims_eq_of_dims hd ▸ ht⟩
  have hout : t ∈ out.outcomes.map (·.team) ↔
      t ∈ (recs.outcomes.map (·.team)).map (relabel (smallTeams k recs)) := by
    rw [map_map, mem_map, mem_map]
    exact outcome_team_iff hsep hr t
  unfold labels
  rw [hr.licenses, hr.activity, hr.costLines, hr.config,
    filterMap_relabelled LicenseSnapshot.team (fun _ => rfl),
    filterMap_relabelled ActivityDay.team (fun _ => rfl),
    filterMap_relabelled CostLine.team (fun _ => rfl),
    filterMap_relabelled (fun c : ConfigSnapshot => teamOfAttrs c.attrs) teamOfAttrs_relabelConfig]
  rw [← mem_map]
  simp only [map_append, mem_append, hagg, hout]

theorem covered_of_kept (ht : t ∈ labels recs) (hs : t ∉ smallTeams k recs) :
    t = otherTeam ∨ isBracketed t ∨ Covered k recs t := by
  unfold smallTeams at hs
  simp only [mem_filter, ht, true_and, Bool.and_eq_true, decide_eq_true_eq, Bool.not_eq_true',
    not_and, Bool.not_eq_false] at hs
  by_cases ho : t = otherTeam
  · exact .inl ho
  by_cases hp : k ≤ (people recs t).length
  · exact .inr (.inr (.inl hp))
  by_cases hout : outcomeOk k recs t
  · obtain ⟨o, hmem, hk⟩ := any_eq_true.mp hout
    simp only [Bool.and_eq_true, decide_eq_true_eq] at hk
    exact .inr (.inr (.inr ⟨o, hmem, hk⟩))
  · exact .inr (.inl (hs ⟨⟨ho, by omega⟩, by simpa using hout⟩))

theorem not_small_of_bracketed (k : Nat) (recs : Records) (hb : isBracketed t) : t ∉ smallTeams k recs := by
  intro ht
  have := (mem_filter.mp ht).2
  simp [hb] at this

/-- Every team afterwards is covered exactly when every label in parentheses was allowed. -/
theorem covered_labels_iff (hsep : ∀ o ∈ recs.outcomes, '\x1f' ∉ o.sourceKind.toList) (hd : Distinct recs)
    (hr : Relabelled h k recs out) :
    (∀ t ∈ labels out, t = otherTeam ∨ Reserved t ∨ Covered k out t) ↔
      ∀ t ∈ labels recs, isBracketed t → t = otherTeam ∨ Reserved t ∨ Covered k recs t := by
  constructor
  · intro hall t ht hb
    have hs := not_small_of_bracketed k recs hb
    have hout : t ∈ labels out := (mem_labels_iff hsep hr).mpr ⟨t, ht, if_neg hs⟩
    rcases hall t hout with ho | hres | hc
    · exact .inl ho
    · exact .inr (.inl hres)
    · by_cases ho : t = otherTeam
      · exact .inl ho
      · exact .inr (.inr ((covered_iff hsep hd hr ho hs).mp hc))
  · intro hall t ht
    obtain ⟨x, hx, hrel⟩ := (mem_labels_iff hsep hr).mp ht
    by_cases ho : t = otherTeam
    · exact .inl ho
    have hs : x ∉ smallTeams k recs := fun hs => ho (hrel.symm.trans (if_pos hs))
    obtain rfl : x = t := (if_neg hs).symm.trans hrel
    rcases covered_of_kept hx hs with ho | hb | hc
    · exact .inl ho
    · rcases hall x hx hb with ho | hres | hc
      · exact .inl ho
      · exact .inr (.inl hres)
      · exact .inr (.inr ((covered_iff hsep hd hr ho hs).mpr hc))
    · exact .inr (.inr ((covered_iff hsep hd hr ho hs).mpr hc))

/-! ### The theorem -/

theorem config_distinct (hd : Distinct recs) (hr : Relabelled h k recs out) :
    (out.config.map configKey).Nodup ↔ ∀ c ∈ recs.config, ∀ c' ∈ recs.config,
      configKey (relabelConfig (smallTeams k recs) c) = configKey (relabelConfig (smallTeams k recs) c') →
        c = c' := by
  rw [hr.config, map_map, nodup_map_iff_inj_on hd.config.of_map]
  rfl

theorem relabelConfig_nil (c : ConfigSnapshot) : relabelConfig [] c = c := by
  unfold relabelConfig
  rw [if_neg]
  cases teamOfAttrs c.attrs <;> simp

/-- Merging the small teams does what it promises exactly when the records can be merged: a label in
parentheses is one of the tool or of enough people, and no id stands for two records. -/
theorem kMergeTeams_iff (h : Hashes) (small : List String) (hd : Distinct recs) (hsep : ∀ o ∈ recs.outcomes, '\x1f' ∉ o.sourceKind.toList)
    (hsha : ∀ a ∈ moved k recs, ∀ b ∈ moved k recs, mergedId h a = mergedId h b → idText a = idText b)
    (hrun : kMergeTeams h k recs = .ok (out, small)) : Merged k recs out ↔ Mergeable h k recs := by
  rcases kMergeTeams_cases hd hrun with ⟨hnone, hout⟩ | hr
  · obtain rfl : recs = out := hout.symm
    have hmoved : ∀ a ∈ recs.aggregates, isMoved (smallTeams k recs) a = false := by
      intro a _
      rw [hnone]
      simp [isMoved]
    have hno : ∀ a, a ∉ moved k recs := by
      intro a ha
      obtain ⟨b, hb, -⟩ := mem_map.mp ha
      obtain ⟨hin, hnames⟩ := mem_filter.mp hb
      rw [hmoved b hin] at hnames
      cases hnames
    constructor
    · refine fun hm => ⟨fun t ht _ => hm.covered t ht, fun a ha => absurd ha (hno a),
        fun a ha => absurd ha (hno a), fun c hc c' hc' he => ?_⟩
      rw [hnone, relabelConfig_nil, relabelConfig_nil] at he
      exact inj_on_of_nodup_map hd.config hc hc' he
    · refine fun hm => ⟨fun t ht => ?_, fun _ => rfl, rfl, fun _ => rfl, hd⟩
      rcases covered_of_kept ht (by rw [hnone]; exact not_mem_nil) with ho | hb | hc
      · exact .inl ho
      · exact hm.brackets t ht hb
      · exact .inr (.inr hc)
  · constructor
    · intro hm
      obtain ⟨hids, hfresh⟩ := (aggregates_distinct hd hr hsha).mp hm.distinct.aggregates
      exact ⟨(covered_labels_iff hsep hd hr).mp hm.covered, hids, hfresh,
        (config_distinct hd hr).mp hm.distinct.config⟩
    · intro hm
      refine ⟨(covered_labels_iff hsep hd hr).mpr hm.brackets, aggregates_sum hr, ?_, outcomes_sum hsep hr,
        ?_, (aggregates_distinct hd hr hsha).mpr ⟨hm.ids, hm.fresh⟩, outcomes_distinct hr, ?_, ?_,
        (config_distinct hd hr).mpr hm.config⟩
      · rw [hr.costLines, map_map]
        rfl
      · rw [hr.costLines, map_map]
        exact hd.costLines
      · rw [hr.licenses, map_map]
        exact hd.licenses
      · rw [hr.activity, map_map]
        exact hd.activity

def teamDay (aggId team : String) (listCostNano : Option Int) : UsageAggregate :=
  { aggId, sourceKind := "github.copilot_metrics", bucketStartMs := 1767225600000, bucketEndMs := 1767312000000,
    dims := [("team", team)], usage := .empty, listCostNano }

/-- The digest of the merged team's day. -/
def dayDigests : Hashes where
  sha256 text :=
    if text = idText (teamDay "" otherTeam none) then
      "a386c5db294dfa26aaf1c7ada8dc34662a40e99ff6c1ce26bf7cbf61a1741bad"
    else text
  hmac _ text := text
  keyId text := text

theorem kMergeTeams_iff_day :
    Merged 5 { aggregates := [teamDay "ag_1" "atlas" (some 300), teamDay "ag_2" "zephyr" (some 700)] }
      { aggregates := [teamDay "ag_a386c5db294dfa26aaf1c7ad" otherTeam (some 1000)] } := by
  refine (kMergeTeams_iff dayDigests ["atlas", "zephyr"] ?_ (by decide) ?_ ?_).mpr
    ⟨?_, ?_, ?_, ?_⟩
  · exact ⟨by decide, by decide, by decide, by decide, by decide, by decide⟩
  · decide +kernel
  · exact toOption_eq_some.mp (by decide)
  · have hnone : ∀ t ∈ labels { aggregates := [teamDay "ag_1" "atlas" (some 300),
        teamDay "ag_2" "zephyr" (some 700)] }, isBracketed t = false := by decide
    intro t ht hb
    rw [hnone t ht] at hb
    cases hb
  · decide +kernel
  · decide +kernel
  · decide

/-- Of two small teams one has a list cost for the day and one has none. Both are merged apart, to one id. -/
theorem kMergeTeams_same_id : ∃ recs out, Distinct recs ∧ kMergeTeams dayDigests 5 recs =
    .ok (out, ["atlas", "zephyr"]) ∧ ¬ Merged 5 recs out := by
  refine ⟨{ aggregates := [teamDay "ag_1" "atlas" none, teamDay "ag_2" "zephyr" (some 700)] },
    { aggregates := [teamDay "ag_a386c5db294dfa26aaf1c7ad" otherTeam none,
        teamDay "ag_a386c5db294dfa26aaf1c7ad" otherTeam (some 700)] },
    ⟨by decide, by decide, by decide, by decide, by decide, by decide⟩,
    toOption_eq_some.mp (by decide), fun hm => ?_⟩
  exact absurd hm.distinct.aggregates (by decide)

end TokenBill.Copilot.Handoff
