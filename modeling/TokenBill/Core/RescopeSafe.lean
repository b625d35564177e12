import TokenBill.Core.Rescope
import TokenBill.Core.Addable

/-!
# Re-scoping is safe and conserving

Every finding of a run stands for the inputs merged into it: same detector and
kind, same billing class, costs added (`IsMerge`). A run only permutes findings
and merges some of them (`Cover.merge`), so published and withheld findings always
stand for a partition of the inputs. Beside that, each step keeps the published
findings safe and their scopes distinct.
-/

namespace TokenBill.Kanon

open General List

/-! ### Scopes -/

instance : Std.Total scopeLe := ⟨fun a b => le_total (toLex a) (toLex b)⟩

instance : IsTrans (String × String) scopeLe := ⟨fun _ _ _ h h' => le_trans h h'⟩

instance : Std.Antisymm scopeLe := ⟨fun _ _ h h' => toLex.injective (le_antisymm h h')⟩

def scopeBy (p : String → Bool) (scope : Scope) : Scope := sortScope (scope.filter fun d => p d.1)

def billingOf (scope : Scope) : Scope := scopeBy (fun name => decide (name = "billing_class")) scope

theorem sortScope_eq_of_perm {a b : Scope} (h : a.Perm b) : sortScope a = sortScope b :=
  ((perm_insertionSort scopeLe a).trans (h.trans (perm_insertionSort scopeLe b).symm)).eq_of_pairwise'
    (pairwise_insertionSort _ _) (pairwise_insertionSort _ _)

variable {p : String → Bool} {scope : Scope} {m : Finding} {peers sameScope : List Finding}

theorem scopeBy_scopeBy {q : String → Bool} (h : ∀ n, p n = true → q n = true) (scope : Scope) :
    scopeBy p (scopeBy q scope) = scopeBy p scope := by
  refine sortScope_eq_of_perm (((perm_insertionSort _ _).filter _).trans (List.Perm.of_eq ?_))
  rw [filter_filter]
  refine filter_congr fun d _ => ?_
  cases hp : p d.1
  · simp
  · simp [h d.1 hp]

theorem mem_scopeBy {d : String × String} : d ∈ scopeBy p scope ↔ d ∈ scope ∧ p d.1 = true := by
  rw [scopeBy, sortScope, (perm_insertionSort _ _).mem_iff, mem_filter]

theorem mem_scopeNames_scopeBy {n : String} :
    n ∈ scopeNames (scopeBy p scope) ↔ n ∈ scopeNames scope ∧ p n = true := by
  simp only [scopeNames, mem_map, mem_scopeBy]
  constructor
  · rintro ⟨d, ⟨hd, hp⟩, rfl⟩
    exact ⟨⟨d, hd, rfl⟩, hp⟩
  · rintro ⟨⟨d, hd, rfl⟩, hp⟩
    exact ⟨d, ⟨hd, hp⟩, rfl⟩

/-! ### What a merge conserves -/

def triple (f : Finding) : GroupKey := (f.detectorId, f.kind, f.scope)

/-- The finding stands for these inputs; without a count from the store its user count is the
largest of theirs. -/
structure IsMerge (counted : Bool) (part : List Finding) (f : Finding) : Prop where
  ne : part ≠ []
  detector : ∀ g ∈ part, g.detectorId = f.detectorId ∧ g.kind = f.kind
  billing : ∀ g ∈ part, billingOf g.scope = billingOf f.scope
  cost : f.costObserved.amounts = (part.map (·.costObserved.amounts)).sum
  largest : counted = false → ∃ g ∈ part, g.nUsers = f.nUsers

variable {counted : Bool}

/-- The findings stand for a partition of the inputs. -/
def Cover (counted : Bool) (inputs fs : List Finding) : Prop :=
  ∃ ps : List (List Finding × Finding), (∀ p ∈ ps, IsMerge counted p.1 p.2) ∧ (ps.map (·.2)).Perm fs ∧
    (ps.flatMap (·.1)).Perm inputs

theorem Cover.refl (fs : List Finding) : Cover counted fs fs := by
  refine ⟨fs.map fun f => ([f], f), fun p hp => ?_, ?_, ?_⟩
  · obtain ⟨f, -, rfl⟩ := mem_map.mp hp
    exact ⟨by simp, by simp, by simp, by simp, by simp⟩
  · rw [map_map]
    exact List.Perm.of_eq (map_id fs)
  · rw [flatMap_map]
    exact List.Perm.of_eq (by simp)

theorem Cover.perm {inputs fs fs' : List Finding} (h : Cover counted inputs fs) (hp : fs.Perm fs') :
    Cover counted inputs fs' := by
  obtain ⟨ps, h1, h2, h3⟩ := h
  exact ⟨ps, h1, h2.trans hp, h3⟩

theorem sum_costs_of_parts {ps : List (List Finding × Finding)}
    (h : ∀ p ∈ ps, IsMerge counted p.1 p.2) :
    ((ps.map (·.2)).map (·.costObserved.amounts)).sum =
      ((ps.flatMap (·.1)).map (·.costObserved.amounts)).sum := by
  induction ps with
  | nil => rfl
  | cons p ps ih =>
    rw [map_cons, map_cons, sum_cons, (h p mem_cons_self).cost,
      ih fun q hq => h q (mem_cons_of_mem _ hq), flatMap_cons, map_append,
      sum_append]

theorem Cover.merge {inputs children rest : List Finding}
    (h : Cover counted inputs (children ++ rest)) (hm : IsMerge counted children m) : Cover counted inputs (m :: rest) := by
  obtain ⟨ps, h1, h2, h3⟩ := h
  obtain ⟨qs, hq, hmap⟩ := exists_perm_map_eq h2.symm
  obtain ⟨as, bs, rfl, rfl, rfl⟩ := map_eq_append_iff.mp hmap
  have ha : ∀ p ∈ as, IsMerge counted p.1 p.2 := fun p hp =>
    h1 p (hq.mem_iff.mp (mem_append_left _ hp))
  refine ⟨(as.flatMap (·.1), m) :: bs, fun p hp => ?_, by simp, ?_⟩
  · rcases mem_cons.mp hp with rfl | hp
    · refine ⟨?_, ?_, ?_, ?_, ?_⟩
      · obtain ⟨x, hx⟩ := exists_mem_of_ne_nil _ hm.ne
        obtain ⟨p, hp, rfl⟩ := mem_map.mp hx
        obtain ⟨g, hg⟩ := exists_mem_of_ne_nil _ (ha p hp).ne
        exact ne_nil_of_mem (mem_flatMap.mpr ⟨p, hp, hg⟩)
      · intro g hg
        obtain ⟨p, hp, hg⟩ := mem_flatMap.mp hg
        obtain ⟨hd, hk⟩ := (ha p hp).detector g hg
        obtain ⟨hd', hk'⟩ := hm.detector p.2 (mem_map_of_mem hp)
        exact ⟨hd.trans hd', hk.trans hk'⟩
      · intro g hg
        obtain ⟨p, hp, hg⟩ := mem_flatMap.mp hg
        exact ((ha p hp).billing g hg).trans (hm.billing p.2 (mem_map_of_mem hp))
      · rw [hm.cost]
        exact sum_costs_of_parts ha
      · intro hcount
        obtain ⟨x, hx, hn⟩ := hm.largest hcount
        obtain ⟨p, hp, rfl⟩ := mem_map.mp hx
        obtain ⟨g, hg, hgn⟩ := (ha p hp).largest hcount
        exact ⟨g, mem_flatMap.mpr ⟨p, hp, hg⟩, hgn.trans hn⟩
    · exact h1 p (hq.mem_iff.mp (mem_append_right _ hp))
  · refine List.Perm.trans ?_ h3
    refine List.Perm.trans (List.Perm.of_eq ?_) (hq.flatMap_right _)
    rw [flatMap_cons, flatMap_append]

/-- The costs of the findings of one billing class are those of their inputs. -/
theorem sum_costs_of_merges {ps : List (List Finding × Finding)} (h : ∀ p ∈ ps, IsMerge counted p.1 p.2)
    (bc : Scope) :
    (((ps.map (·.2)).filter fun f => decide (billingOf f.scope = bc)).map
        (·.costObserved.amounts)).sum =
      (((ps.flatMap (·.1)).filter fun f => decide (billingOf f.scope = bc)).map
        (·.costObserved.amounts)).sum := by
  induction ps with
  | nil => rfl
  | cons p ps ih =>
    have hp := h p mem_cons_self
    have ih := ih fun q hq => h q (mem_cons_of_mem _ hq)
    rw [map_cons, flatMap_cons, filter_append, map_append, sum_append,
      ← ih]
    by_cases hb : billingOf p.2.scope = bc
    · have hpart : p.1.filter (fun f => decide (billingOf f.scope = bc)) = p.1 :=
        filter_eq_self.mpr fun g hg => by simpa using (hp.billing g hg).trans hb
      rw [filter_cons_of_pos (by simpa using hb), map_cons, sum_cons, hp.cost, hpart]
    · have hpart : p.1.filter (fun f => decide (billingOf f.scope = bc)) = [] :=
        filter_eq_nil_iff.mpr fun g hg => by simpa [hp.billing g hg] using hb
      rw [filter_cons_of_neg (by simpa using hb), hpart]
      simp

/-! ### One merge -/

theorem foldlM_add_amounts {c d : Figure} {fs : List Finding}
    (h : fs.foldlM (fun cost f => add cost f.costObserved) c = .ok d) :
    d.amounts = c.amounts + (fs.map (·.costObserved.amounts)).sum := by
  induction fs generalizing c with
  | nil =>
    obtain rfl := pure_eq_ok.mp h
    simp
  | cons f fs ih =>
    rw [foldlM_cons] at h
    obtain ⟨e, he, h⟩ := bind_eq_ok.mp h
    rw [ih h, amounts_add he, map_cons, sum_cons, add_assoc]

/-- What a merge keeps of the first child, and what it is given. -/
structure MergedFrom (first : Finding) (others : List Finding) (scope : Scope) (nUsers : Nat)
    (m : Finding) : Prop where
  detector : m.detectorId = first.detectorId
  kind : m.kind = first.kind
  category : m.category = first.category
  audience : m.audience = first.audience
  scope : m.scope = scope
  nUsers : m.nUsers = nUsers
  cost : m.costObserved.amounts = ((first :: others).map (·.costObserved.amounts)).sum

theorem mergeFindings_spec {h : Hashes} {uni : Unicode} {first : Finding} {others : List Finding} {nUsers k : Nat}
    (hm : mergeFindings h uni first others scope nUsers k = .ok m) : MergedFrom first others scope nUsers m := by
  obtain ⟨cost, hc, hm⟩ := bind_eq_ok.mp hm
  obtain ⟨_, -, hm⟩ := bind_eq_ok.mp hm
  obtain ⟨_, -, hm⟩ := bind_eq_ok.mp hm
  obtain ⟨_, -, hm⟩ := bind_eq_ok.mp hm
  obtain ⟨_, -, hm⟩ := bind_eq_ok.mp hm
  obtain rfl := pure_eq_ok.mp hm
  exact ⟨rfl, rfl, rfl, rfl, rfl, rfl, foldlM_add_amounts hc⟩

theorem maxUsers_spec (first : Finding) (others : List Finding) :
    ∃ g ∈ first :: others, g.nUsers = maxUsers first others := by
  obtain ⟨-, hmem⟩ := foldl_max_spec first.nUsers (others.map (·.nUsers))
  rw [← map_cons (f := fun f : Finding => f.nUsers)] at hmem
  exact mem_map.mp hmem

/-! ### Absorbing -/

/-- The scopes of the published findings for the organisation are distinct, per detector and
kind. -/
def Distinct (out : List Finding) : Prop :=
  ((out.filter fun f => decide (f.audience = .org)).map triple).Nodup

theorem Distinct.sublist {out out' : List Finding} (h : Distinct out) (hs : out'.Sublist out) :
    Distinct out' := List.Nodup.sublist ((hs.filter _).map _) h

/-- A finding added to the published ones at a scope they do not have. -/
theorem Distinct.append {out : List Finding} (h : Distinct out)
    (hm : ∀ g ∈ out, g.audience = .org → triple g ≠ triple m) : Distinct (out ++ [m]) := by
  unfold Distinct at h ⊢
  rw [filter_append, map_append]
  refine nodup_append'.mpr ⟨h, ?_, fun t ht ht' => ?_⟩
  · exact (nodup_singleton _).sublist (filter_sublist.map triple)
  · obtain ⟨g, hg, rfl⟩ := mem_map.mp ht
    obtain ⟨m', hm', he⟩ := mem_map.mp ht'
    obtain ⟨hg, horg⟩ := mem_filter.mp hg
    rw [mem_singleton.mp (mem_of_mem_filter hm')] at he
    exact hm g hg (by simpa using horg) he.symm

theorem mem_of_absorbedPeers {f : Finding} (hf : f ∈ absorbedPeers sameScope peers) : f ∈ sameScope ∨ f ∈ peers := by
  unfold absorbedPeers at hf
  split at hf
  · exact .inl hf
  · exact .inr ((perm_insertionSort smallnessLe peers).mem_iff.mp (mem_of_mem_take hf))

theorem mem_absorbedPeers {f : Finding} (hf : f ∈ sameScope) : f ∈ absorbedPeers sameScope peers := by
  unfold absorbedPeers
  rw [if_pos (ne_nil_of_mem hf)]
  exact hf

theorem absorbed_perm {out : List Finding} (hd : Distinct out)
    (hsame : ∃ p, sameScope = out.filter p) (hpeers : ∀ f ∈ peers, f ∈ out ∧ f.audience = .org) :
    (absorbedPeers sameScope peers ++ out.filter (· ∉ absorbedPeers sameScope peers)).Perm out := by
  unfold absorbedPeers
  split
  · obtain ⟨p, rfl⟩ := hsame
    have hmem : out.filter (· ∉ out.filter p) = out.filter fun f => !p f := by
      refine filter_congr fun f hf => ?_
      cases hp : p f <;> simp [hf, hp]
    rw [hmem]
    exact filter_append_perm p out
  · cases hs : peers.insertionSort smallnessLe with
    | nil => simp
    | cons x rest =>
      have hx : x ∈ peers := by
        rw [← (perm_insertionSort smallnessLe peers).mem_iff, hs]
        exact mem_cons_self
      obtain ⟨hxo, hxorg⟩ := hpeers x hx
      have horg : x ∈ out.filter fun f => decide (f.audience = .org) :=
        mem_filter.mpr ⟨hxo, by simpa using hxorg⟩
      -- the findings for the organisation are distinct, so `x` stands there once
      have hone : out.filter (fun f => decide (f = x)) = [x] := by
        have hsub : out.filter (fun f => decide (f = x)) =
            (out.filter fun f => decide (f.audience = .org)).filter fun f => decide (f = x) := by
          rw [filter_filter]
          refine filter_congr fun f _ => ?_
          by_cases hf : f = x
          · subst hf
            simp [hxorg]
          · simp [hf]
        rw [hsub, filter_eq, count_eq_one_of_mem (List.Nodup.of_map _ hd) horg]
        rfl
      have hmem : out.filter (· ∉ [x]) = out.filter fun f => !decide (f = x) :=
        filter_congr fun f _ => by simp
      rw [take_succ_cons, take_zero, hmem]
      have hp := filter_append_perm (fun f => decide (f = x)) out
      rwa [hone] at hp

/-! ### What a run keeps -/

/-- A published finding may be shown to the organisation: it is exempt, or it covers `k` users and
names no person. -/
def MayShow (k : Nat) (f : Finding) : Prop :=
  exempt f = true ∨ k ≤ f.nUsers ∧ ∀ n ∈ scopeNames f.scope, n ∉ personDims

/-- A run over the inputs, with the published findings and all the others. `cat` names the
category of a detector's kind. -/
structure Run (counted : Bool) (cat : String → String → Category) (inputs : List Finding) (k : Nat)
    (out rest : List Finding) : Prop where
  cover : Cover counted inputs (out ++ rest)
  safe : ∀ f ∈ out, f.audience = .org → MayShow k f
  distinct : Distinct out
  category : ∀ f ∈ out ++ rest, f.category = cat f.detectorId f.kind

/-- A finding that belongs to a group. -/
structure InGroup (key : GroupKey) (f : Finding) : Prop where
  detector : f.detectorId = key.1
  kind : f.kind = key.2.1
  audience : f.audience = .org
  billing : billingOf f.scope = billingOf key.2.2

section Steps

variable {cat : String → String → Category} {inputs out rest : List Finding} {k : Nat}

theorem Run.perm {rest' : List Finding} (h : Run counted cat inputs k out rest)
    (hp : rest.Perm rest') : Run counted cat inputs k out rest' where
  cover := h.cover.perm (hp.append_left _)
  safe := h.safe
  distinct := h.distinct
  category f hf := h.category f ((hp.append_left _).mem_iff.mpr hf)

theorem Run.publish {m : Finding} (h : Run counted cat inputs k out (m :: rest))
    (hm : m.audience = .org → MayShow k m)
    (hd : ∀ g ∈ out, g.audience = .org → triple g ≠ triple m) :
    Run counted cat inputs k (out ++ [m]) rest where
  cover := by simpa using h.cover
  safe f hf horg := by
    rcases mem_append.mp hf with hf | hf
    · exact h.safe f hf horg
    · rw [mem_singleton.mp hf] at horg ⊢
      exact hm horg
  distinct := h.distinct.append hd
  category f hf := h.category f (by simpa using hf)

/-- What a merge of a group is. -/
structure GroupMerge (key : GroupKey) (children : List Finding) (first : Finding)
    (others : List Finding) (m : Finding) (nUsers : Nat) : Prop where
  mem : ∀ f ∈ first :: others, InGroup key f
  children : ∀ f ∈ children, f ∈ first :: others
  audience : m.audience = .org
  triple : triple m = key
  category : m.category = first.category
  nUsers : m.nUsers = nUsers

variable {h : Hashes} {out' pending' : List Finding} {uni : Unicode} {scope : Scope}
  {count : Option (Finding → Scope → Nat)}

/-- A group merges with the findings it absorbs; `p` selects the findings at its scope and `q` its
peers. -/
theorem Run.absorb (key : GroupKey) {children : List Finding}
    {first m : Finding} {users : Finding → List Finding → Nat} {sameScope peers : List Finding}
    (hrun : Run counted cat inputs k out (children ++ rest))
    (hchildren : ∀ f ∈ children, InGroup key f) (hsame : ∃ p, sameScope = out.filter p)
    (hin : ∀ f, f ∈ sameScope ∨ f ∈ peers → f ∈ out ∧ InGroup key f)
    (hscope : ∀ g ∈ out, g.audience = .org → Kanon.triple g = key → g ∈ sameScope)
    (husers : counted = false → ∀ first others, ∃ g ∈ first :: others, g.nUsers = users first others)
    (hm : Kanon.absorb h uni k out (absorbedPeers sameScope peers) children key.2.2 users =
      .ok (out', first, m)) :
    (∃ others, GroupMerge key children first others m (users first others)) ∧
      Run counted cat inputs k out' (m :: rest) ∧
      ∀ g ∈ out', g.audience = .org → Kanon.triple g ≠ Kanon.triple m := by
  have hperm := absorbed_perm hrun.distinct hsame fun f hf =>
    (hin f (.inr hf)).imp_right (·.audience)
  have habs : ∀ f ∈ absorbedPeers sameScope peers, f ∈ out ∧ InGroup key f :=
    fun f hf => hin f (mem_of_absorbedPeers hf)
  have hscope : ∀ g ∈ out, g.audience = .org → Kanon.triple g = key →
      g ∈ absorbedPeers sameScope peers := fun g hg horg he => mem_absorbedPeers (hscope g hg horg he)
  generalize absorbedPeers sameScope peers = absorbed at *
  unfold Kanon.absorb at hm
  split at hm
  · cases hm
  rename_i first' others hsort
  obtain ⟨m', hmerge, hm⟩ := bind_eq_ok.mp hm
  obtain ⟨rfl, rfl, rfl⟩ : out.filter (· ∉ absorbed) = out' ∧ first' = first ∧ m' = m := by
    simpa using pure_eq_ok.mp hm
  have hfirst : (first' :: others).Perm (children ++ absorbed) := by
    rw [← hsort]
    exact perm_insertionSort _ _
  have hin : ∀ f ∈ first' :: others, InGroup key f := by
    intro f hf
    rcases mem_append.mp (hfirst.mem_iff.mp hf) with hf | hf
    · exact hchildren f hf
    · exact (habs f hf).2
  have hfrom := mergeFindings_spec hmerge
  have hkey := hin first' mem_cons_self
  have htriple : Kanon.triple m' = key := by
    simp only [Kanon.triple, hfrom.detector, hfrom.kind, hfrom.scope, hkey.detector, hkey.kind]
  have hgroup : GroupMerge key children first' others m' (users first' others) :=
    ⟨hin, fun f hf => hfirst.mem_iff.mpr (mem_append_left _ hf),
      hfrom.audience.trans hkey.audience, htriple, hfrom.category, hfrom.nUsers⟩
  have hcover : Cover counted inputs ((first' :: others) ++ (out.filter (· ∉ absorbed) ++ rest)) := by
    refine hrun.cover.perm ?_
    refine List.Perm.trans ((hperm.symm.append_right _).trans ?_) (hfirst.symm.append_right _)
    rw [← append_assoc (children ++ absorbed)]
    rw [← append_assoc (absorbed ++ _)]
    refine List.Perm.append_right _ ?_
    refine List.Perm.trans perm_append_comm ?_
    rw [append_assoc]
  have hmerged : IsMerge counted (first' :: others) m' := by
    refine ⟨by simp, fun g hg => ?_, fun g hg => ?_, hfrom.cost, fun hcount => ?_⟩
    · have hgk := hin g hg
      rw [hfrom.detector, hfrom.kind, hkey.detector, hkey.kind]
      exact ⟨hgk.detector, hgk.kind⟩
    · rw [(hin g hg).billing, hfrom.scope]
    · rw [hfrom.nUsers]
      exact husers hcount first' others
  refine ⟨⟨others, hgroup⟩, ⟨?_, ?_, ?_, ?_⟩, ?_⟩
  · refine (hcover.merge hmerged).perm ?_
    exact perm_middle.symm
  · exact fun f hf => hrun.safe f (mem_of_mem_filter hf)
  · exact hrun.distinct.sublist filter_sublist
  · intro f hf
    have hold : ∀ g ∈ first' :: others, g.category = cat g.detectorId g.kind := by
      intro g hg
      refine hrun.category g ?_
      rcases mem_append.mp (hfirst.mem_iff.mp hg) with hg | hg
      · exact mem_append_right _ (mem_append_left _ hg)
      · exact mem_append_left _ (habs g hg).1
    rcases mem_append.mp hf with hf | hf
    · exact hrun.category f (mem_append_left _ (mem_of_mem_filter hf))
    · rcases mem_cons.mp hf with rfl | hf
      · rw [hfrom.category, hfrom.detector, hfrom.kind]
        exact hold first' mem_cons_self
      · exact hrun.category f (mem_append_right _ (mem_append_right _ hf))
  · intro g hg horg he
    obtain ⟨hg, hnot⟩ := mem_filter.mp hg
    rw [htriple] at he
    exact absurd (hscope g hg horg he) (by simpa using hnot)

/-! ### The chains -/

/-- A finding that walks up a chain. -/
structure InChain (copilot : Bool) (f : Finding) : Prop where
  audience : f.audience = .org
  product : isProductScoped f.scope = copilot
  quality : (f.category == .dataQuality || startsWith f.kind "dq.") = false
  aggregate : copilot = false → f.category ≠ .aggregate

/-- The dims a level of a chain keeps. -/
structure ChainLevel (copilot : Bool) (keep : List String) : Prop where
  billing : "billing_class" ∈ keep
  person : ∀ n ∈ keep, n ∉ personDims
  product : decide ("product" ∈ keep) = copilot

theorem rescopeLevels_chain : ∀ keep ∈ rescopeLevels, ChainLevel false keep := by
  intro keep hk
  simp only [rescopeLevels, mem_cons, not_mem_nil, or_false] at hk
  rcases hk with rfl | rfl | rfl | rfl <;> constructor <;> decide

theorem copilotRescopeLevels_chain : ∀ keep ∈ copilotRescopeLevels, ChainLevel true keep := by
  intro keep hk
  simp only [copilotRescopeLevels, map_cons, map_nil, mem_cons, not_mem_nil,
    or_false] at hk
  rcases hk with rfl | rfl | rfl | rfl | rfl | rfl <;> constructor <;> decide

def chainKey (keep : List String) (f : Finding) : GroupKey :=
  (f.detectorId, f.kind, parentScope f.scope keep)

theorem parentScope_eq (scope : Scope) (keep : List String) :
    parentScope scope keep = scopeBy (fun n => decide (n ∈ keep)) scope := rfl

theorem aggregateParent_eq (scope : Scope) : aggregateParent scope =
    scopeBy (fun n => !decide (n ∈ personDims) && !decide (n ∈ keyDims)) scope := rfl

theorem isProductScoped_scopeBy {p : String → Bool} (scope : Scope) :
    isProductScoped (scopeBy p scope) = (isProductScoped scope && p "product") := by
  unfold isProductScoped
  rw [Bool.eq_iff_iff]
  simp only [decide_eq_true_eq, mem_scopeNames_scopeBy, Bool.and_eq_true]

theorem exemptAt_congr {f g : Finding} (hd : f.detectorId = g.detectorId) (hk : f.kind = g.kind)
    (hc : f.category = g.category) (scope : Scope) : exemptAt f scope = exemptAt g scope := by
  unfold exemptAt
  rw [hd, hk, hc]

/-- The groups of some findings: none is empty, each holds the findings of its key, and together
they are the findings. -/
theorem groupFindings_spec (key : Finding → GroupKey) (fs : List Finding) :
    (∀ g ∈ groupFindings key fs, g.2 ≠ [] ∧ ∀ f ∈ g.2, f ∈ fs ∧ key f = g.1) ∧
      ((groupFindings key fs).flatMap (·.2)).Perm fs := by
  have hkeys : ((fs.map key).dedup.insertionSort groupKeyLe).Perm (fs.map key).dedup :=
    perm_insertionSort _ _
  constructor
  · intro g hg
    obtain ⟨k, hk, rfl⟩ := mem_map.mp hg
    obtain ⟨f, hf, rfl⟩ := mem_map.mp (mem_dedup.mp (hkeys.mem_iff.mp hk))
    refine ⟨ne_nil_of_mem (mem_filter.mpr ⟨hf, by simp⟩), fun x hx => ?_⟩
    obtain ⟨hx, he⟩ := mem_filter.mp hx
    exact ⟨hx, by simpa using he⟩
  · have hp := flatten_fibres_dedup_perm key fs hkeys
    rwa [← flatMap_def, ← flatMap_map (fun k => (k, fs.filter fun f => decide (key f = k)))
      (fun g : GroupKey × List Finding => g.2)] at hp

theorem isSibling_iff {key : GroupKey} {f : Finding} : isSibling key f = true ↔
    f.detectorId = key.1 ∧ f.kind = key.2.1 ∧ f.audience = .org := by
  simp [isSibling, and_assoc]

theorem billingOf_parentScope {keep : List String} (h : "billing_class" ∈ keep) :
    billingOf (parentScope scope keep) = billingOf scope := by
  rw [parentScope_eq, billingOf, billingOf, scopeBy_scopeBy]
  intro n hn
  rw [decide_eq_true_eq] at hn ⊢
  exact hn ▸ h

/-- The scope without person and key dims keeps the billing class. -/
theorem billingOf_aggregateParent : billingOf (aggregateParent scope) = billingOf scope := by
  rw [aggregateParent_eq, billingOf, billingOf, scopeBy_scopeBy]
  intro n hn
  rw [decide_eq_true_eq] at hn
  subst hn
  decide

theorem inGroup_of_chainKey {keep : List String} {key : GroupKey} {f : Finding}
    (hb : "billing_class" ∈ keep) (horg : f.audience = .org) (hk : chainKey keep f = key) :
    InGroup key f := by
  rw [← hk]
  exact ⟨rfl, rfl, horg, (billingOf_parentScope hb).symm⟩

section Peers

variable {keep : List String} {copilot : Bool} {key : GroupKey} {f : Finding} {out : List Finding}

theorem chainPeers_spec (hb : "billing_class" ∈ keep) (hf : f ∈ chainPeers keep copilot key out) :
    f ∈ out ∧ InGroup key f := by
  obtain ⟨hout, hf⟩ := mem_filter.mp hf
  simp only [Bool.and_eq_true, decide_eq_true_eq] at hf
  obtain ⟨h1, h2, h3⟩ := isSibling_iff.mp hf.1.1.1
  exact ⟨hout, h1, h2, h3, by rw [← hf.2, billingOf_parentScope hb]⟩

theorem samePeers_spec (hf : f ∈ samePeers keep copilot key out) : f ∈ out ∧ InGroup key f := by
  have hsame : f ∈ out ∧ isSibling key f = true ∧ f.scope = key.2.2 := by
    unfold samePeers at hf
    dsimp only at hf
    split at hf
    · obtain ⟨hout, hf⟩ := mem_filter.mp hf
      simp only [Bool.and_eq_true, decide_eq_true_eq] at hf
      exact ⟨hout, hf.1.1, hf.2⟩
    · obtain ⟨hpeer, hs⟩ := mem_filter.mp hf
      obtain ⟨hout, hf⟩ := mem_filter.mp hpeer
      simp only [Bool.and_eq_true, decide_eq_true_eq] at hf
      exact ⟨hout, hf.1.1.1, by simpa using hs⟩
  obtain ⟨hout, hs, he⟩ := hsame
  obtain ⟨h1, h2, h3⟩ := isSibling_iff.mp hs
  exact ⟨hout, h1, h2, h3, by rw [he]⟩

theorem keyPeers_spec (hf : f ∈ keyPeers key out) : f ∈ out ∧ InGroup key f := by
  obtain ⟨hout, hf⟩ := mem_filter.mp hf
  simp only [Bool.and_eq_true, decide_eq_true_eq] at hf
  obtain ⟨h1, h2, h3⟩ := isSibling_iff.mp hf.1.1
  exact ⟨hout, h1, h2, h3, by rw [← hf.2, billingOf_aggregateParent]⟩

theorem samePeers_eq_filter : ∃ p, samePeers keep copilot key out = out.filter p := by
  unfold samePeers
  dsimp only
  split
  · exact ⟨_, rfl⟩
  · exact ⟨_, filter_filter⟩

end Peers

/-- The published findings at the scope of a group are its `same_scope`: the siblings there are
exempt together, since one detector's kind has one category. -/
theorem Run.mem_samePeers {keep : List String} {copilot : Bool} {key : GroupKey} {f g : Finding}
    (hrun : Run counted cat inputs k out rest) (hl : ChainLevel copilot keep)
    (hf : f ∈ rest) (hfc : InChain copilot f) (hfk : chainKey keep f = key) (hg : g ∈ out)
    (horg : g.audience = .org) (he : triple g = key) : g ∈ samePeers keep copilot key out := by
  have hparent : key.2.2 = parentScope f.scope keep := by rw [← hfk]; rfl
  have hself : parentScope key.2.2 keep = key.2.2 := by
    rw [hparent, parentScope_eq, parentScope_eq, scopeBy_scopeBy fun _ h => h]
  have hproduct : isProductScoped key.2.2 = copilot := by
    rw [hparent, parentScope_eq, isProductScoped_scopeBy, hfc.product, hl.product, Bool.and_self]
  have hdet : f.detectorId = key.1 ∧ f.kind = key.2.1 := by rw [← hfk]; exact ⟨rfl, rfl⟩
  have hs : isSibling key g = true := isSibling_iff.mpr ⟨congrArg (·.1) he, congrArg (·.2.1) he, horg⟩
  have hscope : g.scope = key.2.2 := congrArg (·.2.2) he
  have hexempt : ∀ x ∈ out, isSibling key x = true → x.scope = key.2.2 →
      exempt x = exemptAt f key.2.2 := by
    intro x hx hxs hxe
    obtain ⟨h1, h2, -⟩ := isSibling_iff.mp hxs
    have hcx := hrun.category x (mem_append_left _ hx)
    have hcf := hrun.category f (mem_append_right _ hf)
    unfold exempt
    rw [hxe]
    exact exemptAt_congr (h1.trans hdet.1.symm) (h2.trans hdet.2.symm)
      (by rw [hcx, hcf, h1, h2, hdet.1, hdet.2]) _
  unfold samePeers
  dsimp only
  split
  · rename_i hc
    obtain ⟨rfl, -⟩ := Bool.and_eq_true_iff.mp hc
    exact mem_filter.mpr ⟨hg, by simp [hs, hscope, hproduct]⟩
  · rename_i hc
    have hex : exempt g = false := by
      rw [hexempt g hg hs hscope]
      cases copilot with
      | false =>
        unfold exemptAt
        rw [hfc.quality, hproduct]
        have hagg := hfc.aggregate rfl
        simp [hagg]
      | true =>
        -- a peer at the scope is not exempt, and its siblings there are exempt with it
        simp only [Bool.true_and, List.isEmpty_iff] at hc
        obtain ⟨x, hx⟩ := exists_mem_of_ne_nil _ hc
        obtain ⟨hx, hxs⟩ := mem_filter.mp hx
        obtain ⟨hxo, hx⟩ := mem_filter.mp hx
        simp only [Bool.and_eq_true, Bool.not_eq_true'] at hx
        rw [← hexempt x hxo hx.1.1.1 (by simpa using hxs)]
        exact hx.1.1.2
    refine mem_filter.mpr ⟨mem_filter.mpr ⟨hg, ?_⟩, by simpa using hscope⟩
    simp [hs, hscope, hproduct, hex, hself]

theorem Run.rescopeGroup {keep : List String} {copilot : Bool} (others : List Finding) {pending : List Finding}
    {group : GroupKey × List Finding} (hl : ChainLevel copilot keep)
    (hrun : Run count.isSome cat inputs k out (pending ++ (group.2 ++ others)))
    (hpending : ∀ f ∈ pending, InChain copilot f)
    (hgroup : group.2 ≠ [] ∧ ∀ f ∈ group.2, InChain copilot f ∧ chainKey keep f = group.1)
    (hr : Kanon.rescopeGroup h uni k keep copilot count (out, pending) group =
      .ok (out', pending')) :
    Run count.isSome cat inputs k out' (pending' ++ others) ∧
      ∀ f ∈ pending', InChain copilot f := by
  obtain ⟨key, children⟩ := group
  dsimp only at hrun hgroup
  obtain ⟨hne, hchild⟩ := hgroup
  obtain ⟨f, hf⟩ := exists_mem_of_ne_nil _ hne
  obtain ⟨hfc, hfk⟩ := hchild f hf
  have hdet : f.detectorId = key.1 ∧ f.kind = key.2.1 := by rw [← hfk]; exact ⟨rfl, rfl⟩
  have hparent : key.2.2 = parentScope f.scope keep := by rw [← hfk]; rfl
  unfold Kanon.rescopeGroup at hr
  dsimp only at hr
  obtain ⟨⟨out1, first, m⟩, habs, hr⟩ := bind_eq_ok.mp hr
  have hrun' : Run count.isSome cat inputs k out (children ++ (pending ++ others)) := by
    refine hrun.perm ?_
    rw [← append_assoc, ← append_assoc]
    exact perm_append_comm.append_right _
  obtain ⟨⟨rest, hgm⟩, hrun1, hdist⟩ := hrun'.absorb key
    (fun g hg => inGroup_of_chainKey hl.billing (hchild g hg).1.audience (hchild g hg).2)
    samePeers_eq_filter (fun _ hg => hg.elim samePeers_spec (chainPeers_spec hl.billing))
    (fun g hg horg he => hrun'.mem_samePeers hl (mem_append_left _ hf) hfc hfk hg horg he)
    (fun hcount first others => by
      obtain rfl : count = none := by simpa using hcount
      obtain ⟨g, hg, hn⟩ := maxUsers_spec first others
      refine ⟨g, hg, ?_⟩
      unfold mergedUsers
      dsimp only
      split
      · simpa using hn
      · exact hn) habs
  have hscopem : m.scope = key.2.2 := congrArg (·.2.2) hgm.triple
  have hcatm : m.category = f.category ∧ m.detectorId = f.detectorId ∧ m.kind = f.kind := by
    have h1 : m.detectorId = key.1 := congrArg (·.1) hgm.triple
    have h2 : m.kind = key.2.1 := congrArg (·.2.1) hgm.triple
    have hcm := hrun1.category m (by simp)
    have hcf := hrun'.category f (by simp [hf])
    refine ⟨?_, h1.trans hdet.1.symm, h2.trans hdet.2.symm⟩
    rw [hcm, hcf, h1, h2, hdet.1, hdet.2]
  split at hr
  · rename_i hshow
    obtain ⟨rfl, rfl⟩ := Prod.mk.inj (pure_eq_ok.mp hr)
    refine ⟨hrun1.publish (fun _ => ?_) hdist, hpending⟩
    rcases hshow with hk | hex
    · refine .inr ⟨hk, fun n hn => ?_⟩
      rw [hscopem, hparent, parentScope_eq, mem_scopeNames_scopeBy] at hn
      exact hl.person n (by simpa using hn.2)
    · refine .inl ?_
      rw [Bool.and_eq_true] at hex
      have hfirst := hgm.mem first mem_cons_self
      rw [← hex.2, exempt, hscopem]
      refine exemptAt_congr ?_ ?_ hgm.category _
      · rw [hcatm.2.1, hdet.1, hfirst.detector]
      · rw [hcatm.2.2, hdet.2, hfirst.kind]
  · obtain ⟨rfl, rfl⟩ := Prod.mk.inj (pure_eq_ok.mp hr)
    refine ⟨hrun1.perm ?_, fun x hx => ?_⟩
    · rw [append_assoc]
      exact perm_middle.symm
    · rcases mem_append.mp hx with hx | hx
      · exact hpending x hx
      · obtain rfl := mem_singleton.mp hx
        refine ⟨hgm.audience, ?_, ?_, fun hc => ?_⟩
        · rw [hscopem, hparent, parentScope_eq, isProductScoped_scopeBy, hfc.product, hl.product,
            Bool.and_self]
        · rw [hcatm.1, hcatm.2.2]
          exact hfc.quality
        · rw [hcatm.1]
          exact hfc.aggregate hc

theorem Run.rescopeGroups {keep : List String} {copilot : Bool} {groups : List (GroupKey × List Finding)}
    (pending others : List Finding) (hl : ChainLevel copilot keep)
    (hrun : Run count.isSome cat inputs k out (pending ++ (groups.flatMap (·.2) ++ others)))
    (hpending : ∀ f ∈ pending, InChain copilot f)
    (hgroups : ∀ g ∈ groups, g.2 ≠ [] ∧ ∀ f ∈ g.2, InChain copilot f ∧ chainKey keep f = g.1)
    (hr : groups.foldlM (Kanon.rescopeGroup h uni k keep copilot count) (out, pending) =
      .ok (out', pending')) :
    Run count.isSome cat inputs k out' (pending' ++ others) ∧
      ∀ f ∈ pending', InChain copilot f := by
  induction groups generalizing out pending with
  | nil =>
    obtain ⟨rfl, rfl⟩ := Prod.mk.inj (pure_eq_ok.mp hr)
    exact ⟨hrun, hpending⟩
  | cons group groups ih =>
    rw [foldlM_cons] at hr
    obtain ⟨⟨out1, pending1⟩, h1, hr⟩ := bind_eq_ok.mp hr
    obtain ⟨hrun1, hpending1⟩ := Run.rescopeGroup (groups.flatMap (·.2) ++ others) hl
      (by simpa using hrun) hpending (hgroups group mem_cons_self) h1
    exact ih _ hrun1 hpending1 (fun g hg => hgroups g (mem_cons_of_mem _ hg)) hr

/-- A whole chain: what is left is withheld. -/
theorem Run.rescopePending {levels : List (List String)} {copilot : Bool}
    {pending others : List Finding} (hl : ∀ keep ∈ levels, ChainLevel copilot keep)
    (hrun : Run count.isSome cat inputs k out (pending ++ others)) (hpending : ∀ f ∈ pending, InChain copilot f)
    (hr : Kanon.rescopePending h uni k copilot count levels (out, pending) = .ok (out', pending')) :
    Run count.isSome cat inputs k out' (pending' ++ others) := by
  induction levels generalizing out pending with
  | nil =>
    obtain ⟨rfl, rfl⟩ := Prod.mk.inj (pure_eq_ok.mp hr)
    exact hrun
  | cons keep levels ih =>
    obtain ⟨⟨out1, pending1⟩, h1, hr⟩ := bind_eq_ok.mp hr
    obtain ⟨hspec, hperm⟩ := groupFindings_spec (chainKey keep) pending
    obtain ⟨hrun1, hpending1⟩ := Run.rescopeGroups [] others
      (hl keep mem_cons_self) (hrun.perm (hperm.symm.append_right _)) (by simp)
      (fun g hg => ⟨(hspec g hg).1, fun f hf => ⟨hpending f ((hspec g hg).2 f hf).1,
        ((hspec g hg).2 f hf).2⟩⟩) h1
    exact ih (fun keep hk => hl keep (mem_cons_of_mem _ hk)) hrun1 hpending1 hr

/-! ### Provider-side findings on API keys -/

/-- A provider-side finding that leaves its API key. -/
structure OnKey (f : Finding) : Prop where
  audience : f.audience = .org
  product : isProductScoped f.scope = false
  category : f.category = .aggregate

def keyGroup (f : Finding) : GroupKey := (f.detectorId, f.kind, aggregateParent f.scope)

theorem inGroup_of_keyGroup {key : GroupKey} {f : Finding} (horg : f.audience = .org)
    (hk : keyGroup f = key) : InGroup key f := by
  rw [← hk]
  exact ⟨rfl, rfl, horg, billingOf_aggregateParent.symm⟩

/-- The scope without person and key dims shows a provider-side finding whatever its count. -/
theorem exempt_of_onKey {f : Finding} (hc : f.category = .aggregate)
    (hp : isProductScoped scope = false) : exemptAt f (aggregateParent scope) = true := by
  have hproduct : isProductScoped (aggregateParent scope) = false := by
    rw [aggregateParent_eq, isProductScoped_scopeBy, hp, Bool.false_and]
  have hdims : (scopeNames (aggregateParent scope)).any (· ∈ personDims ++ keyDims) = false := by
    rw [any_eq_false]
    intro n hn
    rw [aggregateParent_eq, mem_scopeNames_scopeBy] at hn
    simpa using hn.2
  unfold exemptAt
  rw [hproduct, hdims, hc]
  simp

theorem Run.rescopeKeys (others : List Finding) {group : GroupKey × List Finding}
    (hrun : Run counted cat inputs k out (group.2 ++ others))
    (hgroup : group.2 ≠ [] ∧ ∀ f ∈ group.2, OnKey f ∧ keyGroup f = group.1)
    (hr : Kanon.rescopeKeys h uni k out group = .ok out') : Run counted cat inputs k out' others := by
  obtain ⟨key, children⟩ := group
  dsimp only at hrun hgroup
  obtain ⟨hne, hchild⟩ := hgroup
  obtain ⟨f, hf⟩ := exists_mem_of_ne_nil _ hne
  obtain ⟨hfo, hfk⟩ := hchild f hf
  have hparent : key.2.2 = aggregateParent f.scope := by rw [← hfk]; rfl
  have hself : aggregateParent key.2.2 = key.2.2 := by
    rw [hparent, aggregateParent_eq, aggregateParent_eq, scopeBy_scopeBy fun _ h => h]
  have hproduct : isProductScoped key.2.2 = false := by
    rw [hparent, aggregateParent_eq, isProductScoped_scopeBy, hfo.product, Bool.false_and]
  obtain ⟨⟨out1, first, m⟩, habs, hr⟩ := bind_eq_ok.mp hr
  obtain rfl := pure_eq_ok.mp hr
  obtain ⟨⟨rest, hgm⟩, hrun1, hdist⟩ := hrun.absorb key
    (fun g hg => inGroup_of_keyGroup (hchild g hg).1.audience (hchild g hg).2)
    ⟨_, filter_filter⟩
    (fun _ hg => hg.elim (fun hg => keyPeers_spec (mem_of_mem_filter hg)) keyPeers_spec)
    (fun g hg horg he => by
      have hscope : g.scope = key.2.2 := congrArg (·.2.2) he
      have hs : isSibling key g = true :=
        isSibling_iff.mpr ⟨congrArg (·.1) he, congrArg (·.2.1) he, horg⟩
      refine mem_filter.mpr ⟨mem_filter.mpr ⟨hg, ?_⟩, ?_⟩
      · simp [hs, hscope, hproduct, hself]
      · simpa using hscope)
    (fun _ => maxUsers_spec) habs
  refine hrun1.publish (fun _ => .inl ?_) hdist
  have hscopem : m.scope = aggregateParent f.scope :=
    (congrArg (·.2.2) hgm.triple : m.scope = key.2.2).trans hparent
  have hcatm : m.category = .aggregate := by
    have hcm := hrun1.category m (by simp)
    have hcf := hrun.category f (by simp [hf])
    have h1 : m.detectorId = key.1 := congrArg (·.1) hgm.triple
    have h2 : m.kind = key.2.1 := congrArg (·.2.1) hgm.triple
    rw [hcm, h1, h2, ← hfo.category, hcf, ← hfk]
    rfl
  rw [exempt, hscopem]
  exact exempt_of_onKey hcatm hfo.product

theorem Run.rescopeKeyGroups {others : List Finding} {groups : List (GroupKey × List Finding)}
    (hrun : Run counted cat inputs k out (groups.flatMap (·.2) ++ others))
    (hgroups : ∀ g ∈ groups, g.2 ≠ [] ∧ ∀ f ∈ g.2, OnKey f ∧ keyGroup f = g.1)
    (hr : groups.foldlM (Kanon.rescopeKeys h uni k) out = .ok out') : Run counted cat inputs k out' others := by
  induction groups generalizing out with
  | nil =>
    obtain rfl := pure_eq_ok.mp hr
    exact hrun
  | cons group groups ih =>
    rw [foldlM_cons] at hr
    obtain ⟨out1, h1, hr⟩ := bind_eq_ok.mp hr
    have hrun1 := Run.rescopeKeys (groups.flatMap (·.2) ++ others) (by simpa using hrun)
      (hgroups group mem_cons_self) h1
    exact ih hrun1 (fun g hg => hgroups g (mem_cons_of_mem _ hg)) hr

end Steps

/-! ### The whole run -/

/-- Every finding is routed once. -/
theorem route_perm (k : Nat) (fs : List Finding) :
    (fs.filter (fun f => decide (route k f = .out)) ++
      (fs.filter (fun f => decide (route k f = .keys)) ++
        (fs.filter (fun f => decide (route k f = .chain)) ++
          fs.filter fun f => decide (route k f = .copilot)))).Perm fs := by
  have h := @flatten_fibres_perm _ _ _ (route k) fs [.out, .keys, .chain, .copilot]
    (by decide) fun f _ => by cases route k f <;> decide
  simpa using h

theorem route_spec (k : Nat) (f : Finding) :
    (route k f = .out → f.audience = .org → MayShow k f) ∧ (route k f = .keys → OnKey f) ∧
      (route k f = .chain → InChain false f) ∧ (route k f = .copilot → InChain true f) := by
  have hquality : exempt f = false →
      (f.category == .dataQuality || startsWith f.kind "dq.") = false := by
    intro he
    unfold exempt exemptAt at he
    split at he
    · cases he
    · rename_i h
      simpa using h
  have hshow : needsRescope f k = false → MayShow k f := by
    intro h
    simp only [needsRescope, Bool.or_eq_false_iff, decide_eq_false_iff_not, not_lt,
      any_eq_false, decide_eq_true_eq] at h
    exact .inr h
  unfold route
  split_ifs with h1 h2 h3 h3 h4
  · exact ⟨fun _ horg => .inl (h1.resolve_left fun hne => hne horg), fun h => (nomatch h),
      fun h => (nomatch h), fun h => (nomatch h)⟩
  all_goals
    push Not at h1
    obtain ⟨horg, hex⟩ := h1
    have hex : exempt f = false := by simpa using hex
  · exact ⟨fun h => (nomatch h), fun h => (nomatch h), fun h => (nomatch h),
      fun _ => ⟨horg, h2, hquality hex, fun h => (nomatch h)⟩⟩
  · exact ⟨fun _ _ => hshow (by simpa using h3), fun h => (nomatch h), fun h => (nomatch h),
      fun h => (nomatch h)⟩
  · exact ⟨fun h => (nomatch h), fun _ => ⟨horg, by simpa using h2, h4⟩, fun h => (nomatch h),
      fun h => (nomatch h)⟩
  · exact ⟨fun h => (nomatch h), fun h => (nomatch h),
      fun _ => ⟨horg, by simpa using h2, hquality hex, fun _ => h4⟩, fun h => (nomatch h)⟩
  · exact ⟨fun _ _ => hshow (by simpa using h3), fun h => (nomatch h), fun h => (nomatch h),
      fun h => (nomatch h)⟩

/-- A run from its inputs to what is published and what is withheld. -/
theorem rescope_run {h : Hashes} {uni : Unicode} {findings out withheld : List Finding} {k : Nat}
    {count : Option (Finding → Scope → Nat)} {cat : String → String → Category}
    (hd : (findings.map triple).Nodup) (hc : ∀ f ∈ findings, f.category = cat f.detectorId f.kind)
    (hr : rescope h uni findings k count = .ok (out, withheld)) :
    Run count.isSome cat findings k out withheld := by
  obtain ⟨_, -, hr⟩ := bind_eq_ok.mp hr
  obtain ⟨out1, h1, hr⟩ := bind_eq_ok.mp hr
  obtain ⟨⟨out2, withheld2⟩, h2, hr⟩ := bind_eq_ok.mp hr
  obtain ⟨⟨out3, withheld3⟩, h3, hr⟩ := bind_eq_ok.mp hr
  obtain ⟨rfl, rfl⟩ := Prod.mk.inj (pure_eq_ok.mp hr)
  have hroute : ∀ r, ∀ f ∈ findings.filter (fun f => decide (route k f = r)), route k f = r :=
    fun r f hf => by simpa using (mem_filter.mp hf).2
  have hstart : Run count.isSome cat findings k (findings.filter fun f => decide (route k f = .out))
      (findings.filter (fun f => decide (route k f = .keys)) ++
        (findings.filter (fun f => decide (route k f = .chain)) ++
          findings.filter fun f => decide (route k f = .copilot))) := by
    refine ⟨(Cover.refl findings).perm (route_perm k findings).symm,
      fun f hf => (route_spec k f).1 (hroute .out f hf), ?_, fun f hf => ?_⟩
    · exact hd.sublist ((filter_sublist.trans filter_sublist).map triple)
    · exact hc f ((route_perm k findings).mem_iff.mp hf)
  obtain ⟨hspec, hperm⟩ := groupFindings_spec keyGroup
    (findings.filter fun f => decide (route k f = .keys))
  have hrun1 := Run.rescopeKeyGroups (hstart.perm (hperm.symm.append_right _))
    (fun g hg => ⟨(hspec g hg).1, fun f hf => ⟨(route_spec k f).2.1
      (hroute .keys f ((hspec g hg).2 f hf).1), ((hspec g hg).2 f hf).2⟩⟩) h1
  have hrun2 := Run.rescopePending rescopeLevels_chain hrun1
    (fun f hf => (route_spec k f).2.2.1 (hroute .chain f hf)) h2
  have hrun3 := Run.rescopePending copilotRescopeLevels_chain
    (hrun2.perm perm_append_comm) (fun f hf => (route_spec k f).2.2.2 (hroute .copilot f hf)) h3
  have hsort := perm_insertionSort findingLe out3
  have hdone := hrun3.perm perm_append_comm
  refine ⟨hdone.cover.perm (hsort.symm.append_right _), fun f hf => ?_, ?_, fun f hf => ?_⟩
  · exact hdone.safe f (hsort.mem_iff.mp hf)
  · exact (List.Perm.nodup_iff ((hsort.filter _).map triple)).mpr hdone.distinct
  · exact hdone.category f ((hsort.append_right _).mem_iff.mp hf)

end TokenBill.Kanon
