import TokenBill.Core.RescopeSafe

/-!
# What re-scoping publishes

Findings whose figures have one basis per detector, kind and billing class can be
merged in any way, so re-scoping them returns; what it returns is safe, conserves
the costs of everything it does not withhold, and keeps the scopes of the published
findings distinct (`rescope_safe`).
-/

namespace TokenBill.Kanon

open General List

/-! ### Merging returns -/

/-- The basis of each figure of a finding. -/
structure FindingBases where
  (cost recoverable recoverableShapley projectedMonthly headroom : Basis)

def billingKey (f : Finding) : GroupKey := (f.detectorId, f.kind, billingOf f.scope)

/-- The figures of a finding have the bases of its detector, kind and billing class, and spoken
notes. -/
structure FindingOk (bs : GroupKey → FindingBases) (f : Finding) : Prop where
  cost : FigureOk (bs (billingKey f)).cost f.costObserved
  recoverable : ∀ x ∈ f.recoverable, FigureOk (bs (billingKey f)).recoverable x
  recoverableShapley : ∀ x ∈ f.recoverableShapley, FigureOk (bs (billingKey f)).recoverableShapley x
  projectedMonthly : ∀ x ∈ f.projectedMonthly, FigureOk (bs (billingKey f)).projectedMonthly x
  headroom : ∀ x ∈ f.headroom, FigureOk (bs (billingKey f)).headroom x

theorem sumOpt_ok {b : Basis} {figs : List (Option Figure)}
    (h : ∀ o ∈ figs, ∀ x ∈ o, FigureOk b x) : ∃ s, sumOpt figs = .ok s ∧ ∀ x ∈ s, FigureOk b x :=
  foldlM_ok (I := fun s => ∀ x ∈ s, FigureOk b x) (fun _ hs o ho => addOpt_ok hs (h o ho))
    fun _ hx => (nomatch hx)

section Steps

variable {h : Hashes} {u : Unicode} {k : Nat} {b : GroupKey → FindingBases}

/-- Findings of one detector, kind and billing class merge. -/
theorem mergeFindings_ok (key : GroupKey) (scope : Scope) {first : Finding} {others : List Finding}
    (nUsers : Nat)
    (hkey : ∀ f ∈ first :: others, billingKey f = key ∧ FindingOk b f)
    (hb : billingOf scope = key.2.2) :
    ∃ m, mergeFindings h u first others scope nUsers k = .ok m ∧
      MergedFrom first others scope nUsers m ∧ FindingOk b m := by
  have hfirst := hkey first mem_cons_self
  obtain ⟨cost, h1, ho1⟩ := foldlM_ok (f := fun cost (c : Finding) => add cost c.costObserved)
    (I := FigureOk (b key).cost) (l := others)
    (fun c hc f hf => by
      obtain ⟨hk, hok⟩ := hkey f (mem_cons_of_mem _ hf)
      exact add_figureOk hc (hk ▸ hok.cost)) (hfirst.1 ▸ hfirst.2.cost)
  have hsum : ∀ (field : Finding → Option Figure) (basis : FindingBases → Basis),
      (∀ f, FindingOk b f → ∀ x ∈ field f, FigureOk (basis (b (billingKey f))) x) →
      ∃ s, sumOpt ((first :: others).map field) = .ok s ∧ ∀ x ∈ s, FigureOk (basis (b key)) x := by
    intro field basis hfield
    refine sumOpt_ok fun o ho x hx => ?_
    obtain ⟨f, hf, rfl⟩ := mem_map.mp ho
    obtain ⟨hk, hok⟩ := hkey f hf
    exact hk ▸ hfield f hok x hx
  obtain ⟨r, h2, ho2⟩ := hsum (·.recoverable) (·.recoverable) fun _ hf => hf.recoverable
  obtain ⟨rs, h3, ho3⟩ :=
    hsum (·.recoverableShapley) (·.recoverableShapley) fun _ hf => hf.recoverableShapley
  obtain ⟨pm, h4, ho4⟩ := hsum (·.projectedMonthly) (·.projectedMonthly) fun _ hf =>
    hf.projectedMonthly
  obtain ⟨hr, h5, ho5⟩ := hsum (·.headroom) (·.headroom) fun _ hf => hf.headroom
  have hm : ∃ m, mergeFindings h u first others scope nUsers k = .ok m ∧ m.costObserved = cost ∧
      m.recoverable = r ∧ m.recoverableShapley = rs ∧ m.projectedMonthly = pm ∧ m.headroom = hr :=
    ⟨_, bind_eq_ok.mpr ⟨cost, h1, bind_eq_ok.mpr ⟨r, h2, bind_eq_ok.mpr ⟨rs, h3,
      bind_eq_ok.mpr ⟨pm, h4, bind_eq_ok.mpr ⟨hr, h5, rfl⟩⟩⟩⟩⟩, rfl, rfl, rfl, rfl, rfl⟩
  obtain ⟨m, hm, rfl, rfl, rfl, rfl, rfl⟩ := hm
  have hfrom := mergeFindings_spec hm
  have hmk : billingKey m = key := by
    rw [billingKey, hfrom.detector, hfrom.kind, hfrom.scope, hb, ← hfirst.1]
    rfl
  exact ⟨m, hm, hfrom, by rw [hmk]; exact ho1, by rw [hmk]; exact ho2, by rw [hmk]; exact ho3,
    by rw [hmk]; exact ho4, by rw [hmk]; exact ho5⟩

/-- A merge of a group with findings of its billing class returns. -/
theorem absorb_ok {key : GroupKey} (absorbed : List Finding) (users : Finding → List Finding → Nat)
    {out children : List Finding}
    (hne : children ≠ []) (hout : ∀ f ∈ out, FindingOk b f)
    (hkey : ∀ f ∈ children ++ absorbed, InGroup key f ∧ FindingOk b f) :
    ∃ r, absorb h u k out absorbed children key.2.2 users = .ok r ∧ r.2.2.audience = .org ∧
      ∀ f ∈ r.1 ++ [r.2.2], FindingOk b f := by
  have hperm := perm_insertionSort findingIdLe (children ++ absorbed)
  unfold absorb
  split
  · rename_i hs
    rw [hs] at hperm
    exact absurd (append_eq_nil_iff.mp hperm.symm.eq_nil).1 hne
  · rename_i first others hs
    rw [hs] at hperm
    obtain ⟨m, hm, hfrom, hok⟩ := mergeFindings_ok (h := h) (u := u) (k := k) (b := b)
      (key.1, key.2.1, billingOf key.2.2) key.2.2 (users first others)
      (fun f hf => by
        obtain ⟨hin, hf⟩ := hkey f (hperm.mem_iff.mp hf)
        exact ⟨by rw [billingKey, hin.detector, hin.kind, hin.billing], hf⟩) rfl
    have hfirst := (hkey first (hperm.mem_iff.mp mem_cons_self)).1
    refine ⟨_, bind_eq_ok.mpr ⟨m, hm, rfl⟩, hfrom.audience.trans hfirst.audience, fun f hf => ?_⟩
    rcases mem_append.mp hf with hf | hf
    · exact hout f (mem_of_mem_filter hf)
    · rw [mem_singleton.mp hf]
      exact hok

/-- Published findings and findings of the organisation on their way, all mergeable. -/
structure StateOk (b : GroupKey → FindingBases) (state : List Finding × List Finding) : Prop where
  out : ∀ f ∈ state.1, FindingOk b f
  pending : ∀ f ∈ state.2, FindingOk b f ∧ f.audience = .org

/-- One group of a chain returns. -/
theorem rescopeGroup_ok {keep : List String} {copilot : Bool}
    {count : Option (Finding → Scope → Nat)} {state : List Finding × List Finding}
    {group : GroupKey × List Finding} (hl : "billing_class" ∈ keep)
    (hstate : StateOk b state) (hne : group.2 ≠ [])
    (hgroup : ∀ f ∈ group.2, InGroup group.1 f ∧ FindingOk b f) :
    ∃ state', rescopeGroup h u k keep copilot count state group = .ok state' ∧
      StateOk b state' := by
  obtain ⟨out, pending⟩ := state
  obtain ⟨key, children⟩ := group
  obtain ⟨⟨out', first, m⟩, hr, horg, hok⟩ := absorb_ok (h := h) (u := u) (k := k)
    (absorbedPeers (samePeers keep copilot key out) (chainPeers keep copilot key out))
    (mergedUsers copilot count key.2.2)
    hne hstate.out fun f hf => by
      rcases mem_append.mp hf with hf | hf
      · exact hgroup f hf
      · obtain ⟨hfo, hin⟩ := (mem_of_absorbedPeers hf).elim samePeers_spec (chainPeers_spec hl)
        exact ⟨hin, hstate.out f hfo⟩
  refine ⟨if k ≤ m.nUsers ∨ (copilot && exemptAt first key.2.2) = true then (out' ++ [m], pending)
    else (out', pending ++ [m]), bind_eq_ok.mpr ⟨_, hr, ?_⟩, ?_⟩
  · dsimp only
    split <;> rfl
  · split
    · exact ⟨hok, hstate.pending⟩
    · refine ⟨fun f hf => hok f (mem_append_left _ hf), fun f hf => ?_⟩
      rcases mem_append.mp hf with hf | hf
      · exact hstate.pending f hf
      · obtain rfl := mem_singleton.mp hf
        exact ⟨hok f (mem_append_right _ mem_cons_self), horg⟩

theorem rescopeKeys_ok {out : List Finding} {group : GroupKey × List Finding}
    (hout : ∀ f ∈ out, FindingOk b f) (hne : group.2 ≠ [])
    (hgroup : ∀ f ∈ group.2, InGroup group.1 f ∧ FindingOk b f) :
    ∃ out', rescopeKeys h u k out group = .ok out' ∧ ∀ f ∈ out', FindingOk b f := by
  obtain ⟨key, children⟩ := group
  obtain ⟨⟨out', first, m⟩, hr, -, hok⟩ := absorb_ok (h := h) (u := u) (k := k)
    (absorbedPeers ((keyPeers key out).filter fun f => decide (f.scope = key.2.2))
      (keyPeers key out)) maxUsers hne hout fun f hf => by
      rcases mem_append.mp hf with hf | hf
      · exact hgroup f hf
      · obtain ⟨hfo, hin⟩ := (mem_of_absorbedPeers hf).elim
          (fun hf => keyPeers_spec (mem_of_mem_filter hf)) keyPeers_spec
        exact ⟨hin, hout f hfo⟩
  exact ⟨out' ++ [m], bind_eq_ok.mpr ⟨_, hr, rfl⟩, hok⟩

/-- A whole chain returns. -/
theorem rescopePending_ok {copilot : Bool} (count : Option (Finding → Scope → Nat))
    {levels : List (List String)} {s : List Finding × List Finding}
    (hl : ∀ keep ∈ levels, ChainLevel copilot keep) (hstate : StateOk b s) :
    ∃ s', rescopePending h u k copilot count levels s = .ok s' ∧
      StateOk b s' := by
  induction levels generalizing s with
  | nil => exact ⟨s, rfl, hstate⟩
  | cons keep levels ih =>
    obtain ⟨out, pending⟩ := s
    obtain ⟨hspec, -⟩ := groupFindings_spec (chainKey keep) pending
    have hb := (hl keep mem_cons_self).billing
    obtain ⟨state1, h1, hstate1⟩ := foldlM_ok (f := rescopeGroup h u k keep copilot count)
      (I := StateOk b) (l := groupFindings (chainKey keep) pending) (fun s hs g hg =>
        rescopeGroup_ok hb hs (hspec g hg).1 fun f hf => by
          obtain ⟨hfp, hk⟩ := (hspec g hg).2 f hf
          obtain ⟨hok, horg⟩ := hstate.pending f hfp
          exact ⟨inGroup_of_chainKey hb horg hk, hok⟩)
      (s := (out, [])) ⟨hstate.out, by simp⟩
    obtain ⟨state2, h2, hstate2⟩ := ih (fun keep hk => hl keep (mem_cons_of_mem _ hk)) hstate1
    exact ⟨state2, bind_eq_ok.mpr ⟨state1, h1, h2⟩, hstate2⟩

end Steps

/-- Re-scoping returns where the budget findings name nobody and the figures can be added. -/
theorem rescopeFindings_ok {h : Hashes} {u : Unicode} {findings : List Finding} {k : Nat}
    {count : Option (Finding → Scope → Nat)} {b : GroupKey → FindingBases} (hk : 1 ≤ k)
    (hbudget : ∀ f ∈ findings, checkBudgetPrivacy f = .ok ()) (hok : ∀ f ∈ findings, FindingOk b f) :
    ∃ out, rescopeFindings h u findings k count = .ok out := by
  have hforM : findings.forM checkBudgetPrivacy = .ok () := forM_eq_ok.mpr hbudget
  have hroute : ∀ r, ∀ f ∈ findings.filter (fun f => decide (route k f = r)),
      FindingOk b f ∧ route k f = r := by
    intro r f hf
    obtain ⟨hf, hr⟩ := mem_filter.mp hf
    exact ⟨hok f hf, by simpa using hr⟩
  obtain ⟨hspec, -⟩ := groupFindings_spec keyGroup
    (findings.filter fun f => decide (route k f = .keys))
  obtain ⟨out1, h1, hout1⟩ := foldlM_ok (f := rescopeKeys h u k)
    (I := fun out => ∀ f ∈ out, FindingOk b f)
    (l := groupFindings keyGroup (findings.filter fun f => decide (route k f = .keys)))
    (fun out hout g hg => rescopeKeys_ok hout (hspec g hg).1 fun f hf => by
      obtain ⟨hfk, hkey⟩ := (hspec g hg).2 f hf
      obtain ⟨hf, hr⟩ := hroute .keys f hfk
      exact ⟨inGroup_of_keyGroup ((route_spec k f).2.1 hr).audience hkey, hf⟩)
    (s := findings.filter fun f => decide (route k f = .out)) fun f hf => (hroute .out f hf).1
  obtain ⟨⟨out2, withheld2⟩, h2, hstate2⟩ := rescopePending_ok (h := h) (u := u) (k := k) (b := b)
    (s := (out1, findings.filter fun f => decide (route k f = .chain))) count rescopeLevels_chain
    ⟨hout1, fun f hf => ⟨(hroute .chain f hf).1,
      ((route_spec k f).2.2.1 (hroute .chain f hf).2).audience⟩⟩
  obtain ⟨⟨out3, withheld3⟩, h3, -⟩ := rescopePending_ok (h := h) (u := u) (k := k) (b := b)
    (s := (out2, findings.filter fun f => decide (route k f = .copilot))) count
    copilotRescopeLevels_chain
    ⟨hstate2.out, fun f hf => ⟨(hroute .copilot f hf).1,
      ((route_spec k f).2.2.2 (hroute .copilot f hf).2).audience⟩⟩
  unfold rescopeFindings
  rw [if_neg (by omega)]
  refine ⟨out3.insertionSort findingLe, map_eq_ok.mpr
    ⟨(out3.insertionSort findingLe, withheld2 ++ withheld3), ?_, rfl⟩⟩
  exact bind_eq_ok.mpr ⟨(), hforM, bind_eq_ok.mpr ⟨out1, h1, bind_eq_ok.mpr ⟨_, h2,
    bind_eq_ok.mpr ⟨_, h3, rfl⟩⟩⟩⟩

/-! ### The published findings -/

def billedCosts (fs : List Finding) (billingClass : Scope) : Amounts :=
  ((fs.filter fun f => decide (billingOf f.scope = billingClass)).map (·.costObserved.amounts)).sum

/-- What the published findings are of their inputs: each stands for a part of them, the parts and
the withheld findings are the inputs, and nothing shown to the organisation is a person or a
group below `k`. -/
structure Rescoped (counted : Bool) (findings : List Finding) (k : Nat) (out : List Finding)
    (parts : List (List Finding)) (withheld : List Finding) : Prop where
  shown : ∀ f ∈ out, f.audience = .org → MayShow k f
  merged : List.Forall₂ (IsMerge counted) parts out
  partition : (parts.flatten ++ withheld).Perm findings
  costs : ∀ billingClass, billedCosts out billingClass = billedCosts parts.flatten billingClass
  distinct : Distinct out

/-- A cover with a remainder names the inputs that were withheld. -/
theorem Cover.parts {counted : Bool} {inputs out rest : List Finding}
    (h : Cover counted inputs (out ++ rest)) : ∃ parts withheld,
      List.Forall₂ (IsMerge counted) parts out ∧ (parts.flatten ++ withheld).Perm inputs ∧
        ∀ bc, billedCosts out bc = billedCosts parts.flatten bc := by
  obtain ⟨ps, h1, h2, h3⟩ := h
  obtain ⟨qs, hq, hmap⟩ := exists_perm_map_eq h2.symm
  obtain ⟨as, bs, rfl, rfl, rfl⟩ := map_eq_append_iff.mp hmap
  have ha : ∀ p ∈ as, IsMerge counted p.1 p.2 := fun p hp =>
    h1 p (hq.mem_iff.mp (mem_append_left _ hp))
  refine ⟨as.map (·.1), bs.flatMap (·.1), ?_, ?_, fun bc => ?_⟩
  · rw [forall₂_map_left_iff, forall₂_map_right_iff, forall₂_same]
    exact ha
  · refine List.Perm.trans ?_ ((hq.flatMap_right _).trans h3)
    rw [flatMap_append, ← flatMap_def]
  · rw [← flatMap_def]
    exact sum_costs_of_merges ha bc

/-- **Re-scoping is safe and conserving**: it returns where the figures of a detector's kind and
billing class have one basis, and whatever it returns shows no person and no group below `k`,
stands for the inputs it does not withhold, and keeps the organisation's scopes distinct. -/
theorem rescope_safe (h : Hashes) (uni : Unicode) (findings : List Finding) (k : Nat)
    (count : Option (Finding → Scope → Nat)) (hd : (findings.map triple).Nodup)
    (hc : ∀ f ∈ findings, ∀ g ∈ findings, f.detectorId = g.detectorId → f.kind = g.kind →
      f.category = g.category) :
    (1 ≤ k → (∀ f ∈ findings, checkBudgetPrivacy f = .ok ()) →
      (∃ bs, ∀ f ∈ findings, FindingOk bs f) →
      ∃ out, rescopeFindings h uni findings k count = .ok out) ∧
    ∀ out, rescopeFindings h uni findings k count = .ok out →
      ∃ parts withheld, Rescoped count.isSome findings k out parts withheld := by
  refine ⟨fun hk hbudget ⟨bs, hok⟩ => rescopeFindings_ok hk hbudget hok, fun out hr => ?_⟩
  unfold rescopeFindings at hr
  split at hr
  · cases hr
  obtain ⟨⟨out, withheld⟩, hrun, rfl⟩ := map_eq_ok.mp hr
  let cat (detector kind : String) : Category :=
    match findings.find? fun f => decide (f.detectorId = detector ∧ f.kind = kind) with
    | some f => f.category
    | none => .aggregate
  have hcat : ∀ f ∈ findings, f.category = cat f.detectorId f.kind := by
    intro f hf
    dsimp only [cat]
    split
    · rename_i g hg
      have he := find?_some hg
      simp only [decide_eq_true_eq] at he
      exact hc f hf g (mem_of_find?_eq_some hg) he.1.symm he.2.symm
    · rename_i hnone
      have := find?_eq_none.mp hnone f hf
      simp at this
  have hrun := rescope_run hd hcat hrun
  obtain ⟨parts, inputs, h1, h2, h3⟩ := hrun.cover.parts
  exact ⟨parts, inputs, hrun.safe, h1, h2, h3, hrun.distinct⟩

/-- A finding with a cost. -/
def costFinding (id : String) (audience : Audience) (scope : Scope) (nUsers : Nat) : Finding where
  findingId := id
  detectorId := "cache"
  kind := "cache-miss"
  detectorVersion := "1"
  category := .lever
  leverClass := .rate
  audience := audience
  title := "Cache misses"
  summary := "Cache misses cost money."
  scope := scope
  nEvents := 1
  nLanes := 1
  nUsers := nUsers
  firstSeenMs := 0
  costObserved := exactFigure 7 .list
  recoverable := none

theorem costFinding_ok (id : String) (audience : Audience) (scope : Scope) (nUsers : Nat) :
    FindingOk (fun _ => ⟨.list, .list, .list, .list, .list⟩) (costFinding id audience scope nUsers) :=
  ⟨⟨rfl, .inl rfl⟩, fun _ hx => (nomatch hx), fun _ hx => (nomatch hx), fun _ hx => (nomatch hx),
    fun _ hx => (nomatch hx)⟩

def plainHashes : Hashes := ⟨id, fun _ => id, id⟩

def ascii : Unicode := ⟨fun c => c.isAlphanum || c == '_', fun c => c == ' ', fun c => [c.toLower]⟩

theorem rescope_safe_two_teams : ∃ out parts withheld, Rescoped false
    [costFinding "a" .org [("team", "a")] 2, costFinding "b" .org [("team", "b")] 9] 5 out parts
    withheld := by
  have h := rescope_safe plainHashes ascii
    [costFinding "a" .org [("team", "a")] 2, costFinding "b" .org [("team", "b")] 9] 5 none
    (by decide) (by decide)
  obtain ⟨out, hout⟩ := h.1 (by decide) (by decide)
    ⟨fun _ => ⟨.list, .list, .list, .list, .list⟩, by
      simp only [forall_mem_cons, not_mem_nil, false_imp_iff, implies_true, and_true]
      exact ⟨costFinding_ok _ _ _ _, costFinding_ok _ _ _ _⟩⟩
  obtain ⟨parts, withheld, hr⟩ := h.2 out hout
  exact ⟨out, parts, withheld, hr⟩

/-- A self finding at the scope of the whole organisation stays beside the finding that two teams
are merged to there. -/
theorem rescope_self_beside_org : ¬ ∀ (h : Hashes) (uni : Unicode) (findings : List Finding) (k : Nat)
    (out : List Finding), (findings.map triple).Nodup →
    (∀ f ∈ findings, ∀ g ∈ findings, f.detectorId = g.detectorId → f.kind = g.kind →
      f.category = g.category) → (∃ bs, ∀ f ∈ findings, FindingOk bs f) →
    rescopeFindings h uni findings k none = .ok out → (out.map triple).Nodup := by
  intro hall
  have hrun : (rescopeFindings plainHashes ascii
      [costFinding "s" .self [] 1, costFinding "a" .org [("team", "a")] 2,
        costFinding "b" .org [("team", "b")] 9] 5 none).toOption.map (·.map triple) =
      some [("cache", "cache-miss", []), ("cache", "cache-miss", [])] := by decide
  cases hr : rescopeFindings plainHashes ascii
      [costFinding "s" .self [] 1, costFinding "a" .org [("team", "a")] 2,
        costFinding "b" .org [("team", "b")] 9] 5 none with
  | error e =>
    rw [hr] at hrun
    cases hrun
  | ok out =>
    rw [hr] at hrun
    have hout : out.map triple = [("cache", "cache-miss", []), ("cache", "cache-miss", [])] :=
      Option.some.inj hrun
    have hn := hall _ _ _ _ _ (by decide) (by decide)
      ⟨fun _ => ⟨.list, .list, .list, .list, .list⟩, by
        simp only [forall_mem_cons, not_mem_nil, false_imp_iff, implies_true, and_true]
        exact ⟨costFinding_ok _ _ _ _, costFinding_ok _ _ _ _, costFinding_ok _ _ _ _⟩⟩ hr
    rw [hout] at hn
    exact absurd hn (by decide)

end TokenBill.Kanon
