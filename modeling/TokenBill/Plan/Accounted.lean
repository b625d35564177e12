import TokenBill.General.Post
import TokenBill.Plan.PolicyPacks
import TokenBill.Plan.Rollback
import Mathlib.Data.List.ReduceOption

/-!
# Every proposal is accounted for

A proposal that may be used is written by the pack it goes to, or a line of that pack says
which value was kept instead. A trade-off that is left out has at least its key named. The
pack of the whole organisation withholds the keys that a cohort claims, and then a cohort's
pack sets the key or names it.
-/

namespace TokenBill.PolicyPack

open General List

/-! ### One value for each key -/

/-- A proposal is kept, is equal to one that is kept, or is listed as a conflict with it. -/
def Settled (acc : List Proposal × List String) (p : Proposal) : Prop :=
  ∃ q ∈ acc.1, q.key = p.key ∧ (q.same p = true ∨ conflictLine q p ∈ acc.2)

theorem dedupeStep_mono (acc : List Proposal × List String) (p : Proposal) :
    acc.1 ⊆ (dedupeStep acc p).1 ∧ acc.2 ⊆ (dedupeStep acc p).2 := by
  unfold dedupeStep
  split
  · exact ⟨subset_append_left _ _, List.Subset.refl _⟩
  · split
    · exact ⟨List.Subset.refl _, List.Subset.refl _⟩
    · exact ⟨List.Subset.refl _, subset_append_left _ _⟩

variable {p q : Proposal} {ps active : List Proposal} {leverId : String} {leverProps : LeverProps} {rs : List Routed}

theorem Settled.step {acc : List Proposal × List String} (h : Settled acc p) (q : Proposal) :
    Settled (dedupeStep acc q) p := by
  obtain ⟨kept, hkept, hkey, hsame⟩ := h
  obtain ⟨hprops, hlines⟩ := dedupeStep_mono acc q
  exact ⟨kept, hprops hkept, hkey, hsame.imp_right fun h => hlines h⟩

theorem settled_dedupeStep (acc : List Proposal × List String) (p : Proposal) : Settled (dedupeStep acc p) p := by
  unfold dedupeStep
  split
  · exact ⟨p, mem_append_right _ mem_cons_self, rfl, .inl (JsonValue.looseEq_refl p.value.sorted)⟩
  · rename_i old hold
    have hkey : old.key = p.key := by simpa using find?_some hold
    have hmem := mem_of_find?_eq_some hold
    split
    · exact ⟨old, hmem, hkey, .inl ‹_›⟩
    · exact ⟨old, hmem, hkey, .inr (mem_append_right _ mem_cons_self)⟩

theorem settled_foldl {acc : List Proposal × List String}
    (h : p ∈ ps ∨ Settled acc p) : Settled (ps.foldl dedupeStep acc) p := by
  induction ps generalizing acc with
  | nil => exact h.resolve_left not_mem_nil
  | cons q ps ih =>
    refine ih ?_
    rcases h with h | h
    · rcases mem_cons.mp h with rfl | h
      · exact .inr (settled_dedupeStep acc p)
      · exact .inl h
    · exact .inr (h.step q)

theorem settled_dedupe (h : p ∈ ps) : Settled (dedupe ps) p :=
  settled_foldl (.inl h)

/-! ### What a pack says of a proposal -/

/-- A pack writes the value of a proposal or an equal one, or lists the proposal as a conflict. -/
def Delivered (current : Current) (pack : Pack) (p : Proposal) : Prop :=
  (∃ q : Proposal, q.key = p.key ∧ q.same p = true ∧ ∃ e ∈ pack.entries, e.key = p.key ∧
    e.valueJson = String.ofList (canonicalJson (finalValue p.key q.value current).json)) ∨
  ∃ old, conflictLine old p ∈ pack.conflicts

/-- A pack has an entry for a key, or lists a trade-off for it that it leaves out. -/
def Named (pack : Pack) (key : String) : Prop :=
  (∃ e ∈ pack.entries, e.key = key) ∨ ∃ q ∈ pack.excluded, q.key = key

def IsLeftOut (includeTradeoffs : Bool) (p : Proposal) : Prop := p.tradeoff = true ∧ includeTradeoffs = false

variable {chars : Chars} {hookText target : String} {inp : PackInput} {current : Current} {includeTradeoffs : Bool}

theorem mem_usable : p ∈ usable ps includeTradeoffs ↔ p ∈ ps ∧ ¬IsLeftOut includeTradeoffs p := by
  unfold usable IsLeftOut
  rw [mem_filter]
  refine and_congr_right fun _ => ?_
  cases includeTradeoffs <;> cases p.tradeoff <;> simp

theorem tagged_subset {active' : List Proposal} {arms : List String}
    (h : tagged chars active arms current = .ok active') : active ⊆ active' := by
  unfold tagged at h
  split at h
  · exact Except.ok.inj h ▸ List.Subset.refl _
  · dsimp only at h
    split at h
    · exact Except.ok.inj h ▸ subset_append_left _ _
    · cases h

theorem activeProposals_subset (h : activeProposals chars inp current includeTradeoffs = .ok active) :
    (dedupe (usable inp.proposals includeTradeoffs)).1 ⊆ active := by
  obtain ⟨arms, -, htagged⟩ := bind_eq_ok.mp h
  exact tagged_subset htagged

theorem entry_of_active {acc acc' : List PolicyEntry × Fields}
    (h : active.foldlM (addEntry chars current) acc = .ok acc') : acc.1 ⊆ acc'.1 ∧ ∀ p ∈ active,
      ∃ e ∈ acc'.1, e.key = p.key ∧
        e.valueJson = String.ofList (canonicalJson (finalValue p.key p.value current).json) := by
  induction active generalizing acc with
  | nil =>
    obtain rfl := pure_eq_ok.mp h
    exact ⟨List.Subset.refl _, fun _ h => absurd h not_mem_nil⟩
  | cons p active ih =>
    rw [foldlM_cons] at h
    obtain ⟨next, hnext, h⟩ := bind_eq_ok.mp h
    obtain ⟨hsub, hrest⟩ := ih h
    obtain ⟨entry, -, hnext⟩ := bind_eq_ok.mp hnext
    obtain ⟨-, -, hnext⟩ := bind_eq_ok.mp hnext
    obtain ⟨desired, -, hnext⟩ := bind_eq_ok.mp hnext
    obtain rfl := pure_eq_ok.mp hnext
    refine ⟨fun e he => hsub (mem_append_left _ he), forall_mem_cons.mpr ⟨?_, hrest⟩⟩
    exact ⟨entryOf p entry (finalValue p.key p.value current),
      hsub (mem_append_right _ mem_cons_self), rfl, rfl⟩

theorem assemble_eq_none (h : assemble chars hookText target inp current includeTradeoffs = .ok none) :
    ∃ active desired, activeProposals chars inp current includeTradeoffs = .ok active ∧
      active.foldlM (addEntry chars current) ([], current.fields) = .ok ([], desired) ∧
      leftOut inp.proposals (dedupe (usable inp.proposals includeTradeoffs)).1 includeTradeoffs = [] := by
  obtain ⟨arms, harms, h⟩ := bind_eq_ok.mp h
  obtain ⟨active, hactive, h⟩ := bind_eq_ok.mp h
  obtain ⟨⟨entries, desired⟩, hentries, h⟩ := bind_eq_ok.mp h
  dsimp only at h
  split at h
  · rename_i hempty
    obtain ⟨hnil, -, -, hexcluded⟩ := hempty
    obtain rfl := List.isEmpty_iff.mp hnil
    exact ⟨active, desired, bind_eq_ok.mpr ⟨arms, harms, hactive⟩, hentries, List.isEmpty_iff.mp hexcluded⟩
  · cases h

/-- The pack made of some proposals accounts for each: it delivers the usable ones and names the keys of the
trade-offs it leaves out. -/
theorem assemble_accounts {result : Option Pack}
    (h : assemble chars hookText target inp current includeTradeoffs = .ok result)
    (hp : p ∈ inp.proposals) (hshown : ¬IsLeftOut includeTradeoffs p ∨ p.primary = true) :
    ∃ pack, result = some pack ∧ Named pack p.key ∧
      (¬IsLeftOut includeTradeoffs p → Delivered current pack p) := by
  -- the entries and the trade-offs left out, whether they make a pack or not
  have hmade : ∃ active entries desired, activeProposals chars inp current includeTradeoffs = .ok active ∧
      active.foldlM (addEntry chars current) ([], current.fields) = .ok (entries, desired) ∧
      ((result = none ∧ entries = [] ∧
          leftOut inp.proposals (dedupe (usable inp.proposals includeTradeoffs)).1 includeTradeoffs = []) ∨
        ∃ pack, result = some pack ∧ pack.entries = entries ∧
          pack.conflicts = inp.conflicts ++ (dedupe (usable inp.proposals includeTradeoffs)).2 ∧
          pack.excluded =
            leftOut inp.proposals (dedupe (usable inp.proposals includeTradeoffs)).1 includeTradeoffs) := by
    cases result with
    | none =>
      obtain ⟨active, desired, hactive, hentries, hexcluded⟩ := assemble_eq_none h
      exact ⟨active, [], desired, hactive, hentries, .inl ⟨rfl, rfl, hexcluded⟩⟩
    | some pack =>
      obtain ⟨active, desired, hactive, hentries, -, -, hconflicts, hexcluded⟩ := assemble_eq_some h
      exact ⟨active, pack.entries, desired, hactive, hentries, .inr ⟨pack, rfl, rfl, hconflicts, hexcluded⟩⟩
  obtain ⟨active, entries, desired, hactive, hentries, hresult⟩ := hmade
  obtain ⟨-, hentry⟩ := entry_of_active hentries
  have hkept : ∀ q ∈ (dedupe (usable inp.proposals includeTradeoffs)).1, ∃ e ∈ entries, e.key = q.key ∧
      e.valueJson = String.ofList (canonicalJson (finalValue q.key q.value current).json) :=
    fun q hq => hentry q (activeProposals_subset hactive hq)
  by_cases hout : IsLeftOut includeTradeoffs p
  · have hprimary := hshown.resolve_left (not_not_intro hout)
    by_cases hkey : p.key ∈ (dedupe (usable inp.proposals includeTradeoffs)).1.map (·.key)
    · obtain ⟨q, hq, hqkey⟩ := mem_map.mp hkey
      obtain ⟨e, he, hekey, -⟩ := hkept q hq
      rcases hresult with ⟨-, hnil, -⟩ | ⟨pack, hpack, rfl, -⟩
      · rw [hnil] at he
        cases he
      · exact ⟨pack, hpack, .inl ⟨e, he, hekey.trans hqkey⟩, fun hnot => absurd hout hnot⟩
    · have hfree : ((dedupe (usable inp.proposals includeTradeoffs)).1.map (·.key)).contains p.key = false := by
        rw [contains_eq_mem]
        exact decide_eq_false hkey
      have hmem : p ∈ inp.proposals.filter fun p => p.tradeoff && !includeTradeoffs && p.primary &&
          !((dedupe (usable inp.proposals includeTradeoffs)).1.map (·.key)).contains p.key :=
        mem_filter.mpr ⟨hp, by rw [hfree, hout.1, hprimary]; simp [hout.2]⟩
      obtain ⟨q, hq, hqkey, -⟩ := settled_dedupe hmem
      rcases hresult with ⟨-, -, hnil⟩ | ⟨pack, hpack, -, -, hexcluded⟩
      · have hq : q ∈ leftOut inp.proposals _ includeTradeoffs := hq
        rw [hnil] at hq
        cases hq
      · exact ⟨pack, hpack, .inr ⟨q, hexcluded ▸ hq, hqkey⟩, fun hnot => absurd hout hnot⟩
  · obtain ⟨q, hq, hqkey, hsame⟩ := settled_dedupe (mem_usable.mpr ⟨hp, hout⟩)
    obtain ⟨e, he, hekey, hevalue⟩ := hkept q hq
    rcases hresult with ⟨-, hnil, -⟩ | ⟨pack, hpack, rfl, hconflicts, -⟩
    · rw [hnil] at he
      cases he
    · refine ⟨pack, hpack, .inl ⟨e, he, hekey.trans hqkey⟩, fun _ => ?_⟩
      rcases hsame with hsame | hline
      · exact .inl ⟨q, hqkey, hsame, e, he, hekey.trans hqkey, hqkey ▸ hevalue⟩
      · exact .inr ⟨q, hconflicts ▸ mem_append_right _ hline⟩

/-! ### Where proposals come from -/

variable {ctx : PackContext} {plan : List PlanLever} {findings : List Finding} {cohortBy : Option CohortBy}

/-- A proposal of a lever of the plan. -/
def LeverProposal (ctx : PackContext) (plan : List PlanLever) (leverId : String) (p : Proposal) : Prop :=
  ∃ t ∈ planLevers plan, t.1.leverId = leverId ∧ ∃ props,
    leverProposals ctx.chars ctx.parsePolicy t.1 t.2.params t.2.projectedMonthly = .ok props ∧ p ∈ props

def FixProposal (ctx : PackContext) (f : Finding) (p : Proposal) : Prop :=
  ∃ props, findingProposals ctx.chars f = .ok props ∧ p ∈ props

/-- A settings proposal of a lever of the plan or of a finding's fix. -/
def SettingsProposal (ctx : PackContext) (plan : List PlanLever) (findings : List Finding) (p : Proposal) : Prop :=
  (∃ leverId, LeverProposal ctx plan leverId p) ∨ ∃ f ∈ findings, FixProposal ctx f p

/-- A finding of a cohort claims a key: its fix sets it, or a lever it links does. -/
def Claims (ctx : PackContext) (plan : List PlanLever) (findings : List Finding) (cohortBy : Option CohortBy)
    (key : String) : Prop :=
  ∃ f ∈ findings, cohortOf (cohortDim findings cohortBy) f ≠ none ∧ ∃ q : Proposal, q.key = key ∧
    (FixProposal ctx f q ∨ ∃ l ∈ findingLevers f, LeverProposal ctx plan l.leverId q)

/-- A proposal for the whole organisation is withheld: a cohort claims its key. -/
def Withheld (ctx : PackContext) (plan : List PlanLever) (findings : List Finding) (cohortBy : Option CohortBy)
    (p : Proposal) : Prop :=
  ((∃ leverId, LeverProposal ctx plan leverId p) ∨
    ∃ f ∈ findings, cohortOf (cohortDim findings cohortBy) f = none ∧ FixProposal ctx f p) ∧
  Claims ctx plan findings cohortBy p.key

def companionKeys : List String := ["availableModels", "enforceAvailableModels"]

theorem tierSettings_primary (targets : List String) : ∀ s ∈ tierSettings targets, s.2.2 = true := by
  refine foldl_inv (I := fun out : List Setting => ∀ s ∈ out, s.2.2 = true)
    (fun out hout target _ => ?_) (forall_mem_nil _)
  split
  · split
    · exact forall_mem_append.mpr ⟨hout, forall_mem_singleton.mpr rfl⟩
    · exact hout
  · exact hout

theorem policySettings_companion {policy : Policy} {s : Setting}
    (h : s ∈ policySettings leverId policy) : s.2.2 = true ∨ s.1 ∈ companionKeys := by
  have hone : ∀ {key : String} {texts : List String},
      s ∈ (texts.head?.map fun text => (key, Value.str text, true)).toList → s.2.2 = true := fun h => by
    obtain ⟨_, -, rfl⟩ := Option.map_eq_some_iff.mp (Option.mem_toList.mp h)
    rfl
  unfold policySettings at h
  split at h
  · exact .inl (hone h)
  split at h
  · exact .inl (hone h)
  split at h
  · split at h
    · simp only [mem_cons, not_mem_nil, or_false] at h
      rcases h with rfl | rfl <;> exact .inl rfl
    · cases h
  split at h
  · split at h
    · simp only [mem_cons, not_mem_nil, or_false] at h
      rcases h with rfl | rfl | rfl
      · exact .inl rfl
      · exact .inr mem_cons_self
      · exact .inr (mem_cons_of_mem _ mem_cons_self)
    · cases h
  split at h
  · exact .inl (hone h)
  split at h
  · exact .inl (hone h)
  split at h
  · exact .inl (hone h)
  split at h
  · exact .inl (tierSettings_primary _ s h)
  split at h
  · exact .inl (by rw [mem_singleton.mp h])
  · cases h

theorem leverSettings_companion {parsePolicy : String → Except PackError Policy} {l : Lever} {params : String}
    {settings : List Setting} (h : leverSettings parsePolicy l params = .ok settings) {s : Setting}
    (hs : s ∈ settings) : s.2.2 = true ∨ s.1 ∈ companionKeys := by
  unfold leverSettings at h
  split at h
  · obtain rfl := Except.ok.inj h
    exact .inl (by rw [mem_singleton.mp hs])
  split at h
  · obtain rfl := Except.ok.inj h
    exact .inl (by rw [mem_singleton.mp hs])
  split at h
  · obtain rfl := Except.ok.inj h
    cases hs
  · obtain ⟨policy, -, rfl⟩ := map_eq_ok.mp h
    exact policySettings_companion hs

/-- A proposal has a key of the allowlist, and is a trade-off if the key is one of trade-offs. -/
def KeyAllowed (p : Proposal) : Prop :=
  ∃ entry, allowedKey p.key = .ok entry ∧ (entry.tradeoff = true → p.tradeoff = true)

theorem leverProposal_spec (h : LeverProposal ctx plan leverId p) :
    KeyAllowed p ∧ (p.primary = true ∨ p.key ∈ companionKeys) := by
  obtain ⟨t, -, -, props, hprops, hp⟩ := h
  obtain ⟨settings, hsettings, hprops⟩ := bind_eq_ok.mp hprops
  obtain ⟨s, hs, hproposal⟩ := exists_of_mem_right (mapM_eq_ok.mp hprops) hp
  obtain ⟨entry, hentry, hproposal⟩ := bind_eq_ok.mp hproposal
  obtain ⟨-, -, hproposal⟩ := bind_eq_ok.mp hproposal
  obtain rfl := pure_eq_ok.mp hproposal
  exact ⟨⟨entry, hentry, fun h => by simp [h]⟩, leverSettings_companion hsettings hs⟩

theorem fixProposal_spec {f : Finding} (h : FixProposal ctx f p) : KeyAllowed p ∧ p.primary = true := by
  obtain ⟨props, hprops, hp⟩ := h
  unfold findingProposals at hprops
  split at hprops
  · split at hprops
    · obtain ⟨s, -, hproposal⟩ := exists_of_mem_right (mapM_eq_ok.mp hprops) hp
      obtain ⟨entry, hentry, hproposal⟩ := bind_eq_ok.mp hproposal
      obtain ⟨value, -, hproposal⟩ := bind_eq_ok.mp hproposal
      obtain ⟨-, -, hproposal⟩ := bind_eq_ok.mp hproposal
      obtain rfl := pure_eq_ok.mp hproposal
      exact ⟨⟨entry, hentry, fun h => by simp [h]⟩, rfl⟩
    · obtain rfl := Except.ok.inj hprops
      cases hp
  · obtain rfl := Except.ok.inj hprops
    cases hp

theorem KeyAllowed.companion (h : KeyAllowed p) (hkey : p.key ∈ companionKeys) : p.tradeoff = true := by
  obtain ⟨entry, hentry, htradeoff⟩ := h
  refine htradeoff ?_
  unfold companionKeys at hkey
  simp only [mem_cons, not_mem_nil, or_false] at hkey
  rcases hkey with hkey | hkey <;> rw [hkey] at hentry <;> cases hentry <;> rfl

/-! ### Packs -/

theorem mem_leverProps (h : (planLevers plan).mapM (planProposals ctx) = .ok leverProps) :
    LeverProposal ctx plan leverId q ↔ ∃ props, (leverId, props) ∈ leverProps ∧ q ∈ props := by
  have hrel := mapM_eq_ok.mp h
  constructor
  · rintro ⟨t, ht, rfl, props, hprops, hq⟩
    obtain ⟨lp, hlp, hmade⟩ := exists_of_mem_left hrel ht
    obtain ⟨props', hprops', hmade⟩ := bind_eq_ok.mp hmade
    obtain rfl := pure_eq_ok.mp hmade
    obtain rfl := Except.ok.inj (hprops.symm.trans hprops')
    exact ⟨props, hlp, hq⟩
  · rintro ⟨props, hlp, hq⟩
    obtain ⟨t, ht, hmade⟩ := exists_of_mem_right hrel hlp
    obtain ⟨props', hprops', hmade⟩ := bind_eq_ok.mp hmade
    obtain ⟨hid, rfl⟩ := Prod.ext_iff.mp (pure_eq_ok.mp hmade)
    exact ⟨t, ht, hid, props', hprops', hq⟩

theorem route_eq_ok {dim : Option String} {f : Finding} {r : Routed} (h : route chars dim f = .ok r) :
    r.finding = f ∧ r.cohort = cohortOf dim f ∧ findingProposals chars f = .ok r.props := by
  obtain ⟨props, hprops, h⟩ := bind_eq_ok.mp h
  split at h
  · obtain rfl := Except.ok.inj h
    exact ⟨rfl, rfl, hprops⟩
  · cases h

theorem mem_cohorts {cohort : String} : cohort ∈ cohorts rs ↔ ∃ r ∈ rs, r.cohort = some cohort := by
  unfold cohorts
  rw [mem_insertionSort, mem_dedup, mem_filterMap]

theorem mem_cohortInput {cohort : String} :
    q ∈ (cohortInput leverProps rs cohort).proposals ↔
      ∃ r ∈ rs, r.cohort = some cohort ∧ (q ∈ r.props ∨ q ∈ linkedProposals leverProps r) := by
  show q ∈ List.flatMap _ _ ↔ _
  simp only [mem_flatMap, mem_filter, mem_append, decide_eq_true_eq, and_assoc]

theorem linked_of_mem (h : (planLevers plan).mapM (planProposals ctx) = .ok leverProps)
    {r : Routed} (hq : q ∈ linkedProposals leverProps r) :
    ∃ l ∈ findingLevers r.finding, LeverProposal ctx plan l.leverId q := by
  obtain ⟨l, hl, hq⟩ := mem_flatMap.mp hq
  have hq := (mem_filter.mp hq).1
  cases hlookup : leverProps.lookup l.leverId with
  | none =>
    rw [hlookup] at hq
    cases hq
  | some props =>
    rw [hlookup] at hq
    exact ⟨l, hl, (mem_leverProps h).mpr ⟨props, mem_of_lookup hlookup, hq⟩⟩

theorem mem_allInput {pricing : List Proposal × List String}
    {litellm : Option String} {snippets : List (String × String)}
    (hq : (∃ lp ∈ leverProps, q ∈ lp.2) ∨ ∃ r ∈ rs, r.cohort = none ∧ q ∈ r.props)
    (hclaimed : q.key ∉ claimed leverProps rs) : q ∈ (allInput leverProps rs pricing litellm snippets).proposals := by
  refine mem_append_left _ (mem_filter.mpr ⟨?_, decide_eq_true hclaimed⟩)
  rcases hq with ⟨lp, hlp, hq⟩ | ⟨r, hr, hcohort, hq⟩
  · exact mem_append_left _ (mem_flatMap.mpr ⟨lp, hlp, hq⟩)
  · exact mem_append_right _
      (mem_flatMap.mpr ⟨r, mem_filter.mpr ⟨hr, decide_eq_true hcohort⟩, hq⟩)

def Appears (current : Current) (pack : Pack) (p : Proposal) : Prop :=
  (∃ e ∈ pack.entries, e.key = p.key ∧
    e.valueJson = String.ofList (canonicalJson (finalValue p.key p.value current).json)) ∨
  (∃ old, conflictLine old p ∈ pack.conflicts) ∨ ∃ q ∈ pack.excluded, q.key = p.key ∧ q.value.json = p.value.json

def silentOn (key text : String) (pack : Pack) : Bool :=
  pack.conflicts.isEmpty && pack.excluded.isEmpty &&
    pack.entries.all fun e => decide (e.key ≠ key ∨ e.valueJson ≠ text)

theorem not_appears_of_silentOn {current : Current} {pack : Pack}
    (h : silentOn p.key (String.ofList (canonicalJson (finalValue p.key p.value current).json)) pack = true) :
    ¬Appears current pack p := by
  unfold silentOn at h
  simp only [Bool.and_eq_true, List.isEmpty_iff, all_eq_true, decide_eq_true_eq] at h
  obtain ⟨⟨hconflicts, hexcluded⟩, hentries⟩ := h
  rintro (⟨e, he, hkey, hvalue⟩ | ⟨old, hline⟩ | ⟨q, hq, -⟩)
  · exact (hentries e he).elim (fun hne => hne hkey) fun hne => hne hvalue
  · rw [hconflicts] at hline
    cases hline
  · rw [hexcluded] at hq
    cases hq

/-- A context without a contract. -/
def plainContext : PackContext where
  chars := ascii
  hookText := ""
  parsePolicy _ := .error (.policy "no policy")
  litellm := none
  snippets := []
  contract := none

theorem sorted_noFields : (JsonValue.obj []).Sorted := .obj .nil fun _ h => absurd h not_mem_nil

theorem nullFree_noFields : (JsonValue.obj []).NullFree := .obj fun _ h => absurd h not_mem_nil

theorem objects_noFields : ∀ part ∈ sections, ∀ v, ([] : Fields).lookup part = some v → v.isObj = true :=
  fun _ _ _ h => absurd h (Option.some_ne_none _).symm

def noSettings : Current := ⟨[], sorted_noFields, nullFree_noFields, objects_noFields⟩

/-- A finding that proposes a time to live. -/
def ttlFinding (findingId : String) (scope : Scope) (ttl : String) : Finding where
  findingId := findingId
  detectorId := "cache_ttl"
  kind := "ttl-expiry"
  detectorVersion := "1"
  category := .lever
  leverClass := .cacheTransform
  audience := .org
  title := "TTL"
  summary := "TTL"
  scope := scope
  nEvents := 1
  nLanes := 1
  nUsers := 5
  firstSeenMs := 0
  costObserved := exactFigure 0 .list
  recoverable := none
  fix := some { text := "set the TTL", configPatch := some [("promptCacheTtl", "\"" ++ ttl ++ "\"")],
                target := none, docUrl := none }

def ttlFindings : List Finding := [ttlFinding "fd_a" [("team", "a")] "1h", ttlFinding "fd_b" [] "5m"]

def Proposal.view (p : Proposal) : String × String × Bool :=
  (p.key, String.ofList (canonicalJson p.value.json), p.primary)

/-- The organisation's finding proposes five minutes, and the packs do not show it. -/
theorem fiveMinutes_run :
    (findingProposals ascii (ttlFinding "fd_b" [] "5m")).toOption.map (fun ps => ps.map Proposal.view) =
      some [("promptCacheTtl", "\"5m\"", true)] ∧
    (claudeCodePacks plainContext [] ttlFindings noSettings (some .team) false).toOption.map
      (fun packs => packs.all (silentOn "promptCacheTtl" "\"5m\"")) = some true := by
  decide

theorem exists_fiveMinutes :
    ∃ p, SettingsProposal plainContext [] ttlFindings p ∧ p.view = ("promptCacheTtl", "\"5m\"", true) := by
  obtain ⟨props, hprops, hviews⟩ := Option.map_eq_some_iff.mp fiveMinutes_run.1
  obtain ⟨p, hp, hview⟩ := mem_map.mp (hviews ▸ mem_singleton_self _)
  exact ⟨p, .inr ⟨_, mem_cons_of_mem _ mem_cons_self, props, toOption_eq_some.mp hprops, hp⟩, hview⟩

end TokenBill.PolicyPack
