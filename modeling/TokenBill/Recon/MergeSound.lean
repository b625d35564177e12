import TokenBill.Recon.Merge
import TokenBill.General.Lists

/-!
# The order of reconciliation reports

A merge looks at the parts of its reports, not at how they are spread over them: the order of the reports shows in
the texts of equal decimals and in the order of rows of one key only.
-/

namespace TokenBill.Recon

open General List

variable {reports reports' : List Report} {first second m : Report} {rest : List Report}

/-! ### When a merge is defined -/

/-- What the merge of two reports and more asks of them. -/
structure Mergeable (first : Report) (reports : List Report) (decisions discounts : List (String × String))
    (covered : Option String × Option String) : Prop where
  decisions : decisionsOf reports = .ok decisions
  tolerances : ∀ r ∈ reports, sameTolerances r first = true
  channels : ((reports.flatMap (·.channels)).map (·.channel)).Nodup
  discounts : discountsOf reports = .ok discounts
  covered : coverage (rowsOf reports) = .ok covered
  suggested : (reports.filterMap (·.suggestedContract)).dedup.length ≤ 1

variable {decisions discounts : List (String × String)}

theorem mergeSeveral_eq_ok :
    mergeSeveral first reports decisions = .ok m ↔ (∀ r ∈ reports, sameTolerances r first = true) ∧
      ((reports.flatMap (·.channels)).map (·.channel)).Nodup ∧ ∃ discounts covered,
        discountsOf reports = .ok discounts ∧ coverage (rowsOf reports) = .ok covered ∧
        (reports.filterMap (·.suggestedContract)).dedup.length ≤ 1 ∧
        m = assembled first reports decisions discounts covered := by
  unfold mergeSeveral
  by_cases htol : ∀ r ∈ reports, sameTolerances r first = true
  case neg =>
    have hany : (reports.any fun r => !sameTolerances r first) = true := by
      push Not at htol
      obtain ⟨r, hr, hne⟩ := htol
      exact any_eq_true.mpr ⟨r, hr, by simpa using hne⟩
    rw [if_pos hany]
    exact ⟨fun h => (by cases h), fun h => absurd h.1 htol⟩
  have hany : ¬ (reports.any fun r => !sameTolerances r first) = true := by
    simpa using htol
  rw [if_neg hany]
  by_cases hch : ((reports.flatMap (·.channels)).map (·.channel)).Nodup
  case neg =>
    rw [if_pos hch]
    exact ⟨fun h => (by cases h), fun h => absurd h.2.1 hch⟩
  rw [if_neg (not_not_intro hch), bind_eq_ok]
  constructor
  · rintro ⟨discounts, hdiscounts, h⟩
    obtain ⟨covered, hcovered, h⟩ := bind_eq_ok.mp h
    split at h
    · cases h
    · rename_i hsuggested
      exact ⟨htol, hch, discounts, covered, hdiscounts, hcovered, by omega, (Except.ok.inj h).symm⟩
  · rintro ⟨-, -, discounts, covered, hdiscounts, hcovered, hsuggested, rfl⟩
    refine ⟨discounts, hdiscounts, bind_eq_ok.mpr ⟨covered, hcovered, ?_⟩⟩
    rw [if_neg (by omega)]

theorem mergeReports_single {r : Report} : mergeReports [r] = .ok m ↔ (∃ d, decisionsOf [r] = .ok d) ∧ m = r := by
  unfold mergeReports
  rw [bind_eq_ok]
  constructor
  · rintro ⟨d, hd, h⟩
    exact ⟨⟨d, hd⟩, (Except.ok.inj h).symm⟩
  · rintro ⟨⟨d, hd⟩, rfl⟩
    exact ⟨d, hd, rfl⟩

theorem mergeReports_eq_ok : mergeReports (first :: second :: rest) = .ok m ↔
    ∃ decisions discounts covered, Mergeable first (first :: second :: rest) decisions discounts covered ∧
      m = assembled first (first :: second :: rest) decisions discounts covered := by
  unfold mergeReports
  rw [bind_eq_ok]
  constructor
  · rintro ⟨decisions, hdecisions, h⟩
    obtain ⟨htol, hch, discounts, covered, hdiscounts, hcovered, hsuggested, rfl⟩ := mergeSeveral_eq_ok.mp h
    exact ⟨decisions, discounts, covered, ⟨hdecisions, htol, hch, hdiscounts, hcovered, hsuggested⟩, rfl⟩
  · rintro ⟨decisions, discounts, covered, h, rfl⟩
    exact ⟨decisions, h.decisions, mergeSeveral_eq_ok.mpr
      ⟨h.tolerances, h.channels, discounts, covered, h.discounts, h.covered, h.suggested, rfl⟩⟩

/-! ### Unions -/

theorem sortedPairs_congr {xs ys : List (String × String)} (hx : (xs.map (·.1)).Nodup) (hy : (ys.map (·.1)).Nodup)
    (h : ∀ p, p ∈ xs ↔ p ∈ ys) : sortedPairs xs = sortedPairs ys :=
  sorted_eq (fun _ _ _ _ hab hba => toLex_inj.mp (le_antisymm hab hba))
    ((perm_ext_iff_of_nodup hx.of_map hy.of_map).mpr h)

theorem union_congr {fail : String × String → MergeError} {xs ys table : List (String × String)}
    (h : ∀ p, p ∈ xs ↔ p ∈ ys) (hx : union fail xs = .ok table) :
    ∃ table', union fail ys = .ok table' ∧ sortedPairs table' = sortedPairs table := by
  obtain ⟨hf, hn, hmem⟩ := union_spec hx
  have hf' : Functional ys := fun p hp q hq => hf p ((h p).mpr hp) q ((h q).mpr hq)
  obtain ⟨table', hy⟩ : ∃ table', union fail ys = .ok table' := union_exists hf'
  obtain ⟨-, hn', hmem'⟩ := union_spec hy
  exact ⟨table', hy, sortedPairs_congr hn' hn fun p => by rw [hmem', hmem, h]⟩

theorem mem_sortedPairs {pairs : List (String × String)} {p : String × String} : p ∈ sortedPairs pairs ↔ p ∈ pairs :=
  mem_insertionSort _

/-! ### What a merge depends on -/

/-- The parts of two lists of reports are the same, however they are spread over the reports. -/
structure SameParts (reports reports' : List Report) : Prop where
  decisions : ∀ p, p ∈ reports.flatMap (·.decisions) ↔ p ∈ reports'.flatMap (·.decisions)
  discounts : ∀ p, p ∈ reports.flatMap (·.effectiveDiscount) ↔ p ∈ reports'.flatMap (·.effectiveDiscount)
  channels : (reports.flatMap (·.channels)).Perm (reports'.flatMap (·.channels))
  residuals : ∀ k, amountOf (reports.flatMap (·.residuals)) k = amountOf (reports'.flatMap (·.residuals)) k
  rows : (reports.flatMap (·.rows)).Perm (reports'.flatMap (·.rows))
  suggested : ∀ s, s ∈ reports.filterMap (·.suggestedContract) ↔ s ∈ reports'.filterMap (·.suggestedContract)
  overCount : (reports.map (·.overCountRows)).sum = (reports'.map (·.overCountRows)).sum
  unexplained : (reports.map (·.unexplainedNano)).sum = (reports'.map (·.unexplainedNano)).sum

theorem sameParts_of_perm (h : reports.Perm reports') : SameParts reports reports' where
  decisions _ := (h.flatMap_right _).mem_iff
  discounts _ := (h.flatMap_right _).mem_iff
  channels := h.flatMap_right _
  residuals k := amountOf_perm (h.flatMap_right _) k
  rows := h.flatMap_right _
  suggested _ := (h.filterMap _).mem_iff
  overCount := (h.map _).sum_eq
  unexplained := (h.map _).sum_eq

theorem SameParts.symm (h : SameParts reports reports') : SameParts reports' reports where
  decisions p := (h.decisions p).symm
  discounts p := (h.discounts p).symm
  channels := h.channels.symm
  residuals k := (h.residuals k).symm
  rows := h.rows.symm
  suggested s := (h.suggested s).symm
  overCount := h.overCount.symm
  unexplained := h.unexplained.symm

theorem decisionsOf_congr (h : SameParts reports reports')
    (hd : decisionsOf reports = .ok decisions) : decisionsOf reports' = .ok decisions := by
  obtain ⟨table, htable, hsorted⟩ := bind_eq_ok.mp hd
  obtain ⟨table', htable', hsame⟩ := union_congr h.decisions htable
  exact bind_eq_ok.mpr ⟨table', htable', by rw [hsame]; exact hsorted⟩

theorem discountsOf_congr (h : SameParts reports reports')
    (hd : discountsOf reports = .ok discounts) : discountsOf reports' = .ok discounts := by
  obtain ⟨table, htable, hsorted⟩ := bind_eq_ok.mp hd
  obtain ⟨table', htable', hsame⟩ := union_congr h.discounts htable
  exact bind_eq_ok.mpr ⟨table', htable', by rw [hsame]; exact hsorted⟩

/-- The channels of disjoint reports come in one order. -/
theorem channelsOf_congr (h : SameParts reports reports')
    (hn : ((reports.flatMap (·.channels)).map (·.channel)).Nodup) : channelsOf reports = channelsOf reports' :=
  sorted_eq (fun _ ha _ hb hab hba =>
    inj_on_of_nodup_map hn ha (h.channels.mem_iff.mpr hb) (le_antisymm hab hba)) h.channels

theorem residualOrder_inj {a b : String} (h : residualOrder a = residualOrder b) : a = b :=
  congrArg (fun o => (ofLex o).2) h

theorem residualsOf_congr (h : SameParts reports reports') : residualsOf reports = residualsOf reports' := by
  have hperm : (tally (reports.flatMap (·.residuals))).Perm (tally (reports'.flatMap (·.residuals))) :=
    (perm_ext_iff_of_nodup (nodup_tally _).of_map (nodup_tally _).of_map).mpr fun ⟨k, total⟩ => by
      rw [mem_tally, mem_tally, h.residuals]
  exact sorted_eq (fun a ha b hb hab hba =>
    inj_on_of_nodup_map (nodup_tally _) ha (hperm.mem_iff.mpr hb) (residualOrder_inj (le_antisymm hab hba))) hperm

theorem rowsOf_perm (h : SameParts reports reports') : (rowsOf reports).Perm (rowsOf reports') :=
  (perm_insertionSort _ _).trans (h.rows.trans (perm_insertionSort _ _).symm)

theorem coverage_perm {rows rows' : List ReportRow} (h : rows.Perm rows') : coverage rows = coverage rows' := by
  have hcounted : (counted rows).Perm (counted rows') := h.filter _
  have hprovider : (withProvider rows).Perm (withProvider rows') := by
    unfold withProvider
    simp only [hcounted.any_eq]
    exact hcounted.filter _
  have hinvoice : (withInvoice rows).Perm (withInvoice rows') := by
    unfold withInvoice
    simp only [hcounted.any_eq]
    exact hcounted.filter _
  unfold coverage
  rw [(hprovider.map _).sum_eq, (hprovider.map _).sum_eq, (hinvoice.map _).sum_eq, (hinvoice.map _).sum_eq]

theorem dedup_le_one {α : Type} [DecidableEq α] {xs : List α} :
    xs.dedup.length ≤ 1 ↔ ∀ a ∈ xs, ∀ b ∈ xs, a = b := by
  constructor
  · intro h a ha b hb
    match hd : xs.dedup, h with
    | [], _ => exact absurd (hd ▸ mem_dedup.mpr ha) not_mem_nil
    | [c], _ =>
      have hac := hd ▸ mem_dedup.mpr ha
      have hbc := hd ▸ mem_dedup.mpr hb
      rw [mem_singleton.mp hac, mem_singleton.mp hbc]
  · intro h
    match hd : xs.dedup with
    | [] => exact Nat.zero_le _
    | [c] => exact le_refl _
    | c :: d :: rest =>
      have hn : (c :: d :: rest).Nodup := hd ▸ nodup_dedup xs
      have hc : c ∈ xs := mem_dedup.mp (hd ▸ mem_cons_self)
      have hd' : d ∈ xs := mem_dedup.mp (hd ▸ mem_cons_of_mem _ mem_cons_self)
      exact absurd (h c hc d hd') fun heq => (nodup_cons.mp hn).1 (heq ▸ mem_cons_self)

theorem overall_congr {verdicts : List ChannelVerdict} {spend spend' : List String}
    (h : ∀ v ∈ verdicts, v.channel ∈ spend ↔ v.channel ∈ spend') : overall verdicts spend = overall verdicts spend' := by
  have hfilter : (verdicts.filter fun v => decide (v.channel ∈ spend)) =
      verdicts.filter fun v => decide (v.channel ∈ spend') :=
    filter_congr fun v hv => by simp only [h v hv]
  unfold overall
  rw [hfilter]

/-- What a merge asks is asked of the parts, and of the tolerances. -/
theorem Mergeable.congr (h : SameParts reports reports')
    {covered : Option String × Option String} (hm : Mergeable first reports decisions discounts covered)
    {first' : Report} (htol : ∀ r ∈ reports', sameTolerances r first' = true) :
    Mergeable first' reports' decisions discounts covered where
  decisions := decisionsOf_congr h hm.decisions
  tolerances := htol
  channels := (h.channels.map _).nodup_iff.mp hm.channels
  discounts := discountsOf_congr h hm.discounts
  covered := by rw [← coverage_perm (rowsOf_perm h)]; exact hm.covered
  suggested := by
    have hsame := dedup_le_one.mp hm.suggested
    exact dedup_le_one.mpr fun a ha b hb => hsame a ((h.suggested a).mpr ha) b ((h.suggested b).mpr hb)


/-! ### The order of the reports -/

def errorValues (e : DecimalText × DecimalText × DecimalText) : ℚ × ℚ × ℚ := (e.1.value, e.2.1.value, e.2.2.value)

/-- Two reports say the same but for the texts of equal decimals and the order of rows of one key. -/
structure Agrees (m m' : Report) : Prop where
  tolerances : sameTolerances m' m = true
  rows : m.rows.Perm m'.rows
  keys : m.rows.map (·.key) = m'.rows.map (·.key)
  rateCardError : m.rateCardError.map errorValues = m'.rateCardError.map errorValues
  others : m' = { m with
    tolerancePct := m'.tolerancePct
    unexplainedTolerancePct := m'.unexplainedTolerancePct
    rows := m'.rows
    rateCardError := m'.rateCardError }

theorem sameTolerances_iff {a b : Report} : sameTolerances a b = true ↔
    a.tolerancePct.value = b.tolerancePct.value ∧
      a.unexplainedTolerancePct.value = b.unexplainedTolerancePct.value := by
  simp [sameTolerances]

theorem Agrees.refl (m : Report) : Agrees m m where
  tolerances := sameTolerances_iff.mpr ⟨rfl, rfl⟩
  rows := List.Perm.refl _
  keys := rfl
  rateCardError := rfl
  others := rfl

theorem head?_of_le_one {xs ys : List String} (h : xs.dedup.length ≤ 1) (hmem : ∀ s, s ∈ xs ↔ s ∈ ys) :
    xs.head? = ys.head? := by
  have hsame := dedup_le_one.mp h
  match xs, ys with
  | [], [] => rfl
  | [], y :: ys => exact absurd ((hmem y).mpr mem_cons_self) not_mem_nil
  | x :: xs, [] => exact absurd ((hmem x).mp mem_cons_self) not_mem_nil
  | x :: xs, y :: ys => exact congrArg some (hsame x mem_cons_self y ((hmem y).mpr mem_cons_self))

/-- The largest value does not depend on the order. -/
theorem argmax_perm {xs ys : List DecimalText} (h : xs.Perm ys) :
    (xs.argmax (·.value)).map (·.value) = (ys.argmax (·.value)).map (·.value) := by
  cases hx : xs.argmax (·.value) with
  | none =>
    obtain rfl := argmax_eq_none.mp hx
    rw [nil_perm.mp h, argmax_nil]
  | some a =>
    cases hy : ys.argmax (·.value) with
    | none =>
      obtain rfl := argmax_eq_none.mp hy
      rw [perm_nil.mp h, argmax_nil] at hx
      cases hx
    | some b =>
      have ha := argmax_mem hx
      have hb := argmax_mem hy
      exact congrArg some (le_antisymm (le_of_mem_argmax (h.mem_iff.mp ha) hy)
        (le_of_mem_argmax (h.mem_iff.mpr hb) hx))

/-- The errors of a report come from their three maxima. -/
theorem rateCardErrorOf_values (reports : List Report) : (rateCardErrorOf reports).map errorValues =
    let errors := reports.filterMap (·.rateCardError)
    (((errors.map (·.1)).argmax (·.value)).map (·.value)).bind fun p50 =>
      (((errors.map (·.2.1)).argmax (·.value)).map (·.value)).bind fun p95 =>
        (((errors.map (·.2.2)).argmax (·.value)).map (·.value)).map fun most => (p50, p95, most) := by
  unfold rateCardErrorOf
  dsimp only
  generalize ((reports.filterMap (·.rateCardError)).map (·.1)).argmax (·.value) = p50
  generalize ((reports.filterMap (·.rateCardError)).map (·.2.1)).argmax (·.value) = p95
  generalize ((reports.filterMap (·.rateCardError)).map (·.2.2)).argmax (·.value) = most
  cases p50 <;> cases p95 <;> cases most <;> rfl

theorem rateCardErrorOf_perm (h : reports.Perm reports') :
    (rateCardErrorOf reports).map errorValues = (rateCardErrorOf reports').map errorValues := by
  have herrors := h.filterMap (·.rateCardError)
  rw [rateCardErrorOf_values, rateCardErrorOf_values]
  dsimp only
  rw [argmax_perm (herrors.map (·.1)), argmax_perm (herrors.map (·.2.1)), argmax_perm (herrors.map (·.2.2))]

theorem finalityOf_perm (h : reports.Perm reports') : finalityOf reports = finalityOf reports' := by
  unfold finalityOf
  simp only [(h.map (·.finality)).mem_iff]

theorem min?_perm {xs ys : List String} (h : xs.Perm ys) : xs.min? = ys.min? := by
  cases hy : ys.min? with
  | none => rw [min?_eq_none_iff.mp hy] at h; rw [h.eq_nil]; rfl
  | some a =>
    rw [min?_eq_some_iff] at hy ⊢
    exact ⟨h.mem_iff.mpr hy.1, fun b hb => hy.2 b (h.mem_iff.mp hb)⟩

theorem max?_perm {xs ys : List String} (h : xs.Perm ys) : xs.max? = ys.max? := by
  cases hy : ys.max? with
  | none => rw [max?_eq_none_iff.mp hy] at h; rw [h.eq_nil]; rfl
  | some a =>
    rw [max?_eq_some_iff] at hy ⊢
    exact ⟨h.mem_iff.mpr hy.1, fun b hb => hy.2 b (h.mem_iff.mp hb)⟩

theorem windowOf_perm (h : reports.Perm reports') : windowOf reports = windowOf reports' := by
  unfold windowOf
  rw [min?_perm ((h.map _).filter _), max?_perm ((h.map _).filter _)]

theorem combinedRerun_perm (h : reports.Perm reports') (v : Verdict) :
    combinedRerun reports v = combinedRerun reports' v := by
  unfold combinedRerun
  have hvalues := h.map fun r => r.rerunVerdict.getD r.verdict
  simp only [h.all_eq, hvalues.mem_iff, hvalues.all_eq]

theorem spendChannels_perm (h : reports.Perm reports') (c : String) :
    c ∈ spendChannels reports (rowsOf reports) ↔ c ∈ spendChannels reports' (rowsOf reports') := by
  unfold spendChannels
  rw [mem_append, mem_append, (((rowsOf_perm (sameParts_of_perm h)).filter _).map _).mem_iff,
    ((h.filter _).flatMap_right _).mem_iff]

theorem keys_rowsOf_perm (h : SameParts reports reports') :
    (rowsOf reports).map (·.key) = (rowsOf reports').map (·.key) := by
  have hsorted : ∀ l : List Report, ((rowsOf l).map (·.key)).Pairwise (· ≤ ·) := fun l =>
    pairwise_map.mpr (pairwise_insertionSort _ _)
  exact List.Perm.eq_of_pairwise (fun a b _ _ => le_antisymm) (hsorted _) (hsorted _) ((rowsOf_perm h).map _)

/-- The merges of one list of reports in two orders agree. -/
theorem assembled_agrees (h : reports.Perm reports')
    {covered : Option String × Option String} (hm : Mergeable first reports decisions discounts covered)
    {first' : Report} (hfirst : sameTolerances first' first = true) :
    Agrees (assembled first reports decisions discounts covered)
      (assembled first' reports' decisions discounts covered) := by
  have hparts := sameParts_of_perm h
  have hchannels : channelsOf reports = channelsOf reports' := channelsOf_congr hparts hm.channels
  have hverdict : overall (channelsOf reports) (spendChannels reports (rowsOf reports)) =
      overall (channelsOf reports') (spendChannels reports' (rowsOf reports')) := by
    rw [← hchannels]
    exact overall_congr fun v _ => spendChannels_perm h v.channel
  refine ⟨hfirst, rowsOf_perm hparts, keys_rowsOf_perm hparts, rateCardErrorOf_perm h, ?_⟩
  unfold assembled
  dsimp only
  rw [hverdict, windowOf_perm h, hparts.overCount, residualsOf_congr hparts, hparts.unexplained, hchannels,
    finalityOf_perm h, head?_of_le_one hm.suggested hparts.suggested, combinedRerun_perm h]

/-- The order of the reports does not matter. -/
theorem mergeReports_agrees (h : reports.Perm reports') (hm : mergeReports reports = .ok m) :
    ∃ m', mergeReports reports' = .ok m' ∧ Agrees m m' := by
  match reports, reports', h with
  | [], _, _ => cases hm
  | [r], reports', h =>
    obtain rfl := singleton_perm.mp h
    exact ⟨m, hm, Agrees.refl m⟩
  | a :: b :: rest, [], h => exact absurd h.length_eq (by simp)
  | a :: b :: rest, [r], h => exact absurd h.length_eq (by simp)
  | a :: b :: rest, a' :: b' :: rest', h =>
    obtain ⟨decisions, discounts, covered, hmerge, rfl⟩ := mergeReports_eq_ok.mp hm
    have hfirst : sameTolerances a' a = true := hmerge.tolerances a' (h.mem_iff.mpr mem_cons_self)
    have htol : ∀ r ∈ a' :: b' :: rest', sameTolerances r a' = true := fun r hr => by
      obtain ⟨h₁, h₂⟩ := sameTolerances_iff.mp (hmerge.tolerances r (h.mem_iff.mpr hr))
      obtain ⟨h₃, h₄⟩ := sameTolerances_iff.mp hfirst
      exact sameTolerances_iff.mpr ⟨h₁.trans h₃.symm, h₂.trans h₄.symm⟩
    exact ⟨_, mergeReports_eq_ok.mpr ⟨decisions, discounts, covered, hmerge.congr (sameParts_of_perm h) htol, rfl⟩,
      assembled_agrees h hmerge hfirst⟩

end TokenBill.Recon
