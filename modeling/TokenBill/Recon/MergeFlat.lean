import TokenBill.Recon.MergeSound
import TokenBill.General.Partials

/-!
# Merging a part of the reports first

A merged report has the parts of its reports, but for which of them had spend and no channel in their rows.
-/

namespace TokenBill.Recon

open General List

variable {reports reports' L Z : List Report} {first m : Report} {decisions discounts : List (String × String)}
  {covered : Option String × Option String}

/-! ### Merging a part first -/

theorem mem_decisionsOf (h : decisionsOf L = .ok decisions) (p : String × String) :
    p ∈ decisions ↔ p ∈ L.flatMap (·.decisions) := by
  obtain ⟨table, htable, hsorted⟩ := bind_eq_ok.mp h
  obtain rfl := Except.ok.inj hsorted
  rw [mem_sortedPairs, (union_spec htable).2.2]

theorem mem_discountsOf (h : discountsOf L = .ok discounts) (p : String × String) :
    p ∈ discounts ↔ p ∈ L.flatMap (·.effectiveDiscount) := by
  obtain ⟨table, htable, hsorted⟩ := bind_eq_ok.mp h
  obtain rfl := Except.ok.inj hsorted
  rw [mem_sortedPairs, (union_spec htable).2.2]

theorem amountOf_residualsOf (L : List Report) (k : String) :
    amountOf (residualsOf L) k = amountOf (L.flatMap (·.residuals)) k := by
  have hperm : (residualsOf L).Perm (tally (L.flatMap (·.residuals))) := perm_insertionSort _ _
  rw [amountOf_perm hperm, amountOf_of_nodup (nodup_tally _), lookup_tally]

theorem head?_mem_iff {xs : List String} (h : xs.dedup.length ≤ 1) (s : String) : s ∈ xs.head? ↔ s ∈ xs := by
  match xs with
  | [] => simp
  | x :: xs =>
    have hsame := dedup_le_one.mp h
    rw [head?_cons, Option.mem_some_iff]
    exact ⟨fun hx => hx ▸ mem_cons_self, fun hs => hsame x mem_cons_self s hs⟩

theorem sameParts_flatten (h : Mergeable first L decisions discounts covered) (Z : List Report) :
    SameParts (L ++ Z) (assembled first L decisions discounts covered :: Z) where
  decisions p := by
    rw [flatMap_append, flatMap_cons, mem_append, mem_append]
    exact or_congr_left (mem_decisionsOf h.decisions p).symm
  discounts p := by
    rw [flatMap_append, flatMap_cons, mem_append, mem_append]
    exact or_congr_left (mem_discountsOf h.discounts p).symm
  channels := by
    rw [flatMap_append, flatMap_cons]
    exact (perm_insertionSort _ _).symm.append_right _
  residuals k := by
    have hfirst : amountOf (assembled first L decisions discounts covered).residuals k =
        amountOf (L.flatMap (·.residuals)) k := amountOf_residualsOf L k
    rw [flatMap_append, flatMap_cons, amountOf_append, amountOf_append, hfirst]
  rows := by
    rw [flatMap_append, flatMap_cons]
    exact (perm_insertionSort _ _).symm.append_right _
  suggested s := by
    have hhead : s ∈ (assembled first L decisions discounts covered).suggestedContract ↔
        s ∈ L.filterMap (·.suggestedContract) := head?_mem_iff h.suggested s
    rw [filterMap_append, mem_append, mem_filterMap (l := _ :: Z)]
    simp only [mem_cons, exists_eq_or_imp, mem_filterMap (l := Z)]
    exact or_congr_left hhead.symm
  overCount := by
    rw [map_append, map_cons, sum_append, sum_cons]
    rfl
  unexplained := by
    rw [map_append, map_cons, sum_append, sum_cons]
    rfl

theorem rowsOf_flatten (h : m.rows = rowsOf L) (Z : List Report) : rowsOf (m :: Z) = rowsOf (L ++ Z) := by
  unfold rowsOf at h ⊢
  rw [flatMap_cons, flatMap_append, h]
  exact insertionSort_append_sorted _ _

/-- The reports all have spend and no channels, or none of them does. -/
def Alike (reports : List Report) : Prop := (∀ r ∈ reports, r.bare = true) ∨ ∀ r ∈ reports, r.bare = false

theorem bare_iff {r : Report} : r.bare = true ↔
    (∀ row ∈ r.rows, row.channel.getD "" = "") ∧ ∃ row ∈ r.rows, hasSpend row = true := by
  simp [Report.bare]

theorem mem_rowsOf {row : ReportRow} : row ∈ rowsOf L ↔ ∃ r ∈ L, row ∈ r.rows := by
  unfold rowsOf
  rw [mem_insertionSort, mem_flatMap]

/-- A merge of reports that are alike is like them. -/
theorem bare_merged (h : m.rows = rowsOf L) (hL : L ≠ []) (halike : Alike L) :
    (m.bare = true ∧ ∀ r ∈ L, r.bare = true) ∨ (m.bare = false ∧ ∀ r ∈ L, r.bare = false) := by
  rcases halike with hall | hnone
  · refine Or.inl ⟨bare_iff.mpr ⟨fun row hrow => ?_, ?_⟩, hall⟩
    · rw [h] at hrow
      obtain ⟨r, hr, hrow⟩ := mem_rowsOf.mp hrow
      exact (bare_iff.mp (hall r hr)).1 row hrow
    · obtain ⟨r, hr⟩ := exists_mem_of_ne_nil L hL
      obtain ⟨row, hrow, hspend⟩ := (bare_iff.mp (hall r hr)).2
      exact ⟨row, h ▸ mem_rowsOf.mpr ⟨r, hr, hrow⟩, hspend⟩
  · refine Or.inr ⟨Bool.eq_false_iff.mpr fun hbare => ?_, hnone⟩
    obtain ⟨hchannel, row, hrow, hspend⟩ := bare_iff.mp hbare
    rw [h] at hrow hchannel
    obtain ⟨r, hr, hrow⟩ := mem_rowsOf.mp hrow
    have hr' : r.bare = true :=
      bare_iff.mpr ⟨fun row hrow => hchannel row (mem_rowsOf.mpr ⟨r, hr, hrow⟩), row, hrow, hspend⟩
    rw [hnone r hr] at hr'
    cases hr'

theorem spendChannels_flatten (hrows : m.rows = rowsOf L) (hchannels : m.channels = channelsOf L) (hL : L ≠ [])
    (halike : Alike L) (rows : List ReportRow) (c : String) :
    c ∈ spendChannels (L ++ Z) rows ↔ c ∈ spendChannels (m :: Z) rows := by
  unfold spendChannels
  rw [mem_append, mem_append]
  refine or_congr_right ?_
  rw [filter_append, flatMap_append, mem_append]
  rcases bare_merged hrows hL halike with ⟨hm, hall⟩ | ⟨hm, hnone⟩
  · rw [filter_cons_of_pos hm, flatMap_cons, mem_append, filter_eq_self.mpr hall, hchannels]
    have hperm : (channelsOf L).Perm (L.flatMap (·.channels)) := perm_insertionSort _ _
    refine or_congr_left ?_
    rw [(hperm.map _).mem_iff, map_flatMap]
  · rw [filter_cons_of_neg (by rw [hm]; exact Bool.false_ne_true),
      filter_eq_nil_iff.mpr fun r hr => by rw [hnone r hr]; exact Bool.false_ne_true]
    simp

/-- Two reports have the same rows, residuals and totals. -/
structure SameTotals (m m' : Report) : Prop where
  rows : m.rows = m'.rows
  residuals : m.residuals = m'.residuals
  unexplained : m.unexplainedNano = m'.unexplainedNano
  overCount : m.overCountRows = m'.overCountRows
  coverage : (m.tokenCoveragePct, m.dollarCoveragePct) = (m'.tokenCoveragePct, m'.dollarCoveragePct)
  channels : m.channels = m'.channels
  discounts : m.effectiveDiscount = m'.effectiveDiscount
  decisions : m.decisions = m'.decisions

/-- A merge with a part that was merged first has the rows, residuals and totals of the whole. -/
theorem assembled_flatten (h : Mergeable first L decisions discounts covered) (hL : L ≠ [])
    {decisions' discounts' : List (String × String)} {covered' : Option String × Option String}
    (hd : Mergeable first (L ++ Z) decisions' discounts' covered') {first' : Report} :
    let m := assembled first L decisions discounts covered
    let direct := assembled first (L ++ Z) decisions' discounts' covered'
    let nested := assembled first' (m :: Z) decisions' discounts' covered'
    SameTotals direct nested ∧ (Alike L → direct.verdict = nested.verdict) := by
  intro m direct nested
  have hparts := sameParts_flatten h Z
  have hrows : rowsOf (m :: Z) = rowsOf (L ++ Z) := rowsOf_flatten rfl Z
  have hchannels : channelsOf (L ++ Z) = channelsOf (m :: Z) := channelsOf_congr hparts hd.channels
  refine ⟨⟨hrows.symm, residualsOf_congr hparts, hparts.unexplained, hparts.overCount, rfl, hchannels, rfl, rfl⟩,
    fun halike => ?_⟩
  change overall (channelsOf (L ++ Z)) (spendChannels (L ++ Z) (rowsOf (L ++ Z))) =
    overall (channelsOf (m :: Z)) (spendChannels (m :: Z) (rowsOf (m :: Z)))
  rw [hrows, ← hchannels]
  exact overall_congr fun v _ => spendChannels_flatten rfl rfl hL halike _ v.channel

theorem coverage_ok_or (rows : List ReportRow) :
    (∃ covered, coverage rows = .ok covered) ∨ coverage rows = .error .invalidOperation := by
  have hpct : ∀ num den, (∃ p, pct num den = .ok p) ∨ pct num den = .error .invalidOperation := by
    intro num den
    unfold pct
    split
    · exact Or.inl ⟨_, rfl⟩
    · split
      · exact Or.inl ⟨_, rfl⟩
      · exact Or.inr rfl
  unfold coverage
  rcases hpct ((withProvider rows).map fun r => (r.ledgerTokens.getD 0 : Int)).sum
    ((withProvider rows).map fun r => (r.providerTokens.getD 0 : Int)).sum with ⟨p, hp⟩ | hp
  · rcases hpct ((withInvoice rows).map fun r => r.ledgerNano.getD 0).sum
      ((withInvoice rows).map fun r => r.invoiceNano.getD 0).sum with ⟨q, hq⟩ | hq
    · exact Or.inl ⟨(p, q), by rw [hp, hq]; rfl⟩
    · exact Or.inr (by rw [hp, hq]; rfl)
  · exact Or.inr (by rw [hp]; rfl)

/-- A part of pairs that have a union has one. -/
theorem union_of_append {fail : String × String → MergeError} {xs ys table : List (String × String)}
    (h : union fail (xs ++ ys) = .ok table) : ∃ table', union fail xs = .ok table' :=
  union_exists fun p hp q hq =>
    (union_spec h).1 p (mem_append_left _ hp) q (mem_append_left _ hq)

theorem decisionsOf_of_append (h : decisionsOf (L ++ Z) = .ok decisions) : ∃ d, decisionsOf L = .ok d := by
  obtain ⟨table, htable, -⟩ := bind_eq_ok.mp h
  rw [flatMap_append] at htable
  obtain ⟨table', htable'⟩ := union_of_append htable
  exact ⟨_, bind_eq_ok.mpr ⟨table', htable', rfl⟩⟩

theorem discountsOf_of_append (h : discountsOf (L ++ Z) = .ok discounts) : ∃ d, discountsOf L = .ok d := by
  obtain ⟨table, htable, -⟩ := bind_eq_ok.mp h
  rw [flatMap_append] at htable
  obtain ⟨table', htable'⟩ := union_of_append htable
  exact ⟨_, bind_eq_ok.mpr ⟨table', htable', rfl⟩⟩

/-- A part of reports that merge merges, unless its coverage has too many digits. -/
theorem mergeReports_of_append (hL : L ≠ []) (h : mergeReports (L ++ Z) = .ok m) :
    (∃ p, mergeReports L = .ok p) ∨ mergeReports L = .error .invalidOperation := by
  match L, Z, h with
  | [], _, _ => exact absurd rfl hL
  | [r], [], h => exact Or.inl ⟨m, h⟩
  | [r], z :: Z, h =>
    obtain ⟨decisions, discounts, covered, hm, -⟩ := mergeReports_eq_ok.mp h
    have hd : ∃ d, decisionsOf [r] = .ok d := decisionsOf_of_append (L := [r]) (Z := z :: Z) hm.decisions
    exact Or.inl ⟨r, mergeReports_single.mpr ⟨hd, rfl⟩⟩
  | a :: b :: rest, Z, h =>
    obtain ⟨decisions, discounts, covered, hm, -⟩ := mergeReports_eq_ok.mp h
    have hm : Mergeable a ((a :: b :: rest) ++ Z) decisions discounts covered := hm
    obtain ⟨decisions', hdecisions⟩ := decisionsOf_of_append hm.decisions
    obtain ⟨discounts', hdiscounts⟩ := discountsOf_of_append hm.discounts
    have htol : ∀ r ∈ a :: b :: rest, sameTolerances r a = true :=
      fun r hr => hm.tolerances r (mem_append_left Z hr)
    have hchannels : (((a :: b :: rest).flatMap (·.channels)).map (·.channel)).Nodup := by
      have h := hm.channels
      rw [flatMap_append, map_append] at h
      exact h.of_append_left
    have hsuggested : ((a :: b :: rest).filterMap (·.suggestedContract)).dedup.length ≤ 1 := by
      have h := hm.suggested
      rw [filterMap_append] at h
      have h := dedup_le_one.mp h
      exact dedup_le_one.mpr fun s hs t ht => h s (mem_append_left _ hs) t (mem_append_left _ ht)
    rcases coverage_ok_or (rowsOf (a :: b :: rest)) with ⟨covered', hcovered⟩ | hcovered
    · exact Or.inl ⟨_, mergeReports_eq_ok.mpr ⟨decisions', discounts', covered',
        ⟨hdecisions, htol, hchannels, hdiscounts, hcovered, hsuggested⟩, rfl⟩⟩
    · refine Or.inr ?_
      unfold mergeReports
      rw [hdecisions]
      change mergeSeveral a (a :: b :: rest) decisions' = _
      unfold mergeSeveral
      rw [if_neg (by simpa using htol), if_neg (not_not_intro hchannels), hdiscounts, hcovered]
      rfl

theorem mergeReports_flatten (hL : mergeReports L = .ok m) (Z : List Report) :
    (∀ d, mergeReports (L ++ Z) = .ok d →
      ∃ n, mergeReports (m :: Z) = .ok n ∧ SameTotals d n ∧ (Alike L → d.verdict = n.verdict)) ∧
    ∀ n, mergeReports (m :: Z) = .ok n → ∃ d, mergeReports (L ++ Z) = .ok d := by
  match L, Z, hL with
  | [], _, hL => cases hL
  | [r], Z, hL =>
    obtain ⟨-, rfl⟩ := mergeReports_single.mp hL
    exact ⟨fun d hd => ⟨d, hd, ⟨rfl, rfl, rfl, rfl, rfl, rfl, rfl, rfl⟩, fun _ => rfl⟩, fun n hn => ⟨n, hn⟩⟩
  | a :: b :: rest, [], hL =>
    have hL' := hL
    obtain ⟨decisions, discounts, covered, hm, rfl⟩ := mergeReports_eq_ok.mp hL'
    have hparts := sameParts_flatten hm []
    rw [append_nil] at hparts ⊢
    refine ⟨fun d hd => ?_, fun n _ => ⟨_, hL⟩⟩
    obtain rfl := Except.ok.inj (hL.symm.trans hd)
    exact ⟨_, mergeReports_single.mpr ⟨⟨decisions, decisionsOf_congr hparts hm.decisions⟩, rfl⟩,
      ⟨rfl, rfl, rfl, rfl, rfl, rfl, rfl, rfl⟩, fun _ => rfl⟩
  | a :: b :: rest, z :: Z, hL =>
    obtain ⟨decisions, discounts, covered, hm, rfl⟩ := mergeReports_eq_ok.mp hL
    have hparts := sameParts_flatten hm (z :: Z)
    constructor
    · intro d hd
      obtain ⟨decisions', discounts', covered', hwhole, rfl⟩ := mergeReports_eq_ok.mp hd
      have hwhole : Mergeable a ((a :: b :: rest) ++ z :: Z) decisions' discounts' covered' := hwhole
      refine ⟨_, mergeReports_eq_ok.mpr ⟨decisions', discounts', covered', hwhole.congr hparts fun r hr => ?_, rfl⟩,
        assembled_flatten hm (cons_ne_nil _ _) hwhole⟩
      rcases mem_cons.mp hr with rfl | hr
      · exact sameTolerances_iff.mpr ⟨rfl, rfl⟩
      · exact hwhole.tolerances r (mem_append_right (a :: b :: rest) hr)
    · intro n hn
      obtain ⟨decisions', discounts', covered', hn, -⟩ := mergeReports_eq_ok.mp hn
      refine ⟨_, mergeReports_eq_ok.mpr ⟨decisions', discounts', covered', hn.congr hparts.symm fun r hr => ?_, rfl⟩⟩
      rcases mem_append.mp (show r ∈ (a :: b :: rest) ++ z :: Z from hr) with hr | hr
      · exact hm.tolerances r hr
      · exact hn.tolerances r (mem_cons_of_mem _ hr)

/-- Reports merge in every order into reports that agree. A part of the reports may be merged first: the rows,
residuals and totals are those of the whole, and so is the verdict when the part is of reports that are alike. -/
theorem mergeReports_laws :
    (∀ {reports reports' : List Report} {m : Report}, reports.Perm reports' → mergeReports reports = .ok m →
      ∃ m', mergeReports reports' = .ok m' ∧ Agrees m m') ∧
    (∀ {L : List Report} {m : Report}, mergeReports L = .ok m → ∀ Z : List Report,
      (∀ d, mergeReports (L ++ Z) = .ok d →
        ∃ n, mergeReports (m :: Z) = .ok n ∧ SameTotals d n ∧ (Alike L → d.verdict = n.verdict)) ∧
      ∀ n, mergeReports (m :: Z) = .ok n → ∃ d, mergeReports (L ++ Z) = .ok d) ∧
    ∀ {L Z : List Report} {d : Report}, L ≠ [] → mergeReports (L ++ Z) = .ok d →
      (∃ m, mergeReports L = .ok m) ∨ mergeReports L = .error .invalidOperation :=
  ⟨mergeReports_agrees, mergeReports_flatten, mergeReports_of_append⟩

/-! ### Reports of one row -/

/-- A row of a channel, or of none. -/
def rowOf (channel : Option String) : ReportRow where
  key := channel.toList.map fun c => toLex ("channel", c)
  ledgerTokens := some 10
  providerTokens := some 10
  ledgerNano := some 7
  pricedProviderNano := some 7
  invoiceNano := some 7
  rateCardErrorPct := none
  coveragePct := none
  status := "explained"
  residualCode := none

/-- A report of one channel and one row. -/
def reportOf (tolerance : DecimalText) (channel : String) (rowChannel : Option String) (verdict : Verdict) : Report where
  window := ("2026-08-01", "2026-09-01")
  tolerancePct := tolerance
  unexplainedTolerancePct := tolerance
  rows := [rowOf rowChannel]
  tokenCoveragePct := none
  dollarCoveragePct := none
  rateCardError := none
  overCountRows := 0
  effectiveDiscount := []
  residuals := []
  unexplainedNano := 0
  channels := [⟨channel, verdict, [], true⟩]
  verdict := verdict
  finality := .final
  suggestedContract := none
  rerunVerdict := none
  decisions := []

def half : DecimalText := ⟨"0.5", 1 / 2, by decide +kernel⟩

def halves : DecimalText := ⟨"0.50", 1 / 2, by decide +kernel⟩

def verdictOf (merged : Except MergeError Report) : Option (Verdict × String) :=
  merged.toOption.map fun m => (m.verdict, m.tolerancePct.text)

/-- Two reports merge in both orders, and before a third. -/
theorem two_reports_merge :
    let api := reportOf half "api" (some "api") .reconciled
    let web := reportOf halves "web" (some "web") .notReconciled
    let foundry := reportOf half "foundry" (some "foundry") .reconciled
    ∃ m, mergeReports [api, web] = .ok m ∧ (∃ m', mergeReports [web, api] = .ok m' ∧ Agrees m m') ∧
      ∃ d n, mergeReports [api, web, foundry] = .ok d ∧ mergeReports [m, foundry] = .ok n ∧ SameTotals d n ∧
        d.verdict = n.verdict := by
  intro api web foundry
  have hok : ((mergeReports [api, web]).isOk && (mergeReports [api, web, foundry]).isOk) = true := by decide +kernel
  cases hm : mergeReports [api, web] with
  | error e => rw [hm] at hok; cases hok
  | ok m =>
    cases hd : mergeReports [api, web, foundry] with
    | error e => rw [hm, hd] at hok; cases hok
    | ok d =>
      obtain ⟨n, hn, htotals, hverdict⟩ := (mergeReports_laws.2.1 hm [foundry]).1 d hd
      have halike : Alike [api, web] := Or.inr (by decide)
      exact ⟨m, rfl, mergeReports_laws.1 (List.Perm.swap _ _ _) hm, d, n, rfl, hn, htotals, hverdict halike⟩

/-- The text of a tolerance comes from the first report. A report that did not reconcile, with spend but no channel in
its rows, is forgotten when it is merged with another before a third. -/
theorem merge_order_matters :
    (let one := reportOf half "api" (some "api") .reconciled
     let other := reportOf halves "web" (some "web") .reconciled
     verdictOf (mergeReports [one, other]) = some (.reconciled, "0.5") ∧
       verdictOf (mergeReports [other, one]) = some (.reconciled, "0.50")) ∧
    let bare := reportOf half "copilot" none .notReconciled
    let api := reportOf half "api" (some "api") .reconciled
    let web := reportOf half "web" (some "web") .reconciled
    verdictOf (mergeReports [bare, api, web]) = some (.notReconciled, "0.5") ∧
      verdictOf (do let m ← mergeReports [bare, api]; mergeReports [m, web]) = some (.reconciled, "0.5") := by
  decide +kernel

end TokenBill.Recon
