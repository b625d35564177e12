import TokenBill.General.Lists
import TokenBill.Recon.Residuals

/-!
# Residuals conserve the gap

Every claim is taken from what remains of a gap, so the claims of a group and what they
leave add up to its gap, and the codes with the unexplained part to the gaps of all rows
but the informational and the priority ones. A group is read by sums and by tests of some
or all of its rows, so the order of the rows does not matter. The details of a key are
written by the last of its rows: they may depend on the order where rows of one key are
classified by different codes.
-/

namespace TokenBill.Recon

open General List

/-! ### A group -/

section Group

variable (rows : List ReconRow) (estimated : RowKey → Int)

theorem total_append (a b : Claims) : Claims.total (a ++ b) = a.total + b.total := by
  unfold Claims.total
  rw [map_append, sum_append]

theorem total_singleton (code : String) (nano : Int) : Claims.total [(code, nano)] = nano := sum_singleton

theorem sum_gap : (rows.map ReconRow.gap).sum = invoiceOf rows - ledgerOf rows := by
  unfold invoiceOf ledgerOf
  induction rows with
  | nil => rfl
  | cons r rows ih =>
    simp only [map_cons, sum_cons, ih, ReconRow.gap]
    ring

theorem tokenClaims_total : (tokenClaims rows estimated).1.total + (tokenClaims rows estimated).2 =
    invoiceOf rows - ledgerOf rows := by
  have hunpriced : ∀ (b : Prop) [Decidable b] (x : Int),
      (if b then (([("unobserved_traffic", x)], invoiceOf rows - ledgerOf rows - x) : Claims × Int)
        else ([], invoiceOf rows - ledgerOf rows)).1.total +
      (if b then (([("unobserved_traffic", x)], invoiceOf rows - ledgerOf rows - x) : Claims × Int)
        else ([], invoiceOf rows - ledgerOf rows)).2 = invoiceOf rows - ledgerOf rows := by
    intro b _ x
    split
    · rw [total_singleton]
      ring
    · exact zero_add _
  unfold tokenClaims
  dsimp only
  split
  · exact hunpriced _ _
  · split
    · split
      · rw [total_append, total_singleton]
        ring
      · ring
    · exact hunpriced _ _

theorem claimRest_total (applies : Bool) (code : String) (state : Claims × Int) :
    (claimRest applies code state).1.total + (claimRest applies code state).2 =
      state.1.total + state.2 := by
  unfold claimRest
  split
  · rw [total_append, total_singleton, add_zero]
  · rfl

theorem estimatedClaim_total (state : Claims × Int) :
    (estimatedClaim rows estimated state).1.total + (estimatedClaim rows estimated state).2 =
      state.1.total + state.2 := by
  unfold estimatedClaim
  dsimp only
  split
  · rfl
  · rw [total_append, total_singleton]
    ring

theorem groupClaims_total (channel : Option String) :
    (groupClaims rows estimated channel).1.total + (groupClaims rows estimated channel).2 =
      invoiceOf rows - ledgerOf rows := by
  unfold groupClaims
  split
  · rw [total_singleton, add_zero]
  · rw [claimRest_total, claimRest_total, claimRest_total, estimatedClaim_total, tokenClaims_total]

/-- The codes that only say how much there is beside the gap. -/
def isMagnitude (code : String) : Bool :=
  decide (code = "priority_excluded_from_cost_report") || decide (code = "seat_allowance_unmetered")

def Claims.Claim (claims : Claims) : Prop := ∀ c ∈ claims, isMagnitude c.1 = false

theorem claim_append {a b : Claims} (ha : a.Claim) (hb : b.Claim) : Claims.Claim (a ++ b) :=
  fun c hc => (mem_append.mp hc).elim (ha c) (hb c)

theorem claim_singleton {code : String} (nano : Int) (h : isMagnitude code = false) :
    Claims.Claim [(code, nano)] := fun c hc => by
  rw [mem_singleton.mp hc]
  exact h

theorem claim_nil : Claims.Claim [] := fun _ hc => nomatch hc

theorem tokenClaims_claim : (tokenClaims rows estimated).1.Claim := by
  unfold tokenClaims
  dsimp only
  repeat' split
  · exact claim_singleton _ (by decide)
  · exact claim_nil
  · exact claim_append (claim_singleton _ (by decide)) (claim_singleton _ (by decide))
  · exact claim_append claim_nil (claim_singleton _ (by decide))
  · exact claim_singleton _ (by decide)
  · exact claim_nil
  · exact claim_singleton _ (by decide)
  · exact claim_nil

theorem claimRest_claim {applies : Bool} {code : String} {state : Claims × Int}
    (h : state.1.Claim) (hcode : isMagnitude code = false) : (claimRest applies code state).1.Claim := by
  unfold claimRest
  split
  · exact claim_append h (claim_singleton _ hcode)
  · exact h

theorem groupClaims_claim (channel : Option String) : (groupClaims rows estimated channel).1.Claim := by
  have hestimated : (estimatedClaim rows estimated (tokenClaims rows estimated)).1.Claim := by
    unfold estimatedClaim
    dsimp only
    split
    · exact tokenClaims_claim rows estimated
    · exact claim_append (tokenClaims_claim rows estimated) (claim_singleton _ (by decide))
  unfold groupClaims
  split
  · exact claim_singleton _ (by decide)
  · exact claimRest_claim (claimRest_claim (claimRest_claim hestimated (by decide)) (by decide)) (by decide)

end Group

section Classify

variable (ev : Evidence)

theorem classifyGroup_total (key : RowKey) (members : List ReconRow) :
    (classifyGroup ev key members).claims.total + (classifyGroup ev key members).rest =
      (members.map ReconRow.gap).sum := by
  unfold classifyGroup
  split
  · rw [total_singleton, add_zero]
  · rw [sum_gap]
    exact groupClaims_total members ev.estimated (keyValue key "channel")

theorem classifyGroup_claim (key : RowKey) (members : List ReconRow) :
    (classifyGroup ev key members).claims.Claim := by
  unfold classifyGroup
  split
  · exact claim_singleton _ (by decide)
  · exact groupClaims_claim members ev.estimated (keyValue key "channel")

/-! ### All rows -/

def Claims.claimed (claims : Claims) : Int := Claims.total (claims.filter fun c => !isMagnitude c.1)

theorem claimed_append (a b : Claims) : Claims.claimed (a ++ b) = a.claimed + b.claimed := by
  unfold Claims.claimed
  rw [filter_append, total_append]

theorem claimed_of_claim {claims : Claims} (h : claims.Claim) : claims.claimed = claims.total := by
  unfold Claims.claimed
  rw [filter_eq_self.mpr fun c hc => by rw [h c hc]; rfl]

theorem claimed_flatMap {α : Type} (l : List α) (f : α → Claims) :
    Claims.claimed (l.flatMap f) = (l.map fun a => (f a).claimed).sum := by
  induction l with
  | nil => rfl
  | cons a l ih => rw [flatMap_cons, claimed_append, ih, map_cons, sum_cons]

theorem rowAdds_claimed (r : ReconRow) :
    (rowAdds ev r).claimed = if (special ev r).isSome && !r.isPriority then r.gap else 0 := by
  have hallowance : Claims.claimed (if ev.allowance r.key ≠ 0 then
      [("seat_allowance_unmetered", ev.allowance r.key)] else []) = 0 := by
    split <;> rfl
  unfold rowAdds
  rw [claimed_append, hallowance, zero_add]
  unfold special
  by_cases hp : r.isPriority = true
  · rw [if_pos hp, hp]
    rfl
  · rw [if_neg hp]
    have hp : r.isPriority = false := by simpa using hp
    rw [hp]
    have hone : ∀ code : String, isMagnitude code = false →
        Claims.claimed (some (code, r.gap)).toList = r.gap := fun code h =>
      (claimed_of_claim (claim_singleton r.gap h)).trans (total_singleton code r.gap)
    split
    · exact hone _ (by decide)
    · split
      · refine hone _ ?_
        split
        · decide
        · split <;> decide
      · rfl

def gapRows (rows : List ReconRow) : List ReconRow := rows.filter fun r => !r.isInfo && !r.isPriority

theorem grouped_perm (rows : List ReconRow) :
    ((groups ev rows).map (·.2)).flatten.Perm (grouped ev rows) := by
  unfold groups
  rw [map_map]
  exact flatten_fibres_dedup_perm (fun r => groupKey r.key) (grouped ev rows)
    (perm_insertionSort (· ≤ ·) _)

theorem special_isSome_of_priority {r : ReconRow} (h : r.isPriority = true) : (special ev r).isSome := by
  unfold special
  rw [if_pos h]
  rfl

theorem sum_gapRows (rows : List ReconRow) :
    ((gapRows rows).map ReconRow.gap).sum =
      ((classified rows).map fun r => if (special ev r).isSome && !r.isPriority then r.gap else 0).sum +
        ((grouped ev rows).map ReconRow.gap).sum := by
  have hperm : (classified rows).Perm (rows.filter fun r => !r.isInfo) := perm_insertionSort _ _
  have hleft : ((gapRows rows).map ReconRow.gap).sum =
      (((classified rows).filter fun r => !r.isPriority).map ReconRow.gap).sum := by
    have hfilter := hperm.filter fun r => !r.isPriority
    rw [filter_filter] at hfilter
    rw [(hfilter.map ReconRow.gap).sum_eq]
    unfold gapRows
    simp only [Bool.and_comm]
  rw [hleft]
  unfold grouped
  clear hleft hperm
  induction classified rows with
  | nil => rfl
  | cons r l ih =>
    by_cases hp : r.isPriority = true
    · have hs := special_isSome_of_priority ev hp
      have hn : (special ev r).isNone = false := by simpa [Option.isNone_eq_false_iff] using hs
      simp only [filter_cons, hp, hn, Bool.not_true, Bool.false_eq_true, if_false, map_cons,
        sum_cons, Bool.and_false, zero_add]
      exact ih
    · have hp : r.isPriority = false := by simpa using hp
      cases hs : special ev r with
      | none =>
        simp only [filter_cons, hp, hs, Bool.not_false, Option.isNone_none, Option.isSome_none,
          if_true, map_cons, sum_cons, Bool.false_and, Bool.false_eq_true, if_false, zero_add]
        rw [ih]
        ring
      | some s =>
        simp only [filter_cons, hp, hs, Bool.not_false, Option.isNone_some, Option.isSome_some,
          if_true, map_cons, sum_cons, Bool.true_and, Bool.false_eq_true, if_false]
        rw [ih]
        ring

theorem conserved (rows : List ReconRow) :
    (classifyRows ev rows).residuals.claimed + (classifyRows ev rows).unexplained =
      ((gapRows rows).map ReconRow.gap).sum := by
  have hcodes : (classifyRows ev rows).residuals.claimed = (allAdds ev rows).claimed := by
    have hperm : (classifyRows ev rows).residuals.Perm (tally (allAdds ev rows)) :=
      perm_insertionSort _ _
    exact (((hperm.filter _).map _).sum_eq).trans (sum_tally (allAdds ev rows) fun code => !isMagnitude code)
  have hgroups : ((results ev rows).map fun g => g.1.claims.claimed).sum + unexplainedOf ev rows =
      ((grouped ev rows).map ReconRow.gap).sum := by
    have hflat := ((grouped_perm ev rows).map ReconRow.gap).sum_eq
    rw [← hflat, map_flatten, sum_flatten, map_map, map_map]
    unfold unexplainedOf results
    induction groups ev rows with
    | nil => rfl
    | cons g gs ih =>
      have hone := classifyGroup_total ev g.1 g.2
      rw [← claimed_of_claim (classifyGroup_claim ev g.1 g.2)] at hone
      simp only [map_cons, sum_cons, Function.comp_apply] at ih ⊢
      rw [← ih, ← hone]
      ring
  have hcents : (centsClaim ev rows).claimed = (centsClaim ev rows).total := by
    unfold centsClaim
    split
    · exact claimed_of_claim (claim_singleton _ (by decide))
    · rfl
  have hrows : Claims.claimed ((classified rows).flatMap (rowAdds ev)) =
      ((classified rows).map fun r => if (special ev r).isSome && !r.isPriority then r.gap else 0).sum := by
    rw [claimed_flatMap]
    exact congrArg List.sum (map_congr_left fun r _ => rowAdds_claimed ev r)
  rw [hcodes, sum_gapRows, ← hgroups]
  unfold allAdds
  rw [claimed_append, claimed_append, hrows, claimed_flatMap, hcents]
  show _ + (unexplainedOf ev rows - (centsClaim ev rows).total) = _
  ring

/-! ### The order of the rows -/

variable {xs ys : List ReconRow}

theorem groupClaims_perm (h : xs.Perm ys) (estimated : RowKey → Int)
    (channel : Option String) : groupClaims xs estimated channel = groupClaims ys estimated channel := by
  have hled : ledgerOf xs = ledgerOf ys := (h.map _).sum_eq
  have hinv : invoiceOf xs = invoiceOf ys := (h.map _).sum_eq
  have hlt : ledgerTokensOf xs = ledgerTokensOf ys := (h.map _).sum_eq
  have hpt : providerTokensOf xs = providerTokensOf ys := (h.map _).sum_eq
  have hhas : hasInvoice xs = hasInvoice ys := h.any_eq
  have hpriced : pricedOf xs = pricedOf ys := by
    unfold pricedOf
    rw [h.any_eq, (h.map _).sum_eq]
  have hdeficit : (deficitRows xs estimated).Perm (deficitRows ys estimated) := h.filter _
  have hmissing : missingPrice xs estimated = missingPrice ys estimated := by
    unfold missingPrice
    dsimp only
    rw [hlt, hpt, (hdeficit.map _).sum_eq, (hdeficit.map _).sum_eq]
  have htokens : tokenClaims xs estimated = tokenClaims ys estimated := by
    unfold tokenClaims
    rw [hled, hinv, hlt, hpt, hhas, hpriced, hmissing, h.any_eq, h.countP_eq]
  unfold groupClaims estimatedClaim
  rw [hled, hinv, hlt, hpt, hhas, htokens, h.any_eq, (h.map _).sum_eq]

theorem classifyGroup_perm (key : RowKey) (h : xs.Perm ys) : classifyGroup ev key xs = classifyGroup ev key ys := by
  unfold classifyGroup
  rw [groupClaims_perm h, h.length_eq, (h.map _).sum_eq]

theorem classified_perm (h : xs.Perm ys) : (classified xs).Perm (classified ys) :=
  (perm_insertionSort _ _).trans ((h.filter _).trans (perm_insertionSort _ _).symm)

/-- Sorted lists of keys are the same in any order. -/
theorem keys_eq (hx : xs.Pairwise fun a b => a.key ≤ b.key)
    (hy : ys.Pairwise fun a b => a.key ≤ b.key) (h : xs.Perm ys) : xs.map (·.key) = ys.map (·.key) :=
  List.Perm.eq_of_pairwise (fun _ _ _ _ hab hba => le_antisymm hab hba) (pairwise_map.mpr hx)
    (pairwise_map.mpr hy) (h.map _)

theorem groups_perm (h : xs.Perm ys) :
    List.Forall₂ (fun g g' => g.1 = g'.1 ∧ g.2.Perm g'.2 ∧ g.2.map (·.key) = g'.2.map (·.key))
      (groups ev xs) (groups ev ys) := by
  have hgrouped : (grouped ev xs).Perm (grouped ev ys) := (classified_perm h).filter _
  have hkeys : ((((grouped ev xs).map fun r => groupKey r.key).dedup).insertionSort (· ≤ ·)) =
      (((grouped ev ys).map fun r => groupKey r.key).dedup).insertionSort (· ≤ ·) :=
    sorted_eq (fun _ _ _ _ => le_antisymm) ((hgrouped.map _).dedup)
  unfold groups
  rw [hkeys, forall₂_map_left_iff, forall₂_map_right_iff, forall₂_same]
  intro key _
  have hsorted : ∀ rows : List ReconRow, ((grouped ev rows).filter fun r =>
      decide (groupKey r.key = key)).Pairwise fun a b => a.key ≤ b.key := fun rows =>
    ((pairwise_insertionSort (fun a b : ReconRow => a.key ≤ b.key) _).filter _).filter _
  exact ⟨rfl, hgrouped.filter _, keys_eq (hsorted xs) (hsorted ys) (hgrouped.filter _)⟩

theorem groupDetails_keys (result : GroupResult)
    (h : xs.map (·.key) = ys.map (·.key)) : groupDetails ev result xs = groupDetails ev result ys := by
  have hmap : ∀ l : List ReconRow, groupDetails ev result l = (l.map (·.key)).zipIdx.map fun (key, i) =>
      (key, { code := result.code.or (if decide (ev.allowance key ≠ 0) then
                some "seat_allowance_unmetered" else none)
              status := if result.status = .matched ∧ decide (ev.allowance key ≠ 0) then .explained
                else result.status
              unexplained := if i = 0 then result.rest else 0 }) := fun l => by
    rw [zipIdx_map, map_map]
    rfl
  rw [hmap, hmap, h]

/-- The results of groups of rows in another order. -/
theorem results_perm (h : xs.Perm ys) :
    (results ev xs).map (·.1) = (results ev ys).map (·.1) ∧
      (results ev xs).flatMap (fun g => groupDetails ev g.1 g.2) =
        (results ev ys).flatMap fun g => groupDetails ev g.1 g.2 := by
  have hgroups := groups_perm ev h
  unfold results
  generalize groups ev xs = gs at hgroups
  generalize groups ev ys = gs' at hgroups
  induction hgroups with
  | nil => exact ⟨rfl, rfl⟩
  | @cons g g' gs gs' hg _ ih =>
    obtain ⟨hkey, hperm, hkeys⟩ := hg
    obtain ⟨ih1, ih2⟩ := ih
    simp only [map_cons, flatMap_cons]
    rw [ih1, ih2, hkey, classifyGroup_perm ev g'.1 hperm, groupDetails_keys ev _ hkeys]
    exact ⟨rfl, rfl⟩

/-- Rows of one key that no group has are classified by one code. -/
def OneCode (rows : List ReconRow) : Prop :=
  ∀ r ∈ rows, ∀ r' ∈ rows, r.key = r'.key → ∀ s ∈ special ev r, ∀ s' ∈ special ev r', s.1 = s'.1

theorem residualOrder_injective {a b : String} (hab : residualOrder a ≤ residualOrder b)
    (hba : residualOrder b ≤ residualOrder a) : a = b :=
  congrArg (fun p : Nat ×ₗ String => (ofLex p).2) (le_antisymm hab hba)

theorem codes_perm (h : xs.Perm ys) :
    (classifyRows ev xs).residuals = (classifyRows ev ys).residuals ∧
      (classifyRows ev xs).unexplained = (classifyRows ev ys).unexplained := by
  obtain ⟨hresults, -⟩ := results_perm ev h
  have hunexplained : unexplainedOf ev xs = unexplainedOf ev ys := by
    have hrest := congrArg (List.map GroupResult.rest) hresults
    rw [map_map, map_map] at hrest
    exact congrArg List.sum hrest
  have hcents : centsClaim ev xs = centsClaim ev ys := by
    unfold centsClaim
    rw [hunexplained]
  have hclaims : (results ev xs).flatMap (·.1.claims) = (results ev ys).flatMap (·.1.claims) := by
    rw [← flatMap_map, hresults, flatMap_map]
  have hadds : (allAdds ev xs).Perm (allAdds ev ys) := by
    unfold allAdds
    rw [hclaims, hcents]
    exact (((classified_perm h).flatMap_right _).append_right _).append_right _
  constructor
  · refine sorted_eq (fun a ha b hb hab hba => ?_) (tally_perm hadds)
    have hkey := residualOrder_injective hab hba
    have hb' := (tally_perm hadds).mem_iff.mpr hb
    exact inj_on_of_nodup_map (nodup_tally _) ha hb' hkey
  · show unexplainedOf ev xs - _ = unexplainedOf ev ys - _
    rw [hunexplained, hcents]

theorem details_perm (hone : OneCode ev xs) (h : xs.Perm ys) :
    (classifyRows ev xs).details = (classifyRows ev ys).details := by
  have hspecial : (classified xs).filterMap (rowDetail ev) = (classified ys).filterMap (rowDetail ev) := by
    have hmem : ∀ rows : List ReconRow, ∀ d ∈ (classified rows).filterMap (rowDetail ev),
        ∃ r ∈ rows, rowDetail ev r = some d := fun rows d hd => by
      obtain ⟨r, hr, hrd⟩ := mem_filterMap.mp hd
      exact ⟨r, (mem_filter.mp ((mem_insertionSort _).mp hr)).1, hrd⟩
    have hsorted : ∀ rows : List ReconRow, ((classified rows).filterMap (rowDetail ev)).Pairwise
        fun a b => a.1 ≤ b.1 := fun rows => by
      refine (pairwise_insertionSort (fun a b : ReconRow => a.key ≤ b.key) _).filterMap _ ?_
      intro r r' hle d hd d' hd'
      obtain ⟨s, -, rfl⟩ := Option.map_eq_some_iff.mp hd
      obtain ⟨s', -, rfl⟩ := Option.map_eq_some_iff.mp hd'
      exact hle
    refine List.Perm.eq_of_pairwise (fun d d' hd hd' hle hle' => ?_) (hsorted xs) (hsorted ys)
      ((classified_perm h).filterMap _)
    obtain ⟨r, hr, hrd⟩ := hmem xs d hd
    obtain ⟨r', hr', hrd'⟩ := hmem ys d' hd'
    obtain ⟨s, hs, rfl⟩ := Option.map_eq_some_iff.mp hrd
    obtain ⟨s', hs', rfl⟩ := Option.map_eq_some_iff.mp hrd'
    have hkey : r.key = r'.key := le_antisymm hle hle'
    have hcode := hone r hr r' (h.mem_iff.mpr hr') hkey s hs s' hs'
    rw [hkey, hcode]
  show (allDetails ev xs).foldl _ [] = (allDetails ev ys).foldl _ []
  unfold allDetails
  rw [hspecial, (results_perm ev h).2]

/-- The codes that claim a part of the gap, with the unexplained part, are the gaps of the rows that are
neither informational nor priority; so it is in each group; and neither the codes nor the unexplained part
depends on the order of the rows, nor do the details where rows of one key are classified by one code. -/
theorem residuals_conserve (rows : List ReconRow) :
    (classifyRows ev rows).residuals.claimed + (classifyRows ev rows).unexplained =
        ((gapRows rows).map ReconRow.gap).sum ∧
      (∀ g ∈ results ev rows, g.1.claims.total + g.1.rest = (g.2.map ReconRow.gap).sum) ∧
      ∀ others, rows.Perm others →
        (classifyRows ev rows).residuals = (classifyRows ev others).residuals ∧
        (classifyRows ev rows).unexplained = (classifyRows ev others).unexplained ∧
        (OneCode ev rows → (classifyRows ev rows).details = (classifyRows ev others).details) := by
  refine ⟨conserved ev rows, fun g hg => ?_, fun others h => ?_⟩
  · obtain ⟨group, -, rfl⟩ := mem_map.mp hg
    exact classifyGroup_total ev group.1 group.2
  · obtain ⟨hcodes, hunexplained⟩ := codes_perm ev h
    exact ⟨hcodes, hunexplained, fun hone => details_perm ev hone h⟩

end Classify

/-! ### Two rows of one key -/

def priorityKey : RowKey := [toLex ("service_tier", "priority"), toLex ("bucket", "code_execution")]

def noEvidence : Evidence := ⟨fun _ => 0, fun _ => 0, [], 0⟩

/-- A priority row and an invoiced row of one key: whichever comes last is the key's code. -/
theorem details_order : ∃ rows others, rows.Perm others ∧
    (classifyRows noEvidence rows).details ≠ (classifyRows noEvidence others).details :=
  ⟨[⟨priorityKey, none, none, some 5, none, none⟩, ⟨priorityKey, none, none, none, none, some 7⟩],
    [⟨priorityKey, none, none, none, none, some 7⟩, ⟨priorityKey, none, none, some 5, none, none⟩],
    List.Perm.swap _ _ _, by decide⟩

end TokenBill.Recon
