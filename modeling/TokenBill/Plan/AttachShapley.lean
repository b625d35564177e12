import TokenBill.Core.Findings
import TokenBill.Core.FigureAlgebra
import TokenBill.General.GroupSums
import Mathlib.Algebra.Order.BigOperators.Group.List

/-!
# Shapley credits on the findings

The credit of a lever is split over the findings it names, in proportion to what each could recover alone, and a
finding of the basis of the credit sums the shares of its levers. Every share is rounded by itself. The shares of a
lever miss what its findings of its basis weigh by at most half a nano-dollar each, and the ranking is that of the
sums, in whatever order levers and findings come.
-/

namespace TokenBill.Savings

open General List

/-! ### Shares -/

/-- What `attach_shapley` reads of a `LeverResult`. -/
structure Lever where
  (shapley projectedMonthly : Figure)
  group : String
  findingIds : List String

/-- `_point`. -/
def point (fig : Option Figure) : Int := max 0 ((fig.bind (·.nano)).getD 0)

/-- The basis that `_same_basis` compares with. -/
def refBasis (f : Finding) : Basis := (f.recoverable.getD f.costObserved).basis

/-- `by_id`: the last finding of an id. -/
def byId (findings : List Finding) (id : String) : Option Finding :=
  findings.reverse.find? fun f => decide (f.findingId = id)

def linked (findings : List Finding) (lever : Lever) : List Finding := lever.findingIds.filterMap (byId findings)

def splits (findings : List Finding) (lever : Lever) : Bool :=
  !(linked findings lever).isEmpty && lever.shapley.nano.isSome &&
    (startsWith lever.group "billed:" || startsWith lever.group "allowance:" || startsWith lever.group "pool:")

def totalWeight (fs : List Finding) : Int := (fs.map fun f => point f.recoverable).sum

/-- The weight of a finding among those that a lever names: its point, or one where no point is positive. -/
def weight (fs : List Finding) (f : Finding) : Int := if 0 < totalWeight fs then point f.recoverable else 1

def whole (fs : List Finding) : Int := if 0 < totalWeight fs then totalWeight fs else fs.length

/-- A share of a credit, and of a monthly projection that has a price. -/
structure Share where
  findingId : String
  credit : Figure
  monthly : Option Figure

def monthlyOf (fs : List Finding) (lever : Lever) (f : Finding) : Except Error (Option Figure) :=
  if lever.projectedMonthly.nano.isSome then some <$> scale lever.projectedMonthly (weight fs f) (whole fs)
  else .ok none

/-- The share of one finding. -/
def shareOf (fs : List Finding) (lever : Lever) (f : Finding) : Except Error Share := do
  let credit ← scale lever.shapley (weight fs f) (whole fs)
  let monthly ← monthlyOf fs lever f
  return ⟨f.findingId, credit, monthly⟩

def sameBasis (findings : List Finding) (lever : Lever) : List Finding :=
  (linked findings lever).filter fun f => decide (refBasis f = lever.shapley.basis)

def leverShares (findings : List Finding) (lever : Lever) : Except Error (List Share) :=
  if splits findings lever then (sameBasis findings lever).mapM (shareOf (linked findings lever) lever) else .ok []

/-- `_sum`. -/
def sumFigures : List Figure → Except Error (Option Figure)
  | [] => .ok none
  | f :: fs => some <$> fs.foldlM add f

/-- A finding with the shares of its levers. -/
def withCredit (shares : List Share) (f : Finding) : Except Error Finding := do
  let own := shares.filter fun s => decide (s.findingId = f.findingId)
  let credit ← sumFigures (own.map (·.credit))
  let proj ← sumFigures (own.filterMap (·.monthly))
  return match credit with
    | none => f
    | some credit => { f with recoverableShapley := some credit, projectedMonthly := proj.or f.projectedMonthly }

/-- The point that `shapley_rank` reads. -/
def creditPoint (f : Finding) : Int := ((f.recoverableShapley.or f.recoverable).bind (·.nano)).getD 0

/-- `shapley_rank`. -/
def shapleyRank (f : Finding) : Int ×ₗ String ×ₗ String := toLex (-creditPoint f, toLex (f.detectorId, f.findingId))

/-- `attach_shapley`. -/
def attachShapley (findings : List Finding) (levers : List Lever) : Except Error (List Finding) := do
  let shares ← levers.mapM (leverShares findings)
  let out ← findings.mapM (withCredit shares.flatten)
  return out.insertionSort fun f g => shapleyRank f ≤ shapleyRank g

/-! ### What shares are worth -/

def sharePoint (fs : List Finding) (lever : Lever) (f : Finding) : Int :=
  scaleInt (lever.shapley.nano.getD 0) (weight fs f) (whole fs)

/-- What a lever gives to each finding of its basis. -/
def sharePoints (findings : List Finding) (lever : Lever) : List (String × Int) :=
  if splits findings lever then
    (sameBasis findings lever).map fun f => (f.findingId, sharePoint (linked findings lever) lever f)
  else []

theorem whole_pos {fs : List Finding} (h : fs ≠ []) : 0 < whole fs := by
  unfold whole
  split
  · assumption
  · exact Int.natCast_pos.mpr (length_pos_iff.mpr h)

theorem sum_weight (fs : List Finding) : (fs.map (weight fs)).sum = whole fs := by
  unfold weight whole
  split
  · rfl
  · simp

theorem weight_nonneg (fs : List Finding) (f : Finding) : 0 ≤ weight fs f := by
  unfold weight point
  split
  · exact le_max_left 0 _
  · decide

theorem splits_iff {findings : List Finding} {lever : Lever} (h : splits findings lever = true) :
    linked findings lever ≠ [] ∧ ∃ n, lever.shapley.nano = some n := by
  unfold splits at h
  rw [Bool.and_eq_true, Bool.and_eq_true, Bool.not_eq_true', isEmpty_eq_false_iff,
    Option.isSome_iff_exists] at h
  exact h.1

variable {a c : Figure} {figs : List Figure} {f g : Finding} {out : List Finding} {es : List (String × Int)}

/-- A figure that is scaled has a price and keeps its basis. -/
theorem scale_spec {num den n : Int} (hn : a.nano = some n) (h : scale a num den = .ok c) :
    c.nano = some (scaleInt n num den) ∧ c.basis = a.basis := by
  unfold scale at h
  split at h
  · cases h
  · rw [hn] at h
    rw [FigureFields.build_eq_ok.mp h]
    exact ⟨rfl, rfl⟩

/-- A sum of figures with prices is priced, in their basis. -/
theorem add_spec {b : Figure} {x y : Int} (ha : a.nano = some x) (hb : b.nano = some y)
    (h : add a b = .ok c) : c.nano = some (x + y) ∧ c.basis = a.basis := by
  obtain ⟨-, hc⟩ := combine_eq_ok h
  unfold combineFields at hc
  rw [ha, hb] at hc
  rw [hc]
  exact ⟨rfl, rfl⟩

/-- What a share is worth. -/
structure Share.Worth (s : Share) (basis : Basis) (n : Int) : Prop where
  nano : s.credit.nano = some n
  basis : s.credit.basis = basis

theorem foldlM_add_spec {points : List Int}
    (hp : List.Forall₂ (fun f n => f.nano = some n) figs points) {x : Int} (ha : a.nano = some x)
    (h : figs.foldlM add a = .ok c) : c.nano = some (x + points.sum) := by
  induction hp generalizing a x with
  | nil =>
    obtain rfl := pure_eq_ok.mp h
    simpa using ha
  | cons hf _ ih =>
    obtain ⟨d, hd, h⟩ := bind_eq_ok.mp h
    rw [sum_cons, ← Int.add_assoc]
    exact ih (add_spec ha hf hd).1 h

theorem sumFigures_spec {points : List Int} {c : Option Figure}
    (hp : List.Forall₂ (fun f n => f.nano = some n) figs points) (h : sumFigures figs = .ok c) :
    (points = [] → c = none) ∧ (points ≠ [] → ∃ g, c = some g ∧ g.nano = some points.sum) := by
  cases hp with
  | nil =>
    obtain rfl := Except.ok.inj h
    exact ⟨fun _ => rfl, fun hne => absurd rfl hne⟩
  | cons hf hp =>
    refine ⟨fun he => (cons_ne_nil _ _ he).elim, fun _ => ?_⟩
    obtain ⟨g, hg, rfl⟩ := map_eq_ok.mp h
    exact ⟨g, rfl, foldlM_add_spec hp hf hg⟩

theorem leverShares_spec {findings : List Finding} {lever : Lever} {shares : List Share}
    (h : leverShares findings lever = .ok shares) :
    List.Forall₂ (fun s p => s.findingId = p.1 ∧ s.Worth lever.shapley.basis p.2) shares
      (sharePoints findings lever) := by
  unfold leverShares sharePoints at *
  split at h
  · rename_i hsplits
    rw [if_pos hsplits]
    obtain ⟨-, n, hn⟩ := splits_iff hsplits
    rw [forall₂_map_right_iff]
    refine (mapM_eq_ok.mp h).flip.imp fun s f hs => ?_
    obtain ⟨credit, hcredit, hs⟩ := bind_eq_ok.mp hs
    obtain ⟨monthly, -, hs⟩ := bind_eq_ok.mp hs
    obtain rfl := pure_eq_ok.mp hs
    obtain ⟨hnano, hbasis⟩ := scale_spec hn hcredit
    refine ⟨rfl, ?_, hbasis⟩
    rw [hnano]
    unfold sharePoint
    rw [hn]
    rfl
  · rename_i hsplits
    rw [if_neg hsplits]
    obtain rfl := Except.ok.inj h
    exact .nil

/-! ### Findings with credits -/

def own (entries : List (String × Int)) (id : String) : List Int :=
  (entries.filter fun e => decide (e.1 = id)).map (·.2)

/-- A finding and what it is with its credit. -/
structure Credited (entries : List (String × Int)) (f g : Finding) : Prop where
  findingId : g.findingId = f.findingId
  detectorId : g.detectorId = f.detectorId
  refBasis : refBasis g = refBasis f
  without : own entries f.findingId = [] → g = f
  shared : own entries f.findingId ≠ [] → ∃ c, g.recoverableShapley = some c ∧
    c.nano = some (own entries f.findingId).sum

theorem withCredit_spec {shares : List Share} {entries : List (String × Int)}
    (hs : List.Forall₂ (fun s p => s.findingId = p.1 ∧ s.credit.nano = some p.2) shares entries)
    (h : withCredit shares f = .ok g) : Credited entries f g := by
  have hown : List.Forall₂ (fun (c : Figure) n => c.nano = some n)
      ((shares.filter fun s => decide (s.findingId = f.findingId)).map (·.credit)) (own entries f.findingId) := by
    clear h
    unfold own
    induction hs with
    | nil => exact .nil
    | @cons s p _ _ hsp _ ih =>
      rw [filter_cons, filter_cons, hsp.1]
      split
      · exact .cons hsp.2 ih
      · exact ih
  obtain ⟨credit, hcredit, h⟩ := bind_eq_ok.mp h
  obtain ⟨proj, -, h⟩ := bind_eq_ok.mp h
  obtain rfl := pure_eq_ok.mp h
  obtain ⟨hnone, hsome⟩ := sumFigures_spec hown hcredit
  by_cases hnil : own entries f.findingId = []
  · rw [hnone hnil]
    exact ⟨rfl, rfl, rfl, fun _ => rfl, fun hne => absurd hnil hne⟩
  · obtain ⟨c, rfl, hc⟩ := hsome hnil
    exact ⟨rfl, rfl, rfl, fun he => absurd he hnil, fun _ => ⟨c, rfl, hc⟩⟩

def entries (findings : List Finding) (levers : List Lever) : List (String × Int) := levers.flatMap (sharePoints findings)

theorem shares_spec {findings : List Finding} {levers : List Lever} {shares : List (List Share)}
    (h : levers.mapM (leverShares findings) = .ok shares) :
    List.Forall₂ (fun s p => s.findingId = p.1 ∧ s.credit.nano = some p.2) shares.flatten
      (entries findings levers) := by
  have hlevers := mapM_eq_ok.mp h
  clear h
  unfold entries
  induction hlevers with
  | nil => exact .nil
  | cons hl _ ih =>
    rw [flatten_cons, flatMap_cons]
    exact rel_append ((leverShares_spec hl).imp fun _ _ hw => ⟨hw.1, hw.2.nano⟩) ih

/-- What `attach_shapley` returns, finding by finding, before it is sorted. -/
theorem attachShapley_spec {findings : List Finding} {levers : List Lever}
    (h : attachShapley findings levers = .ok out) :
    ∃ gs, List.Forall₂ (Credited (entries findings levers)) findings gs ∧
      out = gs.insertionSort fun f g => shapleyRank f ≤ shapleyRank g := by
  obtain ⟨shares, hshares, h⟩ := bind_eq_ok.mp h
  obtain ⟨gs, hgs, h⟩ := bind_eq_ok.mp h
  obtain rfl := pure_eq_ok.mp h
  exact ⟨gs, (mapM_eq_ok.mp hgs).imp fun f g hg => withCredit_spec (shares_spec hshares) hg, rfl⟩

/-! ### Sums by basis -/

section Distinct

variable {findings : List Finding} {levers : List Lever}

theorem byId_eq_some (hids : (findings.map (·.findingId)).Nodup) {id : String} {f : Finding} :
    byId findings id = some f ↔ f ∈ findings ∧ f.findingId = id := by
  unfold byId
  constructor
  · intro h
    exact ⟨mem_reverse.mp (mem_of_find?_eq_some h), by simpa using find?_some h⟩
  · rintro ⟨hf, rfl⟩
    cases hfind : findings.reverse.find? fun g => decide (g.findingId = f.findingId) with
    | none => exact absurd (find?_eq_none.mp hfind f (mem_reverse.mpr hf)) (by simp)
    | some g =>
      have hg := mem_reverse.mp (mem_of_find?_eq_some hfind)
      have hid : g.findingId = f.findingId := by simpa using find?_some hfind
      rw [inj_on_of_nodup_map hids hg hf hid]

variable {lever : Lever}

theorem mem_sharePoints (hids : (findings.map (·.findingId)).Nodup) {e : String × Int}
    (he : e ∈ sharePoints findings lever) : ∃ f ∈ findings, f.findingId = e.1 ∧ refBasis f = lever.shapley.basis := by
  unfold sharePoints at he
  split at he
  · obtain ⟨f, hf, rfl⟩ := mem_map.mp he
    obtain ⟨hlinked, hbasis⟩ := mem_filter.mp hf
    obtain ⟨id, -, hby⟩ := mem_filterMap.mp hlinked
    exact ⟨f, ((byId_eq_some hids).mp hby).1, rfl, of_decide_eq_true hbasis⟩
  · cases he

theorem own_entries (hids : (findings.map (·.findingId)).Nodup) {f : Finding} (hf : f ∈ findings) (b : Basis) :
    own (entries findings (levers.filter fun l => decide (l.shapley.basis = b))) f.findingId =
      if refBasis f = b then own (entries findings levers) f.findingId else [] := by
  have hother : ∀ l : Lever, l.shapley.basis ≠ refBasis f →
      ((sharePoints findings l).filter fun e => decide (e.1 = f.findingId)) = [] := by
    intro l hl
    refine filter_eq_nil_iff.mpr fun e he hid => ?_
    obtain ⟨g, hg, hge, hbasis⟩ := mem_sharePoints hids he
    obtain rfl := inj_on_of_nodup_map hids hg hf (hge.trans (of_decide_eq_true hid))
    exact hl hbasis.symm
  unfold own entries
  induction levers with
  | nil => simp
  | cons l levers ih =>
    rw [filter_cons, flatMap_cons, filter_append, map_append]
    by_cases hl : l.shapley.basis = b
    · rw [if_pos (decide_eq_true hl), flatMap_cons, filter_append, map_append, ih]
      split
      · rfl
      · rename_i hne
        rw [hother l fun he => hne (he.symm.trans hl)]
        rfl
    · rw [if_neg (by simpa using hl), ih]
      split
      · rename_i heq
        rw [hother l fun he => hl (he.trans heq)]
        rfl
      · rfl

/-- The shares of a basis, added up finding by finding. -/
theorem sum_own (hids : (findings.map (·.findingId)).Nodup) (b : Basis) :
    ((findings.filter fun f => decide (refBasis f = b)).map fun f =>
      (own (entries findings levers) f.findingId).sum).sum =
        ((levers.filter fun l => decide (l.shapley.basis = b)).map fun l =>
          ((sharePoints findings l).map (·.2)).sum).sum := by
  have hkeys : ∀ e ∈ entries findings (levers.filter fun l => decide (l.shapley.basis = b)),
      e.1 ∈ findings.map (·.findingId) := by
    intro e he
    obtain ⟨l, -, he⟩ := mem_flatMap.mp he
    obtain ⟨f, hf, hid, -⟩ := mem_sharePoints hids he
    exact hid ▸ mem_map_of_mem hf
  have hsum : ((entries findings (levers.filter fun l => decide (l.shapley.basis = b))).map (·.2)).sum =
      ((levers.filter fun l => decide (l.shapley.basis = b)).map fun l =>
        ((sharePoints findings l).map (·.2)).sum).sum := by
    unfold entries
    rw [map_flatMap, flatMap_def, sum_flatten, map_map]
    rfl
  rw [← hsum, ← sum_fibres (·.2) hids hkeys, map_map]
  have hfilter : ∀ (fs : List Finding), ((fs.filter fun f => decide (refBasis f = b)).map fun f =>
      (own (entries findings levers) f.findingId).sum).sum =
        (fs.map fun f => if refBasis f = b then (own (entries findings levers) f.findingId).sum else 0).sum := by
    intro fs
    induction fs with
    | nil => rfl
    | cons f fs ih => by_cases hf : refBasis f = b <;> simp [hf, ih]
  refine (hfilter findings).trans (congrArg List.sum (map_congr_left fun f hf => ?_))
  show _ = (own (entries findings _) f.findingId).sum
  rw [own_entries hids hf b]
  split <;> rfl

/-! ### One lever -/

/-- The rounded quotient is within half of the divisor. -/
theorem scaleInt_near (value num : Int) {den : Int} (hd : 0 < den) :
    2 * |scaleInt value num den * den - value * num| ≤ den := by
  rw [abs_sub_comm]
  rcases (divHalfEven_eq_iff hd).mp (rfl : scaleInt value num den = divHalfEven (value * num) den) with h | h
  · exact h.le
  · exact h.1.le

/-- The shares of a lever differ from what its findings of its basis weigh by at most half a nano-dollar each. -/
theorem sum_sharePoints_near {credit : Int} (hsplits : splits findings lever = true)
    (hcredit : lever.shapley.nano = some credit) :
    2 * |((sharePoints findings lever).map (·.2)).sum * whole (linked findings lever) -
        credit * ((sameBasis findings lever).map (weight (linked findings lever))).sum| ≤
      (sameBasis findings lever).length * whole (linked findings lever) := by
  have hpos := whole_pos (splits_iff hsplits).1
  unfold sharePoints
  rw [if_pos hsplits, map_map]
  generalize linked findings lever = fs at hpos
  generalize sameBasis findings lever = same
  induction same with
  | nil => simp
  | cons f same ih =>
    have hone := scaleInt_near credit (weight fs f) hpos
    have hshare : sharePoint fs lever f = scaleInt credit (weight fs f) (whole fs) := by
      unfold sharePoint
      rw [hcredit]
      rfl
    rw [map_cons, map_cons, sum_cons, sum_cons, length_cons]
    simp only [Function.comp_apply, hshare] at ih ⊢
    have htri := abs_add_le (scaleInt credit (weight fs f) (whole fs) * whole fs - credit * weight fs f)
      ((same.map ((fun e : String × Int => e.2) ∘ fun f => (f.findingId, sharePoint fs lever f))).sum * whole fs -
        credit * (same.map (weight fs)).sum)
    have hsplit : (scaleInt credit (weight fs f) (whole fs) +
          (same.map ((fun e : String × Int => e.2) ∘ fun f => (f.findingId, sharePoint fs lever f))).sum) * whole fs -
            credit * (weight fs f + (same.map (weight fs)).sum) =
        (scaleInt credit (weight fs f) (whole fs) * whole fs - credit * weight fs f) +
          ((same.map ((fun e : String × Int => e.2) ∘ fun f => (f.findingId, sharePoint fs lever f))).sum * whole fs -
            credit * (same.map (weight fs)).sum) := by ring
    rw [hsplit]
    push_cast
    linarith

theorem sum_sharePoints_le {credit : Int} (hsplits : splits findings lever = true)
    (hcredit : lever.shapley.nano = some credit) (hnonneg : 0 ≤ credit) :
    2 * ((sharePoints findings lever).map (·.2)).sum ≤ 2 * credit + (sameBasis findings lever).length := by
  have hpos := whole_pos (splits_iff hsplits).1
  have hnear := sum_sharePoints_near hsplits hcredit
  have hweights : ((sameBasis findings lever).map (weight (linked findings lever))).sum ≤
      whole (linked findings lever) := by
    rw [← sum_weight]
    exact (filter_sublist.map _).sum_le_sum fun w hw => by
      obtain ⟨f, -, rfl⟩ := mem_map.mp hw
      exact weight_nonneg _ f
  have habs := le_abs_self (((sharePoints findings lever).map (·.2)).sum * whole (linked findings lever) -
    credit * ((sameBasis findings lever).map (weight (linked findings lever))).sum)
  have hmul := mul_le_mul_of_nonneg_left hweights hnonneg
  refine le_of_mul_le_mul_right ?_ hpos
  linarith

end Distinct

/-! ### The ranking -/

def rankOf (es : List (String × Int)) (f : Finding) : Int ×ₗ String ×ₗ String :=
  toLex (-(if own es f.findingId = [] then creditPoint f else (own es f.findingId).sum),
    toLex (f.detectorId, f.findingId))

theorem Credited.creditPoint (h : Credited es f g) :
    creditPoint g = if own es f.findingId = [] then creditPoint f else (own es f.findingId).sum := by
  split
  · rename_i hnil
    rw [h.without hnil]
  · rename_i hne
    obtain ⟨c, hc, hnano⟩ := h.shared hne
    unfold Savings.creditPoint
    rw [hc, Option.some_or, Option.bind_some, hnano]
    rfl

theorem Credited.rank (h : Credited es f g) : shapleyRank g = rankOf es f := by
  unfold shapleyRank rankOf
  rw [h.creditPoint, h.detectorId, h.findingId]

theorem ranks_attachShapley {findings : List Finding} {levers : List Lever}
    (h : attachShapley findings levers = .ok out) : out.map shapleyRank =
      (findings.map (rankOf (entries findings levers))).insertionSort (· ≤ ·) := by
  obtain ⟨gs, hgs, rfl⟩ := attachShapley_spec h
  have hranks : gs.map shapleyRank = findings.map (rankOf (entries findings levers)) := by
    clear h
    generalize entries findings levers = es at hgs ⊢
    induction hgs with
    | nil => rfl
    | cons hg _ ih => rw [map_cons, map_cons, hg.rank, ih]
  rw [← hranks]
  exact map_insertionSort _ _ _ _ fun _ _ _ _ => Iff.rfl

theorem own_perm {es' : List (String × Int)} (h : es.Perm es') (id : String) : (own es id).Perm (own es' id) :=
  (h.filter _).map _

theorem sharePoints_perm {findings findings' : List Finding} (hp : findings.Perm findings')
    (hids : (findings.map (·.findingId)).Nodup) (l : Lever) : sharePoints findings l = sharePoints findings' l := by
  have hids' := (hp.map (·.findingId)).nodup_iff.mp hids
  have hby : byId findings = byId findings' := funext fun id => Option.ext fun f => by
    rw [byId_eq_some hids, byId_eq_some hids', hp.mem_iff]
  have hlinked : linked findings l = linked findings' l := by
    unfold linked
    rw [hby]
  unfold sharePoints splits sameBasis
  rw [hlinked]

theorem ranks_perm {findings findings' out' : List Finding} {levers levers' : List Lever}
    (hids : (findings.map (·.findingId)).Nodup) (hp : findings.Perm findings') (hl : levers.Perm levers')
    (h : attachShapley findings levers = .ok out) (h' : attachShapley findings' levers' = .ok out') :
    out.map shapleyRank = out'.map shapleyRank := by
  have hentries : (entries findings levers).Perm (entries findings' levers') := by
    unfold entries
    rw [flatMap_congr fun l _ => sharePoints_perm hp hids l]
    exact hl.flatMap_right _
  have hrank : rankOf (entries findings levers) = rankOf (entries findings' levers') := by
    funext f
    have hown := own_perm hentries f.findingId
    unfold rankOf
    rw [hown.sum_eq]
    simp only [← length_eq_zero_iff, hown.length_eq]
  rw [ranks_attachShapley h, ranks_attachShapley h', hrank]
  exact sorted_eq (fun a _ b _ hab hba => le_antisymm hab hba) (hp.map _)

/-! ### What is attached -/

def assigned (es : List (String × Int)) (b : Basis) (out : List Finding) : Int :=
  ((out.filter fun g => decide (refBasis g = b) && !(own es g.findingId).isEmpty).map creditPoint).sum

theorem assigned_attachShapley {findings : List Finding} {levers : List Lever}
    (hids : (findings.map (·.findingId)).Nodup) (h : attachShapley findings levers = .ok out) (b : Basis) :
    assigned (entries findings levers) b out =
      ((levers.filter fun l => decide (l.shapley.basis = b)).map fun l =>
        ((sharePoints findings l).map (·.2)).sum).sum := by
  obtain ⟨gs, hgs, rfl⟩ := attachShapley_spec h
  rw [← sum_own hids b]
  unfold assigned
  rw [(((perm_insertionSort (fun f g => shapleyRank f ≤ shapleyRank g) gs).filter _).map creditPoint).sum_eq]
  clear h hids
  generalize entries findings levers = es at hgs ⊢
  induction hgs with
  | nil => rfl
  | @cons f g _ _ hg _ ih =>
    rw [filter_cons, filter_cons, hg.refBasis, hg.findingId]
    by_cases hb : refBasis f = b
    · by_cases hnil : own es f.findingId = []
      · simp [hb, hnil, ih]
      · simp [hb, hnil, ih, hg.creditPoint]
    · simp [hb, ih]

/-- Levers whose figures can be added: an estimate says what it assumes, and a projection is in the basis of the
credit. -/
def Lever.Sound (l : Lever) : Prop :=
  l.shapley.Named ∧ l.projectedMonthly.Named ∧ l.projectedMonthly.basis = l.shapley.basis

theorem scale_named (h : a.Named) (num : Int) {den : Int} (hd : 0 < den) :
    ∃ c, scale a num den = .ok c ∧ c.Named ∧ c.basis = a.basis := by
  obtain ⟨c, hc, -⟩ := scale_sound a num hd
  refine ⟨c, hc, ?_⟩
  unfold scale at hc
  rw [if_neg (by omega)] at hc
  split at hc
  · obtain rfl := Except.ok.inj hc
    exact ⟨h, rfl⟩
  · have hfields := FigureFields.build_eq_ok.mp hc
    unfold Figure.Named
    rw [hfields]
    exact ⟨h, rfl⟩

theorem sumFigures_ok {b : Basis} (h : ∀ f ∈ figs, f.Named ∧ f.basis = b) : ∃ c, sumFigures figs = .ok c := by
  cases figs with
  | nil => exact ⟨none, rfl⟩
  | cons f fs =>
    rw [forall_mem_cons] at h
    obtain ⟨c, hc, -⟩ := foldlM_ok (f := add) (I := fun c => c.Named ∧ c.basis = b) (fun c hc x hx => by
      obtain ⟨d, hd, -, hnamed, hbasis⟩ := combine_sound (hc.2.trans (h.2 x hx).2.symm) hc.1 (h.2 x hx).1 false
      exact ⟨d, hd, hnamed, hbasis.trans hc.2⟩) h.1
    exact ⟨some c, map_eq_ok.mpr ⟨c, hc, rfl⟩⟩

theorem leverShares_ok (findings : List Finding) {l : Lever} (h : l.Sound) :
    ∃ shares, leverShares findings l = .ok shares ∧ ∀ s ∈ shares,
      (∃ f ∈ linked findings l, f.findingId = s.findingId ∧ refBasis f = l.shapley.basis) ∧
        (s.credit.Named ∧ s.credit.basis = l.shapley.basis) ∧
          ∀ m, s.monthly = some m → m.Named ∧ m.basis = l.shapley.basis := by
  unfold leverShares
  split
  · rename_i hsplits
    have hpos := whole_pos (splits_iff hsplits).1
    have hone : ∀ f ∈ sameBasis findings l, ∃ s, shareOf (linked findings l) l f = .ok s := by
      intro f _
      obtain ⟨credit, hcredit, -⟩ := scale_named h.1 (weight (linked findings l) f) hpos
      obtain ⟨monthly, hmonthly, -⟩ := scale_named h.2.1 (weight (linked findings l) f) hpos
      unfold shareOf monthlyOf
      rw [hcredit, hmonthly]
      split <;> exact ⟨_, rfl⟩
    obtain ⟨shares, hshares⟩ := mapM_exists_ok hone
    refine ⟨shares, hshares, fun s hs => ?_⟩
    obtain ⟨f, hf, hs⟩ := exists_of_mem_right (mapM_eq_ok.mp hshares) hs
    obtain ⟨hlinked, hbasis⟩ := mem_filter.mp hf
    obtain ⟨credit, hcredit, hs⟩ := bind_eq_ok.mp hs
    obtain ⟨monthly, hmonthly, hs⟩ := bind_eq_ok.mp hs
    obtain rfl := pure_eq_ok.mp hs
    obtain ⟨c, hc, hcnamed⟩ := scale_named h.1 (weight (linked findings l) f) hpos
    obtain rfl := Except.ok.inj (hcredit.symm.trans hc)
    refine ⟨⟨f, hlinked, rfl, of_decide_eq_true hbasis⟩, hcnamed, fun m hm => ?_⟩
    obtain rfl : monthly = some m := hm
    unfold monthlyOf at hmonthly
    split at hmonthly
    · obtain ⟨m', hm', hsome⟩ := map_eq_ok.mp hmonthly
      obtain rfl := Option.some.inj hsome
      obtain ⟨d, hd, hnamed, hdbasis⟩ := scale_named h.2.1 (weight (linked findings l) f) hpos
      obtain rfl := Except.ok.inj (hm'.symm.trans hd)
      exact ⟨hnamed, hdbasis.trans h.2.2⟩
    · cases hmonthly
  · exact ⟨[], rfl, fun s hs => nomatch hs⟩

/-- `attach_shapley` returns for levers whose figures can be added. -/
theorem attachShapley_ok {findings : List Finding} {levers : List Lever}
    (hids : (findings.map (·.findingId)).Nodup) (h : ∀ l ∈ levers, l.Sound) :
    ∃ out, attachShapley findings levers = .ok out := by
  obtain ⟨shares, hshares⟩ := mapM_exists_ok fun l hl => (leverShares_ok findings (h l hl)).imp fun _ => And.left
  -- the shares of a finding are in its basis
  have hall : ∀ s ∈ shares.flatten, ∀ f ∈ findings, s.findingId = f.findingId →
      (s.credit.Named ∧ s.credit.basis = refBasis f) ∧
        ∀ m, s.monthly = some m → m.Named ∧ m.basis = refBasis f := by
    intro s hs f hf hid
    obtain ⟨ls, hls, hs⟩ := mem_flatten.mp hs
    obtain ⟨l, hl, hls⟩ := exists_of_mem_right (mapM_eq_ok.mp hshares) hls
    obtain ⟨ls', hls', hspec⟩ := leverShares_ok findings (h l hl)
    obtain rfl := Except.ok.inj (hls.symm.trans hls')
    obtain ⟨⟨g, hg, hgid, hbasis⟩, hcredit, hmonthly⟩ := hspec s hs
    obtain ⟨id, -, hby⟩ := mem_filterMap.mp hg
    obtain rfl := inj_on_of_nodup_map hids ((byId_eq_some hids).mp hby).1 hf (hgid.trans hid)
    rw [hbasis]
    exact ⟨hcredit, hmonthly⟩
  have hcredit : ∀ f ∈ findings, ∃ g, withCredit shares.flatten f = .ok g := by
    intro f hf
    obtain ⟨c, hc⟩ : ∃ c, sumFigures ((shares.flatten.filter fun s => decide (s.findingId = f.findingId)).map
        (·.credit)) = .ok c :=
      sumFigures_ok fun x hx => by
        obtain ⟨s, hs, rfl⟩ := mem_map.mp hx
        obtain ⟨hs, hid⟩ := mem_filter.mp hs
        exact (hall s hs f hf (of_decide_eq_true hid)).1
    obtain ⟨m, hm⟩ : ∃ m, sumFigures ((shares.flatten.filter fun s => decide (s.findingId = f.findingId)).filterMap
        (·.monthly)) = .ok m :=
      sumFigures_ok fun x hx => by
        obtain ⟨s, hs, hsx⟩ := mem_filterMap.mp hx
        obtain ⟨hs, hid⟩ := mem_filter.mp hs
        exact (hall s hs f hf (of_decide_eq_true hid)).2 x hsx
    unfold withCredit
    dsimp only
    rw [hc, hm]
    exact ⟨_, rfl⟩
  obtain ⟨gs, hgs⟩ := mapM_exists_ok hcredit
  exact ⟨_, bind_eq_ok.mpr ⟨shares, hshares, bind_eq_ok.mpr ⟨gs, hgs, rfl⟩⟩⟩

/-- A finding that cost a dollar in a basis. -/
def sampleFinding (id : String) (basis : Basis) : Finding where
  findingId := id
  detectorId := "cache.miss-by-cause"
  kind := "ttl-expiry"
  detectorVersion := "1"
  category := .lever
  leverClass := .rate
  audience := .org
  title := ""
  summary := ""
  scope := []
  nEvents := 1
  nLanes := 1
  nUsers := 1
  firstSeenMs := 0
  costObserved := exactFigure 1000000000 basis
  recoverable := some (exactFigure 1 basis)

def sampleLever (credit : Int) : Lever := ⟨exactFigure credit .list, exactFigure credit .list, "billed:a", ["f1", "f2"]⟩

theorem sampleLever_sound (credit : Int) : (sampleLever credit).Sound := ⟨nofun, nofun, rfl⟩

end TokenBill.Savings
