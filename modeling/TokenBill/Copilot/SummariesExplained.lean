import TokenBill.Copilot.Summaries
import Mathlib.Algebra.Order.BigOperators.Group.List

/-!
# What explains a gap

An explanation takes from each cause at most its magnitude, and what it takes and leaves is
the gap. Every total is offered the whole magnitude of each cause, so over all totals a
cause explains at most its magnitude for each of them, and may explain it more than once.
-/

namespace TokenBill.Copilot

open List

/-! ### One gap -/

def spent (code : String) (parts : List (String × Int)) : Int :=
  ((parts.filter fun p => decide (p.1 = code)).map fun p => |p.2|).sum

def offered (code : String) (budgets : List Budget) : Int :=
  ((budgets.filter fun b => decide (b.code = code)).map fun b => max 0 b.magnitude).sum

theorem spent_cons (code : String) (p : String × Int) (parts : List (String × Int)) :
    spent code (p :: parts) = (if p.1 = code then |p.2| else 0) + spent code parts := by
  unfold spent
  by_cases h : p.1 = code <;> simp [h]

theorem offered_cons (code : String) (b : Budget) (budgets : List Budget) :
    offered code (b :: budgets) = (if b.code = code then max 0 b.magnitude else 0) + offered code budgets := by
  unfold offered
  by_cases h : b.code = code <;> simp [h]

theorem offered_nonneg (code : String) (budgets : List Budget) : 0 ≤ offered code budgets :=
  sum_nonneg fun x hx => by
    obtain ⟨b, -, rfl⟩ := mem_map.mp hx
    exact le_max_left _ _

theorem offered_append (code : String) (a b : List Budget) :
    offered code (a ++ b) = offered code a + offered code b := by
  unfold offered
  rw [filter_append, map_append, sum_append]

/-- What the parts take and what they leave is what there was, and each cause takes what it is offered. -/
theorem explainFrom_spec {sgn : Int} (hsgn : sgn = 1 ∨ sgn = -1) {left : Int} (hleft : 0 ≤ left)
    (budgets : List Budget) :
    sgn * left = ((explainFrom sgn left budgets).1.map (·.2)).sum +
        sgn * (explainFrom sgn left budgets).2 ∧
      0 ≤ (explainFrom sgn left budgets).2 ∧
      ∀ code, spent code (explainFrom sgn left budgets).1 ≤ offered code budgets := by
  induction budgets generalizing left with
  | nil => exact ⟨(zero_add _).symm, hleft, fun _ => le_rfl⟩
  | cons b bs ih =>
    unfold explainFrom
    split
    · exact ⟨(zero_add _).symm, hleft, fun code => offered_nonneg code (b :: bs)⟩
    · split
      · obtain ⟨hsum, hrest, hspent⟩ := ih hleft
        refine ⟨hsum, hrest, fun code => (hspent code).trans ?_⟩
        rw [offered_cons]
        have hnonneg : 0 ≤ if b.code = code then max 0 b.magnitude else 0 := by
          split
          · exact le_max_left _ _
          · exact le_rfl
        exact le_add_of_nonneg_left hnonneg
      · rename_i huse
        have hmag : 0 < b.magnitude := not_le.mp fun h => huse (.inl h)
        have htake : min left b.magnitude ≤ left := min_le_left _ _
        have hpos : 0 ≤ min left b.magnitude := le_min hleft hmag.le
        obtain ⟨hsum, hrest, hspent⟩ := ih (sub_nonneg.mpr htake)
        refine ⟨?_, hrest, fun code => ?_⟩
        · rw [map_cons, sum_cons, add_assoc, ← hsum]
          ring
        · rw [spent_cons, offered_cons]
          refine add_le_add ?_ (hspent code)
          split
          · have habs : |sgn * min left b.magnitude| = min left b.magnitude := by
              rcases hsgn with rfl | rfl
              · rw [one_mul, abs_of_nonneg hpos]
              · rw [neg_one_mul, abs_neg, abs_of_nonneg hpos]
            rw [habs]
            exact (min_le_right _ _).trans (le_max_right _ _)
          · exact le_rfl

theorem gapSign_mul_abs (gap : Int) : gapSign gap * |gap| = gap := by
  unfold gapSign
  split
  · rename_i h
    rw [abs_of_pos h, one_mul]
  · rename_i h
    rw [abs_of_nonpos (not_lt.mp h), neg_one_mul, neg_neg]

theorem explainBudget_spec (gap : Int) (budgets : List Budget) :
    gap = ((explainBudget gap budgets).1.map (·.2)).sum + gapSign gap * (explainBudget gap budgets).2 ∧
      0 ≤ (explainBudget gap budgets).2 ∧
      ∀ code, spent code (explainBudget gap budgets).1 ≤ offered code budgets := by
  have hsgn : gapSign gap = 1 ∨ gapSign gap = -1 := by
    unfold gapSign
    split
    · exact .inl rfl
    · exact .inr rfl
  have hspec := explainFrom_spec hsgn (abs_nonneg gap) budgets
  rw [gapSign_mul_abs] at hspec
  exact hspec

/-! ### All totals -/

namespace ReconInput

variable (inp : ReconInput)

/-- The magnitude of a cause for a total: the stale net is of the month, and the net without an
organization of the month and product, for the totals of an organization. -/
def magnitude (code : String) (key : SummaryKey) : Int :=
  if code = "copilot_revision_stale_rows" then inp.stale key.month
  else if code = "copilot_rounding" then inp.roundingNano
  else if code = "copilot_unattributed_org" ∧ key.scope ≠ .enterprise then
    max 0 (inp.unattributed key.month key.product)
  else 0

def sharedCauses : List String :=
  ["copilot_revision_stale_rows", "copilot_rounding", "copilot_unattributed_org"]

theorem stale_nonneg (month : Nat) : 0 ≤ inp.stale month :=
  sum_nonneg fun x hx => by
    obtain ⟨r, -, rfl⟩ := mem_map.mp hx
    exact le_max_left _ _

theorem offered_budgets {code : String} (hcode : code ∈ sharedCauses) (key : SummaryKey) (gap : Int) :
    offered code (inp.budgets key gap) = inp.magnitude code key := by
  have hstale := max_eq_right (inp.stale_nonneg key.month)
  have hround : max 0 inp.roundingNano = inp.roundingNano := max_eq_right (abs_nonneg _)
  unfold budgets
  rw [offered_append, offered_append]
  unfold sharedCauses at hcode
  simp only [mem_cons, not_mem_nil, or_false] at hcode
  unfold magnitude
  rcases hcode with rfl | rfl | rfl
  · by_cases hscope : key.scope = .enterprise <;> simp [offered, hscope, hstale]
  · by_cases hscope : key.scope = .enterprise <;> simp [offered, hscope, hround]
  · by_cases hscope : key.scope = .enterprise <;> simp [offered, hscope]

theorem total_spent {code : String} (hcode : code ∈ sharedCauses) (key : SummaryKey) :
    spent code (inp.total key).parts ≤ inp.magnitude code key := by
  have hnonneg : 0 ≤ inp.magnitude code key := by
    rw [← inp.offered_budgets hcode key 0]
    exact offered_nonneg _ _
  unfold total
  dsimp only
  split
  · exact hnonneg
  · rw [← inp.offered_budgets hcode key]
    exact (explainBudget_spec _ _).2.2 code

/-- Each total's gap beyond tolerance is the sum of its explained parts and its signed unexplained rest.
Each cause explains at most its magnitude of one gap, so over the totals of some scopes, products and
months it explains at most its magnitude for each of them. -/
theorem totals_explained :
    (∀ t ∈ inp.totals, inp.inTolerance t.gap t.ref = false →
      t.gap = (t.parts.map (·.2)).sum + gapSign t.gap * t.left ∧ 0 ≤ t.left) ∧
      (∀ t ∈ inp.totals, inp.inTolerance t.gap t.ref = true → t.parts = [] ∧ t.left = 0) ∧
      ∀ code ∈ sharedCauses, ∀ chosen : SummaryKey → Bool,
        ((inp.totals.filter fun t => chosen t.key).map fun t => spent code t.parts).sum ≤
          ((inp.totals.filter fun t => chosen t.key).map fun t => inp.magnitude code t.key).sum := by
  refine ⟨fun t ht hout => ?_, fun t ht hin => ?_, fun code hcode chosen => ?_⟩
  · obtain ⟨key, -, rfl⟩ := mem_map.mp ht
    have hspec := explainBudget_spec (inp.total key).gap (inp.budgets key (inp.total key).gap)
    have hparts : explainBudget (inp.total key).gap (inp.budgets key (inp.total key).gap) =
        ((inp.total key).parts, (inp.total key).left) := by
      have hne : ¬ inp.inTolerance (netOf (inp.referenceLines key) - netOf (inp.ownLines key))
          (netOf (inp.referenceLines key)) = true := fun h => Bool.false_ne_true (hout.symm.trans h)
      unfold total
      dsimp only
      rw [if_neg hne]
      rfl
    rw [hparts] at hspec
    exact ⟨hspec.1, hspec.2.1⟩
  · obtain ⟨key, -, rfl⟩ := mem_map.mp ht
    have hin : inp.inTolerance (netOf (inp.referenceLines key) - netOf (inp.ownLines key))
        (netOf (inp.referenceLines key)) = true := hin
    unfold total
    dsimp only
    rw [if_pos hin]
    exact ⟨rfl, rfl⟩
  · refine sum_le_sum fun t ht => ?_
    obtain ⟨key, -, rfl⟩ := mem_map.mp (mem_filter.mp ht).1
    exact inp.total_spent hcode key

end ReconInput

/-! ### Two organizations -/

/-- An AI-credit line of a day in June 2026. -/
def creditLine (kind costType : String) (org : Option String) (nano : Int) : CostLine where
  lineId := ""
  sourceKind := kind
  dateUtc := 20605
  channel := copilotChannel
  workspaceId := org
  description := ""
  model := none
  costType := some costType
  tokenType := none
  sku := some "copilot_ai_credit"
  serviceTier := none
  inferenceGeo := none
  endpointScope := none
  amountNano := nano
  finality := "final"

/-- A report row of $1 without an organization, and $1 in the summaries of two organizations. -/
def twoOrgs : ReconInput where
  cat := ⟨fun sku => if sku = "copilot_ai_credit" then some ⟨"ai_credit.user", none⟩ else none, fun _ => false⟩
  lines := [creditLine reportKind "ai_credit.user" none (10 ^ 9),
    creditLine "github.usage_summary" summaryType (some "org-a") (10 ^ 9),
    creditLine "github.usage_summary" summaryType (some "org-b") (10 ^ 9)]
  coverage := []
  tol := 1 / 2
  today := 20700
  closedOnly := false
  lag := 3
  rounding := none

/-- The row without an organization explains a gap of $1 for each of two organizations. -/
theorem unattributed_twice : twoOrgs.unattributed (2026 * 12 + 5) .aiCredits = 10 ^ 9 ∧
    twoOrgs.totals.map (fun t => (t.key.scope, t.gap, t.parts, t.left)) =
      [(.org "org-a", 10 ^ 9, [("copilot_unattributed_org", 10 ^ 9)], 0),
        (.org "org-b", 10 ^ 9, [("copilot_unattributed_org", 10 ^ 9)], 0)] := by
  constructor <;> decide +kernel

end TokenBill.Copilot
