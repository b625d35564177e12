import TokenBill.Core.AsciiJson
import TokenBill.General.Apportion
import TokenBill.Outputs.Focus

/-!
# Splitting ledger rows over teams

`split_rows` of `finops/allocation.py`: a row whose team is the marker of a rule with a split becomes
one row for each target of the split, in proportion to the developer-days of the targets. Every amount
of the row is split by largest remainder on its own.
-/

namespace TokenBill.Finops

open General Focus JsonText List

/-! ### Rules -/

/-- A proportional split of the matched cost over teams; a rules file gives at least one. -/
structure Split where
  (method byWhat : String)
  targets : List String
  targets_ne : targets ≠ []

/-- What `split_rows` reads of a rule. -/
structure Rule where
  ruleId : String
  split : Option Split

/-- An ordered rule set and the digest of its canonical JSON. -/
structure RuleSet where
  rules : List Rule
  sha256 : String

/-- `RuleSet.rule(rule_id)` -/
def RuleSet.rule (rules : RuleSet) (ruleId : String) : Option Rule := rules.rules.find? (·.ruleId == ruleId)

def idChar (c : Char) : Bool := c.isAlphanum || c == '.' || c == '_' || c == '-'

/-- `split_marker(rule_id)` -/
def splitMarker (ruleId : String) : String := "(split:" ++ ruleId ++ ")"

/-- The rule id in a split marker (`_SPLIT_RE`). -/
def markerRule (team : String) : Option String :=
  let cs := team.toList
  let inner := (cs.drop 7).dropLast
  if cs.take 7 = "(split:".toList ∧ (cs.drop 7).getLast? = some ')' ∧ inner.all idChar ∧ inner ≠ [] ∧
      inner.length ≤ 64 then some (String.ofList inner)
  else none

/-- The split that owns a row, with its rule. -/
def splitOf (rules : RuleSet) (row : LedgerCostRow) : Option (Rule × Split) := do
  let rule ← rules.rule (← markerRule (row.team.getD ""))
  let split ← rule.split
  some (rule, split)

/-! ### Splitting -/

def devDays (weights : List (String × Int)) (split : Split) : List Int :=
  split.targets.map fun t => max ((weights.lookup t).getD 0) 0

/-- The weights of the targets: their developer-days, or equal ones where there are none. -/
def splitWeights (weights : List (String × Int)) (split : Split) : List Int :=
  if (devDays weights split).sum = 0 then split.targets.map fun _ => 1 else devDays weights split

/-- The members of a JSON object, in the order of their keys. -/
def asciiObject (members : List (String × List Char)) : List Char :=
  '\x7b' :: [','].intercalate ((members.insertionSort fun a b => a.1 ≤ b.1).map fun m =>
    asciiQuote m.1 ++ ':' :: m.2) ++ ['\x7d']

/-- The `AllocatedMethodDetails` of a split. -/
def methodDetails (rules : RuleSet) (rule : Rule) (split : Split) (weights : List (String × Int)) : String :=
  String.ofList (asciiObject [
    ("rule", asciiQuote rule.ruleId), ("method", asciiQuote split.method), ("by", asciiQuote split.byWhat),
    ("weights_basis", asciiQuote (if (devDays weights split).sum = 0 then "equal (no developer-days)" else "dev_days")),
    ("weights", asciiObject ((split.targets.zip (splitWeights weights split)).map fun t =>
      (t.1, (toString t.2).toList))),
    ("rule_set_sha256", asciiQuote rules.sha256)])

/-- The part of a row for the target at a place. -/
def partOf (rules : RuleSet) (weights : List (String × Int)) (row : LedgerCostRow) (rule : Rule) (split : Split)
    (team : String) (i : Nat) : LedgerCostRow :=
  let part (total : Int) : Int := ((apportion total (splitWeights weights split))[i]?).getD 0
  { row with
    team := some team
    quantity := part row.quantity
    pricedNano := part row.pricedNano
    estimatedLowNano := part row.estimatedLowNano
    estimatedHighNano := part row.estimatedHighNano
    methodId := some ("tokenbill.split." ++ split.method ++ "." ++ split.byWhat)
    methodDetails := some (methodDetails rules rule split weights) }

/-- The rows of one row. -/
def splitRow (rules : RuleSet) (weights : List (String × Int)) (row : LedgerCostRow) : List LedgerCostRow :=
  match splitOf rules row with
  | some (rule, split) => split.targets.zipIdx.map fun t => partOf rules weights row rule split t.1 t.2
  | none => [row]

/-- `split_rows(rows, rules, weights=weights)` -/
def splitRows (rows : List LedgerCostRow) (rules : RuleSet) (weights : List (String × Int)) : List LedgerCostRow :=
  rows.flatMap (splitRow rules weights)

def measures : List (LedgerCostRow → Int) :=
  [(·.quantity), (·.pricedNano), (·.estimatedLowNano), (·.estimatedHighNano)]

def rest (row : LedgerCostRow) : LedgerCostRow :=
  { row with team := none, quantity := 0, pricedNano := 0, estimatedLowNano := 0, estimatedHighNano := 0,
             methodId := none, methodDetails := none }

/-! ### What the parts are -/

theorem devDays_nonneg (weights : List (String × Int)) (split : Split) : ∀ w ∈ devDays weights split, 0 ≤ w := by
  intro w hw
  obtain ⟨t, -, rfl⟩ := mem_map.mp hw
  exact le_max_right _ _

@[simp] theorem length_splitWeights (weights : List (String × Int)) (split : Split) :
    (splitWeights weights split).length = split.targets.length := by
  unfold splitWeights devDays
  split_ifs <;> simp

theorem sum_splitWeights_pos (weights : List (String × Int)) (split : Split) : 0 < (splitWeights weights split).sum := by
  unfold splitWeights
  split_ifs with h
  · rw [map_const', sum_replicate, nsmul_eq_mul, mul_one]
    exact_mod_cast length_pos_iff.mpr split.targets_ne
  · exact lt_of_le_of_ne (sum_nonneg (devDays_nonneg weights split)) (Ne.symm h)

/-- Reading a list at the places of another of its length gives it back. -/
theorem map_getD_zipIdx {α : Type} (targets : List α) (parts : List Int) (h : parts.length = targets.length) :
    (targets.zipIdx.map fun t => (parts[t.2]?).getD 0) = parts := by
  refine ext_getElem (by simp [h]) fun i h1 h2 => ?_
  simp [h2]

theorem map_measure {rules : RuleSet} {weights : List (String × Int)} {row : LedgerCostRow} {rule : Rule} {split : Split}
    (h : splitOf rules row = some (rule, split)) {q : LedgerCostRow → Int} (hq : q ∈ measures) :
    (splitRow rules weights row).map q = apportion (q row) (splitWeights weights split) := by
  have hread := fun total => map_getD_zipIdx split.targets (apportion total (splitWeights weights split)) (by simp)
  unfold splitRow
  rw [h]
  rw [map_map]
  simp only [measures, mem_cons, not_mem_nil, or_false] at hq
  rcases hq with rfl | rfl | rfl | rfl <;> exact hread _

/-- The parts of a row: one for each target, the amounts of the row exactly, each its share rounded, and
everything else as in the row. -/
structure SplitInto (row : LedgerCostRow) (targets : List String) (weights : List Int) (parts : List LedgerCostRow) :
    Prop where
  teams : parts.map (·.team) = targets.map some
  sums : ∀ q ∈ measures, (parts.map q).sum = q row
  shares : ∀ q ∈ measures, List.Forall₂ (Rounded (q row) weights.sum) weights (parts.map q)
  others : ∀ part ∈ parts, rest part = rest row

/-- The rows of `split_rows` add up to the given ones in every amount, a row that no split owns is kept,
and any other is split into parts. -/
theorem split_rows_conserve (rows : List LedgerCostRow) (rules : RuleSet) (weights : List (String × Int)) :
    (∀ q ∈ measures, ((splitRows rows rules weights).map q).sum = (rows.map q).sum) ∧
    ∀ row ∈ rows, (splitOf rules row = none → splitRows [row] rules weights = [row]) ∧
      ∀ rule split, splitOf rules row = some (rule, split) →
        SplitInto row split.targets (splitWeights weights split) (splitRows [row] rules weights) := by
  have hone : ∀ row, splitRows [row] rules weights = splitRow rules weights row := fun row => by
    unfold splitRows
    rw [flatMap_cons, flatMap_nil, append_nil]
  have hsum : ∀ q ∈ measures, ∀ row, ((splitRow rules weights row).map q).sum = q row := fun q hq row => by
    cases h : splitOf rules row with
    | none =>
      unfold splitRow
      rw [h]
      exact sum_singleton
    | some owner =>
      rw [map_measure h hq, sum_apportion (sum_splitWeights_pos weights owner.2)]
  refine ⟨fun q hq => ?_, fun row _ => ⟨fun h => ?_, fun rule split h => ?_⟩⟩
  · induction rows with
    | nil => rfl
    | cons row rows ih =>
      unfold splitRows at ih ⊢
      rw [flatMap_cons, map_append, sum_append, hsum q hq, ih, map_cons, sum_cons]
  · rw [hone, splitRow, h]
  · rw [hone]
    constructor
    · unfold splitRow
      rw [h]
      dsimp only
      rw [map_map]
      conv_rhs => rw [← zipIdx_map_fst 0 split.targets, map_map]
      rfl
    · exact fun q hq => hsum q hq row
    · intro q hq
      rw [map_measure h hq]
      exact apportion_rounded (sum_splitWeights_pos weights split)
    · intro part hpart
      unfold splitRow at hpart
      rw [h] at hpart
      obtain ⟨t, -, rfl⟩ := mem_map.mp hpart
      rfl

/-! ### Three teams -/

def threeTeams : Split := ⟨"proportional", "dev_days", ["a", "b", "c"], by decide⟩

def sharedRules : RuleSet := ⟨[⟨"shared", some threeTeams⟩], "d"⟩

/-- A row of the rule, with its sum of exact lines and the bounds of its range lines. -/
def sharedRow (priced low high : Int) : LedgerCostRow where
  dateUtc := "2026-09-01"
  provider := "anthropic"
  channel := "anthropic_api"
  model := "claude-opus-5-5"
  bucket := "output"
  team := some (splitMarker "shared")
  costCenter := none
  project := none
  workspaceId := none
  laneKind := "main"
  workloadClass := "interactive"
  agentProduct := none
  billingPath := "api_key"
  quantity := 7
  pricedNano := priced
  estimatedLowNano := low
  estimatedHighNano := high
  basis := .list
  rateRowId := none
  nUsers := 9

/-- A row with exact lines only is split into rows whose amount is above their bounds, and a row with its
amount between its bounds may be split into one whose bounds have changed sides. -/
theorem split_rows_out_of_order :
    (∃ part ∈ splitRows [sharedRow 30 0 0] sharedRules [("a", 6), ("b", 6), ("c", 2)],
      part.estimatedHighNano < part.pricedNano) ∧
    ∃ part ∈ splitRows [sharedRow 10 10 11] sharedRules [("a", 6), ("b", 6), ("c", 2)],
      part.estimatedHighNano < part.estimatedLowNano := by
  decide

/-- The row of the tests, two parts of three for the first team. -/
theorem split_rows_conserve_three :
    SplitInto (sharedRow 1000000001 5 11) ["a", "b", "c"] [2, 1, 0]
      (splitRows [sharedRow 1000000001 5 11] sharedRules [("a", 2), ("b", 1)]) := by
  have hsplit : splitOf sharedRules (sharedRow 1000000001 5 11) =
      some (⟨"shared", some threeTeams⟩, threeTeams) := by
    have hmarker : markerRule (splitMarker "shared") = some "shared" := by decide
    unfold splitOf
    rw [show ((sharedRow 1000000001 5 11).team.getD "") = splitMarker "shared" from rfl, hmarker]
    rfl
  exact ((split_rows_conserve [sharedRow 1000000001 5 11] sharedRules [("a", 2), ("b", 1)]).2 _
    mem_cons_self).2 _ _ hsplit

end TokenBill.Finops
