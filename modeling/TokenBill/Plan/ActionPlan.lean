import TokenBill.Core.Labels
import TokenBill.Core.Money
import TokenBill.Core.Shapley
import TokenBill.General.Linking

/-!
# The action plan of a billing class

`plan/action_plan.py`: levers are chosen by their savings on a sample, grouped by the
lanes they touch, and given Shapley credits for the savings of their coalitions, scaled to
the saving of all of them replayed together. A replay runs each lane under the combination
of the policies that touch it, and the savings add.

The replayer, the combination of policies and the selectors are parameters; a planner
holds them for one billing class. Of the results, those of the joint levers are modelled,
without their monthly projections.
-/

namespace TokenBill.Plan

open General

/-! ### Levers and planners -/

/-- `LeverDef`, as far as the plan of a class reads it. -/
structure LeverDef where
  (leverId leverClass replay : String)
  (needsEval upperBound tradeoff : Bool)

/-- The mode of a replay. -/
inductive Mode where
  | documented | calibrated

/-- `ReplayResult`, as far as the plan reads it. -/
structure ReplayResult where
  saving : Figure
  addedCalls : Nat

/-- What the planner of a billing class is given. -/
structure Planner (Lane Policy : Type) where
  laneKey : Lane → String
  sessionKey : Lane → String
  /-- `touches(lever_selectors(ldef, policy), lane)`. -/
  touches : LeverDef → Policy → Lane → Bool
  /-- `_grid_policies`. -/
  gridPolicies : LeverDef → List Policy
  /-- The window of a policy's compaction window. -/
  compactionWindow : Policy → Option Nat
  /-- `to_spec`. -/
  toSpec : Policy → String
  /-- `core.policy.combine`. -/
  combine : Policy → Policy → Except Error Policy
  /-- `Replayer.replay`, with the rest of its arguments. -/
  replay : Mode → Policy → List Lane → Except Error ReplayResult
  mode : Mode
  cls : String
  basis : Basis
  includeTradeoffs : Bool
  minWindow : Nat
  maxExtra : ℚ
  /-- The orders a seeded generator shuffles for some players. -/
  shuffles : List String → List (List String)

/-- `_Member`: a lever at its chosen grid value. -/
structure Member (Policy : Type) where
  lever : LeverDef
  policy : Policy

/-- `lever_id`. -/
def Member.leverId {Policy : Type} (m : Member Policy) : String := m.lever.leverId

/-- `_Outcome`. -/
structure Outcome where
  saving : Figure
  (addedCalls touched : Nat)

/-! ### Sums of replay figures -/

/-- `_normalized_note`. -/
def normalizedNote (figs : List Figure) (total : Figure) : String :=
  let parts := ((figs.flatMap fun f => noteParts f.note).dedup).insertionSort (· ≤ ·)
  let unpriced := parts.filter fun p => startsWith p "unpriced:"
  let rest := parts.filter fun p => !startsWith p "unpriced:"
  if total.nano = none then
    let note := "; ".intercalate (unpriced ++ rest)
    if note = "" then "unpriced: replay" else note
  else "; ".intercalate (rest ++ unpriced)

/-- `_sum_figures`. -/
def sumFigures (figs : List Figure) (basis : Basis) : Except Error Figure :=
  match figs with
  | [] => ({ nano := some 0, evidence := .exact, basis } : FigureFields).build
  | f :: fs => do
    let total ← fs.foldlM add f
    ({ total.toFigureFields with note := normalizedNote figs total }).build

/-- `_combine_calibration` of the plan. -/
def combineCalibrations (values : List Calibration) : Calibration :=
  if .uncalibrated ∈ values then .uncalibrated
  else if .calibrated ∈ values then .calibrated
  else .na

/-- `_UNPRICED_REPLAY`. -/
def unpricedReplay : String :=
  "unpriced: a replay this lever depends on changes a request without a priced rate row (R2)"

/-- `_no_value`. -/
def noValue (reason : String) (basis : Basis) : Except Error Figure :=
  let note := if startsWith reason "unpriced:" then reason else "unpriced: " ++ reason
  ({ nano := none, evidence := .estimated, basis, note } : FigureFields).build

/-- `_estimate`. -/
def estimate (nano : Int) (basis : Basis) (calibration : Calibration) (upperBound : Bool)
    (note : String) : Except Error Figure :=
  ({ nano := some nano, evidence := .estimated, basis, calibration, upperBound, note } :
    FigureFields).build

/-- `round_half_even` of a fraction. -/
def roundHalfEven (q : ℚ) : Int := divHalfEven q.num q.den

namespace Planner

variable {Lane Policy : Type} (P : Planner Lane Policy)

/-! ### Replays -/

/-- `_touched`: the keys of the lanes a member touches. -/
def touched (lanes : List Lane) (m : Member Policy) : List String :=
  (lanes.filter (P.touches m.lever m.policy)).map P.laneKey

def indexOf (touchedBy : List (List String)) (key : String) : List Nat :=
  (touchedBy.zipIdx.filter fun t => decide (key ∈ t.1)).map (·.2)

def combineAll : List Policy → Except Error (Option Policy)
  | [] => pure none
  | p :: ps => some <$> ps.foldlM P.combine p

/-- The lanes of a partition, each under the combination of the same members. -/
def replayPart (mode : Mode) (members : List (Member Policy)) (idx : List Nat) (part : List Lane) :
    Except Error ReplayResult := do
  match ← P.combineAll (idx.filterMap fun i => (members[i]?).map (·.policy)) with
  | none => .error (.contract "reduce of an empty sequence")
  | some policy => P.replay mode policy (part.insertionSort fun a b => P.laneKey a ≤ P.laneKey b)

/-- `_replay_members`. -/
def replayMembers (mode : Mode) (lanes : List Lane) (members : List (Member Policy)) :
    Except Error Outcome := do
  let touchedBy := members.map (P.touched lanes)
  let index := fun lane => indexOf touchedBy (P.laneKey lane)
  let keys := (((lanes.map index).filter (· ≠ [])).dedup).insertionSort (· ≤ ·)
  let parts := keys.map fun idx => (idx, lanes.filter fun lane => decide (index lane = idx))
  let results ← parts.mapM fun part => P.replayPart mode members part.1 part.2
  let saving ← sumFigures (results.map (·.saving)) P.basis
  pure ⟨saving, (results.map (·.addedCalls)).sum, (parts.map (·.2.length)).sum⟩

/-- `_value`: a replay of members in the order of their levers. -/
def value (mode : Mode) (lanes : List Lane) (members : List (Member Policy)) : Except Error Outcome :=
  P.replayMembers mode lanes (members.insertionSort fun a b => a.leverId ≤ b.leverId)

/-! ### The choice of a grid value -/

/-- `_guard_ok`. -/
def guardOk (ldef : LeverDef) (policy : Policy) (outcome : Outcome) (lanes : List Lane) : Bool :=
  match P.compactionWindow policy with
  | some window =>
    if ldef.leverId ≠ "cc.autocompact_window" then true
    else
      let sessions := ((lanes.filter (P.touches ldef policy)).map P.sessionKey).dedup
      decide (P.minWindow ≤ window) && decide (sessions ≠ []) &&
        decide ((outcome.addedCalls : ℚ) / sessions.length ≤ P.maxExtra)
  | none => true

end Planner

/-- `_Chosen`: a lever at its chosen grid value. -/
structure Chosen (Policy : Type) where
  member : Member Policy
  documented : Outcome
  findingIds : List String

def Chosen.leverId {Policy : Type} (c : Chosen Policy) : String := c.member.leverId

namespace Planner

variable {Lane Policy : Type} (P : Planner Lane Policy)

/-- The better of the best grid value so far and another: the first of those that save the most. -/
def better (best : Option (Int × Chosen Policy)) (nano : Int) (chosen : Chosen Policy) :
    Option (Int × Chosen Policy) :=
  match best with
  | some (top, c) => if top < nano then some (nano, chosen) else some (top, c)
  | none => some (nano, chosen)

/-- `_choose`. -/
def choose (lanes : List Lane) (ldef : LeverDef) (findingIds : List String) :
    Except Error (Option (Chosen Policy)) := do
  let best ← (P.gridPolicies ldef).foldlM (fun best policy =>
    if !lanes.any (P.touches ldef policy) then pure best
    else do
      let outcome ← P.value .documented lanes [⟨ldef, policy⟩]
      match outcome.saving.nano with
      | none => pure best
      | some nano =>
        if nano ≤ 0 ∨ !P.guardOk ldef policy outcome lanes then pure best
        else pure (better best nano ⟨⟨ldef, policy⟩, outcome, findingIds⟩)) none
  pure (best.map (·.2))

/-- `CEILING_ONLY`. -/
def ceilingOnly : List String := ["cc.compact_on_resume"]

def replayed (lanes : List Lane) (ldef : LeverDef) : Bool :=
  decide (ldef.leverClass ≠ "behavioral") && decide (ldef.replay = "usage") && !lanes.isEmpty

def inJoint (c : Chosen Policy) : Bool :=
  !(decide (c.leverId ∈ ceilingOnly) || c.member.lever.tradeoff && !P.includeTradeoffs)

/-- The joint levers of the candidates, with the findings that name each. -/
def jointLevers (lanes : List Lane) (candidates : List LeverDef) (links : String → List String) :
    Except Error (List (Chosen Policy)) := do
  let chosen ← (candidates.filter (replayed lanes)).mapM fun ldef =>
    P.choose lanes ldef (links ldef.leverId)
  pure (chosen.reduceOption.filter P.inJoint)

/-! ### Groups and their credits -/

/-- The pairs `_groups` compares. -/
def pairs (n : Nat) : List (Nat × Nat) :=
  (List.range n).flatMap fun i => ((List.range n).filter (i < ·)).map (i, ·)

def related (touched : List (List String)) (i j : Nat) : Bool :=
  (touched.getD i []).any fun key => decide (key ∈ touched.getD j [])

/-- `_groups`: a label is the place of the first lever of a group, in the order of ids. -/
def groups (lanes : List Lane) (chosen : List (Chosen Policy)) : List (List (Chosen Policy)) :=
  let ordered := chosen.insertionSort fun a b => a.leverId ≤ b.leverId
  let touched := ordered.map fun c => P.touched lanes c.member
  classesOf (uniteRelated (related touched) (List.range ordered.length) (pairs ordered.length)) ordered

/-- `_Unpriced`, or an error of a replay. -/
inductive Stop where
  | unpriced
  | raised (e : Error)

def coalition (group : List (Chosen Policy)) (ids : Finset String) : List (Member Policy) :=
  (group.filter fun c => decide (c.leverId ∈ ids)).map (·.member)

/-- The value function of `_shapley`. -/
def coalitionValue (lanes : List Lane) (group : List (Chosen Policy)) (ids : Finset String) :
    Except Stop Int :=
  if ids = ∅ then .ok 0
  else
    match P.value P.mode lanes (coalition group ids) with
    | .error e => .error (.raised e)
    | .ok outcome =>
      match outcome.saving.nano with
      | none => .error .unpriced
      | some nano => .ok nano

/-- `MAX_EXACT_PLAYERS` of the plan. -/
def exactPlayers : Nat := 6

/-- `_shapley`: the credits of a group. -/
def groupCredits (lanes : List Lane) (group : List (Chosen Policy)) : Except Stop Credits :=
  let players := group.map Chosen.leverId
  if players.length ≤ exactPlayers then shapleyExact (P.coalitionValue lanes group) .raised players
  else shapleyMc (P.coalitionValue lanes group) .raised players (P.shuffles players)

/-- The coalitions `_shapley` asks for. -/
def asked (group : List (Chosen Policy)) : List (List String) :=
  let players := group.map Chosen.leverId
  let all := if players.length ≤ exactPlayers then players.sublists
    else (P.shuffles players).flatMap List.inits
  all.filter (· ≠ [])

end Planner

/-- What the plan of a class keeps of a group. -/
structure GroupPlan (Policy : Type) where
  gid : String
  levers : List (Chosen Policy)
  /-- `none` when a coalition is not priced. -/
  credits : Option Credits
  seen : List Outcome

namespace GroupPlan

variable {Policy : Type} (g : GroupPlan Policy)

def ids : List String := g.levers.map Chosen.leverId

def mc : Bool := decide (Planner.exactPlayers < g.levers.length)

/-- `methods`. -/
def method : String := if g.mc then "Monte Carlo, 200 permutations" else "exact"

/-- `uppers`. -/
def upper (c : Chosen Policy) : Bool :=
  c.member.lever.upperBound || g.seen.any fun o => o.saving.upperBound

end GroupPlan

/-! ### The plan -/

/-- `LeverResult`, without its projection. -/
structure LeverResult where
  (leverId leverClass params : String)
  basis : Basis
  (standalone shapley : Figure)
  (needsEval upperBound : Bool)
  group : String
  findingIds : List String

/-- `_ClassPlan`, with the results of the joint levers. -/
structure ClassPlan where
  results : List LeverResult
  joint : Option Figure
  groups : List (String × List String)
  mc : Bool

/-- Where the figures of a class are from: all its lanes, or a sample and the lanes of each shard. -/
structure Scope (Lane : Type) where
  sampleIsFull : Bool
  shards : List (List Lane)
  spendFactor : ℚ
  (nSample nFull : Nat)

/-- `scaled_note`. -/
def Scope.note {Lane : Type} (scope : Scope Lane) : String :=
  if scope.sampleIsFull then ""
  else "; sample-scaled (" ++ toString scope.nSample ++ "/" ++ toString scope.nFull ++ " lanes)"

/-- The scaled credits (`none` when they are not priced) and the factor of the standalone savings. -/
structure Scaling where
  credits : Option Credits
  factor : ℚ

def keyError (key : String) : Error := .contract ("KeyError: " ++ key)

namespace Planner

variable {Lane Policy : Type} (P : Planner Lane Policy)

/-- The plan of the group at a place. -/
def planGroup (lanes : List Lane) (item : List (Chosen Policy) × Nat) :
    Except Error (GroupPlan Policy) :=
  let gid := P.cls ++ ":g" ++ toString item.2
  match P.groupCredits lanes item.1 with
  | .error .unpriced => .ok ⟨gid, item.1, none, []⟩
  | .error (.raised e) => .error e
  | .ok credits => do
    let seen ← (P.asked item.1).mapM fun ids => P.value P.mode lanes (coalition item.1 ids.toFinset)
    pure ⟨gid, item.1, some credits, seen⟩

/-- `_joint`. -/
def jointFigure (scope : Scope Lane) (lanes : List Lane) (joint : List (Chosen Policy)) :
    Except Error Figure := do
  let members := joint.map (·.member)
  if scope.sampleIsFull then
    let outcome ← P.value P.mode lanes members
    pure outcome.saving
  else
    let outcomes ← (scope.shards.filter fun mine => !mine.isEmpty).mapM fun mine =>
      P.value P.mode mine members
    sumFigures ((outcomes.filter fun o => decide (0 < o.touched)).map (·.saving)) P.basis

def jointOf (scope : Scope Lane) (lanes : List Lane) (joint : List (Chosen Policy)) :
    Except Error (Option Figure) :=
  if joint.isEmpty then pure none else some <$> P.jointFigure scope lanes joint

/-- The credits of all groups, scaled to the joint saving. -/
def scaling (spendFactor : ℚ) (groups : List (GroupPlan Policy)) (joint : Option Figure) :
    Except Error Scaling :=
  match joint.map (·.nano), groups.mapM (·.credits) with
  | some (some nano), some credits => do
    let scaled ← scaleCredits credits.flatten nano
    let total := Credits.total credits.flatten
    pure ⟨some scaled, if total = 0 then spendFactor else (nano : ℚ) / total⟩
  | _, _ => pure ⟨none, spendFactor⟩

/-- `_standalone`. -/
def standalone (scope : Scope Lane) (lanes : List Lane) (c : Chosen Policy) (factor : ℚ) (upper : Bool) :
    Except Error Figure := do
  let outcome ← P.value P.mode lanes [c.member]
  match outcome.saving.nano with
  | none => noValue unpricedReplay P.basis
  | some saving =>
    let nano := if scope.sampleIsFull then saving else roundHalfEven (saving * factor)
    estimate nano P.basis outcome.saving.calibration upper
      ("standalone saving of this lever alone" ++ scope.note ++ "; never summed across levers")

/-- The Shapley figure of a lever. -/
def shapleyFigure (scope : Scope Lane) (g : GroupPlan Policy) (scaled : Option Credits)
    (cal : Calibration) (c : Chosen Policy) : Except Error Figure :=
  match scaled with
  | none => noValue unpricedReplay P.basis
  | some credits =>
    match credits.lookup c.leverId with
    | none => .error (keyError c.leverId)
    | some nano => estimate nano P.basis cal (g.upper c)
        ("Shapley credit (" ++ g.method ++ ") in group " ++ g.gid ++
          ", scaled to the full-scope joint replay" ++ scope.note)

/-- The result of a joint lever. -/
def result (scope : Scope Lane) (lanes : List Lane) (groups : List (GroupPlan Policy))
    (scaling : Scaling) (cal : Calibration) (c : Chosen Policy) : Except Error LeverResult :=
  match groups.find? fun g => decide (c.leverId ∈ g.ids) with
  | none => .error (keyError c.leverId)
  | some g => do
    let standalone ← P.standalone scope lanes c scaling.factor (g.upper c)
    let shapley ← P.shapleyFigure scope g scaling.credits cal c
    pure
      { leverId := c.leverId
        leverClass := c.member.lever.leverClass
        params := P.toSpec c.member.policy
        basis := P.basis
        standalone
        shapley
        needsEval := c.member.lever.needsEval
        upperBound := g.upper c
        group := g.gid
        findingIds := c.findingIds }

/-- `plan_class`. -/
def planClass (lanes : List Lane) (candidates : List LeverDef) (links : String → List String)
    (scope : Scope Lane) : Except Error ClassPlan := do
  let joint ← P.jointLevers lanes candidates links
  let groups ← ((P.groups lanes joint).zipIdx 1).mapM (P.planGroup lanes)
  let figure ← P.jointOf scope lanes joint
  let scaling ← scaling scope.spendFactor groups figure
  let cal := combineCalibrations <|
    (groups.flatMap fun g => g.seen.map (·.saving.calibration)) ++ figure.toList.map (·.calibration)
  let results ← joint.mapM (P.result scope lanes groups scaling cal)
  pure ⟨results, figure, groups.map fun g => (g.gid, g.ids), groups.any (·.mc)⟩


end Planner

end TokenBill.Plan
