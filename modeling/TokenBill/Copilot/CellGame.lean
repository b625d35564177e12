import TokenBill.Core.Findings
import TokenBill.Core.Money
import TokenBill.Core.Shapley
import TokenBill.General.Tally

/-!
# The cell game of the Copilot plan

`copilot/plan.py`: the levers of a Copilot plan are players. A coalition transforms the
cells of the month, which scales the consumption of the pools, and its value is what the
invoice loses, its headroom what the pools take. Both are played in every state of the
uncertain dimensions, the credits are Shapley credits, and a figure is the envelope of its
values over the states.

The prices, the reach of teams, the savings of runner lines and the players that the
findings are linked to are given. The caches are left out: each is keyed by everything its
value depends on. So are the notes of the figures.
-/

namespace TokenBill.CellGame

open General

/-! ### Cells and prices -/

/-- `_round`, of a fraction. -/
def round (x : ℚ) : Int := divHalfEven x.num x.den

/-- `core.pool.Cell`, as far as the plan reads it. `credits` is the value of its decimal. -/
structure Cell where
  entityId : String
  team : Option String := none
  sku : String := ""
  costType : String
  model : String := ""
  routing : String := "unknown"
  speed : String := "standard"
  pseudo : Option String := none
  workload : Option String := none
  usage : UsageCounts := {}
  credits : ℚ
  netNano : Int

/-- `UnitRates`. -/
structure UnitRates where
  scaleExp : Nat
  (uncached cacheRead cacheWrite5m cacheWrite1h cacheWriteOther output webSearchNano : Int)

/-- `scaled_to_nano`. -/
def scaledToNano (amount : Int) (scaleExp : Nat) : Int :=
  if scaleExp ≤ 9 then amount * 10 ^ (9 - scaleExp) else divHalfEven amount (10 ^ (scaleExp - 9))

/-- The rate and the tokens of each of `_PRICE_BUCKETS`; unknown writes have the rate of five minutes. -/
def UnitRates.buckets (rates : UnitRates) (usage : UsageCounts) : List (Int × Nat) :=
  [(rates.uncached, usage.uncachedInput), (rates.cacheRead, usage.cacheRead),
    (rates.cacheWrite5m, usage.cacheWrite5m), (rates.cacheWrite1h, usage.cacheWrite1h),
    (rates.cacheWriteOther, usage.cacheWriteOther), (rates.cacheWrite5m, usage.cacheWriteUnknown),
    (rates.output, usage.output)]

/-- `_tokens_nano`. -/
def tokensNano (rates : UnitRates) (usage : UsageCounts) (band : ℚ) : Int :=
  ((rates.buckets usage).map fun (rate, tokens) =>
    scaledToNano (round (tokens * band) * rate) rates.scaleExp).sum +
      usage.webSearchRequests * rates.webSearchNano

/-- The high value of `TOKENIZER_BAND`. -/
def bandHigh : ℚ := 27 / 20

/-- `_credits_nano`: credits at $0.01. -/
def creditsNano (credits : ℚ) : Int := round (credits * 10 ^ 7)

/-! ### Units -/

/-- What the cells of a `_Unit` have in common. -/
structure UnitKey where
  entity : String
  pooled : Bool
  team : Option String
  /-- Cloud-agent cells: reach 1. -/
  cloud : Bool
  /-- Eligible for the Auto default. -/
  auto : Bool
  /-- The source model of a priced remap pair. -/
  remapModel : Option String
  /-- A priced fast-mode cell. -/
  fast : Bool
  deriving DecidableEq

/-- The sums of a `_Unit`. -/
@[ext] structure UnitSums where
  /-- Credits in nano-USD. -/
  value : Int
  /-- The price at the source over the price at the target, at the band's point. -/
  dRemap : Int
  /-- The same at the band's high. -/
  dRemapHi : Int
  /-- The fast price over the standard price. -/
  dFast : Int
  net : Int
  gross : Int

namespace UnitSums

instance : Zero UnitSums := ⟨⟨0, 0, 0, 0, 0, 0⟩⟩

instance : Add UnitSums := ⟨fun a b => ⟨a.value + b.value, a.dRemap + b.dRemap, a.dRemapHi + b.dRemapHi,
  a.dFast + b.dFast, a.net + b.net, a.gross + b.gross⟩⟩

instance : AddCommMonoid UnitSums where
  add_assoc a b c := by ext <;> exact Int.add_assoc _ _ _
  zero_add a := by ext <;> exact Int.zero_add _
  add_zero a := by ext <;> exact Int.add_zero _
  add_comm a b := by ext <;> exact Int.add_comm _ _
  nsmul := nsmulRec

/-- The value of a sum. -/
def valueHom : UnitSums →+ Int where
  toFun := value
  map_zero' := rfl
  map_add' _ _ := rfl

/-- The gross of a sum. -/
def grossHom : UnitSums →+ Int where
  toFun := gross
  map_zero' := rfl
  map_add' _ _ := rfl

def credit (s : UnitSums) : UnitSums := { s with net := 0, gross := 0 }

end UnitSums

/-- `_Unit`. -/
abbrev Unit : Type := UnitKey × UnitSums

/-- The text a unit is sorted by: no value comes first. -/
def orderText : Option String → String
  | none => "0"
  | some s => "1" ++ s

def UnitKey.order (k : UnitKey) : List String :=
  let flag (b : Bool) : Option String := some (if b then "True" else "False")
  [some k.entity, flag k.pooled, k.team, flag k.cloud, flag k.auto, k.remapModel, flag k.fast].map orderText

/-! ### Entities -/

/-- `PoolMonth`, as far as the plan reads it. -/
structure PoolMonth where
  (poolNano consumedReportNano : Int)
  cappedPolicy : Option String := none
  finality : String := "closed"
  forecast : Option Figure := none

/-- The level of consumption. -/
inductive Level where
  | low | point | high
  deriving DecidableEq

/-- The consumption at each level. -/
structure Levels where
  (low point high : Int)

def Levels.at (l : Levels) : Level → Int
  | .low => l.low | .point => l.point | .high => l.high

def Levels.vary (l : Levels) : Bool := decide (l.low ≠ l.point ∨ l.high ≠ l.point)

/-- `_levels`. -/
def levels (pm : PoolMonth) (forecast : Bool) : Levels :=
  let reported : Levels := ⟨pm.consumedReportNano, pm.consumedReportNano, pm.consumedReportNano⟩
  match pm.forecast with
  | none => reported
  | some f =>
    match f.nano with
    | none => reported
    | some nano =>
      if forecast ∧ pm.finality = "open" then ⟨f.lowNano.getD nano, nano, f.highNano.getD nano⟩ else reported

/-- `_billing_groups`: the group of an entity among all. -/
def billingGroup (names : List String) (name : String) : String :=
  let orgs := names.filter (startsWith · "org:")
  if name = "enterprise" ∨ startsWith name "org:" then name
  else if "enterprise" ∈ names then "enterprise"
  else match orgs with
    | [org] => org
    | _ => name

/-- `_Ent`. -/
structure Ent where
  poolNano : Int
  levels : Levels
  group : String
  cap : Option Int
  policy : Option String

def Ent.capUnknown (e : Ent) : Bool :=
  e.cap.isSome && decide (e.policy ≠ some "block" ∧ e.policy ≠ some "continue")

/-! ### Players and states -/

/-- The kind of a player. -/
inductive Kind where
  | auto | remap | fast | seats | runner
  deriving DecidableEq

/-- `_Player`. -/
structure Player where
  (pid leverId : String)
  leverClass : LeverClass
  kind : Kind
  remapModel : Option String := none
  /-- What it adds to the pool of an entity. -/
  dpool : List (String × Int) := []
  /-- What it takes from the fees. -/
  feeSaving : Int := 0

/-- The resolution of unknown cap policies. -/
inductive CapPolicy where
  | block | cont
  deriving DecidableEq

def CapPolicy.text : CapPolicy → String
  | block => "block" | cont => "continue"

/-- `_State`. -/
structure State where
  level : Level := .point
  cap : CapPolicy := .cont
  /-- Unknown reach at 1. -/
  reachHigh : Bool := false
  bandHigh : Bool := false
  runnerHigh : Bool := false
  deriving DecidableEq

/-- `MAX_EXACT_PLAYERS` of the plan. -/
def exactPlayers : Nat := 6

/-! ### The game -/

/-- What a game is built of: the context of a plan, its prices and its players. -/
structure Game where
  /-- The cells of the month. -/
  cells : List Cell
  /-- The pool months of the entities with a known regime, by entity. -/
  pools : List (String × PoolMonth)
  excluded : List String := []
  forecast : Bool := false
  /-- `_Pricing.rates`, of a model, speed and routing, pooled or direct, on the dates of a cell. -/
  rates : String → String → String → Bool → Cell → Option UnitRates := fun _ _ _ _ _ => none
  /-- The target of each remapped model, and whether the tokenizer is the same. -/
  remapTargets : List (String × String × Bool) := []
  /-- The low and the high saving of each runner line. -/
  runnerLines : List (Int × Int) := []
  autoDiscount : ℚ := 1 / 10
  /-- The reach of a team, where it is known. -/
  reach : Option String → Option ℚ := fun _ => none
  autoScale : Option String → ℚ := fun _ => 1
  players : List Player
  /-- Players are a dictionary by their ids. -/
  distinct : (players.map (·.pid)).Nodup
  /-- Behavioral levers do not play. -/
  played : ∀ p ∈ players, p.leverClass = .rate ∨ p.leverClass = .cacheTransform ∨
    p.leverClass = .trajectory
  /-- The orders the seeded generator shuffles the players into. -/
  shuffles : List (List String)
  shuffles_ne : shuffles ≠ []
  shuffles_perm : ∀ order ∈ shuffles, order.Perm (players.map (·.pid))

namespace Game

variable (g : Game)

/-! ### Cells to units -/

/-- The unit a cell is added to, and what it adds. -/
def unitOf (cell : Cell) : Option Unit :=
  if cell.costType ≠ "ai_credit.user" ∧ cell.costType ≠ "ai_credit.direct" then none
  else
    let pooled := decide (cell.costType = "ai_credit.user")
    if cell.entityId ∈ g.excluded ∧ pooled then none
    else if cell.entityId ∉ g.pools.map (·.1) ∧ cell.entityId ∉ g.excluded then none
    else
      let value := creditsNano cell.credits
      let routing := if cell.routing = "auto" then "auto" else "direct"
      let named := decide (cell.model ≠ "" ∧ cell.pseudo = none)
      let own := g.rates cell.model cell.speed routing pooled cell
      let (dRemap, dRemapHi, remapModel) :=
        match if named then g.remapTargets.lookup cell.model else none with
        | none => (0, 0, none)
        | some (target, same) =>
          match own, g.rates target "standard" routing pooled cell with
          | some own, some tgt =>
            let base := tokensNano own cell.usage 1
            let point := base - tokensNano tgt cell.usage 1
            let high := base - tokensNano tgt cell.usage CellGame.bandHigh
            (point, if same then point else high, some cell.model)
          | _, _ => (0, 0, none)
      let (dFast, fast) :=
        if cell.speed = "fast" ∧ named then
          match own, g.rates cell.model "standard" routing pooled cell with
          | some own, some std => (tokensNano own cell.usage 1 - tokensNano std cell.usage 1, true)
          | _, _ => (0, false)
        else (0, false)
      let cloud := decide (cell.pseudo = some "cloud_agent" ∨ cell.workload = some "copilot_cloud_agent" ∨
        cell.sku = "coding_agent_ai_credit")
      let auto := decide (cell.routing = "direct" ∧ cell.pseudo ≠ some "code_review")
      some (⟨cell.entityId, pooled, cell.team, cloud, auto, remapModel, fast⟩,
        ⟨value, dRemap, dRemapHi, dFast, cell.netNano, value⟩)

/-- `_units`. -/
def units : List Unit :=
  (tally (g.cells.filterMap g.unitOf)).insertionSort fun a b => a.1.order ≤ b.1.order

/-! ### Evaluation units -/

/-- `_auto_factor`: what is left of a unit under the Auto default, at the point and the high reach. -/
def autoFactor (u : UnitKey) : ℚ × ℚ :=
  let reach := if u.cloud then some 1 else g.reach u.team
  let scale := g.autoScale u.team
  (1 - g.autoDiscount * reach.getD 0 * scale, 1 - g.autoDiscount * reach.getD 1 * scale)

/-- What every transform of a unit reads. A remap model is never empty. -/
structure EvalKey where
  entity : String
  remapModel : Option String
  (fast auto : Bool)
  factor : ℚ × ℚ
  deriving DecidableEq

def evalKey (u : UnitKey) : EvalKey := ⟨u.entity, u.remapModel, u.fast, u.auto, g.autoFactor u⟩

/-- The pooled units, merged across teams when every transform treats them alike. -/
def pooledUnits : List (EvalKey × UnitSums) :=
  tally ((g.units.filter (·.1.pooled)).map fun u => (g.evalKey u.1, u.2.credit))

def directUnits : List (EvalKey × UnitSums) :=
  (g.units.filter fun u => !u.1.pooled).map fun u => (g.evalKey u.1, u.2)

/-- `pooled0`: the value of the pooled units of an entity. -/
def pooled0 (name : String) : Int :=
  ((g.units.filter fun u => u.1.pooled && decide (u.1.entity = name)).map (·.2.value)).sum

/-! ### Entities and groups -/

/-- The entities, in the order of their names. -/
def ents : List (String × Ent) :=
  let sorted := g.pools.insertionSort fun a b => a.1 ≤ b.1
  let names := sorted.map (·.1)
  sorted.map fun (name, pm) => (name,
    { poolNano := pm.poolNano
      levels := CellGame.levels pm g.forecast
      group := billingGroup names name
      cap := pm.cappedPolicy.map fun _ => pm.poolNano
      policy := pm.cappedPolicy })

/-- `groups`: the entities of each billing group. -/
def groups : List (List (String × Ent)) :=
  (((g.ents.map (·.2.group)).dedup).insertionSort (· ≤ ·)).map fun group =>
    g.ents.filter fun e => decide (e.2.group = group)

/-! ### Transformed cells -/

/-- What a coalition does to the cells. -/
structure Transform where
  remaps : List (Option String)
  (fast auto : Bool)

def active (coalition : Finset String) : List Player :=
  (g.players.insertionSort fun p q => p.pid ≤ q.pid).filter fun p => decide (p.pid ∈ coalition)

/-- The transform of active players. -/
def transform (active : List Player) : Transform where
  remaps := (active.filter fun p => decide (p.kind = .remap)).map (·.remapModel)
  fast := active.any fun p => decide (p.kind = .fast)
  auto := active.any fun p => decide (p.kind = .auto)

/-- The value of a unit after a transform. -/
def transformed (t : Transform) (st : State) (u : EvalKey × UnitSums) : ℚ :=
  let v :=
    if u.1.remapModel ≠ none ∧ u.1.remapModel ∈ t.remaps then
      u.2.value - if st.bandHigh then u.2.dRemapHi else u.2.dRemap
    else if t.fast ∧ u.1.fast then u.2.value - u.2.dFast
    else u.2.value
  let val : ℚ := (max v 0 : Int)
  if t.auto ∧ u.1.auto then val * if st.reachHigh then u.1.factor.2 else u.1.factor.1 else val

def pooledValue (t : Transform) (st : State) (name : String) : ℚ :=
  ((g.pooledUnits.filter fun u => decide (u.1.entity = name)).map (transformed t st)).sum

def directInvoice (t : Transform) (st : State) (u : EvalKey × UnitSums) : ℚ :=
  let saved := u.2.value - transformed t st u
  if 0 < u.2.gross then saved * u.2.net / u.2.gross else saved

def directDiscount (t : Transform) (st : State) (u : EvalKey × UnitSums) : ℚ :=
  let saved := u.2.value - transformed t st u
  if 0 < u.2.gross then saved * (u.2.gross - u.2.net : Int) / u.2.gross else 0

/-! ### Overage -/

def ccKey (name : String) : String :=
  "cc:" ++ if startsWith name "cc:" then String.ofList (name.toList.drop 3) else name

def byCostCenter {α : Type} (table : List (String × α)) : List (String × α) :=
  table.foldl (fun t e => upsert (·.1) (ccKey e.1, e.2) t) []

def uncapped (caps : List (String × Int)) (names : List String) : List String :=
  (names.filter fun name => decide (name ∉ caps.map (·.1))).dedup

/-- `overage_total`. -/
def overageTotal (consumption pools capped : List (String × Int)) (policies : List (String × String)) :
    Except Error (Int × Int) :=
  let caps := byCostCenter capped
  let policies := byCostCenter policies
  let policy cc := (policies.lookup cc).getD "unknown"
  let use name := (consumption.lookup name).getD 0
  let above (c : String × Int) := max 0 (use c.1 - c.2)
  let low := ((caps.filter fun c => decide (policy c.1 = "continue")).map above).sum
  let high := ((caps.filter fun c => decide (policy c.1 ≠ "block")).map above).sum
  let draws := (caps.map fun c => min (use c.1) c.2).sum
  let rest := uncapped caps (consumption.map (·.1) ++ pools.map (·.1))
  if 1 < rest.length ∧ caps = [] then
    let own := (rest.map fun name => max 0 (use name - (pools.lookup name).getD 0)).sum
    .ok (low + own, high + own)
  else if 1 < rest.length then
    .error (.usage "overage_total: capped cost centers need a single parent pool entity")
  else
    let remainder := max 0 ((rest.map use).sum + draws - (pools.map (·.2)).sum)
    .ok (low + remainder, high + remainder)

def capsOf (members : List (String × Ent)) : List (String × Int) :=
  members.filterMap fun (name, e) => e.cap.map (name, ·)

/-- Their policies, the unknown ones resolved. -/
def policiesOf (members : List (String × Ent)) (cap : CapPolicy) : List (String × String) :=
  (members.filter (·.2.cap.isSome)).map fun (name, e) =>
    (name, match e.policy with
      | some policy => if policy ∈ ["block", "continue"] then policy else cap.text
      | none => cap.text)

/-- `_overage`. -/
def overage (members : List (String × Ent)) (consumption pools : String × Ent → Int) (cap : CapPolicy) :
    Except Error Int :=
  (·.1) <$> overageTotal (members.map fun m => (m.1, consumption m)) (members.map fun m => (m.1, pools m))
    (capsOf members) (policiesOf members cap)

/-! ### Coalitions -/

/-- The consumption of an entity scaled by what a transform leaves of its cells. -/
def scaledLevel (t : Transform) (st : State) (m : String × Ent) : Int :=
  let level := m.2.levels.at st.level
  if 0 < g.pooled0 m.1 then round (level * g.pooledValue t st m.1 / g.pooled0 m.1) else level

def grownPool (active : List Player) (m : String × Ent) : Int :=
  max 0 (m.2.poolNano +
    (active.flatMap fun p => (p.dpool.filter fun d => decide (d.1 = m.1)).map (·.2)).sum)

/-- What a coalition changes in a billing group: the overage, and the headroom of the pools. -/
def groupChange (active : List Player) (st : State) (members : List (String × Ent)) :
    Except Error (Int × Int) := do
  let before := fun m : String × Ent => m.2.levels.at st.level
  let after := g.scaledLevel (transform active) st
  let pool := fun m : String × Ent => m.2.poolNano
  let grown := grownPool active
  let ov00 ← overage members before pool st.cap
  let ovSS ← overage members after grown st.cap
  let ov0S ← overage members before grown st.cap
  pure (ov00 - ovSS, (members.map fun m => before m - after m).sum - (ov0S - ovSS))

/-- `evaluate`: the value and the headroom of a coalition in a state. -/
def evaluate (coalition : Finset String) (st : State) : Except Error (Int × Int) := do
  let active := g.active coalition
  let t := transform active
  let runners := active.countP fun p => decide (p.kind = .runner)
  let runner := runners * (g.runnerLines.map fun l => if st.runnerHigh then l.2 else l.1).sum
  let changes ← g.groups.mapM (g.groupChange active st)
  let value : ℚ := ((active.map (·.feeSaving)).sum + runner : Int) +
    (g.directUnits.map (directInvoice t st)).sum + (changes.map (·.1)).sum
  let headroom : ℚ := (g.directUnits.map (directDiscount t st)).sum + (changes.map (·.2)).sum
  pure (round value, round headroom)

/-! ### Credits -/

def pids : List String := g.players.map (·.pid)

/-- `everyone`. -/
def everyone : Finset String := g.pids.toFinset

/-- `_shapley`. -/
def shapley (fn : Finset String → Except Error Int) : Except Error Credits :=
  if g.pids.length ≤ exactPlayers then shapleyExact fn id g.pids else shapleyMc fn id g.pids g.shuffles

def valueIn (st : State) (coalition : Finset String) : Except Error Int :=
  (·.1) <$> g.evaluate coalition st

def headroomIn (st : State) (coalition : Finset String) : Except Error Int :=
  (·.2) <$> g.evaluate coalition st

/-! ### States -/

/-- The values of a dimension: its point alone, unless it varies. -/
def dimension {α : Type} (varies : Bool) (point : α) (others : List α) : List α :=
  point :: if varies then others else []

/-- `_states`: the states of the dimensions that vary, the point state first. -/
def states : List State := do
  let plays (kind : Kind) := g.players.any fun p => decide (p.kind = kind)
  let remaps := (g.players.filter fun p => decide (p.kind = .remap)).map (·.remapModel)
  let level ← dimension (g.ents.any (·.2.levels.vary)) .point [.low, .high]
  let cap ← dimension (g.ents.any (·.2.capUnknown)) .cont [.block]
  let reachHigh ← dimension (plays .auto && g.units.any fun u =>
    u.1.auto && decide ((g.autoFactor u.1).1 ≠ (g.autoFactor u.1).2)) false [true]
  let bandHigh ← dimension (g.units.any fun u =>
    decide (u.1.remapModel ∈ remaps ∧ u.2.dRemap ≠ u.2.dRemapHi)) false [true]
  let runnerHigh ← dimension (plays .runner && g.runnerLines.any fun l => decide (l.1 ≠ l.2)) false [true]
  [{ level, cap, reachHigh, bandHigh, runnerHigh }]

end Game

/-! ### Figures -/

/-- `_Triple`. -/
structure Triple where
  (point low high : Int)

def Triple.Ordered (t : Triple) : Prop := t.low ≤ t.point ∧ t.point ≤ t.high

def spread (point : Int) (values : List Int) : Triple := ⟨point, values.min?.getD 0, values.max?.getD 0⟩

/-- `_envelope`: the values over states, around the value of the point state. -/
def envelope (values : List (State × Int)) : Triple :=
  spread ((values.lookup {}).getD 0) (values.map (·.2))

/-- `RR_PRIORS`, of the classes it has. -/
def rrPriors : LeverClass → Option (ℚ × ℚ × ℚ)
  | .rate => some (1, 1, 1)
  | .cacheTransform => some (8 / 10, 9 / 10, 1)
  | .trajectory => some (-2 / 10, 5 / 10, 1)
  | _ => none

/-- `_project`. -/
def project (t : Triple) (cls : LeverClass) : Except Error Triple :=
  match rrPriors cls with
  | none => .error (.usage "plan_copilot: lever class is never projected")
  | some (p10, p50, p90) =>
    let point := round (t.point * p50)
    .ok (spread point
      [round (t.low * p10), round (t.low * p90), round (t.high * p10), round (t.high * p90), point])

/-- The triples of a `LeverResult`. -/
structure LeverTriples where
  pid : String
  basis : Basis
  (standalone shapley projected : Triple)

/-- The triples of an `ActionPlan`. -/
structure PlanTriples where
  (joint headline poolHeadroom : Triple)
  levers : List LeverTriples

def PlanTriples.all (plan : PlanTriples) : List Triple :=
  plan.joint :: plan.headline :: plan.poolHeadroom ::
    plan.levers.flatMap fun r => [r.standalone, r.shapley, r.projected]

def sumTriples (ts : List Triple) : Triple :=
  ⟨(ts.map (·.point)).sum, (ts.map (·.low)).sum, (ts.map (·.high)).sum⟩

/-- `_CREDIT_KINDS`. -/
def creditKinds : List Kind := [.auto, .remap, .fast]

/-- `_empty_plan`, of no players. -/
def emptyPlan : PlanTriples := ⟨⟨0, 0, 0⟩, ⟨0, 0, 0⟩, ⟨0, 0, 0⟩, []⟩

namespace Game

variable (g : Game)

def overStates {α : Type} (f : State → Except Error α) : Except Error (List (State × α)) :=
  g.states.mapM fun st => (st, ·) <$> f st

def creditsOf (phi : List (State × Credits)) (p : Player) : Triple :=
  envelope (phi.map fun (st, credits) => (st, (credits.lookup p.pid).getD 0))

/-- The results of a player in one of the two games. -/
def leverTriples (values : State → Finset String → Except Error Int) (phi : List (State × Credits))
    (basis : Basis) (p : Player) : Except Error LeverTriples := do
  let standalone ← envelope <$> g.overStates fun st => values st {p.pid}
  let shapley := creditsOf phi p
  let projected ← project shapley p.leverClass
  pure ⟨p.pid, basis, standalone, shapley, projected⟩

/-- `_assemble`, of players in the order of their levers and ids, and the empty plan of no players. -/
def assemble : Except Error PlanTriples := do
  if g.players = [] then return emptyPlan
  let phi ← g.overStates fun st => g.shapley (g.valueIn st)
  let phiH ← g.overStates fun st => g.shapley (g.headroomIn st)
  let joint ← envelope <$> g.overStates fun st => g.valueIn st g.everyone
  let jointH ← envelope <$> g.overStates fun st => g.headroomIn st g.everyone
  let results ← g.players.mapM (g.leverTriples g.valueIn phi .list)
  let heads ← g.players.mapM (g.leverTriples g.headroomIn phiH .listEquivalent)
  let alone ← g.players.mapM fun p => g.overStates fun st => g.headroomIn st {p.pid}
  let headroomGame := g.players.any (decide <| ·.kind ∈ creditKinds) ||
    alone.any (·.any fun v => decide (v.2 ≠ 0)) ||
    phiH.any fun v => v.2.any fun c => decide (c.2 ≠ 0)
  let headResults := if headroomGame then heads else []
  pure
    { joint
      headline := sumTriples (results.map (·.projected))
      poolHeadroom := if headroomGame then sumTriples (heads.map (·.projected)) else jointH
      levers := results ++ headResults }

end Game

end TokenBill.CellGame
