import TokenBill.Core.Amounts
import TokenBill.Core.Records
import TokenBill.General.Tally
import Mathlib.Data.Prod.Lex

/-!
# The gate of a smoke test

`tokenbill/gate.py` judges the lanes of a recorded smoke test. The share of cache reads is that of the serving
inferences after the warm-up turns of each lane, to four places; the cost of a run is the sum of the exact costs
of its billable inferences, and the median of two is rounded half to even. What the detectors find and what an
inference costs are the host's.
-/

namespace TokenBill.Gate

open General

/-- The rules. -/
inductive Rule where
  | cacheShare | newBreaker | costRegression | churn
  deriving DecidableEq

/-- The families of rules, as `--fail-on` names them. -/
inductive Family where
  | breaker | regression | share
  deriving DecidableEq

/-- `_FAMILY`. -/
def Rule.family : Rule → Family
  | .cacheShare => .share
  | .newBreaker => .breaker
  | .churn => .breaker
  | .costRegression => .regression

/-- `CheckOptions`, as its constructor leaves it: no family in `failOn` stands for `any`. -/
structure CheckOptions where
  minCacheReadShare : ℚ
  afterTurn : Nat
  maxCostRegressionPct : ℚ
  minRuns : Nat
  failOn : Option Family
  share_mem : 0 ≤ minCacheReadShare ∧ minCacheReadShare ≤ 1
  pct_mem : 0 ≤ maxCostRegressionPct ∧ maxCostRegressionPct ≤ 1000000
  afterTurn_le : afterTurn ≤ 1000000
  minRuns_mem : 1 ≤ minRuns ∧ minRuns ≤ 1000000

/-- `Baseline`. -/
structure Baseline where
  breakerKinds : List String
  runs : Nat
  medianCostNano : Option Nat

/-- `churnKind`: an unchanged prefix is serialized differently between calls. -/
def churnKind : String := "serialization-churn"

inductive Level where
  | error | warning
  deriving DecidableEq

/-- A violation: its rule, its level, and the kind of a breaker. -/
structure CheckViolation where
  rule : Rule
  level : Level
  kind : Option String := none

/-- What the gate asks of the pricer and of the detectors. -/
structure Host where
  /-- The exact cost of an inference at a time. -/
  exactNano : Inference → Nat → Int
  /-- The kinds of the breakers that are found in some lanes. -/
  breakers : List Lane → List String

/-! ### The share of cache reads -/

/-- `_input_tokens`. -/
def inputTokens (usage : UsageCounts) : Nat × Nat :=
  (usage.cacheRead, usage.uncachedInput + usage.cacheRead + usage.cacheWrite5m + usage.cacheWrite1h +
    usage.cacheWriteOther + usage.cacheWriteUnknown)

/-- The tokens that a request counts with: those of its serving inference, unless it is not billable. -/
def servedTokens (req : Request) : Nat × Nat :=
  match req.servingInference with
  | none => (0, 0)
  | some inf => if inf.billable = some false then (0, 0) else inputTokens inf.usage.1

def warmed (afterTurn : Nat) (lanes : List Lane) : List Request := lanes.flatMap (·.requests.drop afterTurn)

/-- The share of reads in the input, in ten thousandths: a quotient of 28 digits to four places. -/
def shareOf (tokens : Nat × Nat) : Option Int :=
  if tokens.2 = 0 then none else quantize (toPrecision tokens.1 tokens.2) 4

/-- `_share`. -/
def share (lanes : List Lane) (afterTurn : Nat) : Option Int :=
  shareOf ((warmed afterTurn lanes).map servedTokens).sum

/-! ### The cost of a run -/

def requestCost (host : Host) (req : Request) : Int :=
  (req.attempts.flatMap fun att =>
    (att.inferences.filter (·.billable != some false)).map fun inf => host.exactNano inf att.tsStartMs).sum

/-- `_run_costs`: the cost of each session. -/
def runCosts (host : Host) (lanes : List Lane) : List (String × Int) :=
  tally (lanes.map fun lane => (lane.sessionKey, (lane.requests.map (requestCost host)).sum))

/-- `_median`. -/
def median (values : List Int) : Option Int :=
  let ordered := values.insertionSort (· ≤ ·)
  if ordered.length % 2 = 1 then ordered[ordered.length / 2]?
  else do
    let low ← ordered[ordered.length / 2 - 1]?
    let high ← ordered[ordered.length / 2]?
    return divHalfEven (low + high) 2

/-! ### The gate -/

def CheckOptions.fails (opts : CheckOptions) (family : Family) : Bool := opts.failOn.all (decide <| · = family)

def violate (opts : CheckOptions) (rule : Rule) (kind : Option String := none) : CheckViolation :=
  ⟨rule, if opts.fails rule.family then .error else .warning, kind⟩

/-- The first rule: the share of cache reads. -/
def checkShare (lanes : List Lane) (opts : CheckOptions) : List CheckViolation :=
  match share lanes opts.afterTurn with
  | none => [⟨.cacheShare, .warning, none⟩]
  | some share => if (share : ℚ) / 10 ^ 4 < opts.minCacheReadShare then [violate opts .cacheShare] else []

/-- The second and the fourth rule: new breakers and churn. -/
def checkBreakers (host : Host) (lanes : List Lane) (opts : CheckOptions) (baseline : Option Baseline) :
    List CheckViolation :=
  let kinds := (host.breakers lanes).dedup.insertionSort (· ≤ ·)
  let known := (baseline.map (·.breakerKinds)).getD []
  ((kinds.filter fun kind => decide (kind ∉ known ∧ kind ≠ churnKind)).map fun kind =>
    violate opts .newBreaker (some kind)) ++
    if churnKind ∈ kinds then [violate opts .churn] else []

def costLimit (opts : CheckOptions) (baseMedian : Nat) : ℚ := baseMedian * (1 + opts.maxCostRegressionPct / 100)

def runs (lanes : List Lane) : Nat := (lanes.map (·.sessionKey)).dedup.length

/-- The third rule: the median cost of a run. -/
def checkCost (host : Host) (lanes : List Lane) (opts : CheckOptions) (baseline : Option Baseline) :
    List CheckViolation :=
  match baseline with
  | none => []
  | some base =>
    match base.medianCostNano with
    | none => []
    | some baseMedian =>
      if runs lanes < opts.minRuns ∨ base.runs < opts.minRuns then [⟨.costRegression, .warning, none⟩]
      else
        match median ((runCosts host lanes).map (·.2)) with
        | none => []
        | some cost => if costLimit opts baseMedian < cost then [violate opts .costRegression] else []

/-- The violations of `run_check`. -/
def violations (host : Host) (lanes : List Lane) (opts : CheckOptions) (baseline : Option Baseline) :
    List CheckViolation :=
  checkShare lanes opts ++ checkBreakers host lanes opts baseline ++ checkCost host lanes opts baseline

def passed (host : Host) (lanes : List Lane) (opts : CheckOptions) (baseline : Option Baseline) : Bool :=
  (violations host lanes opts baseline).all fun v => decide (v.level ≠ .error)

end TokenBill.Gate
