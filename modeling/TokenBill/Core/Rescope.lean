import TokenBill.Core.Findings

/-!
# Re-scoping findings

`kanon.rescope_findings` of `core/kanon.py`: a finding of fewer than `k` users, or
of a person, walks up its chain of scopes and merges with the findings of the same
detector and kind that land on the same parent; a merge absorbs the published
finding at its scope or else the smallest published sibling. Copilot findings have
a chain of their own, and provider-side findings on an API key go to the scope
without the key.
-/

namespace TokenBill.Kanon

open General

/-! ### Chains -/

/-- `_KEY_DIMS`. -/
def keyDims : List String := ["api_key_id", "api_key"]

/-- `RESCOPE_LEVELS`: the dims kept at each level, finest first. -/
def rescopeLevels : List (List String) :=
  [["team", "cost_center", "lane_kind", "billing_class"], ["team", "cost_center", "billing_class"],
   ["cost_center", "billing_class"], ["billing_class"]]

/-- `COPILOT_ROOT_DIMS`. -/
def copilotRootDims : List String := ["product", "entity", "org", "plan_scenario", "billing_class"]

/-- `COPILOT_RESCOPE_LEVELS`. -/
def copilotRescopeLevels : List (List String) :=
  [["team", "bucket", "plan", "model", "cost_center"], ["bucket", "plan", "model", "cost_center"],
   ["plan", "model", "cost_center"], ["model", "cost_center"], ["cost_center"], []].map
    (copilotRootDims ++ ·)

/-- `ENTITY_EXEMPT_DIMS`. -/
def entityExemptDims : List String :=
  ["product", "entity", "org", "model", "sku", "plan_scenario"]

/-! ### What a finding is -/

/-- The kinds whose `COUNT_SOURCE` is `entity`. -/
def entityCounted : List (String × String) :=
  ["plan-status", "pool-regime", "overage-forecast", "promo-cliff", "budget-paid-usage-uncapped",
    "budget-stop-usage-off", "budget-ulb-gap", "budget-org-multi-org-seats",
    "budget-enterprise-misread", "dq.skipped-kinds"].map (("copilot.seats-budgets", ·)) ++
  ["forced-migration", "compliance-uplift", "review-cost", "review-default-balanced",
    "review-drivers", "direct-org-usage", "agentic-workflow-cost", "larger-runner",
    "cloud-agent-cost", "agent-failed-sessions", "unattributed-spend", "dq.skipped-kinds"].map
    (("copilot.org-scan", ·))

def scopeNames (scope : Scope) : List String := scope.map (·.1)

/-- `_is_product_scoped`. -/
def isProductScoped (scope : Scope) : Bool := decide ("product" ∈ scopeNames scope)

/-- `_exempt_at`: what the detector, the kind, the category and the scope make exempt from `k`. -/
def exemptAt (f : Finding) (scope : Scope) : Bool :=
  if f.category == .dataQuality || startsWith f.kind "dq." then true
  else if isProductScoped scope then
    entityCounted.any (fun e => decide (e = (f.detectorId, f.kind))) &&
      (scopeNames scope).all (· ∈ entityExemptDims)
  else f.category == .aggregate && !(scopeNames scope).any (· ∈ personDims ++ keyDims)

/-- `_exempt`. -/
def exempt (f : Finding) : Bool := exemptAt f f.scope

/-- `_P_RE`: `p_` and 20 hexadecimal digits. -/
def isPrincipalText (value : String) : Bool :=
  startsWith value "p_" && value.length == 22 &&
    (value.toList.drop 2).all fun c => c.isDigit || ('a' ≤ c && c ≤ 'f')

/-- `_check_budget_privacy`. -/
def checkBudgetPrivacy (f : Finding) : Except Error Unit :=
  if startsWith f.kind "budget-" && f.scope.any fun d => d.1 ∈ personDims || isPrincipalText d.2 then
    .error (.privacy (f.detectorId ++ "/" ++ f.kind ++ ": budget findings never name a person"))
  else pure ()

/-- `_needs_rescope`. -/
def needsRescope (f : Finding) (k : Nat) : Bool :=
  decide (f.nUsers < k) || (scopeNames f.scope).any (· ∈ personDims)

/-- `_parent_scope`. -/
def parentScope (scope : Scope) (keep : List String) : Scope :=
  sortScope (scope.filter fun d => decide (d.1 ∈ keep))

/-- `_aggregate_parent`. -/
def aggregateParent (scope : Scope) : Scope :=
  sortScope (scope.filter fun d => !decide (d.1 ∈ personDims) && !decide (d.1 ∈ keyDims))

/-! ### Merging -/

/-- `min(values, key=...)`: the first smallest one. -/
def minBy {α : Type} (rank : α → Nat) (first : α) (rest : List α) : α :=
  rest.foldl (fun m x => if rank x < rank m then x else m) first

/-- `_sum_opt`. -/
def sumOpt (figs : List (Option Figure)) : Except Error (Option Figure) := figs.foldlM addOpt none

/-- The evidence of the children, scrubbed, each item once. -/
def mergeEvidence (scrub : String → String) (children : List Finding) : List EvidenceItem :=
  (children.flatMap (·.evidence)).foldl (fun seen item =>
    let item := scrubEvidence scrub item
    if item ∈ seen then seen else seen ++ [item]) []

/-- `sorted(set(values))`. -/
def sortedSet (values : List String) : List String := values.dedup.insertionSort (· ≤ ·)

/-- `_merge_findings` of a first child and the others. -/
def mergeFindings (h : Hashes) (uni : Unicode) (first : Finding) (others : List Finding)
    (scope : Scope) (nUsers k : Nat) : Except Error Finding := do
  let children := first :: others
  let scrub := scrubber uni children scope
  let cost ← others.foldlM (fun cost c => add cost c.costObserved) first.costObserved
  let recoverable ← sumOpt (children.map (·.recoverable))
  let recoverableShapley ← sumOpt (children.map (·.recoverableShapley))
  let projectedMonthly ← sumOpt (children.map (·.projectedMonthly))
  let headroom ← sumOpt (children.map (·.headroom))
  let summary := scrub first.summary
  let summary :=
    if others ≠ [] ∨ scope ≠ first.scope then
      fitSummary uni ("[re-scoped for k-anonymity (k=" ++ toString k ++ "); " ++
        toString children.length ++ " finding(s) merged] ") summary
    else summary
  pure { first with
    findingId := findingId h first.detectorId first.kind scope
    scope
    nEvents := (children.map (·.nEvents)).sum
    nLanes := (children.map (·.nLanes)).sum
    nUsers
    firstSeenMs := (others.map (·.firstSeenMs)).foldl min first.firstSeenMs
    title := String.ofList ((scrub first.title).toList.take 120)
    summary
    costObserved := cost
    recoverable, recoverableShapley, projectedMonthly, headroom
    leverIds := sortedSet (children.flatMap (·.leverIds))
    evidence := (mergeEvidence scrub children).take 20
    fix := (children.findSome? (·.fix)).map fun fix => { fix with text := scrub fix.text }
    confidence := minBy Confidence.rank first.confidence (others.map (·.confidence))
    validatedAgainst := match (children.map (·.validatedAgainst)).dedup with
      | [only] => only.map scrub
      | _ => none
    needsEval := children.any (·.needsEval)
    references := sortedSet (children.flatMap (·.references)) }

/-- The order `_smallness` gives. -/
def smallnessLe (a b : Finding) : Prop :=
  toLex (a.nUsers, toLex (a.costObserved.nano.getD 0, a.findingId)) ≤
    toLex (b.nUsers, toLex (b.costObserved.nano.getD 0, b.findingId))

instance : DecidableRel smallnessLe := fun _ _ => inferInstanceAs (Decidable (toLex _ ≤ toLex _))

/-- The order `_sort_key` gives. -/
def findingLe (a b : Finding) : Prop :=
  let p50 (f : Finding) : Int := (f.recoverable.bind (·.nano)).getD 0
  toLex (-p50 a, toLex (a.detectorId, a.findingId)) ≤
    toLex (-p50 b, toLex (b.detectorId, b.findingId))

instance : DecidableRel findingLe := fun _ _ => inferInstanceAs (Decidable (toLex _ ≤ toLex _))

def findingIdLe (a b : Finding) : Prop := a.findingId ≤ b.findingId

instance : DecidableRel findingIdLe := fun _ _ => inferInstanceAs (Decidable (_ ≤ _))

/-- A group key: detector, kind and parent scope. -/
abbrev GroupKey : Type := String × String × Scope

def groupKeyLe (a b : GroupKey) : Prop :=
  toLex (a.1, toLex (a.2.1, a.2.2.map toLex)) ≤ toLex (b.1, toLex (b.2.1, b.2.2.map toLex))

instance : DecidableRel groupKeyLe := fun _ _ => inferInstanceAs (Decidable (toLex _ ≤ toLex _))

/-- `groups.setdefault(key(f), []).append(f)` over all findings, in the order of the keys. -/
def groupFindings (key : Finding → GroupKey) (fs : List Finding) :
    List (GroupKey × List Finding) :=
  ((fs.map key).dedup.insertionSort groupKeyLe).map fun g =>
    (g, fs.filter fun f => decide (key f = g))

/-! ### Re-scoping -/

/-- The published findings a merge absorbs: those at its scope, or else the smallest peer. -/
def absorbedPeers (sameScope peers : List Finding) : List Finding :=
  if sameScope ≠ [] then sameScope else (peers.insertionSort smallnessLe).take 1

/-- A merge of `children` with the findings it absorbs from `out`: what stays in `out`, the first
of the merged findings and the merge. -/
def absorb (h : Hashes) (uni : Unicode) (k : Nat) (out absorbed children : List Finding)
    (scope : Scope) (users : Finding → List Finding → Nat) :
    Except Error (List Finding × Finding × Finding) :=
  match (children ++ absorbed).insertionSort findingIdLe with
  | [] => .error (.contract "no findings to merge")
  | first :: others => do
    let merged ← mergeFindings h uni first others scope (users first others) k
    pure (out.filter (· ∉ absorbed), first, merged)

def maxUsers (first : Finding) (others : List Finding) : Nat :=
  (others.map (·.nUsers)).foldl max first.nUsers

def isSibling (key : GroupKey) (f : Finding) : Bool :=
  f.detectorId == key.1 && f.kind == key.2.1 && f.audience == .org

/-- The `peers` of a group: the published siblings of its chain under its parent. -/
def chainPeers (keep : List String) (copilot : Bool) (key : GroupKey) (out : List Finding) :
    List Finding :=
  out.filter fun f => isSibling key f && !exempt f && isProductScoped f.scope == copilot &&
    decide (parentScope f.scope keep = key.2.2)

/-- The `same_scope` of a group: the published siblings at its parent. -/
def samePeers (keep : List String) (copilot : Bool) (key : GroupKey) (out : List Finding) :
    List Finding :=
  let sameScope := (chainPeers keep copilot key out).filter fun f => decide (f.scope = key.2.2)
  if copilot && sameScope.isEmpty then
    out.filter fun f => isSibling key f && isProductScoped f.scope && decide (f.scope = key.2.2)
  else sameScope

/-- The user count of a merge at `parent`. -/
def mergedUsers (copilot : Bool) (count : Option (Finding → Scope → Nat)) (parent : Scope)
    (first : Finding) (others : List Finding) : Nat :=
  let n := match count with
    | some count => count first parent
    | none => maxUsers first others
  if copilot && exemptAt first parent then max n (maxUsers first others) else n

/-- One group of `_rescope_pending`. -/
def rescopeGroup (h : Hashes) (uni : Unicode) (k : Nat) (keep : List String) (copilot : Bool)
    (count : Option (Finding → Scope → Nat)) (state : List Finding × List Finding)
    (group : GroupKey × List Finding) : Except Error (List Finding × List Finding) := do
  let (out, pending) := state
  let (key, children) := group
  let parent := key.2.2
  let absorbed := absorbedPeers (samePeers keep copilot key out) (chainPeers keep copilot key out)
  let (out, first, merged) ←
    absorb h uni k out absorbed children parent (mergedUsers copilot count parent)
  if k ≤ merged.nUsers ∨ (copilot && exemptAt first parent) = true then
    pure (out ++ [merged], pending)
  else pure (out, pending ++ [merged])

/-- `_rescope_pending`: what is published and what stays below `k`. -/
def rescopePending (h : Hashes) (uni : Unicode) (k : Nat) (copilot : Bool)
    (count : Option (Finding → Scope → Nat)) : List (List String) → List Finding × List Finding →
    Except Error (List Finding × List Finding)
  | [], state => pure state
  | keep :: levels, (out, pending) => do
    let groups := groupFindings
      (fun f => (f.detectorId, f.kind, parentScope f.scope keep)) pending
    let state ← groups.foldlM (rescopeGroup h uni k keep copilot count) (out, [])
    rescopePending h uni k copilot count levels state

/-- The `peers` of a group of findings on API keys. -/
def keyPeers (key : GroupKey) (out : List Finding) : List Finding :=
  out.filter fun f => isSibling key f && !isProductScoped f.scope &&
    decide (aggregateParent f.scope = key.2.2)

/-- One group of provider-side findings on API keys. -/
def rescopeKeys (h : Hashes) (uni : Unicode) (k : Nat) (out : List Finding)
    (group : GroupKey × List Finding) : Except Error (List Finding) := do
  let (key, children) := group
  let peers := keyPeers key out
  let sameScope := peers.filter fun f => decide (f.scope = key.2.2)
  let (out, _, merged) ←
    absorb h uni k out (absorbedPeers sameScope peers) children key.2.2 maxUsers
  pure (out ++ [merged])

/-- Where `rescope_findings` puts a finding first. -/
inductive Route where
  /-- Published as it is. -/
  | out
  /-- To the scope without its API key. -/
  | keys
  /-- Up the chain. -/
  | chain
  /-- Up the Copilot chain. -/
  | copilot
  deriving DecidableEq

/-- The branches of the first loop of `rescope_findings`. -/
def route (k : Nat) (f : Finding) : Route :=
  if f.audience ≠ .org ∨ exempt f = true then .out
  else if isProductScoped f.scope then if needsRescope f k then .copilot else .out
  else if needsRescope f k then if f.category = .aggregate then .keys else .chain
  else .out

/-- `rescope_findings`: the published findings, and what was withheld. -/
def rescope (h : Hashes) (uni : Unicode) (findings : List Finding) (k : Nat)
    (count : Option (Finding → Scope → Nat)) : Except Error (List Finding × List Finding) := do
  findings.forM checkBudgetPrivacy
  let out := findings.filter fun f => decide (route k f = .out)
  let keyed := groupFindings (fun f => (f.detectorId, f.kind, aggregateParent f.scope))
    (findings.filter fun f => decide (route k f = .keys))
  let out ← keyed.foldlM (rescopeKeys h uni k) out
  let (out, withheld) ← rescopePending h uni k false count rescopeLevels
    (out, findings.filter fun f => decide (route k f = .chain))
  let (out, withheldCopilot) ← rescopePending h uni k true count copilotRescopeLevels
    (out, findings.filter fun f => decide (route k f = .copilot))
  pure (out.insertionSort findingLe, withheld ++ withheldCopilot)

/-- `rescope_findings`. -/
def rescopeFindings (h : Hashes) (uni : Unicode) (findings : List Finding) (k : Nat)
    (count : Option (Finding → Scope → Nat)) : Except Error (List Finding) :=
  if k < 1 then .error (.usage "k-anonymity threshold k must be an int >= 1")
  else (·.1) <$> rescope h uni findings k count

end TokenBill.Kanon
