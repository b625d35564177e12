import TokenBill.Core.Encode
import TokenBill.Core.Findings
import TokenBill.Copilot.Budgets
import TokenBill.General.Grouping
import TokenBill.General.Tally

/-!
# Team labels of a handoff bundle

`_k_merge_teams` of `copilot/handoff.py`: before a bundle is written, a team of fewer than `k`
people becomes "(other)" in every record. Aggregates that named one are summed under a new id,
and outcomes that now share a key are added. The records are those `_collect` leaves, one for each
natural key.
-/

namespace TokenBill.Copilot.Handoff

open General

/-! ### Records -/

/-- `LicenseSnapshot`. -/
structure LicenseSnapshot where
  snapshotDate : Nat
  (product plan : String)
  principal : Principal
  (team costCenter org seatCreated pendingCancellation : Option String)
  lastActivityBucket : String
  lastActivitySurface : Option String
  lastAuthenticatedBucket : String
  assignedViaTeam : Option Bool
  fetchedMs : Nat := 0
  sourceKind : String := "github.copilot_seats"
  deriving DecidableEq

/-- `ActivityDay`. -/
structure ActivityDay where
  dateUtc : Nat
  product : String
  principal : Principal
  (team costCenter : Option String)
  reportedCostNano : Option Int
  counts : List (String × Nat)
  flags : List String
  fetchedMs : Nat := 0
  sourceKind : String := "github.copilot_metrics"
  deriving DecidableEq

/-- `_Records`. -/
structure Records where
  costLines : List CostLine := []
  aggregates : List UsageAggregate := []
  outcomes : List OutcomeAggregate := []
  licenses : List LicenseSnapshot := []
  activity : List ActivityDay := []
  config : List ConfigSnapshot := []
  deriving DecidableEq

/-- `COUNT_CONFIG_KINDS`. -/
def countConfigKinds : List String := ["seat_counts", "activity_counts", "plan_quota"]

/-- `_COUNT_ATTRS`. -/
def countAttrs : List String := ["n", "n_people", "n_users"]

/-- `_key_part` of a string: the separator is escaped. -/
def escapePart (s : String) : String :=
  String.ofList (s.toList.flatMap fun c =>
    if c = '\\' then ['\\', '\\'] else if c = '\x1f' then ['\\', 'x', '1', 'f'] else [c])

/-- `_key_part` of an attribute. -/
def keyPart : AttrValue → String
  | .null => ""
  | .bool true => "true"
  | .bool false => "false"
  | .int n => toString n
  | .str s => escapePart s

/-- `record_key` of a configuration. -/
def configKey (c : ConfigSnapshot) : String :=
  let attrs := if c.kind ∈ countConfigKinds then
      (c.attrs.filter fun a => decide (a.1 ∉ countAttrs)).map fun a => a.1 ++ "=" ++ keyPart a.2
    else []
  "\x1f".intercalate ([c.kind, escapePart c.entityId, isoDate (c.snapshotMs / 86400000)] ++ attrs)

/-- `record_key` of a licence. -/
def licenseKey (l : LicenseSnapshot) : String :=
  "\x1f".intercalate [isoDate l.snapshotDate, escapePart l.product, l.principal.text, escapePart (l.org.getD "")]

/-- `record_key` of an activity. -/
def activityKey (a : ActivityDay) : String :=
  "\x1f".intercalate [isoDate a.dateUtc, escapePart a.product, a.principal.text]

/-- `_outcome_key`. A date has ten characters, so the first separator ends it. -/
def outcomeKey (o : OutcomeAggregate) : Nat × String := (o.dateUtc, o.team ++ "\x1f" ++ o.sourceKind)

/-! ### Small teams -/

/-- `OTHER_TEAM`. -/
def otherTeam : String := "(other)"

/-- `_team_of_attrs`. -/
def teamOfAttrs (attrs : List (String × AttrValue)) : Option String :=
  match attrs.reverse.lookup "team" with
  | some (.str v) => some v
  | _ => none

def teamDims (a : UsageAggregate) : List String := (a.dims.filter fun d => decide (d.1 = "team")).map (·.2)

/-- `people[team]`: the distinct people over licences, activity and cost lines. -/
def people (recs : Records) (team : String) : List Principal :=
  ((recs.licenses.filter fun l => decide (l.team = some team)).map (·.principal) ++
    (recs.activity.filter fun a => decide (a.team = some team)).map (·.principal) ++
    (recs.costLines.filter fun c => decide (c.team = some team)).filterMap (·.principal)).dedup

/-- `labels`: the teams of all records. -/
def labels (recs : Records) : List String :=
  recs.licenses.filterMap (·.team) ++ recs.activity.filterMap (·.team) ++ recs.costLines.filterMap (·.team) ++
    recs.aggregates.flatMap teamDims ++ recs.config.filterMap (fun c => teamOfAttrs c.attrs) ++
    recs.outcomes.map (·.team)

/-- `t.startswith("(") and t.endswith(")")`. -/
def isBracketed (t : String) : Bool := t.toList.head? = some '(' && t.toList.getLast? = some ')'

/-- `outcome_ok`: an outcome of the team has `k` users. -/
def outcomeOk (k : Nat) (recs : Records) (t : String) : Bool :=
  recs.outcomes.any fun o => o.team = t && decide (k ≤ o.nUsers)

/-- `small`: the teams that are merged. -/
def smallTeams (k : Nat) (recs : Records) : List String :=
  (labels recs).filter fun t =>
    decide (t ≠ otherTeam) && decide ((people recs t).length < k) && !outcomeOk k recs t && !isBracketed t

/-! ### Aggregates -/

/-- `_sum_opt`. -/
def sumOpt (a b : Option Int) : Option Int :=
  match a, b with
  | none, b => b
  | some a, none => some a
  | some a, some b => some (a + b)

/-- What the aggregates of a group share. -/
structure AggKey where
  sourceKind : String
  (bucketStartMs bucketEndMs : Nat)
  dims : List (String × String)
  basis : Option String
  finality : String
  (listMissing reportedMissing : Bool)
  deriving DecidableEq

/-- The key of an aggregate in `_merge_aggregates`. -/
def aggKey (a : UsageAggregate) : AggKey :=
  ⟨a.sourceKind, a.bucketStartMs, a.bucketEndMs, a.dims, a.reportedCostBasis, a.finality,
   a.listCostNano.isNone, a.reportedCostNano.isNone⟩

def idParts (a : UsageAggregate) : List String :=
  [a.sourceKind, "team-merged", toString a.bucketStartMs, toString a.bucketEndMs] ++
    a.dims.map (fun d => d.1 ++ "=" ++ d.2) ++ [a.reportedCostBasis.getD "", a.finality]

def mergedId (h : Hashes) (a : UsageAggregate) : String := h.stableId "ag" (idParts a)

/-- The aggregate of a group. -/
def mergeGroup (h : Hashes) (first : UsageAggregate) (rest : List UsageAggregate) :
    Except Error UsageAggregate := do
  let usage ← rest.foldlM (fun usage a => usage.add a.usage) first.usage
  pure { first with
    aggId := mergedId h first
    usage := usage
    reportedCostNano := rest.foldl (fun sum a => sumOpt sum a.reportedCostNano) first.reportedCostNano
    listCostNano := rest.foldl (fun sum a => sumOpt sum a.listCostNano) first.listCostNano
    fetchedMs := (rest.map (·.fetchedMs)).foldl max first.fetchedMs }

/-- `_merge_aggregates`. -/
def mergeAggregates (h : Hashes) (aggs : List UsageAggregate) (changed : List String) :
    Except Error (List UsageAggregate) := do
  let kept := aggs.filter fun a => decide (a.aggId ∉ changed)
  let merged ← (groupsOf aggKey (aggs.filter fun a => decide (a.aggId ∈ changed))).mapM fun g =>
    mergeGroup h g.2.1 g.2.2
  pure ((kept ++ merged).insertionSort fun a b => a.aggId ≤ b.aggId)

/-! ### Outcomes -/

/-- The counts of an outcome. -/
def outcomeCounts (o : OutcomeAggregate) : List (String × Nat) :=
  [("n_users", o.nUsers), ("sessions", o.sessions), ("commits", o.commits), ("pull_requests", o.pullRequests),
   ("lines_added", o.linesAdded), ("lines_removed", o.linesRemoved), ("edits_accepted", o.editsAccepted),
   ("edits_rejected", o.editsRejected)]

/-- The counts `OutcomeAggregate.__post_init__` checks. -/
def checkOutcome (o : OutcomeAggregate) : Except Error OutcomeAggregate :=
  match (outcomeCounts o).find? fun c => decide (maxTokens < c.2) with
  | some c => .error (fail "OutcomeAggregate" c.1 "must be an int in [0, 2**53]")
  | none =>
    if o.extra.any fun e => decide (maxTokens < e.2) then
      .error (fail "OutcomeAggregate" "extra" "counts must be ints in [0, 2**53]")
    else .ok o

/-- The outcome of a group of `_merge_outcomes`. -/
def mergeOutcome (first : OutcomeAggregate) (rest : List OutcomeAggregate) : Except Error OutcomeAggregate :=
  if rest = [] then .ok first
  else
    let items := first :: rest
    checkOutcome { first with
      nUsers := (items.map (·.nUsers)).sum
      sessions := (items.map (·.sessions)).sum
      commits := (items.map (·.commits)).sum
      pullRequests := (items.map (·.pullRequests)).sum
      linesAdded := (items.map (·.linesAdded)).sum
      linesRemoved := (items.map (·.linesRemoved)).sum
      editsAccepted := (items.map (·.editsAccepted)).sum
      editsRejected := (items.map (·.editsRejected)).sum
      extra := (tally (items.flatMap (·.extra))).insertionSort fun a b => a.1 ≤ b.1 }

/-- `_merge_outcomes`. -/
def mergeOutcomes (outs : List OutcomeAggregate) : Except Error (List OutcomeAggregate) :=
  (groupsOf outcomeKey outs).mapM fun g => mergeOutcome g.2.1 g.2.2

/-! ### Relabelling -/

/-- `relabel`. -/
def relabel (small : List String) (t : String) : String := if t ∈ small then otherTeam else t

def relabelTeam (small : List String) (team : Option String) : Option String := team.map (relabel small)

def relabelLine (small : List String) (c : CostLine) : CostLine := { c with team := relabelTeam small c.team }

def relabelLicense (small : List String) (l : LicenseSnapshot) : LicenseSnapshot :=
  { l with team := relabelTeam small l.team }

def relabelActivity (small : List String) (a : ActivityDay) : ActivityDay :=
  { a with team := relabelTeam small a.team }

def relabelAgg (small : List String) (a : UsageAggregate) : UsageAggregate :=
  { a with dims := a.dims.map fun d => (d.1, if d.1 = "team" then relabel small d.2 else d.2) }

/-- `relabel` of an attribute: only a text is one of the small teams. -/
def relabelAttr (small : List String) : AttrValue → AttrValue
  | .str v => .str (relabel small v)
  | v => v

/-- A configuration relabelled, if its team is one of the small ones. -/
def relabelConfig (small : List String) (c : ConfigSnapshot) : ConfigSnapshot :=
  if (teamOfAttrs c.attrs).any fun t => decide (t ∈ small) then
    { c with attrs := c.attrs.map fun a => (a.1, if a.1 = "team" then relabelAttr small a.2 else a.2) }
  else c

def relabelOutcome (small : List String) (o : OutcomeAggregate) : OutcomeAggregate :=
  { o with team := relabel small o.team }

def isMoved (small : List String) (a : UsageAggregate) : Bool := (teamDims a).any fun t => decide (t ∈ small)

/-- `_k_merge_teams`: the records afterwards, and the merged labels. -/
def kMergeTeams (h : Hashes) (k : Nat) (recs : Records) : Except Error (Records × List String) := do
  let small := smallTeams k recs
  if small = [] then pure (recs, small)
  else do
    let changed := (recs.aggregates.filter (isMoved small)).map (·.aggId)
    let aggregates ← mergeAggregates h (recs.aggregates.map (relabelAgg small)) changed
    let outcomes ← mergeOutcomes (recs.outcomes.map (relabelOutcome small))
    pure ({ costLines := recs.costLines.map (relabelLine small)
            licenses := recs.licenses.map (relabelLicense small)
            activity := recs.activity.map (relabelActivity small)
            config := recs.config.map (relabelConfig small)
            aggregates, outcomes }, small)

end TokenBill.Copilot.Handoff
