import TokenBill.Store.Ingest

/-!
# Aggregates for publication

`SqliteStore.aggregate` of `store/db.py`: the billable inferences of a window, filtered
and grouped by whitelisted dimensions, each group with its users, requests, usage and
priced total at the stored prices or at those of a given pricer. The result must pass
`kanon.publish`.
-/

namespace TokenBill.Store

open General Kanon

/-! ### Dimensions -/

/-- `AGG_DIMS`. -/
def aggDims : List String :=
  ["date", "team", "cost_center", "workspace_id", "workload_class", "lane_kind", "model",
   "agent_type", "agent_product", "repo", "arm", "wave", "skill", "mcp_server", "billing_path",
   "channel"]

/-- `WHERE_KEYS`. -/
def whereKeys : List String := aggDims ++ ["billing_class", "provider", "project"]

def billingClassText : BillingClass → String
  | .billed => "billed" | .allowance => "allowance" | .pool => "pool"

/-- `_INF_DIM_SQL`: the value of a dimension, `NULL` as `none`. -/
def infDim (i : DayItem) (dim : String) : Option String :=
  let a := i.row.request.attribution
  let pricing := i.inference.inference.pricing
  match dim with
  | "date" => some (isoDate (dayOf i.inference.tsMs))
  | "team" => a.team
  | "cost_center" => a.costCenter
  | "project" => a.project
  | "workspace_id" => a.workspaceId
  | "workload_class" => some a.workloadClass.value
  | "lane_kind" => some i.laneKind.value
  | "model" => if pricing.model = "" then none else some pricing.model
  | "agent_type" => a.agentType
  | "agent_product" => a.agentProduct
  | "repo" => a.repo
  | "arm" => a.arm
  | "wave" => a.wave
  | "skill" => a.skill
  | "mcp_server" => a.mcpServer
  | "billing_path" => some pricing.billingPath
  | "channel" => some pricing.channel
  | "provider" => some pricing.provider
  | "billing_class" => some (billingClassText (billingClass (some pricing.billingPath)))
  | _ => none

/-- The names of a list that are in `vocabulary`, sorted. -/
def sortedNames (names : List String) (wanted : String → Bool) : List String :=
  ((names.filter wanted).dedup).insertionSort (· ≤ ·)

/-- The check of the group-by dimensions. -/
def checkGroupBy (groupBy : List String) : Except Error Unit :=
  match sortedNames groupBy (· ∈ personDims), groupBy.filter (· ∉ aggDims) with
  | [], [] => pure ()
  | [], unknown => .error (.usage ("unknown group-by dimension(s): " ++ ", ".intercalate unknown))
  | person, _ => .error (.privacy ("group by " ++ ", ".intercalate person ++ " is not allowed"))

/-- `_check_where`. -/
def checkWhere (clause : List (String × String)) : Except Error Unit :=
  let keys := clause.map (·.1)
  match sortedNames keys (· ∈ personDims), sortedNames keys (· ∉ whereKeys) with
  | [], [] => pure ()
  | [], unknown => .error (.usage ("unknown filter key(s): " ++ ", ".intercalate unknown))
  | person, _ => .error (.privacy ("filtering by " ++ ", ".intercalate person ++ " is not allowed"))

/-- `_filter_sql`: the empty value selects the missing ones. -/
def matchesClause (clause : List (String × String)) (i : DayItem) : Bool :=
  clause.all fun c => decide (infDim i c.1 = if c.2 = "" then none else some c.2)

/-! ### Totals -/

/-- A list-equivalent sum of `_Total`: its number, point and range, and whether all are exact. -/
structure Slot where
  n : Nat := 0
  point : Int := 0
  low : Int := 0
  high : Int := 0
  allExact : Bool := true

/-- `_Total`. -/
structure Total where
  exact : Int := 0
  estPoint : Int := 0
  estLow : Int := 0
  estHigh : Int := 0
  est : Bool := false
  priced : Nat := 0
  unpriced : Nat := 0
  unpricedTokens : Nat := 0
  allTokens : Nat := 0
  allow : Slot := {}
  pool : Slot := {}
  shas : List String := []

/-- One list-equivalent price in its slot. -/
def Slot.add (s : Slot) (priced : Int) (p : PricedColumns) : Slot :=
  let ranged := p.evidence = some .estimated
  { n := s.n + 1
    point := s.point + priced
    low := s.low + if ranged then p.exactNano + p.estLowNano else priced
    high := s.high + if ranged then p.exactNano + p.estHighNano else priced
    allExact := s.allExact && decide (p.evidence = some .exact) }

/-- `_Total.add`. -/
def Total.add (t : Total) (tokens : Nat) (billingPath : String) (p : PricedColumns) : Total :=
  let t := { t with allTokens := t.allTokens + tokens, shas := t.shas ++ p.rateCardSha.toList }
  match p.pricedNano with
  | none => { t with unpriced := t.unpriced + 1, unpricedTokens := t.unpricedTokens + tokens }
  | some priced =>
    let t := { t with priced := t.priced + 1 }
    if p.basis = some .listEquivalent then
      if billingPath ∈ copilotBillingPaths then { t with pool := t.pool.add priced p }
      else { t with allow := t.allow.add priced p }
    else
      let t := { t with exact := t.exact + p.exactNano }
      if p.evidence = some .estimated then
        { t with
          est := true
          estPoint := t.estPoint + p.estNano
          estLow := t.estLow + p.estLowNano
          estHigh := t.estHigh + p.estHighNano }
      else t

/-- An estimated figure of `_Total`. -/
def rangeFigure (nano low high : Int) (basis : Basis) : Except Error Figure :=
  FigureFields.build { nano := some nano, evidence := .estimated, basis := basis
                       lowNano := some low, highNano := some high, note := "range lines" }

/-- `_Total._le`. -/
def Slot.figure (s : Slot) : Except Error (Option Figure) :=
  if s.n = 0 then pure none
  else if s.allExact then pure (some (exactFigure s.point .listEquivalent))
  else some <$> rangeFigure s.point s.low s.high .listEquivalent

/-- `_Total.total`. -/
def Total.total (t : Total) (billedBasis : Basis) : Except Error PricedTotal := do
  let estimated ← if t.est then some <$> rangeFigure t.estPoint t.estLow t.estHigh billedBasis
    else pure none
  let allowance ← t.allow.figure
  let pool ← t.pool.figure
  pure { exact := exactFigure t.exact billedBasis
         estimated, allowance
         pricedInferences := t.priced
         unpricedInferences := t.unpriced
         unpricedTokens := t.unpricedTokens
         coverage := coverage ((t.allTokens : Int) - t.unpricedTokens) t.allTokens
         pool }

/-- `_usage_sum`: the shortest other-write TTL, and reasoning only where every row has it. -/
def usageSum (rows : List UsageBuckets) : Except Error UsageBuckets :=
  let sum (get : UsageCounts → Nat) : Nat := (rows.map fun u => get u.toUsageCounts).sum
  UsageCounts.build
    { uncachedInput := sum (·.uncachedInput)
      cacheRead := sum (·.cacheRead)
      cacheWrite5m := sum (·.cacheWrite5m)
      cacheWrite1h := sum (·.cacheWrite1h)
      cacheWriteOther := sum (·.cacheWriteOther)
      cacheWriteOtherTtlS := (rows.filterMap (·.cacheWriteOtherTtlS)).min?
      cacheWriteUnknown := sum (·.cacheWriteUnknown)
      output := sum (·.output)
      outputReasoning :=
        if rows ≠ [] ∧ rows.all (·.outputReasoning.isSome) then
          some ((rows.filterMap (·.outputReasoning)).sum)
        else none
      webSearchRequests := sum (·.webSearchRequests)
      webFetchRequests := sum (·.webFetchRequests) }

/-! ### Aggregation -/

/-- `_billed_basis`: the basis of money priced under these rate cards. -/
def billedBasis (s : SqliteStore) (shas : List String) : Basis :=
  let bases := shas.map fun sha =>
    ((s.mem.basisSeen.lookup sha).or (s.db.info.rateCardBasis.lookup sha)).getD .list
  if bases ≠ [] ∧ bases.all (· = .contract) then .contract else .list

def pricerBasis (p : Pricer) : Basis :=
  if p.basis = .list ∨ p.basis = .contract then p.basis else .list

/-- The billable inferences of a window that match a filter. -/
def aggItems (db : Db) (since until_ : Int) (clause : List (String × String)) : List DayItem :=
  (dayItems ((db.requests.filter fun r =>
      decide (since ≤ r.request.tsStartMs ∧ (r.request.tsStartMs : Int) < until_)).map fun r =>
    (r, db.laneKind r.request.laneKey))).filter (matchesClause clause)

def dimsOf (groupBy : List String) (i : DayItem) : Dims := groupBy.map fun d => (d, infDim i d)

/-- `_group_sort_key`. -/
def groupSortKey (dims : Dims) : List (Bool ×ₗ String) :=
  dims.map fun d => toLex (d.2.isNone, d.2.getD "")

/-- The prices of an inference: the stored ones, or those of a given pricer. -/
def pricesOf (pricer : Option Pricer) (i : InferenceRow) : PricedColumns :=
  match pricer with
  | none => i.priced
  | some p => pricedTuple (p.priceInference i.inference i.tsMs) (some p.rateCardSha256)

def totalOf (pricer : Option Pricer) (cell : List DayItem) : Total :=
  cell.foldl (fun t i => t.add (tokens i.inference.inference.usage)
    i.inference.inference.pricing.billingPath (pricesOf pricer i.inference)) {}

/-- The row of a group. -/
def aggRow (s : SqliteStore) (pricer : Option Pricer) (dims : Dims) (cell : List DayItem) :
    Except Error AggRow := do
  let total := totalOf pricer cell
  let basis := match pricer with
    | some p => pricerBasis p
    | none => billedBasis s total.shas
  let usage ← usageSum (cell.map (·.inference.inference.usage))
  let priced ← total.total basis
  pure { dims
         nUsers := (cell.filterMap (·.row.principal)).dedup.length
         nRequests := (cell.map (·.row.requestId)).dedup.length
         usage, priced }

/-- `aggregate`. -/
def aggregate (s : SqliteStore) (since until_ : Int) (groupBy : List String)
    (clause : List (String × String)) (pricer : Option Pricer) : Except Error RawAggregate := do
  checkGroupBy groupBy
  checkWhere clause
  let items := aggItems s.db since until_ clause
  let keys := ((items.map (dimsOf groupBy)).dedup).insertionSort
    fun a b => groupSortKey a ≤ groupSortKey b
  let rows ← keys.mapM fun key =>
    aggRow s pricer key (items.filter fun i => decide (dimsOf groupBy i = key))
  pure { groupBy, rows, window := (since, until_) }

end TokenBill.Store
