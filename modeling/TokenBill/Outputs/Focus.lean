import TokenBill.Core.Amounts
import TokenBill.Core.Textsafe
import TokenBill.General.Grouping
import TokenBill.Recon.Residuals
import TokenBill.Verify.Panel

/-!
# The FOCUS export

`write_focus` of `outputs/focus.py`: the ledger's cost rows are summed for each charge identity
and allocation, the allocations of an identity go through `publish`, the ones it does not show are
merged into one row, and each remaining row is written with its FOCUS and custom columns. What
the running Python knows of dates, decimals and letter case is a parameter, and so are the columns
FOCUS defines. The file is its table of cells, before `csv` quotes them.
-/

namespace TokenBill.Focus

open General Kanon

/-! ### Records -/

/-- The errors an export can end with. -/
inductive FocusError where
  /-- An error of `core/errors.py` that other modules raise too. -/
  | core (e : Error)
  /-- `GateFailed`. -/
  | gateFailed (msg : String)
  /-- An exception of Python itself, by its name. -/
  | python (name : String)

/-- A `datetime.date`. -/
structure Date where
  (year month day : Nat)

/-- What the running Python reads and writes. -/
structure Python where
  /-- `date.fromisoformat`, nothing where it raises. -/
  fromisoformat : String → Option Date
  /-- `Decimal(text)`: nothing where it raises, no value where it is not finite. -/
  decimal : String → Option (Option ℚ)
  /-- `str.title`. -/
  title : String → String

/-- What `core.facts` says of FOCUS. -/
structure FocusSpec where
  columns : List String
  serviceCategoryAi : String

/-- `LedgerCostRow`, with the two attributes the export reads if they are there. -/
structure LedgerCostRow where
  (dateUtc provider channel model bucket : String)
  (team costCenter project workspaceId : Option String)
  (laneKind workloadClass : String)
  agentProduct : Option String
  billingPath : String
  (quantity pricedNano estimatedLowNano estimatedHighNano : Int)
  basis : Basis
  rateRowId : Option String
  nUsers : Int
  methodId : Option String := none
  methodDetails : Option String := none
  deriving DecidableEq

/-- `_FOCUS_X_COLUMN_RE` and `_FOCUS_COLUMN_RE`: a capital, then letters and digits. -/
def columnOk (name : String) : Bool :=
  let pascal : List Char → Nat → Bool := fun cs limit =>
    match cs with
    | [] => false
    | c :: cs => c.isUpper && cs.all Char.isAlphanum && 1 ≤ cs.length && cs.length ≤ limit
  match name.toList with
  | 'x' :: '_' :: cs => pascal cs 48
  | cs => pascal cs 63

/-- `FocusRow`: a formatted row of a channel's extension. -/
structure FocusRow where
  columns : List (String × String)
  channel : String
  reconciled : Bool
  valid : ∀ c ∈ columns, columnOk c.1

/-- The value of a basis. -/
def basisValue : Basis → String
  | .list => "list"
  | .contract => "contract"
  | .invoice => "invoice"
  | .listEquivalent => "list_equivalent"
  | .providerEstimate => "provider_estimate"

/-- The value of an evidence label. -/
def evidenceValue : Evidence → String
  | .exact => "exact"
  | .estimated => "estimated"
  | .measured => "measured"
  | .verified => "verified"

/-- `x or ""` of a string that may be missing. -/
def orEmpty (s : Option String) : String := s.getD ""

/-- `x or default` of a string. -/
def orElse (s default : String) : String := if s = "" then default else s

/-! ### Constants -/

/-- `FOCUS_COLUMNS`. -/
def focusColumnNames : List String :=
  ["BillingAccountId", "BillingAccountName", "BillingCurrency", "BillingPeriodStart",
   "BillingPeriodEnd", "ChargePeriodStart", "ChargePeriodEnd", "ChargeCategory", "ChargeClass",
   "ChargeDescription", "ChargeFrequency", "ServiceCategory", "ServiceName",
   "ServiceProviderName", "HostProviderName", "InvoiceIssuerName", "RegionId", "ResourceId",
   "SkuId", "PricingCategory", "PricingQuantity", "PricingUnit", "ConsumedQuantity",
   "ConsumedUnit", "ListUnitPrice", "ListCost", "ContractedUnitPrice", "ContractedCost",
   "EffectiveCost", "BilledCost", "Tags", "AllocatedMethodId", "AllocatedMethodDetails"]

/-- `X_COLUMNS`. -/
def xColumnNames : List String :=
  ["x_Source", "x_Role", "x_Channel", "x_BillingPath", "x_TokenBucket", "x_CacheTtl",
   "x_LaneKind", "x_WorkloadClass", "x_ModelId", "x_Evidence", "x_PriceBasis", "x_Reconciled",
   "x_ReconciliationDeltaPct", "x_RateCardSha256", "x_RecoverableCost", "x_EstimatedCostLow",
   "x_EstimatedCostHigh", "x_TopWasteCause", "x_FindingIds", "x_SuppressedUsers"]

/-- `_NUMERIC`. -/
def numericColumns : List String :=
  ["PricingQuantity", "ConsumedQuantity", "ListUnitPrice", "ListCost", "ContractedUnitPrice",
   "ContractedCost", "EffectiveCost", "BilledCost", "x_ReconciliationDeltaPct", "x_RecoverableCost",
   "x_EstimatedCostLow", "x_EstimatedCostHigh", "x_SuppressedUsers"]

/-- `_TTL`. -/
def cacheTtls : List (String × String) :=
  [("cache_write_5m", "5m"), ("cache_write_1h", "1h"), ("cache_write_other", "other"),
   ("cache_write_unknown", "unknown")]

/-- `_REQUEST_BUCKETS`. -/
def requestBuckets : List String :=
  ["web_search", "web_fetch", "web_search_requests", "web_fetch_requests"]

/-- `_CHANNELS`: the service, its provider, its host and the issuer of the invoice. -/
def channelNames : List (String × String × String × String × String) :=
  [("anthropic_api", "Claude API", "Anthropic", "Anthropic", "Anthropic"),
   ("claude_platform_aws", "Claude Platform on AWS", "Anthropic", "AWS", "AWS"),
   ("foundry", "Microsoft Foundry", "Anthropic", "Microsoft", "Microsoft"),
   ("bedrock", "Amazon Bedrock", "Anthropic", "AWS", "AWS"),
   ("vertex", "Vertex AI", "Anthropic", "Google Cloud", "Google"),
   ("openai_api", "OpenAI API", "OpenAI", "OpenAI", "OpenAI"),
   ("azure_openai", "Azure OpenAI", "OpenAI", "Microsoft", "Microsoft"),
   ("github_copilot", "GitHub Copilot", "GitHub", "GitHub", "GitHub")]

/-! ### Formatting -/

/-- `focus_columns`. -/
def focusColumns (spec : FocusSpec) : Except FocusError (List String) :=
  match focusColumnNames.filter fun c => decide (c ∉ spec.columns) with
  | [] => .ok focusColumnNames
  | missing => .error (.core (.contract
      ("FOCUS 1.4 has no column(s) [" ++ ", ".intercalate (missing.map pyRepr) ++ "]")))

/-- `row_key`. -/
def rowKey (row : LedgerCostRow) : List String :=
  [row.dateUtc, row.provider, row.channel, row.model, row.bucket, orEmpty row.team,
   orEmpty row.costCenter, orEmpty row.project, orEmpty row.workspaceId, row.laneKind,
   row.workloadClass, orEmpty row.agentProduct, row.billingPath]

/-- `_unit_price`. -/
def unitPrice (nano quantity : Int) (perRequest : Bool) : Except FocusError String :=
  if quantity ≤ 0 then .ok ""
  else
    let den := quantity.toNat * (if perRequest then 10 ^ 9 else 10 ^ 3)
    match quantize (toPrecision nano den) 12 with
    | some q => .ok (dec q 12)
    | none => .error (.python "decimal.InvalidOperation")

/-- `date.isoformat`. -/
def Date.isoformat (day : Date) : String :=
  padded 4 day.year ++ "-" ++ padded 2 day.month ++ "-" ++ padded 2 day.day

/-- `_iso`. -/
def iso (day : Date) : String := day.isoformat ++ "T00:00:00Z"

/-- `_day`. -/
def dayOf (py : Python) (dateUtc : String) : Except FocusError Date :=
  match py.fromisoformat dateUtc with
  | some day => .ok day
  | none => .error (.core (.usage "FOCUS rows need a YYYY-MM-DD charge date (group cost rows by date)"))

/-- `day + timedelta(days=1)`. -/
def Date.next (day : Date) : Except FocusError Date :=
  if day.day < Verify.daysInMonth day.year day.month then .ok { day with day := day.day + 1 }
  else if day.month < 12 then .ok ⟨day.year, day.month + 1, 1⟩
  else if day.year < 9999 then .ok ⟨day.year + 1, 1, 1⟩
  else .error (.python "OverflowError")

/-- `_month_bounds`. -/
def monthBounds (day : Date) : Except FocusError (Date × Date) :=
  let start := { day with day := 1 }
  if start.month = 12 then
    if start.year < 9999 then .ok (start, { start with year := start.year + 1, month := 1 })
    else .error (.python "ValueError")
  else .ok (start, { start with month := start.month + 1 })

/-- `_cell`: spreadsheets take a free text that starts like a formula for one. -/
def cellText (column value : String) : String :=
  let text := Textsafe.sanitize value
  if column ∉ numericColumns ∧ text.toList.head?.any (· ∈ ['=', '+', '-', '@', '\t', '\r']) then
    "'" ++ text
  else text

/-! ### Grouping -/

/-- `_Cell`: the amounts of an identity and allocation. -/
structure Cell where
  identity : List String
  (team costCenter project : Option String)
  row : LedgerCostRow
  (methodId methodDetails : Option String)
  quantity : Int := 0
  priced : Int := 0
  low : Int := 0
  high : Int := 0
  nUsers : Nat := 0
  contracted : Option Int := none
  recoverable : Option Int := none
  suppressedUsers : Nat := 0
  keys : List (List String) := []

/-- `_identity`. -/
def identity (row : LedgerCostRow) : List String :=
  [row.dateUtc, row.provider, row.channel, row.model, row.bucket, basisValue row.basis, row.laneKind,
   row.workloadClass, row.billingPath, orEmpty row.workspaceId, orEmpty row.agentProduct,
   orEmpty row.rateRowId, orEmpty row.methodId, orEmpty row.methodDetails]

/-- `_alloc_key`: `json.dumps` of the three values. -/
def allocKey (team costCenter project : Option String) : String :=
  let value : Option String → List Char := fun v => (Json.ofStr? v).render
  String.ofList ('[' :: value team ++ [',', ' '] ++ value costCenter ++ [',', ' '] ++ value project ++ [']'])

def rowAlloc (row : LedgerCostRow) : String := allocKey row.team row.costCenter row.project

/-- A mapping from keys of rows to amounts. -/
abbrev AmountTable : Type := List (List String × Int)

/-- `_recoverable`. -/
def recoverableOf (row : LedgerCostRow) (table : Option AmountTable) : Option Int :=
  [rowKey row, [orEmpty row.team, row.laneKind], [orEmpty row.team]].findSome? fun key =>
    (table.getD []).lookup key

/-- `_add_opt`. -/
def addOptInt (a b : Option Int) : Option Int :=
  match a, b with
  | none, b => b
  | some a, none => some a
  | some a, some b => some (a + b)

/-- The cell a row starts. -/
def startCell (row : LedgerCostRow) : Cell where
  identity := identity row
  team := row.team
  costCenter := row.costCenter
  project := row.project
  row := row
  methodId := row.methodId
  methodDetails := row.methodDetails

/-- A row added to a cell. -/
def Cell.addRow (contracted recoverable : Option AmountTable) (cell : Cell) (row : LedgerCostRow) : Cell :=
  { cell with
    quantity := cell.quantity + row.quantity
    priced := cell.priced + row.pricedNano
    low := cell.low + row.estimatedLowNano
    high := cell.high + row.estimatedHighNano
    nUsers := max cell.nUsers row.nUsers.toNat
    keys := cell.keys ++ [rowKey row]
    contracted :=
      match (contracted.getD []).lookup (rowKey row) with
      | some value => addOptInt cell.contracted (some value)
      | none => cell.contracted
    recoverable := addOptInt cell.recoverable (recoverableOf row recoverable) }

/-- A row added to the cells of its identity. -/
def addToGroup (contracted recoverable : Option AmountTable) (group : Option (List (String × Cell)))
    (row : LedgerCostRow) : List (String × Cell) :=
  collectStep rowAlloc (fun cell row => (cell.getD (startCell row)).addRow contracted recoverable row)
    (group.getD []) row

/-- `_cells`. -/
def cells (contracted recoverable : Option AmountTable) (rows : List LedgerCostRow) :
    List (List String × List (String × Cell)) :=
  collect identity (addToGroup contracted recoverable) rows

def carrierUsage (quantity : Int) : UsageBuckets :=
  ⟨{ uncachedInput := min quantity.toNat maxTokens }, by
    simp [UsageCounts.check, UsageCounts.bucketCounts]⟩

/-- `_carrier`. -/
def carrier (cell : Cell) : AggRow where
  dims := [("allocation", some (allocKey cell.team cell.costCenter cell.project))]
  nUsers := cell.nUsers
  nRequests := 0
  usage := carrierUsage cell.quantity
  priced :=
    { exact := exactFigure cell.priced .list, estimated := none, allowance := none, pricedInferences := 0
      unpricedInferences := 0, unpricedTokens := 0, coverage := "1" }

/-- What the loop of `_merge` adds of a cell. -/
def Cell.absorb (merged c : Cell) : Cell :=
  { merged with
    quantity := merged.quantity + c.quantity
    priced := merged.priced + c.priced
    low := merged.low + c.low
    high := merged.high + c.high
    nUsers := max merged.nUsers c.nUsers
    contracted := addOptInt merged.contracted c.contracted
    recoverable := addOptInt merged.recoverable c.recoverable
    suppressedUsers := merged.suppressedUsers + c.nUsers
    keys := merged.keys ++ c.keys }

/-- `_merge` of a first cell and the others: a value they share stays, unless the row is all that
`publish` withheld. -/
def merge (first : Cell) (others : List Cell) (k : Nat) (orgLevel : Bool) : Cell :=
  let same : (Cell → Option String) → Option String := fun attr =>
    if !orgLevel && (first :: others).all fun c => attr c == attr first then attr first else none
  (first :: others).foldl Cell.absorb
    { identity := first.identity, team := some (otherLabel k), costCenter := same (·.costCenter)
      project := same (·.project), row := first.row, methodId := first.methodId
      methodDetails := first.methodDetails }

/-- `_publish`. -/
def publishGroup (group : List (String × Cell)) (k : Nat) : Except FocusError (List Cell) := do
  let published ← (publish ⟨["allocation"], group.map fun g => carrier g.2, (0, 0)⟩ k).mapError .core
  let values := published.rows.map fun row => (row.dims.head?.bind (·.2)).getD ""
  let shown := values.filter (· ≠ otherLabel k)
  let keep := (group.filter fun g => decide (g.1 ∈ shown)).map (·.2)
  match (group.filter fun g => decide (g.1 ∉ shown)).map (·.2) with
  | [] => pure keep
  | first :: rest => pure (keep ++ [merge first rest k (decide (otherLabel k ∉ values))])

/-! ### Rows -/

/-- A finding as the index of findings keeps it. -/
structure Hit where
  nano : Int
  (findingId kind : String)
  dims : Scope

/-- `dict(pairs).get(name)`: of two pairs with one name the last counts. -/
def lastOf (pairs : List (String × String)) (name : String) : Option String := pairs.reverse.lookup name

/-- What a finding is worth recovering, `-1` where nobody says. -/
def recoverableNano (f : Finding) : Int :=
  (((f.recoverableShapley <|> f.recoverable).bind (·.nano)).getD (-1))

/-- The items of a team in `_findings_index`. -/
def findingsOf (findings : List Finding) (team : String) : List Hit :=
  let items := (findings.filter fun f => decide (lastOf f.scope "team" = some team ∧ team ≠ "")).map fun f =>
    (⟨recoverableNano f, f.findingId, f.kind, f.scope⟩ : Hit)
  items.insertionSort fun a b => toLex (-a.nano, a.findingId) ≤ toLex (-b.nano, b.findingId)

/-- `_delta_pct` of a channel. -/
def deltaPct (report : Option (List Recon.ReconRow)) (channel : String) : Except FocusError (Option String) :=
  let rows := (report.getD []).filter fun r =>
    decide (lastOf (r.key.map fun pair => ofLex pair) "channel" = some channel) &&
      r.ledgerNano.isSome && r.invoiceNano.isSome
  let ledger := (rows.map fun r => r.ledgerNano.getD 0).sum
  let invoice := (rows.map fun r => r.invoiceNano.getD 0).sum
  if invoice = 0 then .ok none
  else
    let num := (ledger - invoice) * 100
    match quantize (toPrecision (if invoice < 0 then -num else num) invoice.natAbs) 4 with
    | some q => .ok (some (dec q 4))
    | none => .error (.python "decimal.InvalidOperation")

/-- `Figure.is_billed_eligible`. -/
def isBilledEligible (fig : Figure) : Bool :=
  fig.evidence = .exact && (fig.basis = .list || fig.basis = .contract || fig.basis = .invoice)

/-- `require_billed`. -/
def requireBilled (fig : Figure) (column : String) : Except FocusError Figure :=
  if isBilledEligible fig then .ok fig
  else .error (.core (.contract (column ++ ": billed columns accept only exact list/contract/invoice figures (got " ++
    evidenceValue fig.evidence ++ ", " ++ basisValue fig.basis ++ ")")))

/-- `_billed(nano, basis).nano or 0`. -/
def billedNano (nano : Int) (basis : Basis) : Except FocusError Int := do
  let fig ← requireBilled (exactFigure nano basis) "FOCUS billed column"
  pure (fig.nano.getD 0)

/-- The contracted amount of a cell. -/
def contractedCost (cell : Cell) : Except FocusError Int :=
  match cell.row.basis with
  | .listEquivalent => .ok 0
  | .contract => billedNano cell.priced .contract
  | _ =>
    match cell.contracted with
    | some value => billedNano value .contract
    | none => billedNano cell.priced .list

/-- The tags of a cell: those with a text. -/
def tagsOf (cell : Cell) : List (String × String) :=
  [("team", cell.team), ("cost_center", cell.costCenter), ("project", cell.project),
   ("workload_class", some cell.row.workloadClass), ("agent_product", cell.row.agentProduct),
   ("billing_path", some cell.row.billingPath)].filterMap fun tag =>
    (tag.2.filter (· ≠ "")).map fun v => (tag.1, v)

def tagsText (tags : List (String × String)) : String :=
  Json.canonical (.obj (tags.map fun tag => (tag.1, .str tag.2)))

/-- The findings a row shows. -/
def hits (findings : List Finding) (cell : Cell) : List Hit :=
  match cell.team with
  | none => []
  | some team => (findingsOf findings team).filter fun hit =>
      [("lane_kind", cell.row.laneKind), ("model", cell.row.model), ("channel", cell.row.channel)].all fun d =>
        (lastOf hit.dims d.1).all (· == d.2)

/-- `_ledger_row`. -/
def ledgerRow (py : Python) (spec : FocusSpec) (cell : Cell) (role : String) (reconciled : Bool)
    (rateCardSha : String) (report : Option (List Recon.ReconRow)) (findings : List Finding) :
    Except FocusError (List (String × String)) := do
  let row := cell.row
  let day ← dayOf py row.dateUtc
  let (periodStart, periodEnd) ← monthBounds day
  let tomorrow ← day.next
  let perRequest := decide (row.bucket ∈ requestBuckets)
  let (service, serviceProvider, host, issuer) := (channelNames.lookup row.channel).getD
    (let provider := if row.provider = "" then "Unknown" else py.title row.provider
     (provider ++ " (" ++ orElse row.channel "unknown channel" ++ ")", provider, provider, provider))
  let allowance := decide (row.basis = .listEquivalent)
  let contracted ← contractedCost cell
  let billed := if role = "enrichment" then 0 else contracted
  let listUnitPrice ← unitPrice cell.priced cell.quantity perRequest
  let contractedUnitPrice ← (if allowance then .ok "" else unitPrice contracted cell.quantity perRequest)
  let delta ← deltaPct report row.channel
  let found := hits findings cell
  let estimated := cell.low ≠ 0 ∨ cell.high ≠ 0
  pure
    [("BillingAccountId", orElse row.provider "unknown" ++ "/" ++ orElse row.channel "unknown"),
     ("BillingAccountName", ""),
     ("BillingCurrency", "USD"),
     ("BillingPeriodStart", iso periodStart),
     ("BillingPeriodEnd", iso periodEnd),
     ("ChargePeriodStart", iso day),
     ("ChargePeriodEnd", iso tomorrow),
     ("ChargeCategory", "Usage"),
     ("ChargeClass", ""),
     ("ChargeDescription", orElse row.model "unknown model" ++ " " ++ row.bucket ++ " " ++
       if perRequest then "requests" else "tokens"),
     ("ChargeFrequency", "Usage-Based"),
     ("ServiceCategory", spec.serviceCategoryAi),
     ("ServiceName", service),
     ("ServiceProviderName", serviceProvider),
     ("HostProviderName", host),
     ("InvoiceIssuerName", issuer),
     ("RegionId", ""),
     ("ResourceId", orEmpty row.workspaceId),
     ("SkuId", if orEmpty row.rateRowId = "" then "" else orEmpty row.rateRowId ++ "#" ++ row.bucket),
     ("PricingCategory", "Standard"),
     ("PricingQuantity", dec (fixInt cell.quantity) (if perRequest then 0 else 6)),
     ("PricingUnit", if perRequest then "Requests" else "1M Tokens"),
     ("ConsumedQuantity", toString cell.quantity),
     ("ConsumedUnit", if perRequest then "Requests" else "Tokens"),
     ("ListUnitPrice", listUnitPrice),
     ("ListCost", nanoToUsdStr cell.priced),
     ("ContractedUnitPrice", contractedUnitPrice),
     ("ContractedCost", nanoToUsdStr contracted),
     ("EffectiveCost", nanoToUsdStr billed),
     ("BilledCost", nanoToUsdStr billed),
     ("Tags", tagsText (tagsOf cell)),
     ("AllocatedMethodId", orEmpty cell.methodId),
     ("AllocatedMethodDetails", orEmpty cell.methodDetails),
     ("x_Source", "tokenbill"),
     ("x_Role", role),
     ("x_Channel", row.channel),
     ("x_BillingPath", row.billingPath),
     ("x_TokenBucket", row.bucket),
     ("x_CacheTtl", (cacheTtls.lookup row.bucket).getD ""),
     ("x_LaneKind", row.laneKind),
     ("x_WorkloadClass", row.workloadClass),
     ("x_ModelId", row.model),
     ("x_Evidence", if cell.priced ≠ 0 ∨ ¬ estimated then "exact" else "estimated"),
     ("x_PriceBasis", basisValue row.basis),
     ("x_Reconciled", if reconciled then "true" else "false"),
     ("x_ReconciliationDeltaPct", delta.getD ""),
     ("x_RateCardSha256", rateCardSha),
     ("x_RecoverableCost", (cell.recoverable.map nanoToUsdStr).getD ""),
     ("x_EstimatedCostLow", if estimated then nanoToUsdStr cell.low else ""),
     ("x_EstimatedCostHigh", if estimated then nanoToUsdStr cell.high else ""),
     ("x_TopWasteCause", (found.head?.map (·.kind)).getD ""),
     ("x_FindingIds", ",".intercalate ((found.take 10).map (·.findingId))),
     ("x_SuppressedUsers", toString cell.suppressedUsers)]

/-- `_sort_key`. -/
def sortKey (label : String) (cell : Cell) : List String ×ₗ Bool ×ₗ String ×ₗ String ×ₗ String :=
  toLex (cell.identity, toLex (decide (cell.team = some label), toLex (orEmpty cell.team,
    toLex (orEmpty cell.costCenter, orEmpty cell.project))))

/-! ### The export -/

/-- The arguments of `write_focus` besides the rows. -/
structure FocusArgs where
  reconciledChannels : List String
  allowUnreconciled : Bool
  role : String := "primary"
  contracted : Option AmountTable := none
  recoverableByScope : Option AmountTable := none
  rateCardSha : String
  k : Nat := 5
  chargeback : Bool := false
  allocationCoverage : Option String := none
  channels : Option (List String) := none
  extraRows : List FocusRow := []
  ownedChannels : List String := []
  findings : List Finding := []
  reconciliation : Option (List Recon.ReconRow) := none

/-- The file: its header, the rows of the ledger and the extensions' rows. -/
structure FocusTable where
  header : List String
  (ledger extra : List (List String))

/-- `_coverage_ok`. -/
def coverageOk (py : Python) (value : Option String) : Except FocusError Bool :=
  match value with
  | none => .ok false
  | some value =>
    match py.decimal value with
    | none => .error (.core (.usage "allocation coverage must be a decimal string"))
    | some none => .error (.core (.usage "allocation coverage must be a finite decimal string"))
    | some (some cov) => .ok (decide (95 / 100 ≤ cov))

/-- `_keep`. -/
def keep (args : FocusArgs) (row : LedgerCostRow) : Bool :=
  decide (row.channel ∉ args.ownedChannels) && args.channels.all fun channels => decide (row.channel ∈ channels)

/-- `_keep_extra`. -/
def keepExtra (args : FocusArgs) (row : FocusRow) : Bool :=
  args.channels.all fun channels => decide (row.channel ∈ channels)

/-- `blocked`: the channels that are not reconciled, in order. -/
def blocked (args : FocusArgs) (kept : List LedgerCostRow) (extras : List FocusRow) : List String :=
  let ledger := (kept.filter fun r =>
    decide (r.basis ≠ .listEquivalent ∧ r.channel ∉ args.reconciledChannels)).map (·.channel)
  let owned := (extras.filter fun r => !r.reconciled).map (·.channel)
  (ledger ++ owned).dedup.insertionSort (· ≤ ·)

/-- The columns of an extension's rows that FOCUS does not define raise. -/
def checkColumns (spec : FocusSpec) (extras : List FocusRow) : Except FocusError Unit :=
  (extras.flatMap (·.columns)).forM fun c =>
    if startsWith c.1 "x_" ∨ c.1 ∈ spec.columns then .ok ()
    else .error (.core (.contract ("extension FOCUS row has a non-FOCUS column " ++ pyRepr c.1)))

/-- The header: the columns of the export, and those of the extensions' rows. -/
def headerOf (spec : FocusSpec) (columns : List String) (extras : List FocusRow) : List String :=
  let names := (extras.flatMap (·.columns)).map (·.1)
  let extraX := (names.filter fun c => startsWith c "x_" && decide (c ∉ xColumnNames)).dedup
  let extraFocus := (names.filter fun c => !startsWith c "x_" && decide (c ∉ focusColumnNames)).dedup
  columns ++ extraFocus.insertionSort (fun a b => spec.columns.idxOf a ≤ spec.columns.idxOf b) ++
    xColumnNames ++ extraX.insertionSort (· ≤ ·)

def lineOf (header : List String) (values : List (String × String)) : List String :=
  header.map fun c => cellText c ((values.lookup c).getD "")

def extraValues (role : String) (r : FocusRow) : List (String × String) :=
  r.columns.reverse ++ [("x_Source", "tokenbill"), ("x_Role", role), ("x_Channel", r.channel),
    ("x_Reconciled", if r.reconciled then "true" else "false")]

/-- The cells of the export, in its order. -/
def exportCells (args : FocusArgs) (kept : List LedgerCostRow) : Except FocusError (List Cell) := do
  let published ← (cells args.contracted args.recoverableByScope kept).mapM fun g => publishGroup g.2 args.k
  pure (published.flatten.insertionSort fun a b =>
    sortKey (otherLabel args.k) a ≤ sortKey (otherLabel args.k) b)

/-- The checks of the arguments. -/
def checkArgs (py : Python) (args : FocusArgs) : Except FocusError Unit :=
  if args.role ∉ ["primary", "enrichment"] then .error (.core (.usage "FOCUS role must be primary or enrichment"))
  else if args.k < 1 then .error (.core (.usage "k must be an int >= 1"))
  else if args.chargeback then do
    let covered ← coverageOk py args.allocationCoverage
    if covered then .ok ()
    else .error (.gateFailed ("chargeback refused: allocation coverage " ++
      orElse (orEmpty args.allocationCoverage) "unknown" ++ " is below 95%"))
  else .ok ()

/-- The gate of the channels that are not reconciled. -/
def checkReconciled (args : FocusArgs) (names : List String) : Except FocusError Unit :=
  if names ≠ [] ∧ !args.allowUnreconciled then
    .error (.gateFailed ("FOCUS export refused: channel(s) not reconciled: " ++ ", ".intercalate names ++
      " (reconcile them, restrict the export with --channel, or pass --allow-unreconciled)"))
  else .ok ()

/-- `write_focus`. -/
def writeFocus (py : Python) (spec : FocusSpec) (args : FocusArgs) (rows : List LedgerCostRow) :
    Except FocusError FocusTable := do
  checkArgs py args
  let columns ← focusColumns spec
  let kept := rows.filter (keep args)
  let extras := args.extraRows.filter (keepExtra args)
  checkReconciled args (blocked args kept extras)
  let cells ← exportCells args kept
  checkColumns spec extras
  let header := headerOf spec columns extras
  let ledger ← cells.mapM fun cell => do
    let values ← ledgerRow py spec cell args.role (decide (cell.row.channel ∈ args.reconciledChannels))
      args.rateCardSha args.reconciliation args.findings
    pure (lineOf header values)
  pure { header, ledger, extra := extras.map fun r => lineOf header (extraValues args.role r) }

end TokenBill.Focus
