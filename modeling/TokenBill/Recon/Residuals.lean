import TokenBill.Core.Money
import TokenBill.General.Tally
import Mathlib.Data.Prod.Lex
import Mathlib.Data.String.Basic

/-!
# Residuals of the reconciliation

`recon/residuals.py`: the gap of a row is its invoice less its ledger, and codes claim
parts of the gaps in a fixed order. Five of them work on the rows of a model-day, the
others on single rows. `classifyRows` gives the codes with their amounts, what no code
claims, and for the key of each row its code, its status and its unexplained part.

Tokens are counts. A mapping that is read with a default is a function.
-/

namespace TokenBill.Recon

open General

/-! ### Rows -/

/-- The key of a row: names of dims and their values, in the order of tuples. -/
abbrev RowKey : Type := List (String ×ₗ String)

/-- `ReconRow`, without what it reports. -/
structure ReconRow where
  key : RowKey
  (ledgerTokens providerTokens : Option Nat)
  (ledgerNano pricedProviderNano invoiceNano : Option Int)

/-- `key_value`. -/
def keyValue (key : RowKey) (dim : String) : Option String :=
  (key.find? fun pair => decide ((ofLex pair).1 = dim)).map fun pair => (ofLex pair).2

def ReconRow.gap (r : ReconRow) : Int := r.invoiceNano.getD 0 - r.ledgerNano.getD 0

/-- `PRIORITY_TIERS`. -/
def priorityTiers : List String := ["priority", "priority_on_demand"]

/-- `REPORT_ONLY_BUCKETS`. -/
def reportOnlyBuckets : List String := ["code_execution", "session_usage"]

/-- `CCU_CHANNELS`. -/
def ccuChannels : List String := ["foundry", "claude_platform_aws"]

/-- `NO_REPORTING_API_CHANNELS`. -/
def noReportingApiChannels : List String := ["claude_platform_aws"]

/-- `DEFAULT_JOIN`. -/
def defaultJoin : String ×ₗ String := toLex ("join", "default_workspace")

/-- `INFO_DIM`. -/
def infoDim : String := "info"

/-- `ROUNDING_NANO_PER_ROW`. -/
def roundingNanoPerRow : Nat := 1

/-- Whether a value that may be missing is one of a list. -/
def isOneOf (value : Option String) (values : List String) : Bool := value.any fun v => decide (v ∈ values)

/-- What the rows are classified by. -/
structure Evidence where
  /-- `ledger_estimated_nano`. -/
  estimated : RowKey → Int
  /-- `allowance_nano`. -/
  allowance : RowKey → Int
  provisionalDates : List String
  remainders : Int

/-! ### Codes -/

/-- `RESIDUAL_CODES`. -/
def residualCodes : List String :=
  ["priority_excluded_from_cost_report", "code_execution_cost_report_only", "revision_window",
    "seat_allowance_unmetered", "unobserved_traffic", "implied_discount", "estimated_components",
    "ccu_single_line", "default_workspace_null_id", "no_reporting_api", "cents_rounding",
    "unmapped_cost_type", "cloud_credits"]

/-- `residual_order`. -/
def residualOrder (code : String) : Nat ×ₗ String := toLex (residualCodes.idxOf code, code)

/-- Codes with their amounts. -/
abbrev Claims : Type := List (String × Int)

def Claims.total (claims : Claims) : Int := (claims.map (·.2)).sum

/-- `_claim`. -/
def claim (remaining cap : Int) : Int :=
  if 0 < remaining then min remaining |cap|
  else if remaining < 0 then -min (-remaining) |cap|
  else 0

/-- `_share`. -/
def share (amount : Int) (num den : Nat) : Int := divHalfEven (amount * num) den

/-- `_dominant`: the largest claim, the first of its code's order among those. -/
def dominant (claims : Claims) : Option String :=
  let rank := fun c : String × Int => toLex (-|c.2|, residualOrder c.1)
  (claims.insertionSort fun a b => rank a ≤ rank b).head?.map (·.1)

/-! ### The claims of a model-day -/

/-- `_group_key`. -/
def groupKey (key : RowKey) : RowKey := key.filter fun pair => decide ((ofLex pair).1 ≠ "bucket")

section Group

variable (rows : List ReconRow) (estimated : RowKey → Int)

def ledgerOf : Int := (rows.map fun r => r.ledgerNano.getD 0).sum

def invoiceOf : Int := (rows.map fun r => r.invoiceNano.getD 0).sum

def ledgerTokensOf : Nat := (rows.map fun r => r.ledgerTokens.getD 0).sum

def providerTokensOf : Nat := (rows.map fun r => r.providerTokens.getD 0).sum

def hasInvoice : Bool := rows.any fun r => r.invoiceNano.isSome

/-- The price of the provider's tokens, if every row with some has one. -/
def pricedOf : Option Int :=
  if rows.any fun r => decide (r.providerTokens.getD 0 ≠ 0) && r.pricedProviderNano.isNone then none
  else some (rows.map fun r => r.pricedProviderNano.getD 0).sum

def deficitRows : List ReconRow :=
  rows.filter fun r => decide (r.ledgerTokens.getD 0 < r.providerTokens.getD 0) &&
    decide (r.pricedProviderNano.getD 0 ≠ 0) && decide (estimated r.key = 0)

/-- `_missing_price`. -/
def missingPrice : Int :=
  let groupDeficit := providerTokensOf rows - ledgerTokensOf rows
  if groupDeficit = 0 then 0
  else
    let missing := fun r : ReconRow => r.providerTokens.getD 0 - r.ledgerTokens.getD 0
    let total := ((deficitRows rows estimated).map fun r =>
      share (r.pricedProviderNano.getD 0) (missing r) (r.providerTokens.getD 0)).sum
    let deficit := ((deficitRows rows estimated).map missing).sum
    if groupDeficit < deficit then share total groupDeficit deficit else total

/-- The first claims of a group, and what they leave: unobserved traffic, by its price where the
provider's tokens are priced, and the discount beyond the rounding of the invoiced rows. -/
def tokenClaims : Claims × Int :=
  let inv := invoiceOf rows
  let led := ledgerOf rows
  let unpriced : Claims × Int :=
    let lt := ledgerTokensOf rows
    let pt := providerTokensOf rows
    if lt < pt ∧ 0 < inv - led then
      let traffic := min (inv - led) (share inv (pt - lt) pt)
      ([("unobserved_traffic", traffic)], inv - led - traffic)
    else ([], inv - led)
  match pricedOf rows with
  | none => unpriced
  | some p =>
    if !(rows.any fun r => decide (keyValue r.key "bucket" = some "total")) ∧ hasInvoice rows ∧ 0 < p then
      let coverage := p - led
      let missing := missingPrice rows estimated
      let traffic : Claims :=
        if missing ≠ 0 ∧ 0 < coverage then [("unobserved_traffic", min coverage missing)] else []
      let price := inv - p
      let invoiced := rows.countP fun r => r.invoiceNano.isSome
      if (roundingNanoPerRow * invoiced : Nat) < |price| then
        (traffic ++ [("implied_discount", price)], coverage - traffic.total)
      else (traffic, coverage - traffic.total + price)
    else unpriced

def claimRest (applies : Bool) (code : String) (state : Claims × Int) : Claims × Int :=
  if applies then (state.1 ++ [(code, state.2)], 0) else state

/-- The claim of the ledger's estimated parts. -/
def estimatedClaim (state : Claims × Int) : Claims × Int :=
  let cap := (rows.map fun r => estimated r.key).sum
  if cap = 0 then state
  else
    let part := claim state.2 cap
    (state.1 ++ [("estimated_components", part)], state.2 - part)

/-- `_group_claims`. -/
def groupClaims (channel : Option String) : Claims × Int :=
  if ledgerTokensOf rows = 0 ∧ ledgerOf rows = 0 ∧ (0 < providerTokensOf rows ∨ hasInvoice rows) then
    ([("unobserved_traffic", invoiceOf rows - ledgerOf rows)], 0)
  else
    let state := estimatedClaim rows estimated (tokenClaims rows estimated)
    let state := claimRest (isOneOf channel ccuChannels && hasInvoice rows) "ccu_single_line" state
    let state := claimRest (rows.any fun r => decide (defaultJoin ∈ r.key)) "default_workspace_null_id" state
    claimRest (isOneOf channel noReportingApiChannels && !hasInvoice rows) "no_reporting_api" state

end Group

/-! ### Classification -/

/-- `row_status`. -/
inductive Status where
  | provisional | explained | unexplained | withinTolerance | matched
  deriving DecidableEq

/-- `row_codes`, `row_status` and `row_unexplained` of a key. -/
structure RowDetail where
  code : Option String
  status : Status
  unexplained : Int
  deriving DecidableEq

/-- What the rows of a group are classified as. -/
structure GroupResult where
  claims : Claims
  rest : Int
  code : Option String
  status : Status

/-- `Classification`. -/
structure Classification where
  codes : Claims
  unexplained : Int
  details : List (RowKey × RowDetail)

/-- `residuals`. -/
def Classification.residuals (c : Classification) : Claims :=
  c.codes.insertionSort fun a b => residualOrder a.1 ≤ residualOrder b.1

section Classify

variable (ev : Evidence)

def ReconRow.isInfo (r : ReconRow) : Bool := (keyValue r.key infoDim).isSome

def ReconRow.isPriority (r : ReconRow) : Bool :=
  isOneOf (keyValue r.key "service_tier") priorityTiers && r.invoiceNano.isNone

def Evidence.provisional (key : RowKey) : Bool := isOneOf (keyValue key "date") ev.provisionalDates

/-- The code and the amount of a row that is not left to its group. -/
def special (r : ReconRow) : Option (String × Int) :=
  let bucket := keyValue r.key "bucket"
  if r.isPriority then
    some ("priority_excluded_from_cost_report", r.pricedProviderNano.getD (r.ledgerNano.getD 0))
  else if isOneOf bucket reportOnlyBuckets then some ("code_execution_cost_report_only", r.gap)
  else if bucket = some "unmapped" ∨ bucket = some "credits" then
    some (if ev.provisional r.key then "revision_window"
      else if bucket = some "unmapped" then "unmapped_cost_type" else "cloud_credits", r.gap)
  else none

def rowAdds (r : ReconRow) : Claims :=
  (if ev.allowance r.key ≠ 0 then [("seat_allowance_unmetered", ev.allowance r.key)] else []) ++
    (special ev r).toList

/-- The detail of a row that is not left to its group. -/
def rowDetail (r : ReconRow) : Option (RowKey × RowDetail) :=
  (special ev r).map fun s => (r.key, ⟨some s.1, if ev.provisional r.key then .provisional else .explained, 0⟩)

def classified (rows : List ReconRow) : List ReconRow :=
  (rows.filter fun r => !r.isInfo).insertionSort fun a b => a.key ≤ b.key

def grouped (rows : List ReconRow) : List ReconRow :=
  (classified rows).filter fun r => (special ev r).isNone

def groups (rows : List ReconRow) : List (RowKey × List ReconRow) :=
  ((((grouped ev rows).map fun r => groupKey r.key).dedup).insertionSort (· ≤ ·)).map fun key =>
    (key, (grouped ev rows).filter fun r => decide (groupKey r.key = key))

/-- The classification of a group. -/
def classifyGroup (key : RowKey) (members : List ReconRow) : GroupResult :=
  if ev.provisional key then
    ⟨[("revision_window", (members.map ReconRow.gap).sum)], 0, some "revision_window", .provisional⟩
  else
    let (claims, rest) := groupClaims members ev.estimated (keyValue key "channel")
    let code := (dominant (claims.filter fun c => decide (c.2 ≠ 0))).or (dominant claims)
    let noise : Nat := roundingNanoPerRow * max 1 members.length
    let status :=
      if rest ≠ 0 ∧ (noise : Int) < |rest| then .unexplained
      else if rest ≠ 0 then .withinTolerance
      else if claims.any fun c => decide (c.2 ≠ 0) then .explained
      else .matched
    ⟨claims, rest, code, status⟩

/-- The details of the rows of a group: its unexplained part is its first row's. -/
def groupDetails (result : GroupResult) (members : List ReconRow) : List (RowKey × RowDetail) :=
  members.zipIdx.map fun (r, i) =>
    let seat := decide (ev.allowance r.key ≠ 0)
    (r.key,
      { code := result.code.or (if seat then some "seat_allowance_unmetered" else none)
        status := if result.status = .matched ∧ seat then .explained else result.status
        unexplained := if i = 0 then result.rest else 0 })

def results (rows : List ReconRow) : List (GroupResult × List ReconRow) :=
  (groups ev rows).map fun g => (classifyGroup ev g.1 g.2, g.2)

def unexplainedOf (rows : List ReconRow) : Int := ((results ev rows).map (·.1.rest)).sum

def centsClaim (rows : List ReconRow) : Claims :=
  if ev.remainders ≠ 0 then [("cents_rounding", claim (unexplainedOf ev rows) ev.remainders)] else []

def allAdds (rows : List ReconRow) : Claims :=
  (classified rows).flatMap (rowAdds ev) ++ (results ev rows).flatMap (·.1.claims) ++ centsClaim ev rows

def allDetails (rows : List ReconRow) : List (RowKey × RowDetail) :=
  (classified rows).filterMap (rowDetail ev) ++ (results ev rows).flatMap fun g => groupDetails ev g.1 g.2

/-- `classify_rows`. -/
def classifyRows (rows : List ReconRow) : Classification where
  codes := tally (allAdds ev rows)
  unexplained := unexplainedOf ev rows - (centsClaim ev rows).total
  details := (allDetails ev rows).foldl (fun table detail => upsert (·.1) detail table) []

end Classify

end TokenBill.Recon
