import TokenBill.General.Unions
import TokenBill.Core.Amounts
import TokenBill.Core.DecimalText
import TokenBill.Core.Labels
import TokenBill.Recon.Residuals
import Mathlib.Data.List.MinMax

/-!
# Merging reconciliation reports

`merge_reports` of `recon/reconcile.py` joins the reports of disjoint channels. Rows, verdicts, discounts and
decisions are united, residuals and counts are summed, and the verdict and the coverage are computed again from
the rows. A suggested contract is compared by its JSON, so it is that text here.
-/

namespace TokenBill.Recon

open General

/-- A decimal text of a report, with its value. -/
structure DecimalText where
  text : String
  value : ℚ
  reads : (match decimalOf text with | some (.finite d) => decide (d.toRat = value) | _ => false) = true

/-- `ReconRow` with what it reports. -/
structure ReportRow extends ReconRow where
  (rateCardErrorPct coveragePct : Option String)
  status : String
  residualCode : Option String

/-- The verdicts. -/
inductive Verdict where
  | reconciled | notReconciled | insufficientData
  deriving DecidableEq

/-- `ChannelVerdict`. -/
structure ChannelVerdict where
  channel : String
  verdict : Verdict
  invoiceSources : List String
  mappingVerified : Bool

/-- `ReconciliationReport`. -/
structure Report where
  window : String × String
  (tolerancePct unexplainedTolerancePct : DecimalText)
  rows : List ReportRow
  (tokenCoveragePct dollarCoveragePct : Option String)
  rateCardError : Option (DecimalText × DecimalText × DecimalText)
  overCountRows : Nat
  effectiveDiscount : List (String × String)
  residuals : List (String × Int)
  unexplainedNano : Int
  channels : List ChannelVerdict
  verdict : Verdict
  finality : Finality
  suggestedContract : Option String
  rerunVerdict : Option Verdict
  decisions : List (String × String)

/-- What merging raises. -/
inductive MergeError where
  | core (e : Error)
  /-- `decimal.InvalidOperation`. -/
  | invalidOperation

/-- `ContractViolation`. -/
def contract (msg : String) : MergeError := .core (.contract msg)

/-! ### Coverage and verdicts -/

def ReportRow.channel (row : ReportRow) : Option String := keyValue row.key "channel"

/-- `_pct`. -/
def pct (num den : Int) : Except MergeError (Option String) :=
  if den = 0 then .ok none
  else
    match quantize (toPrecision (den.sign * fixInt (num * 100)) den.natAbs) 4 with
    | some q => .ok (some (dec q 4))
    | none => .error .invalidOperation

/-- The rows that `_coverage` counts. -/
def counted (rows : List ReportRow) : List ReportRow := rows.filter fun r => !r.isInfo

def withProvider (rows : List ReportRow) : List ReportRow :=
  (counted rows).filter fun r => (counted rows).any fun s => s.providerTokens.isSome && decide (s.channel = r.channel)

/-- The rows of the channels with invoice rows, but for those of a Priority Tier. -/
def withInvoice (rows : List ReportRow) : List ReportRow :=
  (counted rows).filter fun r => ((counted rows).any fun s => s.invoiceNano.isSome && decide (s.channel = r.channel)) &&
    !isOneOf (keyValue r.key "service_tier") priorityTiers

/-- `_coverage`. -/
def coverage (rows : List ReportRow) : Except MergeError (Option String × Option String) := do
  let tokens ← pct ((withProvider rows).map fun r => (r.ledgerTokens.getD 0 : Int)).sum
    ((withProvider rows).map fun r => (r.providerTokens.getD 0 : Int)).sum
  let dollars ← pct ((withInvoice rows).map fun r => r.ledgerNano.getD 0).sum
    ((withInvoice rows).map fun r => r.invoiceNano.getD 0).sum
  return (tokens, dollars)

/-- `_has_spend`. -/
def hasSpend (row : ReportRow) : Bool :=
  !row.isInfo && (decide (0 < row.ledgerNano.getD 0) || decide (0 < row.ledgerTokens.getD 0))

/-- Whether the rows of a report have spend and none of them a channel. -/
def Report.bare (r : Report) : Bool :=
  (r.rows.all fun row => decide (row.channel.getD "" = "")) && r.rows.any hasSpend

/-- The channels with spend: those of the rows, and all of a report whose rows have no channel. -/
def spendChannels (reports : List Report) (rows : List ReportRow) : List String :=
  (rows.filter hasSpend).map (fun row => row.channel.getD "") ++
    (reports.filter (·.bare)).flatMap fun r => r.channels.map (·.channel)

/-- `_overall`. -/
def overall (verdicts : List ChannelVerdict) (spend : List String) : Verdict :=
  let withInvoice := verdicts.filter fun v => decide (v.verdict ≠ .insufficientData)
  if withInvoice = [] then .insufficientData
  else
    let considered := verdicts.filter fun v => decide (v.channel ∈ spend)
    if (if considered = [] then withInvoice else considered).all fun v => decide (v.verdict = .reconciled) then
      .reconciled
    else .notReconciled

/-- `_combined_rerun`. -/
def combinedRerun (reports : List Report) (merged : Verdict) : Option Verdict :=
  if reports.all (·.rerunVerdict.isNone) then none
  else
    let values := reports.map fun r => r.rerunVerdict.getD r.verdict
    if .notReconciled ∈ values then some .notReconciled
    else if values.all (decide <| · = .insufficientData) then some .insufficientData
    else if values.all (decide <| · = .reconciled) then some .reconciled
    else some (if merged = .reconciled then .reconciled else .notReconciled)

/-! ### The parts of a merged report -/

/-- `sorted(table.items())`. -/
def sortedPairs (pairs : List (String × String)) : List (String × String) :=
  pairs.insertionSort fun a b => toLex a ≤ toLex b

/-- `recon_decisions_of`. -/
def decisionsOf (reports : List Report) : Except MergeError (List (String × String)) := do
  let table ← union (fun p => contract ("reconciliation reports disagree on a '" ++
    String.ofList (p.1.toList.takeWhile (· ≠ ':')) ++ ":' decision")) (reports.flatMap (·.decisions))
  return sortedPairs table

/-- The discounts of all reports. -/
def discountsOf (reports : List Report) : Except MergeError (List (String × String)) := do
  let table ← union (fun _ => contract "merge_reports: conflicting effective discounts")
    (reports.flatMap (·.effectiveDiscount))
  return sortedPairs table

def residualsOf (reports : List Report) : List (String × Int) :=
  (tally (reports.flatMap (·.residuals))).insertionSort fun a b => residualOrder a.1 ≤ residualOrder b.1

def rowsOf (reports : List Report) : List ReportRow :=
  (reports.flatMap (·.rows)).insertionSort fun a b => a.key ≤ b.key

def channelsOf (reports : List Report) : List ChannelVerdict :=
  (reports.flatMap (·.channels)).insertionSort fun a b => a.channel ≤ b.channel

/-- The largest errors. -/
def rateCardErrorOf (reports : List Report) : Option (DecimalText × DecimalText × DecimalText) := do
  let errors := reports.filterMap (·.rateCardError)
  let p50 ← (errors.map (·.1)).argmax (·.value)
  let p95 ← (errors.map (·.2.1)).argmax (·.value)
  let most ← (errors.map (·.2.2)).argmax (·.value)
  return (p50, p95, most)

def finalityOf (reports : List Report) : Finality :=
  let finalities := reports.map (·.finality)
  if .provisional ∈ finalities then .provisional else if .final ∈ finalities then .final else .na

def windowOf (reports : List Report) : String × String :=
  ((((reports.map (·.window.1)).filter (· ≠ "")).min?).getD "",
    (((reports.map (·.window.2)).filter (· ≠ "")).max?).getD "")

def sameTolerances (a b : Report) : Bool :=
  decide (a.tolerancePct.value = b.tolerancePct.value) &&
    decide (a.unexplainedTolerancePct.value = b.unexplainedTolerancePct.value)

/-- The merged report. -/
def assembled (first : Report) (reports : List Report) (decisions discounts : List (String × String))
    (covered : Option String × Option String) : Report :=
  let verdict := overall (channelsOf reports) (spendChannels reports (rowsOf reports))
  { window := windowOf reports
    tolerancePct := first.tolerancePct
    unexplainedTolerancePct := first.unexplainedTolerancePct
    rows := rowsOf reports
    tokenCoveragePct := covered.1
    dollarCoveragePct := covered.2
    rateCardError := rateCardErrorOf reports
    overCountRows := (reports.map (·.overCountRows)).sum
    effectiveDiscount := discounts
    residuals := residualsOf reports
    unexplainedNano := (reports.map (·.unexplainedNano)).sum
    channels := channelsOf reports
    verdict := verdict
    finality := finalityOf reports
    suggestedContract := (reports.filterMap (·.suggestedContract)).head?
    rerunVerdict := combinedRerun reports verdict
    decisions := decisions }

/-- The merge of two reports and more. -/
def mergeSeveral (first : Report) (reports : List Report) (decisions : List (String × String)) :
    Except MergeError Report :=
  if reports.any (fun r => !sameTolerances r first) then
    .error (contract "merge_reports: reports use different tolerances")
  else if ¬ ((reports.flatMap (·.channels)).map (·.channel)).Nodup then
    .error (contract "merge_reports: a channel appears in two reports")
  else do
    let discounts ← discountsOf reports
    let covered ← coverage (rowsOf reports)
    if 1 < (reports.filterMap (·.suggestedContract)).dedup.length then
      .error (contract "merge_reports: several different suggested contracts")
    else .ok (assembled first reports decisions discounts covered)

/-- `merge_reports`. -/
def mergeReports (reports : List Report) : Except MergeError Report :=
  match reports with
  | [] => .error (.core (.usage "merge_reports: no reports"))
  | first :: others => do
    let decisions ← decisionsOf reports
    match others with
    | [] => .ok first
    | _ :: _ => mergeSeveral first reports decisions

end TokenBill.Recon
