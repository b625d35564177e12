import TokenBill.Core.Findings
import TokenBill.Core.PyJson

/-!
# The Anthropic usage rules

`core/conventions.py`: one usage object becomes disjoint buckets, and one response becomes its inferences.
With `usage.iterations` every element is an inference of its own and the top level is not priced, but its
server tool counts go to the serving inference when no element reports any.
-/

namespace TokenBill.Conventions

open PyJson

/-- A usage object. -/
abbrev Usage : Type := Dict String

/-- `BadUsageError("bad_usage: <field>")`. -/
def badUsage (field : String) : Error := .usage ("bad_usage: " ++ field)

/-! ### `anthropic.messages` -/

/-- `_count`. -/
def count (obj : Usage) (key within : String) : Except Error (Option Nat) :=
  match obj.lookup key with
  | none => .ok none
  | some .null => .ok none
  | some (.int n) => if 0 ≤ n ∧ n ≤ maxTokens then .ok (some n.toNat) else .error (badUsage (within ++ key))
  | some _ => .error (badUsage (within ++ key))

/-- `_sub`. -/
def sub (obj : Usage) (key : String) : Except Error (Option Usage) :=
  match obj.lookup key with
  | none => .ok none
  | some .null => .ok none
  | some (.dict value) => .ok (some value)
  | some _ => .error (badUsage key)

/-- Two counts of an object that may be absent; a count that is missing is 0. -/
def twoCounts (obj : Option Usage) (within key₁ key₂ : String) : Except Error (Nat × Nat) :=
  match obj with
  | none => .ok (0, 0)
  | some obj => do
    let a ← count obj key₁ within
    let b ← count obj key₂ within
    .ok (a.getD 0, b.getD 0)

/-- The writes of no TTL, and what is noted of the split. -/
def unknownWrites (totalWrite : Option Nat) (w5 w1 : Nat) : Nat × List String :=
  match totalWrite with
  | none => (0, [])
  | some total =>
    if w5 + w1 < total then (total - w5 - w1, ["dq.ttl_split_residual"])
    else if total < w5 + w1 then (0, ["dq.ttl_split_exceeds_total"])
    else (0, [])

/-- The thinking tokens, which are dropped when they exceed the output. -/
def reasoningOf (details : Option Usage) (output : Nat) : Except Error (Option Nat × List String) :=
  match details with
  | none => .ok (none, [])
  | some details => do
    let thinking ← count details "thinking_tokens" "output_tokens_details."
    if thinking.any (output < ·) then .ok (none, ["dq.sum_check_failed"]) else .ok (thinking, [])

/-- `UsageBuckets(...)` of the counts, with its failure as that of the usage. -/
def bucketsOf (u : UsageCounts) : Except Error UsageBuckets :=
  match u.build with
  | .ok b => .ok b
  | .error _ => .error (badUsage "usage")

/-- `normalize_anthropic_messages` of an object. -/
def normalizeUsage (raw : Usage) : Except Error (UsageBuckets × List String) := do
  let uncached ← count raw "input_tokens" ""
  let read ← count raw "cache_read_input_tokens" ""
  let totalWrite ← count raw "cache_creation_input_tokens" ""
  let creation ← sub raw "cache_creation"
  let (w5, w1) ← twoCounts creation "cache_creation." "ephemeral_5m_input_tokens" "ephemeral_1h_input_tokens"
  let (unknown, splitNotes) := unknownWrites totalWrite w5 w1
  let output ← count raw "output_tokens" ""
  let details ← sub raw "output_tokens_details"
  let (reasoning, sumNotes) ← reasoningOf details (output.getD 0)
  let server ← sub raw "server_tool_use"
  let (webSearch, webFetch) ← twoCounts server "server_tool_use." "web_search_requests" "web_fetch_requests"
  let buckets ← bucketsOf {
    uncachedInput := uncached.getD 0, cacheRead := read.getD 0, cacheWrite5m := w5, cacheWrite1h := w1
    cacheWriteUnknown := unknown, output := output.getD 0, outputReasoning := reasoning
    webSearchRequests := webSearch, webFetchRequests := webFetch }
  .ok (buckets, splitNotes ++ sumNotes)

/-- `normalize_anthropic_messages`. -/
def normalizeAnthropicMessages : PyJson String → Except Error (UsageBuckets × List String)
  | .dict raw => normalizeUsage raw
  | _ => .error (badUsage "usage")

/-! ### Iterations -/

/-- A string member that may be absent. -/
def optStr (obj : Usage) (key within : String) : Except Error (Option String) :=
  match obj.lookup key with
  | none => .ok none
  | some .null => .ok none
  | some (.str s) => .ok (some s)
  | some _ => .error (badUsage (within ++ key))

/-- An element of `usage.iterations`. -/
structure Element where
  (type model : Option String)
  usage : UsageBuckets

/-- An element with what is noted of it. -/
def elementOf : PyJson String → Except Error (Element × List String)
  | .dict element => do
    let type ← optStr element "type" "iterations."
    let model ← optStr element "model" "iterations."
    let (usage, notes) ← normalizeUsage element
    .ok (⟨type, model.filter (· ≠ ""), usage⟩, notes)
  | _ => .error (badUsage "iterations")

/-- `usage.iterations`, or none when it is absent, null or empty. -/
def iterationsOf (raw : Usage) : Except Error (List (PyJson String)) :=
  match raw.lookup "iterations" with
  | none => .ok []
  | some .null => .ok []
  | some (.list items) => .ok items
  | some _ => .error (badUsage "iterations")

/-- `_KIND_BY_TYPE`. -/
def kindByType : Option String → InferenceKind
  | some "message" => .message
  | some "compaction" => .compaction
  | some "advisor_message" => .advisor
  | some "fallback_message" => .fallback
  | _ => .other

/-- The kinds of elements: a message right before a fallback was declined. -/
def kindsOf : List Element → List InferenceKind
  | [] => []
  | e :: rest =>
    (if kindByType e.type = .message ∧ rest.head?.any (fun next => decide (next.type = some "fallback_message")) then
      .fallbackDeclined else kindByType e.type) :: kindsOf rest

/-- `_signature`. -/
def signature (u : UsageCounts) : Nat × Nat × Nat × Nat := (u.uncachedInput, u.cacheRead, u.cacheWrite, u.output)

/-- `_sum_signature`. -/
def sumSignature (items : List UsageBuckets) : Nat × Nat × Nat × Nat :=
  ((items.map (·.uncachedInput)).sum, (items.map (·.cacheRead)).sum, (items.map (·.cacheWrite)).sum,
    (items.map (·.output)).sum)

/-- Whether the elements agree with the top level. -/
def matchesTop (top : UsageBuckets) (elements : List Element) (kinds : List InferenceKind) : Bool :=
  let usages := elements.map (·.usage)
  match elements with
  | [e] => decide (signature e.usage.toUsageCounts = signature top.toUsageCounts)
  | _ =>
    if elements.any fun e => decide (e.type = some "fallback_message") then
      usages.getLast?.any fun u => decide (signature u.toUsageCounts = signature top.toUsageCounts)
    else
      let messages := ((usages.zip kinds).filter fun p => decide (p.2 = .message)).map Prod.fst
      decide (sumSignature usages = signature top.toUsageCounts) ||
        (!messages.isEmpty && decide (sumSignature messages = signature top.toUsageCounts))

def servingIndex (kinds : List InferenceKind) : Nat :=
  ((kinds.zipIdx.filter fun p => decide (p.1 = .message ∨ p.1 = .fallback)).getLast?.map Prod.snd).getD (kinds.length - 1)

def withServerTools (top u : UsageBuckets) : Except Error UsageBuckets :=
  { u.toUsageCounts with
    webSearchRequests := top.webSearchRequests, webFetchRequests := top.webFetchRequests : UsageCounts }.build

/-- The usages with the server tool counts that only the top level reports. -/
def attachServerTools (top : UsageBuckets) (serving : Nat) (usages : List UsageBuckets) :
    Except Error (List UsageBuckets) :=
  if (!usages.any fun u => decide (u.webSearchRequests ≠ 0 ∨ u.webFetchRequests ≠ 0)) &&
      decide (top.webSearchRequests ≠ 0 ∨ top.webFetchRequests ≠ 0) then
    (usages.zipIdx.mapM fun p => if p.2 = serving then withServerTools top p.1 else .ok p.1)
  else .ok usages

/-- `_refusal`. -/
def refusal (output maxAmbiguous : Nat) : Option Bool × String :=
  if output = 0 then (some false, "anthropic.refusal.pre_output")
  else if output ≤ maxAmbiguous then (none, "anthropic.refusal.ambiguous")
  else (some true, "anthropic.refusal.mid_stream")

/-- What a response is priced with: the model of the message and its pricing context, the advisor model, the
source of the usage, and the digests and model names of the host. -/
structure Response where
  hashes : Hashes
  normalizeModel : String → String
  messageModel : String
  ctx : PricingContext
  idPrefix : String
  usageSource : UsageSource := .final
  advisorModel : Option String := none
  refusalAmbiguousMaxOutput : Nat := 16

namespace Response

variable (r : Response)

/-- `stable_id("inf", id_prefix, index)`. -/
def inferenceId (index : Nat) : String := r.hashes.stableId "inf" [r.idPrefix, toString index]

/-- `ctx_for`. -/
def ctxFor (modelRaw : Option String) : PricingContext :=
  match modelRaw with
  | none => r.ctx
  | some raw =>
    if raw = "" ∨ raw = r.messageModel then r.ctx
    else if r.normalizeModel raw = r.ctx.model ∧ raw = r.ctx.modelRaw then r.ctx
    else { r.ctx with model := r.normalizeModel raw, modelRaw := raw }

/-- The pricing context of an element, and what is noted of it. -/
def pricingOf (e : Element) (kind : InferenceKind) : PricingContext × List String :=
  if kind = .advisor then
    match (e.model.or r.advisorModel).filter (· ≠ "") with
    | some raw => (r.ctxFor (some raw), [])
    | none => ({ r.ctx with model := "", modelRaw := "" }, ["dq.unpriced_model"])
  else (r.ctxFor e.model, [])

/-- The inference of an element. -/
def inferenceOf (index : Nat) (e : Element) (kind : InferenceKind) (usage : UsageBuckets) : Inference :=
  let declined := kind = .fallbackDeclined
  let (billable, rule) := refusal usage.output r.refusalAmbiguousMaxOutput
  { inferenceId := r.inferenceId index, kind, usage, pricing := (r.pricingOf e kind).1
    usageSource := r.usageSource
    billable := if declined then billable else some true
    billingRuleId := if declined then some rule else none }

def messageInference (top : UsageBuckets) : Inference :=
  { inferenceId := r.inferenceId 0, kind := .message, usage := top, pricing := r.ctx, usageSource := r.usageSource }

/-- The inferences of elements, and what is noted of their models. -/
def inferencesOf (elements : List Element) (kinds : List InferenceKind) (usages : List UsageBuckets) :
    List Inference × List String :=
  let parts := ((elements.zip kinds).zip usages).zipIdx
  (parts.map fun p => r.inferenceOf p.2 p.1.1.1 p.1.1.2 p.1.2, parts.flatMap fun p => (r.pricingOf p.1.1.1 p.1.1.2).2)

/-- The inferences of a response with iterations. -/
def fromElements (top : UsageBuckets) (items : List (PyJson String)) : Except Error (List Inference × List String) := do
  let read ← items.mapM elementOf
  let elements := read.map Prod.fst
  let kinds := kindsOf elements
  let mismatch := if matchesTop top elements kinds then [] else ["dq.iterations_mismatch"]
  let usages ← attachServerTools top (servingIndex kinds) (elements.map (·.usage))
  let (inferences, modelNotes) := r.inferencesOf elements kinds usages
  .ok (inferences, (read.flatMap Prod.snd ++ mismatch ++ modelNotes).eraseDups)

/-- `anthropic_inferences` of an object. -/
def inferencesOfUsage (raw : Usage) : Except Error (List Inference × List String) := do
  let (top, topNotes) ← normalizeUsage raw
  let items ← iterationsOf raw
  if items = [] then .ok ([r.messageInference top], topNotes.eraseDups) else r.fromElements top items

/-- `anthropic_inferences`. -/
def anthropicInferences : PyJson String → Except Error (List Inference × List String)
  | .dict raw => r.inferencesOfUsage raw
  | _ => .error (badUsage "usage")

end Response

end TokenBill.Conventions
