import TokenBill.Core.Json
import TokenBill.Core.Records

/-!
# Records as JSON

`to_json` of `core/records.py` for the records the ledger stores: every field in its
order, enumerations by their value, tuples as lists. A field appended after the
first release is left out while it holds its default.
-/

namespace TokenBill

open Json (ofStr? ofNat? ofInt? ofBool? nat pairs)

/-! ### Enumerations -/

/-- `InferenceKind.value`. -/
def InferenceKind.value : InferenceKind → String
  | message => "message" | compaction => "compaction" | advisor => "advisor"
  | fallbackDeclined => "fallback_declined" | fallback => "fallback" | keepalive => "keepalive"
  | outputResidual => "output_residual" | other => "other"

/-- `UsageSource.value`. -/
def UsageSource.value : UsageSource → String
  | final => "final" | messageStartOnly => "message_start_only" | partialStream => "partial_stream"
  | estimated => "estimated" | providerRollup => "provider_rollup"

/-- `Outcome.value`. -/
def Outcome.value : Outcome → String
  | ok => "ok" | httpError => "http_error" | aborted => "aborted" | timeout => "timeout"
  | refused => "refused" | networkError => "network_error" | unknown => "unknown"

/-- `LaneEventKind.value`. -/
def LaneEventKind.value : LaneEventKind → String
  | compaction => "compaction" | clear => "clear" | modelFallback => "model_fallback"
  | modelSwitchUser => "model_switch_user" | apiError => "api_error" | contextEdit => "context_edit"
  | upgrade => "upgrade" | contextInjection => "context_injection" | humanPrompt => "human_prompt"
  | sessionMeta => "session_meta" | costState => "cost_state" | imageEviction => "image_eviction"
  | quotaState => "quota_state"

/-! ### Requests -/

/-- `to_json(usage)`. -/
def UsageBuckets.toJson (u : UsageBuckets) : Json := .obj
  [("uncached_input", nat u.uncachedInput), ("cache_read", nat u.cacheRead),
   ("cache_write_5m", nat u.cacheWrite5m), ("cache_write_1h", nat u.cacheWrite1h),
   ("cache_write_other", nat u.cacheWriteOther),
   ("cache_write_other_ttl_s", ofNat? u.cacheWriteOtherTtlS),
   ("cache_write_unknown", nat u.cacheWriteUnknown), ("output", nat u.output),
   ("output_reasoning", ofNat? u.outputReasoning),
   ("web_search_requests", nat u.webSearchRequests), ("web_fetch_requests", nat u.webFetchRequests)]

/-- `to_json(context)`. -/
def PricingContext.toJson (c : PricingContext) : Json := .obj <|
  [("provider", .str c.provider), ("channel", .str c.channel), ("model", .str c.model),
   ("model_raw", .str c.modelRaw), ("service_tier", .str c.serviceTier), ("speed", .str c.speed),
   ("inference_geo", ofStr? c.inferenceGeo), ("endpoint_scope", .str c.endpointScope),
   ("write_ttl_hint", ofStr? c.writeTtlHint), ("billing_path", .str c.billingPath)] ++
  (if c.routing = "direct" then [] else [("routing", .str c.routing)]) ++
  (if c.compliance = none then [] else [("compliance", ofStr? c.compliance)]) ++
  (if c.contextTier = none then [] else [("context_tier", ofStr? c.contextTier)])

/-- `to_json(inference)`. -/
def Inference.toJson (i : Inference) : Json := .obj
  [("inference_id", .str i.inferenceId), ("kind", .str i.kind.value), ("usage", i.usage.toJson),
   ("pricing", i.pricing.toJson), ("usage_source", .str i.usageSource.value),
   ("billable", ofBool? i.billable), ("billing_rule_id", ofStr? i.billingRuleId),
   ("output_upper", ofNat? i.outputUpper),
   ("provider_reported_cost_nano", ofInt? i.providerReportedCostNano),
   ("provider_reported_cost_basis", ofStr? i.providerReportedCostBasis)]

/-- `to_json(diagnostics)`. -/
def CacheDiagnostic.toJson (d : CacheDiagnostic) : Json := .obj
  [("reason", .str d.reason), ("provider_reason", .str d.providerReason),
   ("missed_input_tokens_estimate", ofNat? d.missedInputTokensEstimate), ("source", .str d.source)]

/-- `to_json(attempt)`. -/
def Attempt.toJson (a : Attempt) : Json := .obj
  [("attempt_id", .str a.attemptId), ("attempt_no", nat a.attemptNo),
   ("ts_start_ms", nat a.tsStartMs), ("ttft_ms", ofNat? a.ttftMs),
   ("duration_ms", ofNat? a.durationMs), ("outcome", .str a.outcome.value),
   ("http_status", ofNat? a.httpStatus), ("error_type", ofStr? a.errorType),
   ("retry_layer", ofStr? a.retryLayer), ("retry_after_ms", ofNat? a.retryAfterMs),
   ("should_retry", ofBool? a.shouldRetry), ("provider_request_id", ofStr? a.providerRequestId),
   ("provider_message_id", ofStr? a.providerMessageId), ("model_served", ofStr? a.modelServed),
   ("stop_reason", ofStr? a.stopReason), ("inferences", .arr (a.inferences.map (·.toJson))),
   ("diagnostics", (a.diagnostics.map (·.toJson)).getD .null),
   ("applied_edits", .arr (a.appliedEdits.map fun e => .arr [.str e.1, nat e.2])),
   ("thinking_dropped", nat a.thinkingDropped), ("sdk_retry_count", ofNat? a.sdkRetryCount),
   ("raw_usage_json", ofStr? a.rawUsageJson), ("convention_id", ofStr? a.conventionId)]

/-- `to_json(breakpoint)`. -/
def Breakpoint.toJson (b : Breakpoint) : Json := .obj
  [("block_index", nat b.blockIndex), ("ttl", .str b.ttl), ("assumed", .bool b.assumed)]

/-- `to_json(params)`. -/
def RequestParams.toJson (p : RequestParams) : Json := .obj
  [("model_requested", .str p.modelRequested), ("max_tokens", ofNat? p.maxTokens),
   ("stream", ofBool? p.stream), ("thinking", ofStr? p.thinking), ("effort", ofStr? p.effort),
   ("session_effort", ofStr? p.sessionEffort), ("tool_choice", ofStr? p.toolChoice),
   ("output_format", ofStr? p.outputFormat), ("speed", ofStr? p.speed),
   ("service_tier_requested", ofStr? p.serviceTierRequested),
   ("inference_geo_requested", ofStr? p.inferenceGeoRequested),
   ("betas", .arr (p.betas.map .str)), ("breakpoints", .arr (p.breakpoints.map (·.toJson))),
   ("automatic_caching", ofBool? p.automaticCaching),
   ("context_management", ofStr? p.contextManagement), ("task_budget", ofNat? p.taskBudget),
   ("web_search_enabled", ofBool? p.webSearchEnabled),
   ("citations_enabled", ofBool? p.citationsEnabled), ("has_images", ofBool? p.hasImages),
   ("advisor_model", ofStr? p.advisorModel),
   ("disable_parallel_tool_use", ofBool? p.disableParallelToolUse)]

/-- `to_json(block)`. -/
def BlockRef.toJson (b : BlockRef) : Json := .obj
  [("h", .str b.h), ("h_sorted", ofStr? b.hSorted), ("h_norm", ofStr? b.hNorm), ("tier", .str b.tier),
   ("kind", .str b.kind), ("role", ofStr? b.role), ("n_bytes", nat b.nBytes),
   ("est_tokens", ofNat? b.estTokens),
   ("image_px", (b.imagePx.map fun p => Json.arr [nat p.1, nat p.2]).getD .null),
   ("volatile_classes", .arr (b.volatileClasses.map .str)), ("lookback_pos", nat b.lookbackPos),
   ("deferred", .bool b.deferred)]

/-- `to_json(fingerprint)`. -/
def ContentFingerprint.toJson (f : ContentFingerprint) : Json := .obj
  [("key_id", .str f.keyId), ("blocks", .arr (f.blocks.map (·.toJson))),
   ("tier_end", .arr [nat f.tierEnd.1, nat f.tierEnd.2.1, nat f.tierEnd.2.2])]

/-- `to_json(item)`. -/
def AppendedItem.toJson (a : AppendedItem) : Json := .obj
  [("kind", .str a.kind), ("name", ofStr? a.name), ("n_bytes", nat a.nBytes),
   ("is_error", .bool a.isError), ("images", nat a.images)]

/-- `to_json(attribution)`. -/
def Attribution.toJson (a : Attribution) : Json := .obj
  [("principal", ofStr? (a.principal.map (·.text))), ("team", ofStr? a.team),
   ("cost_center", ofStr? a.costCenter), ("project", ofStr? a.project), ("repo", ofStr? a.repo),
   ("workspace_id", ofStr? a.workspaceId), ("api_key_id", ofStr? a.apiKeyId),
   ("agent_product", ofStr? a.agentProduct), ("agent_type", ofStr? a.agentType),
   ("query_source", ofStr? a.querySource), ("skill", ofStr? a.skill),
   ("mcp_server", ofStr? a.mcpServer), ("plugin", ofStr? a.plugin),
   ("workload_class", .str a.workloadClass.value), ("entrypoint", ofStr? a.entrypoint),
   ("client_version", ofStr? a.clientVersion), ("billing_path", ofStr? a.billingPath),
   ("cwd_key", ofStr? a.cwdKey), ("arm", ofStr? a.arm), ("wave", ofStr? a.wave),
   ("extra", pairs a.extra)]

/-- `to_json(source)`. -/
def SourceRef.toJson (s : SourceRef) : Json := .obj
  [("adapter", .str s.adapter), ("source_id", .str s.sourceId), ("locator", .str s.locator),
   ("fidelity", nat s.fidelity.toNat), ("priority", .int s.priority)]

/-- `to_json(request)`. -/
def Request.toJson (r : Request) : Json := .obj
  [("request_id", .str r.requestId), ("session_key", .str r.sessionKey),
   ("lane_key", .str r.laneKey), ("seq", nat r.seq), ("attribution", r.attribution.toJson),
   ("params", r.params.toJson), ("attempts", .arr (r.attempts.map (·.toJson))),
   ("fingerprint", (r.fingerprint.map (·.toJson)).getD .null),
   ("appended", .arr (r.appended.map (·.toJson))),
   ("source", (r.source.map (·.toJson)).getD .null)]

theorem canonical_principal_inj {r : Request} {p q : Principal}
    (h : Json.canonical { r with attribution := { r.attribution with principal := some p } }.toJson =
      Json.canonical { r with attribution := { r.attribution with principal := some q } }.toJson) :
    Json.quote p.text = Json.quote q.text := by
  have hr := String.ofList_injective h
  have ha := Json.render_field_inj [("request_id", .str r.requestId), ("session_key", .str r.sessionKey),
    ("lane_key", .str r.laneKey), ("seq", .nat r.seq)] hr
  exact Json.render_field_inj [] ha

/-! ### Lanes and provider records -/

def AttrValue.toJson : AttrValue → Json
  | .str s => .str s | .int n => .int n | .bool b => .bool b | .null => .null

/-- `to_json(event)`. -/
def LaneEvent.toJson (e : LaneEvent) : Json := .obj
  [("lane_key", .str e.laneKey), ("ts_ms", nat e.tsMs), ("kind", .str e.kind.value),
   ("attrs", .arr (e.attrs.map fun a => .arr [.str a.1, a.2.toJson]))]

/-- `to_json(lane)`. -/
def Lane.toJson (l : Lane) : Json := .obj
  [("lane_key", .str l.laneKey), ("session_key", .str l.sessionKey), ("kind", .str l.kind.value),
   ("parent_lane_key", ofStr? l.parentLaneKey), ("cache_scope_key", .str l.cacheScopeKey),
   ("requests", .arr (l.requests.map (·.toJson))), ("events", .arr (l.events.map (·.toJson))),
   ("ttl_observed", .str l.ttlObserved), ("lane_exact", .bool l.laneExact)]

/-- The digits of `n`, at least `width` of them. -/
def padded (width n : Nat) : String :=
  let digits := toString n
  String.ofList (List.replicate (width - digits.length) '0') ++ digits

/-- `YYYY-MM-DD` of a day since 1970-01-01. -/
def isoDate (day : Nat) : String :=
  -- days since 0000-03-01, in eras of 400 years and years that end in February
  let z := day + 719468
  let era := z / 146097
  let doe := z % 146097
  let yoe := (doe - doe / 1460 + doe / 36524 - doe / 146096) / 365
  let doy := doe - (365 * yoe + yoe / 4 - yoe / 100)
  let mp := (5 * doy + 2) / 153
  let month := if mp < 10 then mp + 3 else mp - 9
  let year := era * 400 + yoe + if month ≤ 2 then 1 else 0
  padded 4 year ++ "-" ++ padded 2 month ++ "-" ++ padded 2 (doy - (153 * mp + 2) / 5 + 1)

example : [0, 59, 11016, 20000, 2932896].map isoDate =
    ["1970-01-01", "1970-03-01", "2000-02-29", "2024-10-04", "9999-12-31"] := by decide

/-- `to_json(aggregate)`. -/
def UsageAggregate.toJson (a : UsageAggregate) : Json := .obj
  [("agg_id", .str a.aggId), ("source_kind", .str a.sourceKind),
   ("bucket_start_ms", nat a.bucketStartMs), ("bucket_end_ms", nat a.bucketEndMs),
   ("dims", pairs a.dims), ("usage", a.usage.toJson),
   ("reported_cost_nano", ofInt? a.reportedCostNano),
   ("reported_cost_basis", ofStr? a.reportedCostBasis), ("list_cost_nano", ofInt? a.listCostNano),
   ("finality", .str a.finality), ("fetched_ms", nat a.fetchedMs)]

def omitNone (name : String) (value : Option String) : List (String × Json) :=
  if value = none then [] else [(name, ofStr? value)]

/-- The fields of a cost line that are always written. -/
def CostLine.fixedFields (c : CostLine) : List (String × Json) :=
  [("line_id", .str c.lineId), ("source_kind", .str c.sourceKind),
   ("date_utc", .str (isoDate c.dateUtc)), ("channel", .str c.channel),
   ("workspace_id", ofStr? c.workspaceId), ("description", .str c.description),
   ("model", ofStr? c.model), ("cost_type", ofStr? c.costType), ("token_type", ofStr? c.tokenType),
   ("sku", ofStr? c.sku), ("service_tier", ofStr? c.serviceTier),
   ("inference_geo", ofStr? c.inferenceGeo), ("endpoint_scope", ofStr? c.endpointScope),
   ("amount_nano", .int c.amountNano), ("list_amount_nano", ofInt? c.listAmountNano),
   ("currency", .str c.currency), ("finality", .str c.finality),
   ("principal", ofStr? (c.principal.map (·.text))), ("fetched_ms", nat c.fetchedMs)]

/-- The fields of a cost line that are left out while they are absent. -/
def CostLine.appended (c : CostLine) : List (String × Option String) :=
  [("quantity", c.quantity), ("unit", c.unit), ("cost_center", c.costCenter), ("team", c.team), ("repo", c.repo),
    ("workload", c.workload), ("workflow", c.workflow), ("routing", c.routing), ("speed", c.speed),
    ("pseudo", c.pseudo)]

/-- `to_json(line)`. -/
def CostLine.toJson (c : CostLine) : Json :=
  .obj (c.fixedFields ++ c.appended.flatMap fun f => omitNone f.1 f.2)

/-- The fields of an outcome aggregate that are always written. -/
def OutcomeAggregate.fixedFields (o : OutcomeAggregate) : List (String × Json) :=
  [("date_utc", .str (isoDate o.dateUtc)), ("team", .str o.team), ("n_users", nat o.nUsers),
   ("sessions", nat o.sessions), ("commits", nat o.commits), ("pull_requests", nat o.pullRequests),
   ("lines_added", nat o.linesAdded), ("lines_removed", nat o.linesRemoved),
   ("edits_accepted", nat o.editsAccepted), ("edits_rejected", nat o.editsRejected),
   ("source_kind", .str o.sourceKind)]

def OutcomeAggregate.extraJson (o : OutcomeAggregate) : Json := .arr (o.extra.map fun e => .arr [.str e.1, nat e.2])

def OutcomeAggregate.extraField (o : OutcomeAggregate) : List (String × Json) :=
  if o.extra = [] then [] else [("extra", o.extraJson)]

/-- `to_json(outcome)`. -/
def OutcomeAggregate.toJson (o : OutcomeAggregate) : Json := .obj (o.fixedFields ++ o.extraField)

end TokenBill
