import TokenBill.Core.RecordRoundTrip
import Mathlib.Data.Prod.Lex

/-!
# The record types

Every dataclass of the ledger with its fields, as the source declares them, and what `__post_init__`
makes of their values: some tuples are put in order, everything else is checked. The document of a
valid record of each type is decoded to the record (`record_round_trip`).
-/

namespace TokenBill.Codec

/-! ### The types -/

/-- The dataclasses with a JSON form. -/
inductive RecordType where
  | usageBuckets | pricingContext | inference | cacheDiagnostic | attempt | breakpoint | requestParams
  | blockRef | contentFingerprint | appendedItem | attribution | sourceRef | request | laneEvent | lane
  | session | usageAggregate | costLine | outcomeAggregate | usageRecord | licenseSnapshot | activityDay
  | configSnapshot | figure | dataQualityNote | sourceCitation | rateRow | policy | evidenceItem | fix
  | scope | finding
  deriving DecidableEq

/-- The enumerations of their fields. -/
inductive EnumType where
  | inferenceKind | usageSource | outcome | workloadClass | fidelity | laneEventKind | laneKind | evidence
  | basis | finality | calibration

/-- `cls.__name__` -/
def RecordType.className : RecordType → String
  | .usageBuckets => "UsageBuckets"
  | .pricingContext => "PricingContext"
  | .inference => "Inference"
  | .cacheDiagnostic => "CacheDiagnostic"
  | .attempt => "Attempt"
  | .breakpoint => "Breakpoint"
  | .requestParams => "RequestParams"
  | .blockRef => "BlockRef"
  | .contentFingerprint => "ContentFingerprint"
  | .appendedItem => "AppendedItem"
  | .attribution => "Attribution"
  | .sourceRef => "SourceRef"
  | .request => "Request"
  | .laneEvent => "LaneEvent"
  | .lane => "Lane"
  | .session => "Session"
  | .usageAggregate => "UsageAggregate"
  | .costLine => "CostLine"
  | .outcomeAggregate => "OutcomeAggregate"
  | .usageRecord => "UsageRecord"
  | .licenseSnapshot => "LicenseSnapshot"
  | .activityDay => "ActivityDay"
  | .configSnapshot => "ConfigSnapshot"
  | .figure => "Figure"
  | .dataQualityNote => "DataQualityNote"
  | .sourceCitation => "SourceCitation"
  | .rateRow => "RateRow"
  | .policy => "Policy"
  | .evidenceItem => "EvidenceItem"
  | .fix => "Fix"
  | .scope => "Scope"
  | .finding => "Finding"

/-- `enum_cls.__name__` -/
def EnumType.enumName : EnumType → String
  | .inferenceKind => "InferenceKind"
  | .usageSource => "UsageSource"
  | .outcome => "Outcome"
  | .workloadClass => "WorkloadClass"
  | .fidelity => "Fidelity"
  | .laneEventKind => "LaneEventKind"
  | .laneKind => "LaneKind"
  | .evidence => "Evidence"
  | .basis => "Basis"
  | .finality => "Finality"
  | .calibration => "Calibration"

/-- The values of an enumeration's members. -/
def EnumType.values : EnumType → List EnumValue
  | .inferenceKind =>
    ["message", "compaction", "advisor", "fallback_declined", "fallback", "keepalive", "output_residual",
    "other"].map .text
  | .usageSource =>
    ["final", "message_start_only", "partial_stream", "estimated", "provider_rollup"].map .text
  | .outcome => ["ok", "http_error", "aborted", "timeout", "refused", "network_error", "unknown"].map .text
  | .workloadClass => ["interactive", "ci", "scheduled", "eval", "batch", "service", "unknown"].map .text
  | .fidelity => [0, 1, 2, 3].map .number
  | .laneEventKind =>
    ["compaction", "clear", "model_fallback", "model_switch_user", "api_error", "context_edit", "upgrade",
    "context_injection", "human_prompt", "session_meta", "cost_state", "image_eviction",
    "quota_state"].map .text
  | .laneKind =>
    ["main", "subagent", "workflow_agent", "helper", "compaction", "api_run", "unknown"].map .text
  | .evidence => ["exact", "estimated", "measured", "verified"].map .text
  | .basis => ["list", "contract", "invoice", "provider_estimate", "list_equivalent"].map .text
  | .finality => ["provisional", "final", "n/a"].map .text
  | .calibration => ["calibrated", "uncalibrated", "n/a"].map .text

/-- The values of the record types. -/
abbrev RecordVal : Type := Val RecordType EnumType

def field (name : String) (hint : Hint RecordType EnumType) : Field RecordType EnumType :=
  ⟨name, hint, none, false⟩

def withDefault (name : String) (hint : Hint RecordType EnumType) (default : RecordVal) :
    Field RecordType EnumType := ⟨name, hint, some default, false⟩

/-- `appended(default)` -/
def appended (name : String) (hint : Hint RecordType EnumType) (default : RecordVal) :
    Field RecordType EnumType := ⟨name, hint, some default, true⟩

/-- `hint | None` -/
def orNone (hint : Hint RecordType EnumType) : Hint RecordType EnumType := .union [hint] true

/-- `dataclasses.fields(cls)` -/
def RecordType.fields : RecordType → List (Field RecordType EnumType)
  | .usageBuckets =>
    [withDefault "uncached_input" .int (.int 0), withDefault "cache_read" .int (.int 0),
    withDefault "cache_write_5m" .int (.int 0), withDefault "cache_write_1h" .int (.int 0),
    withDefault "cache_write_other" .int (.int 0),
    withDefault "cache_write_other_ttl_s" (orNone .int) .none,
    withDefault "cache_write_unknown" .int (.int 0), withDefault "output" .int (.int 0),
    withDefault "output_reasoning" (orNone .int) .none, withDefault "web_search_requests" .int (.int 0),
    withDefault "web_fetch_requests" .int (.int 0)]
  | .pricingContext =>
    [field "provider" .str, field "channel" .str, field "model" .str, field "model_raw" .str,
    withDefault "service_tier" .str (.str "standard"), withDefault "speed" .str (.str "standard"),
    withDefault "inference_geo" (orNone .str) .none, withDefault "endpoint_scope" .str (.str "unknown"),
    withDefault "write_ttl_hint" (orNone .str) .none, withDefault "billing_path" .str (.str "unknown"),
    appended "routing" .str (.str "direct"), appended "compliance" (orNone .str) .none,
    appended "context_tier" (orNone .str) .none]
  | .inference =>
    [field "inference_id" .str, field "kind" (.enum .inferenceKind), field "usage" (.record .usageBuckets),
    field "pricing" (.record .pricingContext),
    withDefault "usage_source" (.enum .usageSource) (.member .usageSource (.text "final")),
    withDefault "billable" (orNone .bool) (.bool true), withDefault "billing_rule_id" (orNone .str) .none,
    withDefault "output_upper" (orNone .int) .none,
    withDefault "provider_reported_cost_nano" (orNone .int) .none,
    withDefault "provider_reported_cost_basis" (orNone .str) .none]
  | .cacheDiagnostic =>
    [field "reason" .str, field "provider_reason" .str, field "missed_input_tokens_estimate" (orNone .int),
    field "source" .str]
  | .attempt =>
    [field "attempt_id" .str, field "attempt_no" .int, field "ts_start_ms" .int,
    field "ttft_ms" (orNone .int), field "duration_ms" (orNone .int), field "outcome" (.enum .outcome),
    field "http_status" (orNone .int), field "error_type" (orNone .str), field "retry_layer" (orNone .str),
    field "retry_after_ms" (orNone .int), field "should_retry" (orNone .bool),
    field "provider_request_id" (orNone .str), field "provider_message_id" (orNone .str),
    field "model_served" (orNone .str), field "stop_reason" (orNone .str),
    field "inferences" (.variadic (.record .inference)),
    withDefault "diagnostics" (orNone (.record .cacheDiagnostic)) .none,
    withDefault "applied_edits" (.variadic (.fixed [.str, .int])) (.tuple []),
    withDefault "thinking_dropped" .int (.int 0), withDefault "sdk_retry_count" (orNone .int) .none,
    withDefault "raw_usage_json" (orNone .str) .none, withDefault "convention_id" (orNone .str) .none]
  | .breakpoint => [field "block_index" .int, field "ttl" .str, withDefault "assumed" .bool (.bool false)]
  | .requestParams =>
    [field "model_requested" .str, withDefault "max_tokens" (orNone .int) .none,
    withDefault "stream" (orNone .bool) .none, withDefault "thinking" (orNone .str) .none,
    withDefault "effort" (orNone .str) .none, withDefault "session_effort" (orNone .str) .none,
    withDefault "tool_choice" (orNone .str) .none, withDefault "output_format" (orNone .str) .none,
    withDefault "speed" (orNone .str) .none, withDefault "service_tier_requested" (orNone .str) .none,
    withDefault "inference_geo_requested" (orNone .str) .none,
    withDefault "betas" (.variadic .str) (.tuple []),
    withDefault "breakpoints" (.variadic (.record .breakpoint)) (.tuple []),
    withDefault "automatic_caching" (orNone .bool) .none,
    withDefault "context_management" (orNone .str) .none, withDefault "task_budget" (orNone .int) .none,
    withDefault "web_search_enabled" (orNone .bool) .none,
    withDefault "citations_enabled" (orNone .bool) .none, withDefault "has_images" (orNone .bool) .none,
    withDefault "advisor_model" (orNone .str) .none,
    withDefault "disable_parallel_tool_use" (orNone .bool) .none]
  | .blockRef =>
    [field "h" .str, field "h_sorted" (orNone .str), field "h_norm" (orNone .str), field "tier" .str,
    field "kind" .str, field "role" (orNone .str), field "n_bytes" .int, field "est_tokens" (orNone .int),
    withDefault "image_px" (orNone (.fixed [.int, .int])) .none,
    withDefault "volatile_classes" (.variadic .str) (.tuple []), withDefault "lookback_pos" .int (.int 0),
    withDefault "deferred" .bool (.bool false)]
  | .contentFingerprint =>
    [field "key_id" .str, field "blocks" (.variadic (.record .blockRef)),
    field "tier_end" (.fixed [.int, .int, .int])]
  | .appendedItem =>
    [field "kind" .str, field "name" (orNone .str), field "n_bytes" .int,
    withDefault "is_error" .bool (.bool false), withDefault "images" .int (.int 0)]
  | .attribution =>
    [withDefault "principal" (orNone .str) .none, withDefault "team" (orNone .str) .none,
    withDefault "cost_center" (orNone .str) .none, withDefault "project" (orNone .str) .none,
    withDefault "repo" (orNone .str) .none, withDefault "workspace_id" (orNone .str) .none,
    withDefault "api_key_id" (orNone .str) .none, withDefault "agent_product" (orNone .str) .none,
    withDefault "agent_type" (orNone .str) .none, withDefault "query_source" (orNone .str) .none,
    withDefault "skill" (orNone .str) .none, withDefault "mcp_server" (orNone .str) .none,
    withDefault "plugin" (orNone .str) .none,
    withDefault "workload_class" (.enum .workloadClass) (.member .workloadClass (.text "unknown")),
    withDefault "entrypoint" (orNone .str) .none, withDefault "client_version" (orNone .str) .none,
    withDefault "billing_path" (orNone .str) .none, withDefault "cwd_key" (orNone .str) .none,
    withDefault "arm" (orNone .str) .none, withDefault "wave" (orNone .str) .none,
    withDefault "extra" (.variadic (.fixed [.str, .str])) (.tuple [])]
  | .sourceRef =>
    [field "adapter" .str, field "source_id" .str, field "locator" .str, field "fidelity" (.enum .fidelity),
    field "priority" .int]
  | .request =>
    [field "request_id" .str, field "session_key" .str, field "lane_key" .str, field "seq" .int,
    field "attribution" (.record .attribution), field "params" (.record .requestParams),
    field "attempts" (.variadic (.record .attempt)),
    withDefault "fingerprint" (orNone (.record .contentFingerprint)) .none,
    withDefault "appended" (.variadic (.record .appendedItem)) (.tuple []),
    withDefault "source" (orNone (.record .sourceRef)) .none]
  | .laneEvent =>
    [field "lane_key" .str, field "ts_ms" .int, field "kind" (.enum .laneEventKind),
    withDefault "attrs" (.variadic (.fixed [.str, .union [.str, .int, .bool] true])) (.tuple [])]
  | .lane =>
    [field "lane_key" .str, field "session_key" .str, field "kind" (.enum .laneKind),
    field "parent_lane_key" (orNone .str), field "cache_scope_key" .str,
    field "requests" (.variadic (.record .request)),
    withDefault "events" (.variadic (.record .laneEvent)) (.tuple []),
    withDefault "ttl_observed" .str (.str "unknown"), withDefault "lane_exact" .bool (.bool true)]
  | .session =>
    [field "session_key" .str, field "source_kind" .str, field "attribution" (.record .attribution),
    field "lanes" (.variadic (.record .lane)), field "started_ms" .int, field "ended_ms" .int]
  | .usageAggregate =>
    [field "agg_id" .str, field "source_kind" .str, field "bucket_start_ms" .int, field "bucket_end_ms" .int,
    field "dims" (.variadic (.fixed [.str, .str])), field "usage" (.record .usageBuckets),
    withDefault "reported_cost_nano" (orNone .int) .none,
    withDefault "reported_cost_basis" (orNone .str) .none, withDefault "list_cost_nano" (orNone .int) .none,
    withDefault "finality" .str (.str "provisional"), withDefault "fetched_ms" .int (.int 0)]
  | .costLine =>
    [field "line_id" .str, field "source_kind" .str, field "date_utc" .str, field "channel" .str,
    field "workspace_id" (orNone .str), field "description" .str, field "model" (orNone .str),
    field "cost_type" (orNone .str), field "token_type" (orNone .str), field "sku" (orNone .str),
    field "service_tier" (orNone .str), field "inference_geo" (orNone .str),
    field "endpoint_scope" (orNone .str), field "amount_nano" .int,
    withDefault "list_amount_nano" (orNone .int) .none, withDefault "currency" .str (.str "USD"),
    withDefault "finality" .str (.str "provisional"), withDefault "principal" (orNone .str) .none,
    withDefault "fetched_ms" .int (.int 0), appended "quantity" (orNone .str) .none,
    appended "unit" (orNone .str) .none, appended "cost_center" (orNone .str) .none,
    appended "team" (orNone .str) .none, appended "repo" (orNone .str) .none,
    appended "workload" (orNone .str) .none, appended "workflow" (orNone .str) .none,
    appended "routing" (orNone .str) .none, appended "speed" (orNone .str) .none,
    appended "pseudo" (orNone .str) .none]
  | .outcomeAggregate =>
    [field "date_utc" .str, field "team" .str, field "n_users" .int, field "sessions" .int,
    field "commits" .int, field "pull_requests" .int, field "lines_added" .int, field "lines_removed" .int,
    field "edits_accepted" .int, field "edits_rejected" .int,
    withDefault "source_kind" .str (.str "anthropic.cc_analytics"),
    appended "extra" (.variadic (.fixed [.str, .int])) (.tuple [])]
  | .usageRecord =>
    [field "inference_id" .str, field "request_id" .str, field "attempt_id" .str, field "session_key" .str,
    field "lane_key" .str, field "lane_kind" (.enum .laneKind), field "ts_ms" .int, field "date_utc" .str,
    field "kind" (.enum .inferenceKind), field "usage_source" (.enum .usageSource),
    field "billable" (orNone .bool), field "billing_rule_id" (orNone .str),
    field "pricing" (.record .pricingContext), field "usage" (.record .usageBuckets),
    field "attribution" (.record .attribution), field "fidelity" (.enum .fidelity)]
  | .licenseSnapshot =>
    [field "snapshot_date" .str, field "product" .str, field "plan" .str, field "principal" .str,
    field "team" (orNone .str), field "cost_center" (orNone .str), field "org" (orNone .str),
    field "seat_created" (orNone .str), field "pending_cancellation" (orNone .str),
    field "last_activity_bucket" .str, field "last_activity_surface" (orNone .str),
    field "last_authenticated_bucket" .str, field "assigned_via_team" (orNone .bool),
    withDefault "fetched_ms" .int (.int 0), withDefault "source_kind" .str (.str "github.copilot_seats")]
  | .activityDay =>
    [field "date_utc" .str, field "product" .str, field "principal" .str, field "team" (orNone .str),
    field "cost_center" (orNone .str), field "reported_cost_nano" (orNone .int),
    field "counts" (.variadic (.fixed [.str, .int])), field "flags" (.variadic .str),
    withDefault "fetched_ms" .int (.int 0), withDefault "source_kind" .str (.str "github.copilot_metrics")]
  | .configSnapshot =>
    [field "snapshot_ms" .int, field "source_kind" .str, field "kind" .str, field "entity_id" .str,
    field "attrs" (.variadic (.fixed [.str, .union [.str, .int, .bool] true])),
    withDefault "fetched_ms" .int (.int 0)]
  | .figure =>
    [field "nano" (orNone .int), field "evidence" (.enum .evidence), field "basis" (.enum .basis),
    withDefault "finality" (.enum .finality) (.member .finality (.text "n/a")),
    withDefault "low_nano" (orNone .int) .none, withDefault "high_nano" (orNone .int) .none,
    withDefault "ci_level_pct" (orNone .int) .none,
    withDefault "calibration" (.enum .calibration) (.member .calibration (.text "n/a")),
    withDefault "upper_bound" .bool (.bool false), withDefault "provenance" (.variadic .str) (.tuple []),
    withDefault "note" .str (.str "")]
  | .dataQualityNote =>
    [field "code" .str, field "severity" .str, field "count" .int, field "detail" .str,
    withDefault "tokens" (orNone .int) .none, withDefault "figure" (orNone (.record .figure)) .none]
  | .sourceCitation => [field "url" .str, field "retrieved" .str, field "finding" (orNone .str)]
  | .rateRow =>
    [field "row_id" .str, field "provider" .str, field "channel" .str, field "model" .str,
    field "aliases" (.variadic .str), field "generation" .str, field "effective_from" .str,
    field "effective_to" (orNone .str), field "input_usd_per_mtok" .decimal,
    field "output_usd_per_mtok" .decimal, field "cache_read_mult" (orNone .decimal),
    field "cache_write_5m_mult" (orNone .decimal), field "cache_write_1h_mult" (orNone .decimal),
    field "cache_write_other_mult" (orNone .decimal), field "cache_write_other_ttl_s" (orNone .int),
    field "published_absolute" (.variadic (.fixed [.str, .decimal])),
    field "min_cacheable_tokens" (orNone .int), field "tokenizer_family" .str,
    field "per_request_usd" (.variadic (.fixed [.str, .decimal])),
    field "long_context_threshold" (orNone .int),
    field "long_context_usd_per_mtok" (.variadic (.fixed [.str, .decimal])),
    field "supports" (.variadic .str), field "enabled" .bool, field "verified_on" .str,
    field "sources" (.variadic (.record .sourceCitation)), withDefault "promotion" (orNone .str) .none,
    withDefault "notes" .str (.str "")]
  | .policy =>
    [field "name" .str, withDefault "ttl" (.variadic (.fixed [.str, .str])) (.tuple []),
    withDefault "keepalive" (orNone (.fixed [.str, .int, .int])) .none,
    withDefault "compaction_window" (orNone (.fixed [.int, orNone .int])) .none,
    withDefault "cold_resume" (orNone (.fixed [.str, .int])) .none,
    withDefault "model_remap" (.variadic (.fixed [.str, .str])) (.tuple []),
    withDefault "effort" (.variadic (.fixed [.str, .str, .str])) (.tuple []),
    withDefault "fast_off" .bool (.bool false), withDefault "geo_global" .bool (.bool false),
    withDefault "regional_to_global" .bool (.bool false), withDefault "batch" (orNone .str) .none,
    withDefault "repairs" (.variadic .str) (.tuple []), withDefault "breakpoint_policy" (orNone .str) .none]
  | .evidenceItem =>
    [field "kind" .str, field "ref" .str,
    field "attrs" (.variadic (.fixed [.str, .union [.str, .int] false]))]
  | .fix =>
    [field "text" .str, field "config_patch" (orNone (.variadic (.fixed [.str, .str]))),
    field "target" (orNone .str), field "doc_url" (orNone .str),
    withDefault "gates" (.variadic .str) (.tuple [])]
  | .scope => [field "dims" (.variadic (.fixed [.str, .str]))]
  | .finding =>
    [field "finding_id" .str, field "detector_id" .str, field "kind" .str, field "detector_version" .str,
    field "category" .str, field "lever_class" .str, field "audience" .str, field "title" .str,
    field "summary" .str, field "scope" (.record .scope), field "n_events" .int, field "n_lanes" .int,
    field "n_users" .int, field "first_seen_ms" .int, field "cost_observed" (.record .figure),
    field "recoverable" (orNone (.record .figure)),
    withDefault "recoverable_shapley" (orNone (.record .figure)) .none,
    withDefault "projected_monthly" (orNone (.record .figure)) .none,
    withDefault "lever_ids" (.variadic .str) (.tuple []),
    withDefault "evidence" (.variadic (.record .evidenceItem)) (.tuple []),
    withDefault "fix" (orNone (.record .fix)) .none, withDefault "confidence" .str (.str "medium"),
    withDefault "validated_against" (orNone .str) .none, withDefault "needs_eval" .bool (.bool false),
    withDefault "references" (.variadic .str) (.tuple []),
    appended "headroom" (orNone (.record .figure)) .none]

def schema : Schema RecordType EnumType :=
  ⟨RecordType.className, RecordType.fields, EnumType.enumName, EnumType.values⟩

/-- The names of the fields of a type differ, its unions can be told apart, and an appended field goes
by a default that nothing else equals. -/
theorem schema_readable : schema.Readable where
  names := by intro c; cases c <;> decide +kernel
  hints := by intro c; cases c <;> decide
  defaults := by intro c; cases c <;> decide

/-! ### What constructors put in order -/

/-- The value of a field of a record. -/
def getField (v : RecordVal) (name : String) : RecordVal :=
  match v with
  | .record c values => ((c.fields.map Field.name).zip values).lookup name |>.getD .none
  | _ => .none

def Val.toInt : RecordVal → Int
  | .int n => n
  | _ => 0

def Val.items : RecordVal → List RecordVal
  | .tuple vs => vs
  | _ => []

def Val.toText (v : RecordVal) : String := v.text?.getD ""

def pairKey (v : RecordVal) : String := (v.items.head?.map Val.toText).getD ""

/-- `_request_sort_key(r)` -/
def requestSortKey (r : RecordVal) : Int ×ₗ Int ×ₗ String :=
  let first := (getField r "attempts").items.head?.getD .none
  toLex ((getField first "ts_start_ms").toInt, toLex ((getField r "seq").toInt, (getField r "request_id").toText))

/-- `repr(v)` of an event attribute, given that of texts. -/
def attrRepr (reprStr : String → String) : RecordVal → String
  | .bool true => "True"
  | .bool false => "False"
  | .int n => toString n
  | .str s => reprStr s
  | _ => "None"

/-- `_event_sort_key(ev)` -/
def eventSortKey (reprStr : String → String) (ev : RecordVal) : Int ×ₗ String ×ₗ List (String ×ₗ String) :=
  toLex ((getField ev "ts_ms").toInt, toLex ((getField ev "kind").toText,
    (getField ev "attrs").items.map fun kv =>
      toLex (pairKey kv, attrRepr reprStr (kv.items.tail.head?.getD .none))))

/-- `sorted(items, key=key)` -/
def sortOn {α : Type} [LinearOrder α] (key : RecordVal → α) (vs : List RecordVal) : List RecordVal :=
  vs.mergeSort fun v w => decide (key v ≤ key w)

/-- What `__post_init__` makes of the items of a tuple: the items of these fields in order, any other as
they are. -/
def arrange (reprStr : String → String) : RecordType → String → List RecordVal → List RecordVal
  | .requestParams, "betas" => sortOn Val.toText
  | .attribution, "extra" => sortOn pairKey
  | .laneEvent, "attrs" => sortOn pairKey
  | .lane, "requests" => sortOn requestSortKey
  | .lane, "events" => sortOn (eventSortKey reprStr)
  | .usageAggregate, "dims" => sortOn pairKey
  | .outcomeAggregate, "extra" => sortOn pairKey
  | .activityDay, "counts" => sortOn pairKey
  | .activityDay, "flags" => sortOn Val.toText
  | .configSnapshot, "attrs" => sortOn pairKey
  | _, _ => id

/-- What `__post_init__` makes of the value of a field. -/
def arrangeField (reprStr : String → String) (c : RecordType) (f : Field RecordType EnumType) :
    RecordVal → RecordVal
  | .tuple vs => .tuple (arrange reprStr c f.name vs)
  | v => v

/-- What `__post_init__` makes of the values of the fields. -/
def arrangeFields (reprStr : String → String) (c : RecordType) :
    List (Field RecordType EnumType) → List RecordVal → List RecordVal
  | f :: fs, v :: vs => arrangeField reprStr c f v :: arrangeFields reprStr c fs vs
  | _, vs => vs

/-- A constructor: `__post_init__` puts tuples in order and checks the fields, which gives the text of a
`ContractViolation` or nothing. No check reads the order that a tuple was given in. -/
def postInit (reprStr : String → String) (check : RecordType → List RecordVal → Option String) :
    Construct RecordType EnumType := fun c given =>
  let fields := arrangeFields reprStr c c.fields given
  match check c fields with
  | some why => .error why
  | none => .ok fields

section PostInit

variable {reprStr : String → String} {check : RecordType → List RecordVal → Option String}

theorem sortOn_sortOn {α : Type} [LinearOrder α] (key : RecordVal → α) (vs : List RecordVal) :
    sortOn key (sortOn key vs) = sortOn key vs := by
  refine List.mergeSort_of_pairwise (List.pairwise_mergeSort (fun a b c hab hbc => ?_) (fun a b => ?_) vs)
  · simp only [decide_eq_true_eq] at *
    exact le_trans hab hbc
  · simpa using le_total (key a) (key b)

theorem arrange_arrange (c : RecordType) (name : String) (vs : List RecordVal) :
    arrange reprStr c name (arrange reprStr c name vs) = arrange reprStr c name vs := by
  have key : ∀ f, arrange reprStr c name = f → f (f vs) = f vs := fun f hf => by
    unfold arrange at hf
    split at hf <;> subst hf <;> first | exact sortOn_sortOn _ vs | rfl
  exact key _ rfl

theorem arrangeField_arrangeField (c : RecordType) (f : Field RecordType EnumType) (v : RecordVal) :
    arrangeField reprStr c f (arrangeField reprStr c f v) = arrangeField reprStr c f v := by
  cases v with
  | tuple vs => exact congrArg Val.tuple (arrange_arrange c f.name vs)
  | _ => rfl

theorem arrangeFields_arrangeFields (c : RecordType) (fs : List (Field RecordType EnumType)) (vs : List RecordVal) :
    arrangeFields reprStr c fs (arrangeFields reprStr c fs vs) = arrangeFields reprStr c fs vs := by
  induction fs generalizing vs with
  | nil => cases vs <;> rfl
  | cons f fs ih =>
    cases vs with
    | nil => rfl
    | cons v vs =>
      rw [arrangeFields, arrangeFields, arrangeField_arrangeField, ih]

/-- A constructor leaves the fields of a record it has built alone. -/
theorem postInit_idem {c : RecordType} {given fields : List RecordVal}
    (h : postInit reprStr check c given = .ok fields) : postInit reprStr check c fields = .ok fields := by
  unfold postInit at h ⊢
  cases hcheck : check c (arrangeFields reprStr c c.fields given) with
  | some why => simp [hcheck] at h
  | none =>
    simp only [hcheck, Except.ok.injEq] at h
    subst h
    simp only [arrangeFields_arrangeFields, hcheck]

end PostInit

/-! ### Valid records -/

/-- A record whose fields hold what they are annotated with, built by its constructor, and so is every
record in it. -/
def Valid (reprStr : String → String) (check : RecordType → List RecordVal → Option String) (c : RecordType)
    (fields : List RecordVal) : Prop :=
  Typed schema (postInit reprStr check) (.record c) (.record c fields)

/-- `from_json(cls, to_json(record)) == record` for every valid record of every type, whatever the checks
of the constructors. -/
theorem record_round_trip (reprStr : String → String) (check : RecordType → List RecordVal → Option String)
    {c : RecordType} {fields : List RecordVal} (h : Valid reprStr check c fields) :
    ∃ d, toJson schema (.record c fields) = .ok d ∧
      fromJson schema (postInit reprStr check) c d = .ok (.record c fields) := by
  have hidem : ∀ c given vs, postInit reprStr check c given = .ok vs → postInit reprStr check c vs = .ok vs :=
    fun _ _ _ hbuilt => postInit_idem hbuilt
  exact fromJson_toJson schema_readable hidem h

/-- A record is valid when its constructor takes its fields as they are and each fits its annotation. -/
theorem valid_of_fields {reprStr : String → String} {check : RecordType → List RecordVal → Option String}
    {c : RecordType} {fields : List RecordVal} (hbuilt : postInit reprStr check c fields = .ok fields)
    (h : List.Forall₂ (fun f v => Typed schema (postInit reprStr check) f.hint v) c.fields fields) :
    Valid reprStr check c fields :=
  .record hbuilt h.length_eq fun _ hp => List.forall₂_iff_zip.mp h |>.2 hp

/-- A data-quality note with a figure keeps both, and the fields that are absent. -/
theorem record_round_trip_note :
    let figure : List RecordVal := [.int 5, .member .evidence (.text "estimated"), .member .basis (.text "list"),
      .member .finality (.text "n/a"), .int 1, .int 9, .none, .member .calibration (.text "n/a"), .bool false,
      .tuple [.str "row"], .str ""]
    let note : List RecordVal := [.str "dq.x", .str "info", .int 2, .str "d", .none, .record .figure figure]
    Valid (fun s => s) (fun _ _ => none) .dataQualityNote note ∧
      ∃ d, toJson schema (.record .dataQualityNote note) = .ok d ∧
        fromJson schema (postInit (fun s => s) fun _ _ => none) .dataQualityNote d =
          .ok (.record .dataQualityNote note) := by
  intro figure note
  have hfigure : Valid (fun s => s) (fun _ _ => none) .figure figure := by
    refine valid_of_fields rfl ?_
    exact .cons (.arm List.mem_cons_self (.int 5)) <| .cons (.enum (by decide)) <| .cons (.enum (by decide)) <|
      .cons (.enum (by decide)) <| .cons (.arm List.mem_cons_self (.int 1)) <|
      .cons (.arm List.mem_cons_self (.int 9)) <| .cons (.null _) <| .cons (.enum (by decide)) <|
      .cons (.bool false) <| .cons (.variadic (List.forall_mem_singleton.mpr (.str "row"))) <|
      .cons (.str "") .nil
  have hnote : Valid (fun s => s) (fun _ _ => none) .dataQualityNote note := by
    refine valid_of_fields rfl ?_
    exact .cons (.str _) <| .cons (.str _) <| .cons (.int 2) <| .cons (.str _) <| .cons (.null _) <|
      .cons (.arm List.mem_cons_self hfigure) .nil
  exact ⟨hnote, record_round_trip _ _ hnote⟩

end TokenBill.Codec
