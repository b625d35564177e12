import TokenBill.Core.Findings
import TokenBill.Plan.PolicyPack

/-!
# The policy packs of a plan

`plan/policy_pack.py`, `_claude_code_packs`: the settings of the plan's levers and of the
fixes of findings become proposals, and the proposals go to the packs of cohorts or to the
pack of the whole organisation, which leaves out the keys that a cohort claims.

The parser of policies is a parameter, and so are the gateway fragment, the snippets and
the prices of the contract as the emitter gives them.
-/

namespace TokenBill.PolicyPack

open General

/-! ### Levers -/

/-- `LeverDef`, as far as packs read it. -/
structure Lever where
  (leverId replay : String)
  (needsEval tradeoff : Bool)
  patchKeys : List String

/-- A lever of `LEVERS` that needs an evaluation exactly if it is a trade-off. -/
def catalogLever (leverId replay : String) (tradeoff : Bool) (patchKeys : List String) : Lever :=
  ⟨leverId, replay, tradeoff, tradeoff, patchKeys⟩

/-- `LEVERS` and `COPILOT_LEVERS`. -/
def levers : List Lever :=
  [catalogLever "cc.prompt_cache_ttl.main" "usage" false ["promptCacheTtl"],
    catalogLever "cc.prompt_cache_ttl.subagent" "usage" false ["subagentPromptCacheTtl"],
    catalogLever "sdk.ttl" "usage" false [],
    catalogLever "sdk.keepalive" "usage" false [],
    catalogLever "cc.autocompact_window" "usage" true
      ["autoCompactWindow", "env.CLAUDE_CODE_AUTO_COMPACT_WINDOW"],
    catalogLever "cc.compact_on_resume" "usage" true ["hooks.SessionStart"],
    catalogLever "cc.cold_resume_hook" "none" false ["hooks.SessionStart"],
    catalogLever "cc.default_model" "usage" true ["model", "availableModels", "enforceAvailableModels"],
    catalogLever "cc.default_effort" "usage" true ["effortLevel", "maxEffortLevel"],
    catalogLever "cc.subagent_model" "usage" true ["env.CLAUDE_CODE_SUBAGENT_MODEL"],
    catalogLever "model.same_tier_upgrade" "usage" true ["env.ANTHROPIC_DEFAULT_OPUS_MODEL",
      "env.ANTHROPIC_DEFAULT_SONNET_MODEL", "env.ANTHROPIC_DEFAULT_HAIKU_MODEL"],
    catalogLever "cc.max_effort" "usage" true ["maxEffortLevel"],
    catalogLever "cc.fast_mode_opt_in" "usage" false ["fastModePerSessionOptIn"],
    catalogLever "geo.global" "usage" false [],
    catalogLever "endpoint.global" "usage" false [],
    catalogLever "batch.eligible" "usage" false [],
    catalogLever "fanout.stagger" "usage" false [],
    catalogLever "retry.single_owner" "usage" false [],
    catalogLever "fallback.credit" "usage" false [],
    catalogLever "gateway.restore_caching" "usage" false [],
    catalogLever "ci.shared_prefix" "usage" false [],
    catalogLever "blocks.breakpoints" "block" false [],
    catalogLever "cc.tool_search" "none" false ["env.ENABLE_TOOL_SEARCH"],
    catalogLever "sdk.defer_loading" "none" false [],
    ⟨"copilot.default_model_auto", "aggregate", true, false, ["copilot.managed.model"]⟩,
    ⟨"copilot.model_policy", "aggregate", true, true, ["admin:model_policy", "copilot.repo.allowed_models"]⟩,
    ⟨"copilot.fast_mode_off", "aggregate", false, false, ["admin:model_policy_fast"]⟩,
    ⟨"copilot.seat_reclaim", "aggregate", false, false, ["rest:org_selected_users_delete"]⟩,
    ⟨"copilot.seat_policy_selected", "aggregate", true, true, ["admin:org_seat_policy"]⟩,
    ⟨"copilot.seat_downgrade", "aggregate", true, true, ["admin:seat_plan_change"]⟩,
    ⟨"copilot.agent_runner_standard", "aggregate", false, true, ["admin:runner_type"]⟩,
    ⟨"copilot.seat_reclaim_team", "none", false, false,
      ["admin:team_membership_review", "rest:org_selected_teams_delete"]⟩,
    ⟨"copilot.auto_tier", "none", false, false, ["admin:communicate_auto_tier"]⟩,
    ⟨"copilot.review_effort_lite", "none", true, true,
      ["admin:review_effort_default", "admin:communicate_personal_review_settings"]⟩,
    ⟨"copilot.review_triggers", "none", false, false,
      ["admin:review_triggers", "admin:communicate_personal_review_settings"]⟩,
    ⟨"copilot.review_mcp_off", "none", false, false, ["admin:repo_review_mcp_off"]⟩,
    ⟨"copilot.review_instructions_trim", "none", false, false, ["admin:review_instructions"]⟩,
    ⟨"copilot.review_unlicensed_off", "none", false, false, ["admin:review_unlicensed_policy"]⟩,
    ⟨"copilot.session_limits", "none", false, false, ["copilot.ci.max_ai_credits", "admin:ci_limits_snippet"]⟩,
    ⟨"copilot.agentic_workflow_caps", "none", false, false,
      ["copilot.aw.max_ai_credits", "admin:aw_triggers", "admin:org_cli_billing_policy"]⟩,
    ⟨"copilot.budget_plan", "none", false, false,
      ["rest:budget_create", "rest:cost_center_create", "rest:cost_center_patch"]⟩,
    ⟨"copilot.mcp_trim", "none", false, false,
      ["copilot.managed.deniedMcpServers", "copilot.managed.allowedMcpServers"]⟩,
    ⟨"copilot.context_default", "none", true, true, ["copilot.repo.contextTier"]⟩,
    ⟨"copilot.telemetry_on", "none", false, false,
      copilotKeys.filter fun key => startsWith key "copilot.managed.telemetry."⟩,
    ⟨"copilot.vscode_traces_optin", "none", false, false, ["admin:vscode_db_exporter_optin"]⟩]

/-- `lever`, without its error. -/
def lever (leverId : String) : Option Lever := levers.find? fun l => decide (l.leverId = leverId)

/-- What the settings of a lever read of a policy. -/
structure Policy where
  /-- The times to live of the selectors. -/
  ttl : List String
  compactionWindow : Option Nat
  /-- The targets of the selectors. -/
  modelRemap : List String
  /-- The levels of the selectors. -/
  effort : List String
  fastOff : Bool

/-- A setting that delivers a lever: its key, its value, and whether it is a primary one. -/
abbrev Setting : Type := String × Value × Bool

/-- `_hook_value`. -/
def hookJson : JsonValue :=
  .arr [.obj [("hooks", .arr [.obj [("command", .str "python3 ~/.claude/hooks/tokenbill_session_start.py"),
    ("type", .str "command")]]), ("matcher", .str "resume")]]

theorem hookJson_sorted : hookJson.Sorted := by
  have hcommand : ∀ f ∈ [("command", JsonValue.str "python3 ~/.claude/hooks/tokenbill_session_start.py"),
      ("type", .str "command")], f.2.Sorted :=
    List.forall_mem_cons.mpr ⟨.str _, List.forall_mem_singleton.mpr (.str _)⟩
  have hhooks := JsonValue.Sorted.arr (List.forall_mem_singleton.mpr (.obj (by decide) hcommand))
  exact .arr (List.forall_mem_singleton.mpr (.obj (by decide)
    (List.forall_mem_cons.mpr ⟨hhooks, List.forall_mem_singleton.mpr (.str _)⟩)))

def hookValue : Value := ⟨hookJson, hookJson_sorted, JsonValue.isNullFree_iff.mp rfl, false⟩

def Value.single (s : String) : Value :=
  ⟨.arr [.str s], .arr (List.forall_mem_singleton.mpr (.str s)), .arr (List.forall_mem_singleton.mpr (.str s)), false⟩

/-- `_tier_key`. -/
def tierKey (model : String) : Option String :=
  let key := ["opus", "sonnet", "haiku"].find? fun tier =>
    decide (("-" ++ tier ++ "-").toList <:+: ("-" ++ model ++ "-").toList) ||
      startsWith model ("claude-" ++ tier)
  key.map fun tier => "env.ANTHROPIC_DEFAULT_" ++ tier.toUpper ++ "_MODEL"

/-- The settings of a same-tier upgrade: the first target of each tier. -/
def tierSettings (targets : List String) : List Setting :=
  targets.foldl (fun out target =>
    match tierKey target with
    | some key => if out.all fun s => decide (s.1 ≠ key) then out ++ [(key, .str target, true)] else out
    | none => out) []

/-- The settings of a lever at a policy. -/
def policySettings (leverId : String) (policy : Policy) : List Setting :=
  if leverId = "cc.prompt_cache_ttl.main" then
    (policy.ttl.head?.map fun ttl => ("promptCacheTtl", Value.str ttl, true)).toList
  else if leverId = "cc.prompt_cache_ttl.subagent" then
    (policy.ttl.head?.map fun ttl => ("subagentPromptCacheTtl", Value.str ttl, true)).toList
  else if leverId = "cc.autocompact_window" then
    match policy.compactionWindow with
    | some window => [("autoCompactWindow", .nat window, true),
        ("env.CLAUDE_CODE_AUTO_COMPACT_WINDOW", .str (toString window), true)]
    | none => []
  else if leverId = "cc.default_model" then
    match policy.modelRemap.head? with
    | some model => [("model", .str model, true), ("availableModels", .single model, false),
        ("enforceAvailableModels", .bool true, false)]
    | none => []
  else if leverId = "cc.default_effort" then
    (policy.effort.head?.map fun level => ("effortLevel", Value.str level, true)).toList
  else if leverId = "cc.max_effort" then
    (policy.effort.head?.map fun level => ("maxEffortLevel", Value.str level, true)).toList
  else if leverId = "cc.subagent_model" then
    (policy.modelRemap.head?.map fun model => ("env.CLAUDE_CODE_SUBAGENT_MODEL", Value.str model, true)).toList
  else if leverId = "model.same_tier_upgrade" then tierSettings policy.modelRemap
  else if leverId = "cc.fast_mode_opt_in" ∧ policy.fastOff then [("fastModePerSessionOptIn", .bool true, true)]
  else []

/-- `_lever_settings`; `parsePolicy` is the parser of policies. -/
def leverSettings (parsePolicy : String → Except PackError Policy) (l : Lever) (params : String) :
    Except PackError (List Setting) :=
  if l.leverId ∈ ["cc.cold_resume_hook", "cc.compact_on_resume"] then .ok [("hooks.SessionStart", hookValue, true)]
  else if l.leverId = "cc.tool_search" then .ok [("env.ENABLE_TOOL_SEARCH", .str "true", true)]
  else if params = "" then .ok []
  else policySettings l.leverId <$> parsePolicy params

/-- A lever of a plan. -/
structure PlanLever where
  (leverId params : String)
  projectedMonthly : Option Figure

/-- The proposal of a setting of a lever. -/
def settingProposal (chars : Chars) (l : Lever) (projection : Option Figure) (s : Setting) :
    Except PackError Proposal := do
  let entry ← allowedKey s.1
  checkValue chars s.1 s.2.1
  return { key := s.1, value := s.2.1, leverId := l.leverId, projection, needsEval := l.needsEval,
           tradeoff := l.tradeoff || entry.tradeoff, primary := s.2.2 }

/-- `_lever_proposals`. -/
def leverProposals (chars : Chars) (parsePolicy : String → Except PackError Policy) (l : Lever) (params : String)
    (projection : Option Figure) : Except PackError (List Proposal) := do
  let settings ← leverSettings parsePolicy l params
  settings.mapM (settingProposal chars l projection)

/-- `_plan_levers`: the first of each lever that has no aggregate replay. -/
def planLevers (plan : List PlanLever) : List (Lever × PlanLever) :=
  plan.foldl (fun out r =>
    if out.any fun t => decide (t.1.leverId = r.leverId) then out
    else
      match lever r.leverId with
      | some l => if l.replay = "aggregate" then out else out ++ [(l, r)]
      | none => out) []

/-! ### Findings -/

/-- `_finding_levers`. -/
def findingLevers (f : Finding) : List Lever := (f.leverIds.filterMap lever).filter fun l => decide (l.replay ≠ "aggregate")

/-- Whether the text of a number is that of an `int`. -/
def intText (text : String) (v : JsonValue) : Bool :=
  match v with
  | .num _ => text.toList.all fun c => c ∉ ['.', 'e', 'E']
  | _ => false

/-- `_parse_patch_value`. -/
def parsePatchValue (text : String) : Except PackError Value :=
  match h : JsonText.loads text.toList with
  | some v => jsonValue v (JsonText.loads_sorted h) (intText text v)
  | none => .error .notJson

/-- The proposal of a setting of a fix. -/
def fixProposal (chars : Chars) (f : Finding) (key text : String) : Except PackError Proposal := do
  let entry ← allowedKey key
  let value ← parsePatchValue text
  checkValue chars key value
  let owner := ((findingLevers f).find? fun l => decide (key ∈ l.patchKeys)).or (findingLevers f).head?
  return { key, value, leverId := (owner.map (·.leverId)).getD ("fix:" ++ f.detectorId),
           projection := f.projectedMonthly, needsEval := f.needsEval || (findingLevers f).any (·.needsEval),
           tradeoff := entry.tradeoff || (findingLevers f).any (·.tradeoff), primary := true }

/-- `_finding_proposals`. -/
def findingProposals (chars : Chars) (f : Finding) : Except PackError (List Proposal) :=
  match f.fix with
  | some fix =>
    if fix.target = none ∨ fix.target = some "claude-code-managed-settings" then
      (fix.configPatch.getD []).mapM fun s => fixProposal chars f s.1 s.2
    else .ok []
  | none => .ok []

/-! ### Routing -/

/-- `COHORT_BY`. -/
inductive CohortBy where
  | team | mdmGroup

/-- `_COHORT_DIMS`. -/
def CohortBy.dim : CohortBy → String
  | team => "team" | mdmGroup => "mdm_group"

/-- `_cohort_ok`. -/
def cohortOk (cohort : String) : Bool :=
  decide (1 ≤ cohort.toList.length ∧ cohort.toList.length ≤ 128) &&
    cohort.toList.all fun c => safeChar c && decide (c ≠ '/' ∧ c ≠ '\\')

/-- A finding with its proposals and its cohort. -/
structure Routed where
  finding : Finding
  props : List Proposal
  cohort : Option String

def cohortOf (dim : Option String) (f : Finding) : Option String := dim.bind fun dim => f.scope.lookup dim

def route (chars : Chars) (dim : Option String) (f : Finding) : Except PackError Routed := do
  let props ← findingProposals chars f
  if (cohortOf dim f).all cohortOk then .ok ⟨f, props, cohortOf dim f⟩ else .error .cohort

/-- The proposals of the plan's levers. -/
abbrev LeverProps : Type := List (String × List Proposal)

/-- The proposals of the levers a finding links, for keys that its own fix does not set. -/
def linkedProposals (leverProps : LeverProps) (r : Routed) : List Proposal :=
  (findingLevers r.finding).flatMap fun l => ((leverProps.lookup l.leverId).getD []).filter fun p =>
    r.props.all fun q => decide (q.key ≠ p.key)

def cohorts (rs : List Routed) : List String := (rs.filterMap (·.cohort)).dedup.insertionSort (· ≤ ·)

/-- What goes to the pack of a cohort. -/
def cohortInput (leverProps : LeverProps) (rs : List Routed) (cohort : String) : PackInput :=
  let mine := rs.filter fun r => decide (r.cohort = some cohort)
  { cohort
    proposals := mine.flatMap fun r => r.props ++ linkedProposals leverProps r
    findingIds := mine.map (·.finding.findingId)
    snippets := []
    litellm := none
    conflicts := [] }

def claimed (leverProps : LeverProps) (rs : List Routed) : List String :=
  (cohorts rs).flatMap fun cohort => (cohortInput leverProps rs cohort).proposals.map (·.key)

/-- `_model_pricing` of what the emitter gives for the contract, with its decimal strings as numbers. -/
def modelPricing (chars : Chars) (emitted : Option Value) : Except PackError (List Proposal × List String) :=
  match emitted with
  | none => .ok ([], ["`modelPricing` not emitted: no model-pricing emitter was passed " ++
      "(the CLI passes rates.contract.to_model_pricing)"])
  | some value => do
    checkValue chars "modelPricing" value
    return ([{ key := "modelPricing", value, leverId := reporting, projection := none, needsEval := false,
               tradeoff := false, primary := true }], [])

/-- The prices of a contract, if there is one. -/
def pricingOf (chars : Chars) (contract : Option (Option Value)) : Except PackError (List Proposal × List String) :=
  match contract with
  | none => .ok ([], [])
  | some emitted => modelPricing chars emitted

/-- What goes to the pack of the whole organisation. -/
def allInput (leverProps : LeverProps) (rs : List Routed) (pricing : List Proposal × List String)
    (litellm : Option String) (snippets : List (String × String)) : PackInput where
  cohort := "all"
  proposals := ((leverProps.flatMap (·.2) ++ (rs.filter fun r => decide (r.cohort = none)).flatMap (·.props)).filter
    fun p => decide (p.key ∉ claimed leverProps rs)) ++ pricing.1
  findingIds := (rs.filter fun r => decide (r.cohort = none ∧ r.finding.leverIds ≠ [])).map (·.finding.findingId)
  snippets
  litellm
  conflicts := pricing.2

/-- What packs are made with besides the plan, the findings and the settings. -/
structure PackContext where
  chars : Chars
  hookText : String
  parsePolicy : String → Except PackError Policy
  litellm : Option String
  snippets : List (String × String)
  /-- What the emitter gives for the contract, if there is a contract. -/
  contract : Option (Option Value)

def planProposals (ctx : PackContext) (t : Lever × PlanLever) : Except PackError (String × List Proposal) := do
  let props ← leverProposals ctx.chars ctx.parsePolicy t.1 t.2.params t.2.projectedMonthly
  return (t.1.leverId, props)

/-- The dim of the cohorts, if there are cohorts. -/
def cohortDim (findings : List Finding) (cohortBy : Option CohortBy) : Option String :=
  match cohortBy with
  | some mode => some mode.dim
  | none => if findings.any fun f => decide (f.kind = "ttl-heterogeneous") then some CohortBy.team.dim else none

/-- `_claude_code_packs`. -/
def claudeCodePacks (ctx : PackContext) (plan : List PlanLever) (findings : List Finding) (current : Current)
    (cohortBy : Option CohortBy) (includeTradeoffs : Bool) : Except PackError (List Pack) := do
  let leverProps ← (planLevers plan).mapM (planProposals ctx)
  let rs ← findings.mapM (route ctx.chars (cohortDim findings cohortBy))
  let pricing ← pricingOf ctx.chars ctx.contract
  let inputs := allInput leverProps rs pricing ctx.litellm ctx.snippets ::
    (cohorts rs).map (cohortInput leverProps rs)
  let packs ← inputs.mapM fun inp => assemble ctx.chars ctx.hookText "claude-code" inp current includeTradeoffs
  return packs.reduceOption

def currentOf : Option { v : JsonValue // v.Sorted } → Except PackError Current
  | none => .ok ⟨[], .obj .nil nofun, .obj nofun, by decide⟩
  | some v => normalizeCurrent v.1 v.2

/-- `build_policy_packs` for the target `claude-code`. -/
def buildPolicyPacks (ctx : PackContext) (plan : List PlanLever) (findings : List Finding)
    (current : Option { v : JsonValue // v.Sorted }) (cohortBy : Option CohortBy) (includeTradeoffs : Bool) :
    Except PackError (List Pack) := do
  let cur ← currentOf current
  claudeCodePacks ctx plan findings cur cohortBy includeTradeoffs

end TokenBill.PolicyPack
