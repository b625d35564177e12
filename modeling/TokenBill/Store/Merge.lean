import TokenBill.Core.Encode
import TokenBill.Core.Findings
import TokenBill.General.Linking
import TokenBill.General.Tables
import Mathlib.Data.List.MinMax

/-!
# Merging contributions

`store/merge.py`: a contribution is one source's view of a logical request. They join
through request ids, provider message ids and provider request ids that do not
collide; a group becomes one merged request with the usage of its best contribution,
attribution merged field by field, and parameters and diagnostics filled in.
-/

namespace TokenBill

open List

/-- `COPILOT_CHANNELS`. -/
def copilotChannels : List String := ["github_copilot", "github_actions", "github_sandbox"]

/-- `COPILOT_AGG_SOURCE_KINDS`. -/
def copilotAggSourceKinds : List String :=
  ["github.ai_usage_report", "github.ai_usage_report.coverage", "github.agent_tasks",
   "copilot.cli_rollup", "gh_aw.run"]

namespace Store

open General

/-! ### Contributions -/

/-- `SOURCES_MASK_BITS`. -/
def sourcesMaskBits : List (String × Nat) :=
  [("claude-code", 1), ("trace@1", 2), ("trace@2", 4), ("otlp", 8), ("openai", 16), ("bedrock", 32),
   ("anthropic-responses", 64), ("claude-code-headless", 128), ("copilot-cli", 256),
   ("copilot-otel", 512), ("copilot-vscode-traces", 1024), ("gh-aw-token-usage", 2048),
   ("copilot-export", 4096)]

/-- `DEFAULT_PRIORITY`. -/
def defaultPriority : Int := 10

/-- `sources_mask`. -/
def sourcesMask (adapters : List String) : Nat :=
  adapters.foldl (fun mask a => mask ||| (sourcesMaskBits.lookup a).getD 0) 0

/-- `Contribution`: a cleaned view of a request with what the merge rules read of its source. -/
structure Contribution where
  request : Request
  adapter : String
  fidelity : Fidelity
  priority : Int
  sourceId : String
  deriving DecidableEq

/-- A key that joins contributions. -/
inductive JoinKey where
  | id (requestId : String)
  | msg (messageId : String)
  | rq (requestId : String)
  deriving DecidableEq

namespace Contribution

/-- `Contribution.of`. -/
def of (req : Request) (defaultAdapter sourceId : String) : Contribution :=
  match req.source with
  | some ref => ⟨req, ref.adapter, ref.fidelity, ref.priority, sourceId⟩
  | none => ⟨req, defaultAdapter, .full, defaultPriority, sourceId⟩

/-- `Contribution.canon`. -/
def canon (c : Contribution) : String := Json.canonical c.request.toJson

/-- `Contribution.key`. -/
def key (h : Hashes) (c : Contribution) : String := c.adapter ++ ":" ++ h.sha256 c.canon

/-- `Contribution.serving_output`. -/
def servingOutput (c : Contribution) : Nat :=
  match c.request.servingInference with
  | some si => si.usage.output
  | none => 0

/-- `Contribution.rank`: the smallest wins. -/
def rank (c : Contribution) : Int ×ₗ Int ×ₗ Int ×ₗ String :=
  toLex (-(c.fidelity.toNat : Int), toLex (-c.priority, toLex (-(c.servingOutput : Int), c.canon)))

/-- `Contribution.message_ids`. -/
def messageIds (c : Contribution) : List String :=
  ((c.request.attempts.filterMap (·.providerMessageId)).filter (· ≠ "")).dedup

/-- `Contribution.request_hints`. -/
def requestHints (c : Contribution) : List String :=
  ((c.request.attempts.filterMap (·.providerRequestId)).filter (· ≠ "")).dedup

/-- `Contribution.hint_pairs`. -/
def hintPairs (c : Contribution) : List (String × String) :=
  (c.request.attempts.filterMap fun a => do
    let rq ← a.providerRequestId
    let msg ← a.providerMessageId
    guard (rq ≠ "" ∧ msg ≠ "")
    pure (rq, msg)).dedup

/-- `Contribution.join_keys`. -/
def joinKeys (c : Contribution) (collided : List String) : List JoinKey :=
  .id c.request.requestId :: (c.messageIds.insertionSort (· ≤ ·)).map .msg ++
    ((c.requestHints.filter (· ∉ collided)).insertionSort (· ≤ ·)).map .rq

end Contribution

/-- `MergedGroup`. -/
structure MergedGroup where
  request : Request
  winner : Contribution
  members : List Contribution
  sourcesMask : Nat
  attrPrio : List (String × Int)
  usageMismatch : Bool

/-! ### Merging fields -/

/-- `_pick`: the value of the highest priority, and of these the smallest. -/
def pick {α : Type} (valueKey : α → String) : List (Int × α) → Option (Int × α)
  | [] => none
  | c :: cs =>
    let best := (cs.map (·.1)).foldl max c.1
    ((((c :: cs).filter fun x => decide (x.1 = best)).map (·.2)).argmin valueKey).map (best, ·)

def pickField {α : Type} (valueKey : α → String) (get : Request → Option α)
    (group : List Contribution) : Option (Int × α) :=
  pick valueKey (group.filterMap fun c => (get c.request).map (c.priority, ·))

def prioOf {α : Type} (name : String) (picked : Option (Int × α)) : List (String × Int) :=
  (picked.map fun p => (name, p.1)).toList

def knownWorkload (w : WorkloadClass) : Option WorkloadClass := if w = .unknown then none else some w

/-- The `extra` keys of a group, in order. -/
def extraKeys (group : List Contribution) : List String :=
  (group.flatMap fun c => c.request.attribution.extra.map (·.1)).dedup.insertionSort (· ≤ ·)

/-- The picked value of an `extra` key. -/
def pickExtra (group : List Contribution) (name : String) : Option (Int × String) :=
  pick id (group.flatMap fun c =>
    (c.request.attribution.extra.filter fun e => decide (e.1 = name)).map fun e => (c.priority, e.2))

/-- `merge_attribution`. -/
def mergeAttribution (group : List Contribution) : Attribution × List (String × Int) :=
  let text (get : Attribution → Option String) := pickField id (fun r => get r.attribution) group
  let principal := pickField Principal.text (fun r => r.attribution.principal) group
  let team := text (·.team)
  let costCenter := text (·.costCenter)
  let project := text (·.project)
  let repo := text (·.repo)
  let workspaceId := text (·.workspaceId)
  let apiKeyId := text (·.apiKeyId)
  let agentProduct := text (·.agentProduct)
  let agentType := text (·.agentType)
  let querySource := text (·.querySource)
  let skill := text (·.skill)
  let mcpServer := text (·.mcpServer)
  let plugin := text (·.plugin)
  let workload := pickField WorkloadClass.value
    (fun r => knownWorkload r.attribution.workloadClass) group
  let entrypoint := text (·.entrypoint)
  let clientVersion := text (·.clientVersion)
  let billingPath := text (·.billingPath)
  let cwdKey := text (·.cwdKey)
  let arm := text (·.arm)
  let wave := text (·.wave)
  let extra := (extraKeys group).filterMap fun name => (pickExtra group name).map (name, ·)
  ({ principal := principal.map (·.2), team := team.map (·.2), costCenter := costCenter.map (·.2)
     project := project.map (·.2), repo := repo.map (·.2), workspaceId := workspaceId.map (·.2)
     apiKeyId := apiKeyId.map (·.2), agentProduct := agentProduct.map (·.2)
     agentType := agentType.map (·.2), querySource := querySource.map (·.2)
     skill := skill.map (·.2), mcpServer := mcpServer.map (·.2), plugin := plugin.map (·.2)
     workloadClass := (workload.map (·.2)).getD .unknown, entrypoint := entrypoint.map (·.2)
     clientVersion := clientVersion.map (·.2), billingPath := billingPath.map (·.2)
     cwdKey := cwdKey.map (·.2), arm := arm.map (·.2), wave := wave.map (·.2)
     extra := extra.map fun e => (e.1, e.2.2) },
   prioOf "principal" principal ++ prioOf "team" team ++ prioOf "cost_center" costCenter ++
     prioOf "project" project ++ prioOf "repo" repo ++ prioOf "workspace_id" workspaceId ++
     prioOf "api_key_id" apiKeyId ++ prioOf "agent_product" agentProduct ++
     prioOf "agent_type" agentType ++ prioOf "query_source" querySource ++ prioOf "skill" skill ++
     prioOf "mcp_server" mcpServer ++ prioOf "plugin" plugin ++ prioOf "workload_class" workload ++
     prioOf "entrypoint" entrypoint ++ prioOf "client_version" clientVersion ++
     prioOf "billing_path" billingPath ++ prioOf "cwd_key" cwdKey ++ prioOf "arm" arm ++
     prioOf "wave" wave ++ extra.map fun e => ("extra." ++ e.1, e.2.1))

/-- `str` of a Python flag. -/
def pyBool (b : Bool) : String := if b then "True" else "False"

/-- `str` of a tuple with these items. -/
def pyTuple : List String → String
  | [item] => "(" ++ item ++ ",)"
  | items => "(" ++ ", ".intercalate items ++ ")"

/-- `repr(breakpoint)`. -/
def Breakpoint.pyRepr (b : Breakpoint) : String :=
  "Breakpoint(block_index=" ++ toString b.blockIndex ++ ", ttl=" ++ Kanon.pyRepr b.ttl ++
    ", assumed=" ++ pyBool b.assumed ++ ")"

def nonempty {α : Type} (xs : List α) : Option (List α) := if xs.isEmpty then none else some xs

/-- `_merge_params`: the winner's parameters, with what it lacks filled in. -/
def mergeParams (base : RequestParams) (group : List Contribution) : RequestParams :=
  let fill {α : Type} (valueKey : α → String) (get : RequestParams → Option α) : Option α :=
    (get base).or ((pickField valueKey (fun r => get r.params) group).map (·.2))
  { base with
    maxTokens := fill toString (·.maxTokens)
    stream := fill pyBool (·.stream)
    thinking := fill id (·.thinking)
    effort := fill id (·.effort)
    sessionEffort := fill id (·.sessionEffort)
    toolChoice := fill id (·.toolChoice)
    outputFormat := fill id (·.outputFormat)
    speed := fill id (·.speed)
    serviceTierRequested := fill id (·.serviceTierRequested)
    inferenceGeoRequested := fill id (·.inferenceGeoRequested)
    betas := (fill (fun b => pyTuple (b.map Kanon.pyRepr)) fun p => nonempty p.betas).getD []
    breakpoints := (fill (fun b => pyTuple (b.map Breakpoint.pyRepr))
      fun p => nonempty p.breakpoints).getD []
    automaticCaching := fill pyBool (·.automaticCaching)
    contextManagement := fill id (·.contextManagement)
    taskBudget := fill toString (·.taskBudget)
    webSearchEnabled := fill pyBool (·.webSearchEnabled)
    citationsEnabled := fill pyBool (·.citationsEnabled)
    hasImages := fill pyBool (·.hasImages)
    advisorModel := fill id (·.advisorModel)
    disableParallelToolUse := fill pyBool (·.disableParallelToolUse) }

/-- `_fill_diagnostics`: the winner's attempts, the last with the picked diagnostics. -/
def fillDiagnostics (winner : Request) (group : List Contribution) : List Attempt :=
  if winner.finalAttempt.diagnostics.isSome then winner.attempts
  else
    match pickField (fun d => Json.canonical d.toJson) (fun r => r.finalAttempt.diagnostics) group with
    | none => winner.attempts
    | some (_, d) => winner.attempts.dropLast ++ [{ winner.finalAttempt with diagnostics := some d }]

theorem fillDiagnostics_ne (winner : Request) (group : List Contribution) :
    fillDiagnostics winner group ≠ [] := by
  unfold fillDiagnostics
  split
  · exact winner.attempts_ne
  · split
    · exact winner.attempts_ne
    · simp

/-- `_first_by_priority`. -/
def firstByPriority {α : Type} (group : List Contribution) (get : Request → Option α) : Option α :=
  (group.insertionSort fun a b => toLex (-a.priority, a.canon) ≤ toLex (-b.priority, b.canon)).findSome?
    fun c => get c.request

/-! ### Groups -/

def servingUsages (group : List Contribution) : List String :=
  (group.filterMap fun c => c.request.servingInference.map fun si =>
    Json.canonical si.usage.toJson).dedup

/-- The request id a group keeps: the smallest of those with a provider message, else of all. -/
def survivingId (first : Contribution) (rest : List Contribution) : String :=
  match ((first :: rest).filter (·.messageIds ≠ [])).map (·.request.requestId) with
  | [] => (rest.map (·.request.requestId)).foldl min first.request.requestId
  | id :: ids => ids.foldl min id

/-- The usage set a group takes: the contribution of the smallest rank, the first of these. -/
def winnerOf (first : Contribution) (rest : List Contribution) : Contribution :=
  rest.foldl (fun best c => if c.rank < best.rank then c else best) first

/-- `_merge_group` of two or more contributions. -/
def mergeMany (h : Hashes) (first : Contribution) (rest : List Contribution) : MergedGroup :=
  let group := first :: rest
  let winner := winnerOf first rest
  let w := winner.request
  let attribution := mergeAttribution group
  { request :=
      { requestId := survivingId first rest
        sessionKey := w.sessionKey
        laneKey := w.laneKey
        seq := w.seq
        attribution := attribution.1
        params := mergeParams w.params group
        attempts := fillDiagnostics w group
        fingerprint := w.fingerprint.or (firstByPriority group (·.fingerprint))
        appended := ((nonempty w.appended).or (firstByPriority group fun r => nonempty r.appended)).getD []
        source := w.source
        attempts_ne := fillDiagnostics_ne w group }
    winner := winner
    members := group.insertionSort fun a b => a.key h ≤ b.key h
    sourcesMask := sourcesMask (group.map (·.adapter))
    attrPrio := attribution.2
    usageMismatch := decide (1 < (servingUsages group).length) }

/-- `_merge_group`. -/
def mergeGroup (h : Hashes) : List Contribution → Option MergedGroup
  | [] => none
  | [only] =>
    some { request := only.request, winner := only, members := [only]
           sourcesMask := sourcesMask [only.adapter], attrPrio := (mergeAttribution [only]).2
           usageMismatch := false }
  | first :: rest => some (mergeMany h first rest)

/-- The order in which a batch is merged. -/
def itemLe (a b : Contribution) : Prop :=
  toLex (a.request.requestId, toLex (a.adapter, a.canon)) ≤
    toLex (b.request.requestId, toLex (b.adapter, b.canon))

instance : DecidableRel itemLe := fun _ _ => inferInstanceAs (Decidable (toLex _ ≤ toLex _))

/-- The provider request ids seen with two message ids. -/
def collidingHints (items : List Contribution) : List String :=
  let pairs := (items.flatMap (·.hintPairs)).dedup
  (pairs.map (·.1)).dedup.filter fun rq =>
    decide (1 < (pairs.filter fun p => decide (p.1 = rq)).length)

/-- `merge_contributions`. -/
def mergeContributions (h : Hashes) (contribs : List Contribution) (collided : List String) :
    List MergedGroup :=
  let items := (firstOfKey (Contribution.key h) contribs).insertionSort itemLe
  let bad := collided ++ collidingHints items
  ((components (fun c => c.joinKeys bad) items).filterMap (mergeGroup h)).insertionSort
    fun a b => a.request.requestId ≤ b.request.requestId

/-! ### Shells and provider records -/

/-- `shell_rank`: a known kind, a known cache scope, then the smallest text. -/
def shellRank (shell : Lane) : Bool ×ₗ Bool ×ₗ String :=
  toLex (shell.kind == .unknown, toLex (shell.cacheScopeKey == "unknown",
    Json.canonical shell.toJson))

/-- What the choice between two versions of a provider record reads. -/
structure RecordVersion where
  (copilot final : Bool)
  fetchedMs : Nat
  canon : String

def CostLine.version (c : CostLine) : RecordVersion :=
  ⟨decide (c.channel ∈ copilotChannels), c.finality == "final", c.fetchedMs,
    Json.canonical c.toJson⟩

/-- The version of a usage aggregate. -/
def UsageAggregate.version (a : UsageAggregate) : RecordVersion :=
  ⟨decide (a.sourceKind ∈ copilotAggSourceKinds) ||
      (a.dims.lookup "channel").any (· ∈ copilotChannels),
    a.finality == "final", a.fetchedMs, Json.canonical a.toJson⟩

def OutcomeAggregate.version (o : OutcomeAggregate) : RecordVersion :=
  ⟨o.sourceKind == "github.copilot_metrics", false, 0, Json.canonical o.toJson⟩

/-- `_version_key`. -/
def versionKey (v : RecordVersion) (copilot : Bool) : Bool ×ₗ Nat ×ₗ String :=
  toLex (!copilot && v.final, toLex (v.fetchedMs, v.canon))

/-- `choose_version`: whether the incoming version replaces the existing one. -/
def replacesVersion (existing incoming : RecordVersion) : Bool :=
  let copilot := existing.copilot || incoming.copilot
  decide (versionKey existing copilot < versionKey incoming copilot)

/-- `choose_version`. -/
def chooseVersion {α : Type} (version : α → RecordVersion) (existing incoming : α) : α :=
  if replacesVersion (version existing) (version incoming) then incoming else existing

end Store

end TokenBill

/-!
## What a merge keeps

The merged request of a group has the usage of its winner, a member, with other
diagnostics at most; its attribution is picked from the members; and its members are
the group.
-/

namespace TokenBill.Store

open General List

variable {h : Hashes}

theorem winnerOf_mem (first : Contribution) (rest : List Contribution) :
    winnerOf first rest ∈ first :: rest := by
  induction rest generalizing first with
  | nil => exact mem_singleton_self _
  | cons c rest ih =>
    have hc := ih (if c.rank < first.rank then c else first)
    rcases mem_cons.mp hc with he | hmem
    · rw [winnerOf, foldl_cons]
      rw [winnerOf] at he
      rw [he]
      split <;> simp
    · exact mem_cons_of_mem _ (mem_cons_of_mem _ hmem)

theorem map_fillDiagnostics {β : Type} {f : Attempt → β}
    (hf : ∀ a d, f { a with diagnostics := d } = f a) (winner : Request)
    (group : List Contribution) : (fillDiagnostics winner group).map f = winner.attempts.map f := by
  unfold fillDiagnostics
  split
  · rfl
  · split
    · rfl
    · rw [map_append, map_singleton, hf, ← map_singleton, ← map_append]
      exact congrArg (List.map f) (dropLast_append_getLast winner.attempts_ne)

variable {group : List Contribution} {mg : MergedGroup}

/-- The groups of a merge: a lone contribution, or several. -/
theorem mergeGroup_cases (hg : mergeGroup h group = some mg) : (∃ c, group = [c] ∧ mg.request = c.request ∧
      mg.winner = c ∧ mg.members = [c] ∧ mg.sourcesMask = sourcesMask [c.adapter]) ∨
    ∃ first rest, group = first :: rest ∧ rest ≠ [] ∧ mg = mergeMany h first rest := by
  match group with
  | [] => cases hg
  | [c] =>
    obtain rfl := Option.some.inj hg
    exact .inl ⟨c, rfl, rfl, rfl, rfl, rfl⟩
  | c :: c' :: rest =>
    obtain rfl := Option.some.inj hg
    exact .inr ⟨c, c' :: rest, rfl, by simp, rfl⟩

theorem mergeGroup_members (hg : mergeGroup h group = some mg) : mg.members.Perm group := by
  rcases mergeGroup_cases hg with ⟨c, rfl, -, -, hm, -⟩ | ⟨first, rest, rfl, -, rfl⟩
  · rw [hm]
  · exact perm_insertionSort _ _

theorem mergeGroup_winner (hg : mergeGroup h group = some mg) : mg.winner ∈ group := by
  rcases mergeGroup_cases hg with ⟨c, rfl, -, hw, -, -⟩ | ⟨first, rest, rfl, -, rfl⟩
  · rw [hw]
    exact mem_singleton_self c
  · exact winnerOf_mem first rest

/-- A merged request has its winner's attempts, up to diagnostics. -/
theorem mergeGroup_attempts (hg : mergeGroup h group = some mg) {β : Type} {f : Attempt → β}
    (hf : ∀ a d, f { a with diagnostics := d } = f a) :
    mg.request.attempts.map f = mg.winner.request.attempts.map f := by
  rcases mergeGroup_cases hg with ⟨c, rfl, hr, hw, -, -⟩ | ⟨first, rest, rfl, -, rfl⟩
  · rw [hr, hw]
  · exact map_fillDiagnostics hf _ _

theorem head_map_tsStart (r : Request) :
    (r.attempts.map (·.tsStartMs)).head? = some r.tsStartMs := by
  rw [head?_map, head?_eq_some_head r.attempts_ne]
  rfl

theorem mergeGroup_tsStart (hg : mergeGroup h group = some mg) : mg.request.tsStartMs = mg.winner.request.tsStartMs := by
  have hm := mergeGroup_attempts hg (f := (·.tsStartMs)) fun _ _ => rfl
  have hh := head_map_tsStart mg.request
  rw [hm, head_map_tsStart] at hh
  exact (Option.some.inj hh).symm

/-! ### The groups of a batch -/

theorem mem_firstOfKey {α κ : Type} [DecidableEq κ] {key : α → κ} {l : List α} {x : α}
    (hx : x ∈ firstOfKey key l) : x ∈ l := (firstOfKey_sublist key l).subset hx

theorem mem_mergeContributions {contribs : List Contribution} {collided : List String}
    (hm : mg ∈ mergeContributions h contribs collided) :
    ∃ group, (∀ c ∈ group, c ∈ contribs) ∧ mergeGroup h group = some mg := by
  have hm := (perm_insertionSort _ _).mem_iff.mp hm
  obtain ⟨group, hgroup, hmg⟩ := mem_filterMap.mp hm
  refine ⟨group, fun c hc => ?_, hmg⟩
  obtain ⟨root, -, rfl⟩ := mem_map.mp hgroup
  obtain ⟨⟨c', label⟩, hc', rfl⟩ := mem_map.mp hc
  have := (of_mem_zip (mem_of_mem_filter hc')).1
  exact mem_firstOfKey ((perm_insertionSort _ _).mem_iff.mp this)

end TokenBill.Store
