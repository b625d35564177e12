import TokenBill.Core.JsonText
import TokenBill.Core.Money
import TokenBill.General.MergePatch

/-!
# Managed settings

`plan/policy_pack.py`, its settings: the text it writes of a value, the keys it may write
with their domains, and reading and writing a document under a key. A document is an
object without `null`, and its sections `env` and `hooks` are objects.

The classes of characters of `str` and `re` are parameters. That an integer of more than
4300 digits or a number beyond the exponents of the decimal context is not written at all
is left out.
-/

namespace TokenBill.PolicyPack

open General

/-! ### Errors -/

/-- What is raised instead of packs. -/
inductive PackError where
  /-- `settings contain null values, which a JSON merge patch cannot restore`. -/
  | nulls
  /-- `current settings must be a JSON object`. -/
  | notAnObject
  /-- `current settings: {section} must be an object`. -/
  | sectionNotAnObject (part : String)
  /-- `settings key {key} is not in the allowlist`. -/
  | unknownKey (key : String)
  /-- `settings key {key} is not a Claude Code managed-settings key`. -/
  | foreignKey (key : String)
  /-- `settings key {key}: value outside its domain`. -/
  | outsideDomain (key : String)
  /-- The `ValueError` of `int` for digits that are no decimals. -/
  | notDecimal
  /-- `a fix config_patch value is not valid JSON`. -/
  | notJson
  /-- `current env.OTEL_RESOURCE_ATTRIBUTES is not a key=value list`. -/
  | attributes
  /-- `cohort ids must be 1-128 printable characters without slashes`. -/
  | cohort
  /-- An error of `parse_policy`. -/
  | policy (message : String)

/-! ### Text -/

/-- A number rounded by `Decimal.normalize`: half to even, to 28 digits and to the least exponent. -/
def normalize (n : Decimal) : Decimal :=
  let drop := max ((Decimal.digits n.mant.natAbs).length - 28) (n.scale - 1000026)
  Decimal.ofExp (divHalfEven n.mant (10 ^ drop)) (drop - n.scale)

/-- The number that is written for a number: itself if it is whole. -/
def written (n : Decimal) : Decimal := if n.scale = 0 then n else normalize n

/-- `canonical_json` without an indent. -/
def canonicalJson (v : JsonValue) : List Char := JsonText.render (v.mapNum written)

theorem loads_canonicalJson {v : JsonValue} (h : v.Sorted) :
    JsonText.loads (canonicalJson v) = some (v.mapNum written) := JsonText.loads_render (h.mapNum written)

/-! ### Values -/

/-- A settings value: a JSON value without `null`. -/
structure Value where
  json : JsonValue
  sorted : json.Sorted
  nullFree : json.NullFree
  /-- Whether a number has the type `int`. -/
  int : Bool := false

/-- `_json_value`. -/
def jsonValue (v : JsonValue) (h : v.Sorted) (int : Bool) : Except PackError Value :=
  if hn : v.isNullFree = true then .ok ⟨v, h, JsonValue.isNullFree_iff.mp hn, int⟩ else .error .nulls

def Value.str (s : String) : Value := ⟨.str s, .str s, .str s, false⟩

def Value.bool (b : Bool) : Value := ⟨.bool b, .bool b, .bool b, false⟩

def Value.nat (n : Nat) : Value := ⟨.num (.ofInt n), .num _, .num _, true⟩

/-! ### Domains -/

/-- What `str` and `re` know of the characters. -/
structure Chars where
  /-- What `str.strip` removes. -/
  isSpace : Char → Bool
  /-- `str.isdigit`. -/
  isDigit : Char → Bool
  /-- The digit `int` reads of a character that `\d` matches. -/
  decimal : Char → Option Nat

/-- `_MODEL_ID_RE`. -/
def modelId (s : List Char) : Bool :=
  match s with
  | [] => false
  | c :: cs => c.isAlphanum && decide (cs.length ≤ 127) &&
      cs.all fun c => c.isAlphanum || c ∈ ['.', '_', ':', '/', '@', '[', ']', '-']

/-- `_SAFE_STR_RE`, less the length. -/
def safeChar (c : Char) : Bool :=
  let n := c.toNat
  !(decide (n ≤ 0x1f) || decide (0x7f ≤ n ∧ n ≤ 0x9f) || decide (0x202a ≤ n ∧ n ≤ 0x202e) ||
    decide (0x2066 ≤ n ∧ n ≤ 0x2069))

/-- `_is_model`. -/
def isModel : JsonValue → Bool
  | .str s => modelId s.toList
  | _ => false

/-- `_int_in`. -/
def intIn (v : Value) (lo hi : Int) : Bool :=
  match v.json with
  | .num n => v.int && decide (n.scale = 0 ∧ lo ≤ n.mant ∧ n.mant ≤ hi)
  | _ => false

/-- `_digits_in`. -/
def digitsIn (chars : Chars) (v : JsonValue) (lo hi : Nat) : Except PackError Bool :=
  match v with
  | .str s =>
    if s.toList ≠ [] ∧ s.toList.all chars.isDigit ∧ s.toList.length ≤ 16 then
      match s.toList.mapM chars.decimal with
      | none => .error .notDecimal
      | some ds =>
        let n := ds.foldl (fun n d => 10 * n + d) 0
        .ok (decide (lo ≤ n ∧ n ≤ hi))
    else .ok false
  | _ => .ok false

/-- `_safe_str`. -/
def safeStr : JsonValue → Bool
  | .str s => decide (s.toList.length ≤ 512) && s.toList.all safeChar
  | _ => false

def isOneOf (texts : List String) : JsonValue → Bool
  | .str s => s ∈ texts
  | _ => false

def isBool : JsonValue → Bool
  | .bool _ => true
  | _ => false

/-- A hook in an item of `_check_hooks`. -/
def checkHook : JsonValue → Bool
  | .obj fields =>
    match fields.lookup "type", fields.lookup "command" with
    | some kind, some command => isOneOf ["command"] kind && safeStr command && !isOneOf [""] command
    | _, _ => false
  | _ => false

/-- An item of `_check_hooks`. -/
def checkHookItem : JsonValue → Bool
  | .obj fields => safeStr ((fields.lookup "matcher").getD (.str "")) &&
      match fields.lookup "hooks" with
      | some (.arr hooks) => !hooks.isEmpty && hooks.all checkHook
      | _ => false
  | _ => false

/-- `_check_hooks`. -/
def checkHooks : JsonValue → Bool
  | .arr items => decide (items.length ≤ 64) && items.all checkHookItem
  | _ => false

def isNumber (p : ℚ → Bool) : JsonValue → Bool
  | .num n => p n.toRat
  | _ => false

/-- The rates of a model in `_check_model_pricing`. -/
def checkRates : JsonValue → Bool
  | .obj rates => rates.all fun rate =>
      decide (rate.1 ∈ ["input", "output", "cacheRead", "cacheWrite"]) &&
        isNumber (fun q => decide (0 ≤ q)) rate.2
  | _ => false

/-- `_check_model_pricing`. -/
def checkModelPricing : JsonValue → Bool
  | .obj fields => !fields.isEmpty && fields.all (fun f => decide (f.1 ∈ ["multiplier", "overrides"])) &&
      (match fields.lookup "multiplier" with
        | none => true
        | some mult => isNumber (fun q => decide (0 < q ∧ q ≤ 10)) mult) &&
      match fields.lookup "overrides" with
      | none => true
      | some (.obj overrides) => overrides.all fun f => modelId f.1.toList && checkRates f.2
      | some _ => false
  | _ => false

/-- The pattern of `env.ENABLE_TOOL_SEARCH`. -/
def toolSearch (chars : Chars) : JsonValue → Bool
  | .str s => s ∈ ["true", "false", "auto"] || ("auto:".toList.isPrefixOf s.toList &&
      let ds := s.toList.drop 5
      decide (1 ≤ ds.length ∧ ds.length ≤ 6) && ds.all fun c => (chars.decimal c).isSome)
  | _ => false

/-- `str.strip`. -/
def strip (chars : Chars) (text : List Char) : List Char :=
  ((text.dropWhile chars.isSpace).reverse.dropWhile chars.isSpace).reverse

/-- A pair in `_attrs_ok`. -/
def attrOk (chars : Chars) (part : List Char) : Bool :=
  let name := strip chars (part.takeWhile (· ≠ '='))
  let value := strip chars ((part.dropWhile (· ≠ '=')).drop 1)
  part.contains '=' && decide (1 ≤ name.length ∧ name.length ≤ 128) &&
    (name.all fun c => c.isAlphanum || c ∈ ['_', '.', '-']) && decide (value.length ≤ 256) &&
    value.all fun c => c.isAlphanum || c ∈ ['_', '.', '+', ':', '/', '@', '%', '-']

/-- `_attrs_ok`. -/
def attrsOk (chars : Chars) (text : List Char) : Bool :=
  text.isEmpty || (text.splitOn ',').all (attrOk chars)

/-- The domain of `env.OTEL_RESOURCE_ATTRIBUTES`. -/
def checkAttrs (chars : Chars) : JsonValue → Bool
  | .str s => attrsOk chars s.toList
  | _ => false

/-- `EFFORT_LEVELS`. -/
def effortLevels : List String := ["low", "medium", "high", "xhigh", "max"]

/-- A list of at most `limit` values with a property. -/
def isListOf (limit : Nat) (p : JsonValue → Bool) : JsonValue → Bool
  | .arr items => decide (items.length ≤ limit) && items.all p
  | _ => false

def isEmptyList : JsonValue → Bool
  | .arr [] => true
  | _ => false

/-- `_OTEL_KEY`. -/
def otelKey : String := "env.OTEL_RESOURCE_ATTRIBUTES"

/-- `_DOMAIN_CHECKS`. -/
def domainChecks (chars : Chars) : List (String × (Value → Except PackError Bool)) :=
  let text (texts : List String) (v : Value) : Except PackError Bool := .ok (isOneOf texts v.json)
  let model (v : Value) : Except PackError Bool := .ok (isModel v.json)
  [("autoCompactWindow", fun v => .ok (intIn v 100000 1000000)),
    ("env.CLAUDE_CODE_AUTO_COMPACT_WINDOW", fun v => digitsIn chars v.json 100000 1000000),
    ("env.CLAUDE_CODE_DISABLE_1M_CONTEXT", text ["1"]),
    ("promptCacheTtl", text ["5m", "1h"]),
    ("subagentPromptCacheTtl", text ["5m", "1h"]),
    ("env.CLAUDE_CODE_PROMPT_CACHE_TTL", text ["5m", "1h"]),
    ("env.CLAUDE_CODE_SUBAGENT_PROMPT_CACHE_TTL", text ["5m", "1h"]),
    ("env.ENABLE_PROMPT_CACHING_1H", text ["1"]),
    ("env.FORCE_PROMPT_CACHING_5M", text ["1"]),
    ("model", model),
    ("effortLevel", text ["low", "medium", "high", "xhigh"]),
    ("env.CLAUDE_CODE_SUBAGENT_MODEL", model),
    ("env.ANTHROPIC_DEFAULT_OPUS_MODEL", model),
    ("env.ANTHROPIC_DEFAULT_SONNET_MODEL", model),
    ("env.ANTHROPIC_DEFAULT_HAIKU_MODEL", model),
    ("availableModels", fun v => .ok (!isEmptyList v.json && isListOf 64 isModel v.json)),
    ("enforceAvailableModels", fun v => .ok (isBool v.json)),
    ("maxEffortLevel", text effortLevels),
    ("fastModePerSessionOptIn", fun v => .ok (isBool v.json)),
    ("env.CLAUDE_CODE_DISABLE_FAST_MODE", text ["1"]),
    ("modelPricing", fun v => .ok (checkModelPricing v.json)),
    ("bashOutputMaxChars", fun v => .ok (intIn v 1 (10 ^ 9))),
    ("env.MAX_MCP_OUTPUT_TOKENS", fun v => digitsIn chars v.json 1 (10 ^ 9)),
    ("env.ENABLE_TOOL_SEARCH", fun v => .ok (toolSearch chars v.json)),
    ("skillListingBudgetFraction", fun v => .ok (isNumber (fun q => decide (0 < q ∧ q ≤ 1)) v.json)),
    ("claudeMdExcludes", fun v =>
      .ok (isListOf 256 (fun p => safeStr p && !isOneOf [""] p) v.json)),
    ("cleanupPeriodDays", fun v => .ok (intIn v 1 100000)),
    ("env.CLAUDE_CODE_ENABLE_TELEMETRY", text ["1"]),
    (otelKey, fun v => .ok (checkAttrs chars v.json)),
    ("env.OTEL_METRICS_INCLUDE_ENTRYPOINT", text ["true"]),
    ("hooks.SessionStart", fun v => .ok (checkHooks v.json))]

/-! ### Keys -/

/-- `AllowedKey`, as far as packs read it. -/
structure AllowedKey where
  key : String
  minVersion : Option String
  (verified tradeoff : Bool)

def plainKey (key : String) (minVersion : Option String := none) : AllowedKey := ⟨key, minVersion, true, false⟩

def tradeoffKey (key : String) (minVersion : Option String := none) : AllowedKey := ⟨key, minVersion, true, true⟩

/-- `ALLOWLIST`, the `settings_keys` of the facts. -/
def allowlist : List AllowedKey :=
  [tradeoffKey "autoCompactWindow",
    tradeoffKey "env.CLAUDE_CODE_AUTO_COMPACT_WINDOW",
    plainKey "env.CLAUDE_CODE_DISABLE_1M_CONTEXT",
    plainKey "promptCacheTtl" "2.1.242",
    plainKey "subagentPromptCacheTtl" "2.1.242",
    plainKey "env.CLAUDE_CODE_PROMPT_CACHE_TTL" "2.1.242",
    plainKey "env.CLAUDE_CODE_SUBAGENT_PROMPT_CACHE_TTL" "2.1.242",
    plainKey "env.ENABLE_PROMPT_CACHING_1H",
    plainKey "env.FORCE_PROMPT_CACHING_5M",
    tradeoffKey "model",
    tradeoffKey "effortLevel",
    tradeoffKey "env.CLAUDE_CODE_SUBAGENT_MODEL",
    tradeoffKey "env.ANTHROPIC_DEFAULT_OPUS_MODEL",
    tradeoffKey "env.ANTHROPIC_DEFAULT_SONNET_MODEL",
    tradeoffKey "env.ANTHROPIC_DEFAULT_HAIKU_MODEL",
    tradeoffKey "availableModels",
    tradeoffKey "enforceAvailableModels" "2.1.175",
    tradeoffKey "maxEffortLevel" "2.1.267",
    plainKey "fastModePerSessionOptIn",
    plainKey "env.CLAUDE_CODE_DISABLE_FAST_MODE",
    plainKey "modelPricing" "2.1.242",
    plainKey "bashOutputMaxChars" "2.1.261",
    plainKey "env.MAX_MCP_OUTPUT_TOKENS",
    plainKey "env.ENABLE_TOOL_SEARCH",
    plainKey "skillListingBudgetFraction",
    plainKey "claudeMdExcludes",
    plainKey "cleanupPeriodDays",
    plainKey "env.CLAUDE_CODE_ENABLE_TELEMETRY",
    plainKey otelKey,
    plainKey "env.OTEL_METRICS_INCLUDE_ENTRYPOINT" "2.1.152",
    plainKey "hooks.SessionStart"]

/-- The keys of `COPILOT_ALLOWLIST`. -/
def copilotKeys : List String :=
  ["copilot.managed.model", "copilot.managed.telemetry.enabled", "copilot.managed.telemetry.endpoint",
    "copilot.managed.telemetry.protocol", "copilot.managed.telemetry.captureContent",
    "copilot.managed.telemetry.lockCaptureContent", "copilot.managed.telemetry.serviceName",
    "copilot.managed.telemetry.resourceAttributes", "copilot.managed.telemetry.headers",
    "copilot.managed.allowedMcpServers", "copilot.managed.deniedMcpServers", "copilot.repo.model",
    "copilot.repo.effortLevel", "copilot.repo.contextTier", "copilot.repo.disabledMcpServers",
    "copilot.repo.disabledSkills", "copilot.repo.allowed_models", "copilot.ci.max_ai_credits",
    "copilot.aw.max_ai_credits"]

/-- `_allowed_key`. -/
def allowedKey (key : String) : Except PackError AllowedKey :=
  match allowlist.find? fun entry => decide (entry.key = key) with
  | some entry => .ok entry
  | none => .error (if key ∈ copilotKeys then .foreignKey key else .unknownKey key)

/-- `_check_value`. Every key of the allowlist has its check. -/
def checkValue (chars : Chars) (key : String) (v : Value) : Except PackError Unit :=
  match (domainChecks chars).lookup key with
  | none => .error (.outsideDomain key)
  | some check => do
    let ok ← check v
    if ok then .ok () else .error (.outsideDomain key)

/-! ### Documents -/

/-- `_path`: the section of a key, if it has one, and the name in it. -/
def path (key : String) : Option String × String :=
  let head := key.toList.takeWhile (· ≠ '.')
  match key.toList.dropWhile (· ≠ '.') with
  | [] => (none, key)
  | _ :: tail => (some (String.ofList head), String.ofList tail)

def members (doc : Fields) (part : String) : Fields := ((doc.lookup part).map JsonValue.fields).getD []

/-- `_get`. -/
def get (doc : Fields) (key : String) : Option JsonValue :=
  match path key with
  | (none, name) => doc.lookup name
  | (some part, name) => (members doc part).lookup name

/-- `_set`. -/
def set (doc : Fields) (key : String) (v : JsonValue) : Except PackError Fields :=
  match path key with
  | (none, name) => .ok (insertKey name v doc)
  | (some part, name) =>
    match doc.lookup part with
    | none | some .null => .ok (insertKey part (.obj [(name, v)]) doc)
    | some (.obj fields) => .ok (insertKey part (.obj (insertKey name v fields)) doc)
    | some _ => .error (.sectionNotAnObject part)

def sections : List String := ["env", "hooks"]

/-- The current settings. -/
structure Current where
  fields : Fields
  sorted : (JsonValue.obj fields).Sorted
  nullFree : (JsonValue.obj fields).NullFree
  objects : ∀ part ∈ sections, ∀ v, fields.lookup part = some v → v.isObj = true

/-- `_normalize_current` of settings that are given. -/
def normalizeCurrent (v : JsonValue) (hs : v.Sorted) : Except PackError Current :=
  match v, hs with
  | .obj fields, hs =>
    if hn : (JsonValue.obj fields).isNullFree = true then
      if ho : ∀ part ∈ sections, ∀ v ∈ fields.lookup part, v.isObj = true then
        .ok ⟨fields, hs, JsonValue.isNullFree_iff.mp hn, ho⟩
      else .error (.sectionNotAnObject (if ∀ v ∈ fields.lookup "env", v.isObj = true then "hooks" else "env"))
    else .error .nulls
  | _, _ => .error .notAnObject

end TokenBill.PolicyPack
