import TokenBill.Copilot.Handoff
import TokenBill.Core.DecimalText
import TokenBill.Core.Rescope

/-!
# Seat, activity and configuration records

`LicenseSnapshot` and `ActivityDay` of `core/records.py` with their dates as text, and
`ConfigSnapshot`; what their constructors check; and `record_key`, the text under which a store
keeps one row of each.
-/

namespace TokenBill.Copilot.Seats

open Handoff (configKey countAttrs countConfigKinds escapePart keyPart)

/-! ### Checks -/

/-- `\d` of a pattern: a decimal digit of any script. -/
def isDecimalDigit (c : Char) : Bool :=
  decimalZeros.any fun z => decide (z ≤ c.toNat) && decide (c.toNat < z + 10)

/-- `_DATE_RE`. -/
def isDateText (s : String) : Bool :=
  s.toList.length == 10 && s.toList.zipIdx.all fun p =>
    if p.2 = 4 ∨ p.2 = 7 then p.1 == '-' else isDecimalDigit p.1

/-- `MAX_TOKENS`, the bound of `_count`. -/
def isCount (n : Nat) : Bool := decide (n ≤ 2 ^ 53)

/-- `_one_of` of a value that may be absent. -/
def oneOf? (allowed : List String) (value : Option String) : Bool := value.all fun v => decide (v ∈ allowed)

/-- `LICENSE_BUCKETS`. -/
def licenseBuckets : List String := ["0-7", "8-30", "31-90", "none_90d"]

/-- `EDITOR_FAMILIES`. -/
def editorFamilies : List String :=
  ["vscode", "jetbrains", "visual_studio", "xcode", "eclipse", "neovim", "cli", "github_com", "copilot_app",
    "mobile", "other"]

/-- `ACTIVITY_KEYS`. -/
def activityKeys : List String :=
  ["interactions", "code_generation", "code_acceptance", "loc_suggested_add", "loc_suggested_delete", "loc_added",
    "loc_deleted", "cli_sessions", "cli_requests", "cli_prompts", "cli_prompt_tokens", "cli_output_tokens",
    "app_sessions", "app_requests", "app_prompts", "app_prompt_tokens", "app_output_tokens", "mcp_distinct",
    "skill_distinct", "custom_agent_distinct", "plugin_distinct", "slash_cmd_distinct", "third_party_agent_jobs"]

/-- `ACTIVITY_KEY_PREFIXES`. -/
def activityKeyPrefixes : List String := ["feature:", "model:", "ide:"]

/-- `ACTIVITY_FLAGS`. -/
def activityFlags : List String :=
  ["used_chat", "used_agent", "used_cli", "used_copilot_app", "used_cloud_agent", "used_code_review_active",
    "used_code_review_passive"]

/-- `_KEY_SUFFIX_RE`. -/
def isKeySuffix (cs : List Char) : Bool :=
  decide (1 ≤ cs.length ∧ cs.length ≤ 64) &&
    cs.all fun c => c.isLower || c.isDigit || c == '.' || c == '_' || c == '-'

/-- `_prefixed_key_ok`: a fixed key, or a prefix with a suffix. -/
def prefixedKeyOk (key : String) (fixed : List String) (suffixOk : List Char → Bool) : Bool :=
  fixed.any fun entry =>
    if entry.toList.getLast? = some '.' ∨ entry.toList.getLast? = some ':' then
      startsWith key entry && decide (entry.length < key.length) && suffixOk (key.toList.drop entry.length)
    else key == entry

/-- `CONFIG_KEYS`. -/
def configKeys : String → List String
  | "budget" => ["scope", "type", "sku", "amount_nano", "prevent_further_usage", "will_alert", "n_recipients",
      "expires_at", "consumed_nano", "target", "team", "cost_center"]
  | "budget_users" => ["n_users", "n_at_or_over_target", "consumed_p50_nano", "consumed_p90_nano"]
  | "cost_center" => ["cost_center_id", "state", "pool_enabled", "pool_target_credits", "pool_current_credits",
      "n_users", "n_teams", "n_orgs", "n_repos", "azure"]
  | "org_settings" => ["plan_type", "seat_management_setting", "ide_chat", "platform_chat", "cli", "seats_total",
      "seats_added_this_cycle", "seats_pending_cancellation", "seats_pending_invitation",
      "seats_active_this_cycle", "seats_inactive_this_cycle"]
  | "run_flags" => ["promo_eligible", "compliance", "paid_usage_policy", "org_cli_billing_policy", "plan.",
      "pool_seats.", "billing_mode.", "renewal_date.", "capped_policy.", "budget_stop."]
  | "seat_counts" => ["team", "plan", "bucket", "surface", "assigned_via_team", "pending_cancellation",
      "created_over_30d", "zero_cost_30d", "n", "n_people"]
  | "activity_counts" => ["team", "month", "n_people", "interactions", "cli_requests", "cli_prompt_tokens",
      "app_interactions", "ide:"]
  | "plan_quota" => ["month", "quota", "n_users"]
  | _ => []

/-- `CONFIG_KINDS`. -/
def configKinds : List String :=
  ["budget", "budget_users", "cost_center", "org_settings", "run_flags", "seat_counts", "activity_counts",
    "plan_quota"]

/-- `CONFIG_SOURCE_KINDS`. -/
def configSourceKinds : List String :=
  ["github.budgets", "github.cost_centers", "github.org_copilot_settings", "github.ai_usage_report",
    "tokenbill.cli", "tokenbill.admin_answers", "tokenbill.copilot_export"]

/-- `_ENTITY_ID_RE`. -/
def isEntityId (s : String) : Bool :=
  decide (s ∈ ["enterprise", "run", "admin_answers"]) ||
    ["org:", "cc:", "budget:"].any fun kind =>
      startsWith s kind && decide (kind.length < s.length) &&
        (s.toList.drop kind.length).all fun c => decide (31 < c.toNat)

/-- What `ConfigSnapshot` checks of an attribute. -/
def attrOk (kind : String) (a : String × AttrValue) : Bool :=
  prefixedKeyOk a.1 (configKeys kind) (fun _ => true) &&
    match a.2 with
    | .int n => decide (-(2 ^ 63 - 1) ≤ n ∧ n ≤ 2 ^ 63 - 1)
    | .str s => !Kanon.isPrincipalText s
    | _ => true

/-! ### Records -/

/-- `LicenseSnapshot`: one seat at a snapshot date. -/
structure LicenseSnapshot where
  (snapshotDate product plan principal : String)
  (team costCenter org seatCreated pendingCancellation : Option String)
  lastActivityBucket : String
  lastActivitySurface : Option String
  lastAuthenticatedBucket : String
  assignedViaTeam : Option Bool
  fetchedMs : Nat := 0
  sourceKind : String := "github.copilot_seats"

/-- The checks of `LicenseSnapshot`. -/
def LicenseSnapshot.Valid (l : LicenseSnapshot) : Bool :=
  isDateText l.snapshotDate && decide (l.plan ∈ ["business", "enterprise", "unknown"]) &&
    Kanon.isPrincipalText l.principal && decide (l.lastActivityBucket ∈ licenseBuckets) &&
    oneOf? editorFamilies l.lastActivitySurface && decide (l.lastAuthenticatedBucket ∈ licenseBuckets ++ ["unknown"]) &&
    isCount l.fetchedMs && decide (l.sourceKind ∈ ["github.copilot_seats", "github.copilot_activity_report"])

/-- `ActivityDay`: the activity of a person on a day. -/
structure ActivityDay where
  (dateUtc product principal : String)
  (team costCenter : Option String)
  reportedCostNano : Option Int
  counts : List (String × Nat)
  flags : List String
  fetchedMs : Nat := 0
  sourceKind : String := "github.copilot_metrics"

/-- The checks of `ActivityDay`. -/
def ActivityDay.Valid (a : ActivityDay) : Bool :=
  isDateText a.dateUtc && Kanon.isPrincipalText a.principal &&
    decide ((a.counts.map (·.1)).Pairwise (· < ·)) &&
    a.counts.all (fun c => prefixedKeyOk c.1 (activityKeys ++ activityKeyPrefixes) isKeySuffix && isCount c.2) &&
    decide (a.flags.Pairwise (· < ·)) && a.flags.all (fun f => decide (f ∈ activityFlags)) && isCount a.fetchedMs

/-- The checks of `ConfigSnapshot`. -/
def validConfig (c : ConfigSnapshot) : Bool :=
  isCount c.snapshotMs && decide (c.snapshotMs ≤ 253402300799999) && decide (c.sourceKind ∈ configSourceKinds) &&
    decide (c.kind ∈ configKinds) && isEntityId c.entityId && decide ((c.attrs.map (·.1)).Pairwise (· < ·)) &&
    c.attrs.all (attrOk c.kind) && isCount c.fetchedMs

/-! ### Keys -/

/-- `record_key` of a licence. -/
def licenseKey (l : LicenseSnapshot) : String :=
  "\x1f".intercalate [l.snapshotDate, escapePart l.product, l.principal, escapePart (l.org.getD "")]

/-- `record_key` of an activity day. -/
def activityKey (a : ActivityDay) : String :=
  "\x1f".intercalate [a.dateUtc, escapePart a.product, a.principal]

def keyAttrs (c : ConfigSnapshot) : List (String × AttrValue) :=
  if c.kind ∈ countConfigKinds then c.attrs.filter fun a => decide (a.1 ∉ countAttrs) else []

def utcDay (c : ConfigSnapshot) : Nat := c.snapshotMs / 86400000

/-- A record of the extension. -/
inductive Record where
  | license (l : LicenseSnapshot)
  | activity (a : ActivityDay)
  | config (c : ConfigSnapshot)

/-- What the constructor of a record checks. -/
def Record.Valid : Record → Bool
  | .license l => l.Valid
  | .activity a => a.Valid
  | .config c => validConfig c

/-- `record_key`. -/
def recordKey : Record → String
  | .license l => licenseKey l
  | .activity a => activityKey a
  | .config c => configKey c

/-- The parts of a natural key. -/
inductive NaturalKey where
  | license (snapshotDate product principal org : String)
  | activity (dateUtc product principal : String)
  | config (kind entityId : String) (day : Nat) (attrs : List (String × AttrValue))

/-- The natural key of a record, as `record_key` documents it. -/
def naturalKey : Record → NaturalKey
  | .license l => .license l.snapshotDate l.product l.principal (l.org.getD "")
  | .activity a => .activity a.dateUtc a.product a.principal
  | .config c => .config c.kind c.entityId (utcDay c) (keyAttrs c)

/-- Two records are of one type. -/
def Record.sameType : Record → Record → Bool
  | .license _, .license _ => true
  | .activity _, .activity _ => true
  | .config _, .config _ => true
  | _, _ => false

example : (licenseKey ⟨"2026-09-01", "github_copilot", "business", "p_0123456789abcdef0123", none, none,
      some "a\x1fb", none, none, "0-7", none, "unknown", none, 0, "github.copilot_seats"⟩ =
    "2026-09-01\x1fgithub_copilot\x1fp_0123456789abcdef0123\x1fa\\x1fb") ∧
    validConfig ⟨1, "tokenbill.cli", "activity_counts", "org:acme",
      [("ide:vscode", .int 4), ("n_people", .int 6), ("team", .str "core")], 0⟩ := by
  decide

end TokenBill.Copilot.Seats
