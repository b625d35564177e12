import TokenBill.Copilot.ManagedSettings
import TokenBill.Copilot.SeatRecords

/-!
# Packs of teams

A team of enough people gets a settings file of its own, and the teams are dealt in turn over at most three
waves, first the teams that mostly use JetBrains and then the others. A settings file is named by a slug of
the team, the README of its pack by a slug of the shown name, and the mapping of teams by the shown name
itself. Writing a pack puts its README and its files below a directory.

The files of the organisation and their texts are what the function has made before it comes to the teams.
-/

namespace TokenBill.TeamPacks

open General Kanon
open Copilot.Seats (editorFamilies)

/-! ### Names -/

/-- A character that `_SLUG_RE` keeps. -/
def isSlugChar (c : Char) : Bool := c.isAlphanum || c == '.' || c == '_' || c == '-'

/-- `_SLUG_RE.sub("-", text)`; the flag says that the hyphen of a run is written. -/
def hyphenate : Bool → List Char → List Char
  | _, [] => []
  | inRun, c :: cs =>
    if isSlugChar c then c :: hyphenate false cs
    else if inRun then hyphenate true cs
    else '-' :: hyphenate true cs

/-- A character that `strip("-.")` removes. -/
def isMark (c : Char) : Bool := c == '-' || c == '.'

/-- `_SLUG_RE.sub("-", text).strip("-.").lower()`. -/
def slugChars (text : String) : List Char :=
  (rstrip isMark (lstrip isMark (hyphenate false text.toList))).map Char.toLower

/-- `text or "team"`. -/
def orTeam (text : List Char) : List Char := if text = [] then "team".toList else text

/-- What the packs take from Python and the catalog. -/
structure Host extends Hashes where
  /-- `str.lower`. -/
  lower : String → String
  /-- `catalog.editor_family`. -/
  editorFamily : String → String
  /-- `_canon` and `_pretty`. -/
  canon : Document (String ⊕ Nat) → String
  pretty : Document (String ⊕ Nat) → String

/-- The name of a team's file before another team of the same name is looked for. -/
def base (team : String) : String := String.ofList (orTeam ((slugChars team).take 48))

def hashed (h : Host) (team : String) : String :=
  base team ++ "-" ++ String.ofList ((h.sha256 team).toList.take 8)

/-- `_slug`. -/
def slug (h : Host) (team : String) (taken : List String) : String :=
  if base team ∈ taken ∨ base team ≠ h.lower team then hashed h team else base team

/-- `sanitize(text, limit)`. -/
def sanitizeTo (limit : Nat) (text : String) : String :=
  if limit = 0 then ""
  else if limit < (Textsafe.sanitize text).length then
    String.ofList ((Textsafe.sanitize text).toList.take (limit - 1)) ++ "…"
  else Textsafe.sanitize text

/-- `_name`. -/
def name (text : String) : String :=
  String.ofList ((sanitizeTo 80 text).toList.map fun c => if c = '\u0060' then '\'' else if c = '|' then '/' else c)

/-! ### Teams -/

/-- The counts of a team. -/
abbrev Counts : Type := List (String × Int)

/-- What `UsageError` and `PrivacyError` say. -/
inductive PackError where
  | threshold
  | teamName
  | teamCount
  | pseudonym (file : String)
  | path

def PackError.message : PackError → String
  | .threshold => "k-anonymity threshold k must be an int >= 1"
  | .teamName => "teams must map a team name to a counts mapping"
  | .teamCount => "team counts must be non-negative integers"
  | .pseudonym file => "policy pack file " ++ file ++ " would contain a pseudonym"
  | .path => "policy pack paths must be relative"

/-- `_family`. -/
def family (h : Host) (key : String) : Option String :=
  if key = "cli" then some "cli"
  else if key = "app" then some "copilot_app"
  else if "ide:".toList.isPrefixOf key.toList ∨ key ∈ editorFamilies then some (h.editorFamily key)
  else none

def interactions (h : Host) (counts : Counts) : List (String × Int) :=
  counts.filterMap fun c =>
    if c.1 ∈ ["n_people", "seats", "idle_seats"] then none else (family h c.1).map fun f => (f, c.2)

/-- The checks of `team_editor_shares`, with `_MAX_COUNT`. -/
def checkTeam (team : String × Counts) : Except PackError Unit :=
  if team.1 = "" then .error .teamName
  else if team.2.all (fun c => decide (0 ≤ c.2 ∧ c.2 ≤ 10 ^ 9)) = false then .error .teamCount
  else .ok ()

/-- A team whose share of JetBrains is at least `JETBRAINS_HEAVY_SHARE`. No share of counts below
`_MAX_COUNT` comes to one half by the rounding of the division. -/
def isHeavy (h : Host) (counts : Counts) : Bool :=
  let total : Int := (interactions h counts).foldl (fun n i => n + i.2) 0
  let jetbrains : Int := ((interactions h counts).filter fun i => i.1 = "jetbrains").foldl (fun n i => n + i.2) 0
  decide (0 < total ∧ total ≤ 2 * jetbrains)

/-- The teams of at least `k` people. -/
def eligible (teams : List (String × Counts)) (k : Nat) : List (String × Counts) :=
  (teams.filter fun t => decide ((k : Int) ≤ (t.2.lookup "n_people").getD 0)).insertionSort fun a b => a.1 ≤ b.1

/-- A team with its file, its wave and whether it mostly uses JetBrains. -/
structure Wave where
  (team slug : String)
  wave : Nat
  heavy : Bool

def hashOrder (h : Host) (a b : String × Bool) : Prop :=
  h.sha256 a.1 < h.sha256 b.1 ∨ h.sha256 a.1 = h.sha256 b.1 ∧ a.1 ≤ b.1

instance (h : Host) : DecidableRel (hashOrder h) := fun a b => by unfold hashOrder; infer_instance

def dealt (h : Host) (teams : List (String × Counts)) (k : Nat) : List (String × Bool) :=
  let strata := (eligible teams k).map fun t => (t.1, isHeavy h t.2)
  (strata.filter (·.2)).insertionSort (hashOrder h) ++ (strata.filter fun t => !t.2).insertionSort (hashOrder h)

/-- `min(_WAVES, len(eligible)) or 1`. -/
def waveCount (teams : List (String × Counts)) (k : Nat) : Nat := max (min 3 (eligible teams k).length) 1

/-- The loop of `_team_waves`, at the team of index `i`. -/
def dealWaves (h : Host) (waves : Nat) : Nat → List String → List (String × Bool) → List Wave
  | _, _, [] => []
  | i, taken, (team, heavy) :: rest =>
    ⟨team, slug h team taken, i % waves + 1, heavy⟩ :: dealWaves h waves (i + 1) (slug h team taken :: taken) rest

/-- `_team_waves`. -/
def teamWaves (h : Host) (teams : List (String × Counts)) (k : Nat) : List Wave :=
  (dealWaves h (waveCount teams k) 0 [] (dealt h teams k)).insertionSort fun a b => a.team ≤ b.team

/-! ### Packs -/

/-- `PolicyEntry`, without the projection of the organisation's entries. -/
structure Entry where
  (key valueJson leverId : String)
  (needsEval verifiedKey : Bool)
  minVersion : Option String
  note : String

/-- `PolicyPack`. -/
structure Pack where
  (target cohort mergePatchJson rollbackPatchJson : String)
  entries : List Entry
  (otelResourceAttributes readmeMd : String)
  hooks : List (String × String)

/-- What the organisation's pack is made of before the teams. -/
structure Organisation where
  (patch rollback checklist limits agentic requests snippet optin : String)
  (repo allowedModels : Option String)
  (mergePatchJson rollbackPatchJson : String)
  entries : List Entry
  arms : String
  readme : List Wave → String

/-- The files of the organisation. -/
def Organisation.files (o : Organisation) : List (String × String) :=
  [("copilot/managed-settings.patch.json", o.patch), ("copilot/rollback.patch.json", o.rollback),
    ("github/admin-checklist.md", o.checklist), ("ci/copilot-limits.md", o.limits),
    ("ci/agentic-workflows.md", o.agentic), ("github/requests.jsonl", o.requests),
    ("vscode/settings.snippet.json", o.snippet), ("vscode/agent-traces-optin.md", o.optin)] ++
  (o.repo.map fun text => ("repo/.github/copilot/settings.patch.json", text)).toList ++
  (o.allowedModels.map fun text => ("repo/.github/allowed_models.txt", text)).toList

/-- The inputs of `build_copilot_packs` that the packs of teams depend on: the flags say that packs are asked
for by team, that `_MODEL_KEY` is wanted and that it is written. -/
structure Inputs where
  teams : List (String × Counts)
  k : Nat
  (byTeam modelWanted modelWritten telemetry : Bool)
  modelEntry : Entry
  organisation : Organisation

/-- `copilot/teams/{slug}.json`. -/
def settingsPath (w : Wave) : String := "copilot/teams/" ++ w.slug ++ ".json"

def autoLever : String := "copilot.default_model_auto"

def modelKey : String := "copilot.managed.model"

/-- `team_file`. -/
def teamFile (telemetry : Bool) (w : Wave) : List (String × Document (String ⊕ Nat)) :=
  ("model", .leaf (.inl "auto")) ::
    if telemetry then
      [("telemetry", .obj [("resourceAttributes", .obj [("team.id", .leaf (.inl (name w.team))),
        ("tokenbill.arm", .leaf (.inl autoLever)), ("tokenbill.wave", .leaf (.inl (toString w.wave)))])])]
    else []

/-- `_pretty(team_file)`. -/
def settingsText (h : Host) (inp : Inputs) (w : Wave) : String := h.pretty (.obj (teamFile inp.telemetry w))

/-- `team_readme`. -/
def teamReadme (inp : Inputs) (w : Wave) : String :=
  "# Team file for " ++ name w.team ++ " (wave " ++ toString w.wave ++ ")\n\n\u0060" ++ settingsPath w ++
    "\u0060 sets the managed \u0060model\u0060 to \u0060auto\u0060 for this team. " ++ inp.modelEntry.note ++ "\n"

/-- The pack of a team. -/
def teamPack (h : Host) (inp : Inputs) (w : Wave) : Pack where
  target := "github-copilot"
  cohort := name w.team
  mergePatchJson := h.canon (.obj (ManagedSettings.diff [] (teamFile inp.telemetry w)))
  rollbackPatchJson := h.canon (.obj (ManagedSettings.diff (teamFile inp.telemetry w) []))
  entries := [{ inp.modelEntry with
    key := modelKey, valueJson := h.canon (.leaf (.inl "auto")), leverId := autoLever, verifiedKey := true }]
  otelResourceAttributes := "tokenbill.arm=" ++ autoLever ++ ",tokenbill.wave=" ++ toString w.wave
  readmeMd := teamReadme inp w
  hooks := [(settingsPath w, settingsText h inp w)]

/-- `mapping`: a later team of the same name replaces the earlier one. -/
def teamMapping (waves : List Wave) : List (String × String × Nat) :=
  waves.foldl (fun mapping w => upsert (·.1) (name w.team, settingsPath w, w.wave) mapping) []

/-- `copilot/team-mappings.patch.json`. -/
def mappingFile (h : Host) (waves : List Wave) : String × String :=
  ("copilot/team-mappings.patch.json", h.pretty (.obj [("teams", .obj ((teamMapping waves).map fun m =>
    (m.1, .obj [("settings_file", .leaf (.inl m.2.1)), ("wave", .leaf (.inr m.2.2))])))]))

/-- The order of `files.sort()`. -/
def fileOrder (a b : String × String) : Prop := a.1 < b.1 ∨ a.1 = b.1 ∧ a.2 ≤ b.2

instance : DecidableRel fileOrder := fun a b => by unfold fileOrder; infer_instance

def isHex (c : Char) : Bool := c.isDigit || ('a' ≤ c && c ≤ 'f')

/-- Whether `_PSEUDONYM_RE` matches at the start of a text. -/
def pseudonymHere (text : List Char) : Bool :=
  match text with
  | kind :: '_' :: rest =>
    (kind == 'p' || kind == 'r' || kind == 'c') && (rest.take 20).length == 20 && (rest.take 20).all isHex &&
      (rest.drop 20).head?.all fun c => !isHex c
  | _ => false

/-- `_PSEUDONYM_RE.search`; the flag says that a word character comes before. -/
def hasPseudonym : Bool → List Char → Bool
  | _, [] => false
  | word, c :: cs =>
    !word && pseudonymHere (c :: cs) || hasPseudonym (c.isAlphanum || c == '_') cs

/-- `_guard`. -/
def guard (files : List (String × String)) : Except PackError Unit :=
  files.forM fun f => if hasPseudonym false f.2.toList then .error (.pseudonym f.1) else .ok ()

/-- The waves of a run; there are none where the teams get no files. -/
def runWaves (h : Host) (inp : Inputs) : List Wave :=
  if inp.byTeam && inp.modelWanted && inp.modelWritten then teamWaves h inp.teams inp.k else []

/-- The files of the organisation's pack. -/
def mainFiles (h : Host) (inp : Inputs) : List (String × String) :=
  let waves := runWaves h inp
  (inp.organisation.files ++ if waves = [] then [] else
    waves.map (fun w => (settingsPath w, settingsText h inp w)) ++ [mappingFile h waves]).insertionSort fileOrder

/-- The pack of the organisation; its README tells of the waves of teams also where no file is written. -/
def mainPack (h : Host) (inp : Inputs) : Pack where
  target := "github-copilot"
  cohort := "all"
  mergePatchJson := inp.organisation.mergePatchJson
  rollbackPatchJson := inp.organisation.rollbackPatchJson
  entries := inp.organisation.entries
  otelResourceAttributes := inp.organisation.arms
  readmeMd := inp.organisation.readme (if inp.byTeam && inp.modelWanted then teamWaves h inp.teams inp.k else [])
  hooks := mainFiles h inp

/-- `build_copilot_packs`. -/
def buildCopilotPacks (h : Host) (inp : Inputs) : Except PackError (List Pack) := do
  if inp.k < 1 then throw .threshold
  inp.teams.forM checkTeam
  guard ((mainPack h inp).hooks ++ [("README.md", (mainPack h inp).readmeMd)])
  return mainPack h inp :: ((runWaves h inp).map (teamPack h inp)).insertionSort fun a b => a.cohort ≤ b.cohort

/-! ### Writing -/

def readmePath (cohort : String) : String :=
  if cohort = "all" then "README.md"
  else "copilot/teams/README-" ++ String.ofList (orTeam (slugChars cohort)) ++ ".md"

/-- `PurePosixPath(rel).parts`. -/
def pathParts (rel : String) : List (List Char) :=
  (rel.toList.splitOn '/').filter fun part => part ≠ [] && part ≠ ['.']

/-- A directory: the texts of the files below it, by their paths. -/
abbrev Directory : Type := List (List (List Char) × String)

def Directory.read (dir : Directory) (path : List (List Char)) : Option String :=
  (dir.find? fun f => decide (f.1 = path)).map (·.2)

/-- One file of `write_pack`. -/
def writeFile (dir : Directory) (file : String × String) : Except PackError Directory :=
  if '\\' ∈ file.1.toList ∨ ':' ∈ file.1.toList then .error .path
  else if "/".toList.isPrefixOf file.1.toList ∨ ['.', '.'] ∈ pathParts file.1 ∨ pathParts file.1 = [] then .error .path
  else .ok (upsert (·.1) (pathParts file.1, file.2) dir)

def Pack.files (p : Pack) : List (String × String) := (readmePath p.cohort, p.readmeMd) :: p.hooks

/-- `write_pack`. -/
def writePack (dir : Directory) (p : Pack) : Except PackError Directory := p.files.foldlM writeFile dir

def writePacks (dir : Directory) (packs : List Pack) : Except PackError Directory := packs.foldlM writePack dir

end TokenBill.TeamPacks
