import TokenBill.Core.Labels
import TokenBill.General.Lists
import TokenBill.Plan.Settings

/-!
# One policy pack

`plan/policy_pack.py`, `_assemble`: the proposals for a cohort, one for each key, become
entries, and the entries of verified keys a merge patch of the current settings with the
patch back. Trade-offs may be left out, and the setting that tags the rollout is added.

The notes and the README are left out, but for the conflicts and the trade-offs the README
lists.
-/

namespace TokenBill.PolicyPack

open General

/-! ### Proposals -/

/-- `_Proposal`. -/
structure Proposal where
  key : String
  value : Value
  leverId : String
  projection : Option Figure
  (needsEval tradeoff primary : Bool)

/-- `_REPORTING`. -/
def reporting : String := "reporting.model_pricing"

/-- `_VERIFICATION`. -/
def verification : String := "verification"

/-- Whether values are equal, where `true` is 1. -/
def Proposal.same (p q : Proposal) : Bool := JsonValue.looseEq p.value.json q.value.json

/-- The line of a conflict. -/
def conflictLine (old p : Proposal) : String :=
  "`" ++ p.key ++ "`: " ++ p.leverId ++ " proposes " ++ String.ofList (canonicalJson p.value.json) ++ "; kept " ++
    String.ofList (canonicalJson old.value.json) ++ " from " ++ old.leverId

/-- A step of `_dedupe`. -/
def dedupeStep (acc : List Proposal × List String) (p : Proposal) : List Proposal × List String :=
  match acc.1.find? fun q => decide (q.key = p.key) with
  | none => (acc.1 ++ [p], acc.2)
  | some old => if old.same p then acc else (acc.1, acc.2 ++ [conflictLine old p])

/-- `_dedupe`. -/
def dedupe (proposals : List Proposal) : List Proposal × List String := proposals.foldl dedupeStep ([], [])

/-! ### Values merged with the current ones -/

def mergeItems (existing items : List JsonValue) : List JsonValue :=
  items.foldl (fun merged item => if merged.any (JsonValue.looseEq · item) then merged else merged ++ [item]) existing

theorem forall_mem_mergeItems {P : JsonValue → Prop} {existing items : List JsonValue}
    (he : ∀ v ∈ existing, P v) (hi : ∀ v ∈ items, P v) : ∀ v ∈ mergeItems existing items, P v := by
  induction items generalizing existing with
  | nil => exact he
  | cons item items ih =>
    rw [List.forall_mem_cons] at hi
    have hmerged : ∀ v ∈ (if existing.any (JsonValue.looseEq · item) then existing else existing ++ [item]),
        P v := by
      split
      · exact he
      · exact List.forall_mem_append.mpr ⟨he, List.forall_mem_singleton.mpr hi.1⟩
    exact ih hmerged hi.2

theorem get_value (current : Current) {key : String} {v : JsonValue} (h : get current.fields key = some v) :
    v.Sorted ∧ v.NullFree := by
  unfold get at h
  split at h
  · exact ⟨current.sorted.lookup h, current.nullFree.lookup h⟩
  · rename_i part _ _
    unfold members at h
    cases hpart : current.fields.lookup part with
    | none =>
      rw [hpart] at h
      cases h
    | some w =>
      rw [hpart] at h
      have hsorted := current.sorted.lookup hpart
      have hfree := current.nullFree.lookup hpart
      cases w with
      | obj fields => exact ⟨hsorted.lookup h, hfree.lookup h⟩
      | _ => cases h

theorem Value.items_sorted {v : Value} {items : List JsonValue} (h : v.json = .arr items) :
    ∀ w ∈ items, w.Sorted := by
  have hv := v.sorted
  rw [h] at hv
  cases hv
  assumption

theorem Value.items_nullFree {v : Value} {items : List JsonValue} (h : v.json = .arr items) :
    ∀ w ∈ items, w.NullFree := by
  have hv := v.nullFree
  rw [h] at hv
  cases hv
  assumption

/-- The value under a key of the current settings. -/
def Current.value (current : Current) (key : String) : Option Value :=
  match h : get current.fields key with
  | none => none
  | some v => some ⟨v, (get_value current h).1, (get_value current h).2, false⟩

def mergedKeys : List String := ["hooks.SessionStart", "availableModels"]

/-- Two lists merged, and the second of other values. -/
def Value.merge (existing value : Value) : Value :=
  match he : existing.json, hv : value.json with
  | .arr old, .arr items => ⟨.arr (mergeItems old items),
      .arr (forall_mem_mergeItems (existing.items_sorted he) (value.items_sorted hv)),
      .arr (forall_mem_mergeItems (existing.items_nullFree he) (value.items_nullFree hv)), false⟩
  | _, _ => value

/-- `_final_value`. -/
def finalValue (key : String) (value : Value) (current : Current) : Value :=
  if key ∈ mergedKeys then
    match current.value key with
    | some existing => existing.merge value
    | none => value
  else value

/-- `_merge_attrs`. -/
def mergeAttrs (chars : Chars) (existing : Option JsonValue) (arm : String) : String :=
  let pairs : List String :=
    match existing with
    | some (.str text) =>
      if text = "" then []
      else ((text.toList.splitOn ',').filter fun part =>
        let name := String.ofList (strip chars (part.takeWhile (· ≠ '=')))
        decide (name ≠ "" ∧ name ≠ "tokenbill.arm" ∧ name ≠ "tokenbill.wave")).map fun part =>
          String.ofList (strip chars part)
    | _ => []
  ",".intercalate (pairs ++ ["tokenbill.arm=" ++ arm, "tokenbill.wave=1"])

/-! ### Packs -/

/-- `_PackInput`. -/
structure PackInput where
  cohort : String
  proposals : List Proposal
  findingIds : List String
  snippets : List (String × String)
  litellm : Option String
  conflicts : List String

/-- `PolicyEntry`. -/
structure PolicyEntry where
  (key valueJson : String)
  projection : Option Figure
  leverId : String
  (needsEval verifiedKey : Bool)
  minVersion : Option String

/-- `PolicyPack`, with the conflicts and the left out trade-offs its README lists. -/
structure Pack where
  (target cohort mergePatchJson rollbackPatchJson : String)
  entries : List PolicyEntry
  otelResourceAttributes : String
  hooks : List (String × String)
  conflicts : List String
  excluded : List Proposal

def usable (proposals : List Proposal) (includeTradeoffs : Bool) : List Proposal :=
  proposals.filter fun p => includeTradeoffs || !p.tradeoff

def leftOut (proposals active : List Proposal) (includeTradeoffs : Bool) : List Proposal :=
  (dedupe (proposals.filter fun p => p.tradeoff && !includeTradeoffs && p.primary &&
    !(active.map (·.key)).contains p.key)).1

/-- The levers of a pack: those that write verified settings. -/
def armsOf (active : List Proposal) : Except PackError (List String) := do
  let entries ← active.mapM fun p => allowedKey p.key
  let levers := ((active.zip entries).filter fun t => t.2.verified && decide (t.1.leverId ≠ reporting)).map
    fun t => t.1.leverId
  return levers.dedup.insertionSort (· ≤ ·)

/-- The proposal that tags the rollout. -/
def tagging (value : String) : Proposal where
  key := otelKey
  value := .str value
  leverId := verification
  projection := none
  needsEval := false
  tradeoff := false
  primary := true

/-- The active proposals with the one that tags the rollout. -/
def tagged (chars : Chars) (active : List Proposal) (arms : List String) (current : Current) :
    Except PackError (List Proposal) :=
  if arms = [] then .ok active
  else
    let value := mergeAttrs chars (get current.fields otelKey) ("+".intercalate arms)
    if attrsOk chars value.toList then .ok (active ++ [tagging value]) else .error .attributes

/-- The entry of a proposal with its final value. -/
def entryOf (p : Proposal) (entry : AllowedKey) (value : Value) : PolicyEntry where
  key := p.key
  valueJson := String.ofList (canonicalJson value.json)
  projection := p.projection
  leverId := p.leverId
  needsEval := p.needsEval
  verifiedKey := entry.verified
  minVersion := entry.minVersion

def setVerified (doc : Fields) (entry : AllowedKey) (key : String) (v : JsonValue) : Except PackError Fields :=
  if entry.verified then set doc key v else .ok doc

/-- The entry of a proposal, and its value set if its key is verified. -/
def addEntry (chars : Chars) (current : Current) (acc : List PolicyEntry × Fields) (p : Proposal) :
    Except PackError (List PolicyEntry × Fields) := do
  let entry ← allowedKey p.key
  let value := finalValue p.key p.value current
  checkValue chars p.key value
  let desired ← setVerified acc.2 entry p.key value.json
  return (acc.1 ++ [entryOf p entry value], desired)

/-- The files of a pack besides the patches; `hookText` is that of the template. -/
def packHooks (hookText target : String) (active : List Proposal) (inp : PackInput) : List (String × String) :=
  (if (active.map (·.key)).contains "hooks.SessionStart" then
    [("hooks/tokenbill_session_start.py", hookText)] else []) ++
  (match inp.litellm with
    | some text => [("litellm-config.patch.yaml", text)]
    | none => []) ++
  if target = "sdk" then inp.snippets.map fun s => ("snippets/" ++ s.1 ++ ".md", s.2) else []

/-- `_assemble`. -/
def assemble (chars : Chars) (hookText target : String) (inp : PackInput) (current : Current)
    (includeTradeoffs : Bool) : Except PackError (Option Pack) := do
  let (active, conflicts) := dedupe (usable inp.proposals includeTradeoffs)
  let excluded := leftOut inp.proposals active includeTradeoffs
  let arms ← armsOf active
  let active ← tagged chars active arms current
  let (entries, desired) ← active.foldlM (addEntry chars current) ([], current.fields)
  let hooks := packHooks hookText target active inp
  if entries.isEmpty ∧ hooks.isEmpty ∧ inp.snippets.isEmpty ∧ excluded.isEmpty then return none
  let patch := JsonValue.makePatch JsonValue.looseEq (.obj current.fields) (.obj desired)
  let rollback := JsonValue.makePatch JsonValue.looseEq (.obj desired) (.obj current.fields)
  return some {
    target
    cohort := inp.cohort
    mergePatchJson := String.ofList (canonicalJson patch)
    rollbackPatchJson := String.ofList (canonicalJson rollback)
    entries
    otelResourceAttributes :=
      "tokenbill.arm=" ++ (if arms = [] then "none" else "+".intercalate arms) ++ ",tokenbill.wave=1"
    hooks
    conflicts := inp.conflicts ++ conflicts
    excluded }

/-! ### What a pack is made of -/

/-- The proposals that a pack writes. -/
def activeProposals (chars : Chars) (inp : PackInput) (current : Current) (includeTradeoffs : Bool) :
    Except PackError (List Proposal) := do
  let active := (dedupe (usable inp.proposals includeTradeoffs)).1
  let arms ← armsOf active
  tagged chars active arms current

/-- A pack has the entries of the proposals it writes, the patches to and from the settings they give, and
the conflicts and trade-offs its README lists. -/
theorem assemble_eq_some {chars : Chars} {hookText target : String} {inp : PackInput} {current : Current}
    {includeTradeoffs : Bool} {pack : Pack}
    (h : assemble chars hookText target inp current includeTradeoffs = .ok (some pack)) :
    ∃ active desired, activeProposals chars inp current includeTradeoffs = .ok active ∧
      active.foldlM (addEntry chars current) ([], current.fields) = .ok (pack.entries, desired) ∧
      pack.mergePatchJson = String.ofList (canonicalJson
        (JsonValue.makePatch JsonValue.looseEq (.obj current.fields) (.obj desired))) ∧
      pack.rollbackPatchJson = String.ofList (canonicalJson
        (JsonValue.makePatch JsonValue.looseEq (.obj desired) (.obj current.fields))) ∧
      pack.conflicts = inp.conflicts ++ (dedupe (usable inp.proposals includeTradeoffs)).2 ∧
      pack.excluded =
        leftOut inp.proposals (dedupe (usable inp.proposals includeTradeoffs)).1 includeTradeoffs := by
  obtain ⟨arms, harms, h⟩ := bind_eq_ok.mp h
  obtain ⟨active, hactive, h⟩ := bind_eq_ok.mp h
  obtain ⟨⟨entries, desired⟩, hentries, h⟩ := bind_eq_ok.mp h
  dsimp only at h
  split at h
  · cases h
  · cases h
    exact ⟨active, desired, bind_eq_ok.mpr ⟨arms, harms, hactive⟩, hentries, rfl, rfl, rfl, rfl⟩

end TokenBill.PolicyPack
