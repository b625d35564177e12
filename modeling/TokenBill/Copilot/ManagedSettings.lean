import TokenBill.General.Documents
import TokenBill.Plan.Settings
import Mathlib.Data.List.Pairwise

/-!
# The managed-settings patch and its rollback

The pack for the administrators of GitHub Copilot carries a merge patch of the managed settings and the
patch that takes it back. A setting of the allowlist is a path into the document, the patch is the
difference to the document with all settings changed, and the rollback the difference the other way.
Numbers, strings, constants and arrays are only copied and compared, so they are values of any type that
can be compared.
-/

namespace TokenBill.ManagedSettings

open General Document List

variable {α : Type}

/-! ### Merge patches -/

/-- `_diff`: `null` removes a member, an object in both documents is patched, and any other member is
replaced. -/
def diff [DecidableEq α] (a b : Members α) : Members α := Document.diff a b

/-- `apply_merge_patch`. -/
def applyMergePatch (target patch : Document α) : Document α := applyPatch target patch

/-! ### Settings -/

/-- What `UsageError` says of a key. -/
inductive KeyError where
  | notAllowed (key : String)
  | notManaged (key : String)
  | malformed (key : String)

/-- The text of an error, with keys quoted as the host quotes them. -/
def KeyError.message (quoted : String → String) : KeyError → String
  | .notAllowed key => "settings key " ++ quoted key ++ " is not in the Copilot allowlist"
  | .notManaged key => "settings key " ++ quoted key ++ " is not a managed-settings key"
  | .malformed key => "settings key " ++ quoted key ++ " is malformed"

/-- `MANAGED_PREFIX`. -/
def managedPrefix : String := "copilot.managed."

/-- `catalog.copilot_allowed`. -/
def copilotAllowed (key : String) : Except KeyError Unit :=
  if key ∈ PolicyPack.copilotKeys then .ok () else .error (.notAllowed key)

/-- `key.startswith(MANAGED_PREFIX)`. -/
def isManaged (key : String) : Bool := managedPrefix.toList.isPrefixOf key.toList

/-- `key[len(MANAGED_PREFIX):].split(".")`. -/
def parts (key : String) : List String :=
  ((key.toList.drop managedPrefix.toList.length).splitOn '.').map String.ofList

/-- `_managed_path`. -/
def managedPath (key : String) : Except KeyError (List String) :=
  if isManaged key = false then .error (.notManaged key)
  else if "" ∈ parts key then .error (.malformed key)
  else .ok (parts key)

/-- `_set_path`: a child on the way that is no object is replaced by one. -/
def setPath (doc : Members α) (path : List String) (value : Document α) : Members α :=
  (put value path (.obj doc)).members

/-- One key of the loop in `managed_settings_patch`. -/
def setKey (new : Members α) (change : String × Document α) : Except KeyError (Members α) := do
  copilotAllowed change.1
  let path ← managedPath change.1
  return setPath new path change.2

/-- `managed_settings_patch`. -/
def managedSettingsPatch [DecidableEq α] (changes : List (String × Document α)) (current : Option (Members α)) :
    Except KeyError (Members α × Members α) := do
  let base := current.getD []
  let new ← (changes.insertionSort fun a b => a.1 ≤ b.1).foldlM setKey base
  return (diff base new, diff new base)

/-! ### Keys that are allowed -/

/-- The keys of the allowlist that are paths into the managed settings. -/
def managedKeys : List String := PolicyPack.copilotKeys.filter isManaged

theorem managedKeys_eq : managedKeys =
    ["copilot.managed.model", "copilot.managed.telemetry.enabled", "copilot.managed.telemetry.endpoint",
      "copilot.managed.telemetry.protocol", "copilot.managed.telemetry.captureContent",
      "copilot.managed.telemetry.lockCaptureContent", "copilot.managed.telemetry.serviceName",
      "copilot.managed.telemetry.resourceAttributes", "copilot.managed.telemetry.headers",
      "copilot.managed.allowedMcpServers", "copilot.managed.deniedMcpServers"] := by
  decide +kernel

theorem map_parts_managedKeys : managedKeys.map parts =
    [["model"], ["telemetry", "enabled"], ["telemetry", "endpoint"], ["telemetry", "protocol"],
      ["telemetry", "captureContent"], ["telemetry", "lockCaptureContent"], ["telemetry", "serviceName"],
      ["telemetry", "resourceAttributes"], ["telemetry", "headers"], ["allowedMcpServers"],
      ["deniedMcpServers"]] := by
  rw [managedKeys_eq]
  decide +kernel

variable {key : String} {changes : List (String × Document α)}

theorem parts_nonempty (h : key ∈ managedKeys) : "" ∉ parts key ∧ parts key ≠ [] := by
  have hall : ∀ path ∈ managedKeys.map parts, "" ∉ path ∧ path ≠ [] := by
    rw [map_parts_managedKeys]
    decide
  exact hall _ (mem_map_of_mem h)

theorem parts_apart {other : String} (h : key ∈ managedKeys) (h' : other ∈ managedKeys) (hne : key ≠ other) :
    Apart (parts key) (parts other) := by
  have hall : (managedKeys.map parts).Pairwise Apart := by
    rw [map_parts_managedKeys]
    decide
  have : Std.Symm fun a b => Apart (parts a) (parts b) := ⟨fun _ _ h => h.symm⟩
  exact (pairwise_map.mp hall).forall h h' hne

theorem managedPath_of_managed (h : key ∈ managedKeys) : managedPath key = .ok (parts key) := by
  unfold managedPath
  rw [if_neg (by rw [(mem_filter.mp h).2]; exact Bool.noConfusion), if_neg (parts_nonempty h).1]

theorem setKey_of_managed {change : String × Document α} (h : change.1 ∈ managedKeys) (new : Members α) :
    setKey new change = .ok (setPath new (parts change.1) change.2) := by
  unfold setKey copilotAllowed
  rw [if_pos (mem_filter.mp h).1, managedPath_of_managed h]
  rfl

/-- The changes as values at paths, in the order in which they are made. -/
def placed (changes : List (String × Document α)) : List (List String × Document α) :=
  (changes.insertionSort fun a b => a.1 ≤ b.1).map fun c => (parts c.1, c.2)

theorem obj_setPath (doc : Members α) {path : List String} (h : path ≠ []) (value : Document α) :
    .obj (setPath doc path value) = put value path (.obj doc) := by
  cases path with
  | nil => exact absurd rfl h
  | cons part path => rfl

/-- The loop makes the document with all values put at their paths. -/
theorem foldlM_setKey (h : ∀ c ∈ changes, c.1 ∈ managedKeys)
    (doc : Members α) : ∃ new, changes.foldlM setKey doc = .ok new ∧
      .obj new = putAll (changes.map fun c => (parts c.1, c.2)) (.obj doc) := by
  induction changes generalizing doc with
  | nil => exact ⟨doc, rfl, rfl⟩
  | cons c changes ih =>
    rw [forall_mem_cons] at h
    obtain ⟨new, hnew, hput⟩ := ih h.2 (setPath doc (parts c.1) c.2)
    refine ⟨new, ?_, ?_⟩
    · rw [foldlM_cons, setKey_of_managed h.1]
      exact hnew
    · rw [hput, obj_setPath doc (parts_nonempty h.1).2]
      rfl

theorem placed_pairwise (h : ∀ c ∈ changes, c.1 ∈ managedKeys)
    (hdistinct : (changes.map (·.1)).Nodup) : (placed changes).Pairwise fun c c' => Apart c.1 c'.1 := by
  have hperm := perm_insertionSort (fun a b : String × Document α => a.1 ≤ b.1) changes
  have hnodup : ((changes.insertionSort fun a b => a.1 ≤ b.1).map (·.1)).Nodup :=
    (hperm.map _).nodup_iff.mpr hdistinct
  unfold placed
  rw [pairwise_map]
  refine (pairwise_map.mp hnodup).imp_of_mem fun {c c'} hc hc' hne => ?_
  exact parts_apart (h c (hperm.mem_iff.mp hc)) (h c' (hperm.mem_iff.mp hc')) hne

theorem mem_placed {c : List String × Document α} : c ∈ placed changes ↔ ∃ c' ∈ changes, (parts c'.1, c'.2) = c := by
  unfold placed
  rw [mem_map]
  exact exists_congr fun c' => and_congr_left fun _ => mem_insertionSort _

/-! ### The patch and the way back -/

/-- For settings of the allowlist the patch makes the document in which every setting reads its value and
nothing that no setting passes or reaches changes, and the rollback makes the current document of that. -/
theorem managedSettingsPatch_inverse [DecidableEq α] {changes : List (String × Document α)} {current : Option (Members α)}
    (hkeys : ∀ c ∈ changes, c.1 ∈ managedKeys) (hdistinct : (changes.map (·.1)).Nodup)
    (hvalues : ∀ c ∈ changes, c.2.Sorted ∧ c.2.NullFree) (hcurrent : Sorted (.obj (current.getD [])))
    (hnull : NullFree (.obj (current.getD []))) :
    ∃ patch rollback new, managedSettingsPatch changes current = .ok (patch, rollback) ∧
      applyMergePatch (.obj (current.getD [])) (.obj patch) = .obj new ∧
      applyMergePatch (.obj new) (.obj rollback) = .obj (current.getD []) ∧
      (∀ c ∈ changes, at? (parts c.1) (.obj new) = some c.2) ∧
      ∀ path, (∀ c ∈ changes, Apart (parts c.1) path) →
        at? path (.obj new) = at? path (.obj (current.getD [])) := by
  have hperm := perm_insertionSort (fun a b : String × Document α => a.1 ≤ b.1) changes
  obtain ⟨new, hnew, hput⟩ := foldlM_setKey (fun c hc => hkeys c (hperm.mem_iff.mp hc)) (current.getD [])
  have hsorted : Sorted (.obj new) := by
    rw [hput]
    refine Sorted.putAll (fun c hc => ?_) hcurrent
    obtain ⟨c', hc', rfl⟩ := mem_placed.mp hc
    exact (hvalues c' hc').1
  have hfree : NullFree (.obj new) := by
    rw [hput]
    refine NullFree.putAll (fun c hc => ?_) hnull
    obtain ⟨c', hc', rfl⟩ := mem_placed.mp hc
    exact (hvalues c' hc').2
  refine ⟨_, _, new, ?_, applyPatch_makePatch hcurrent hsorted hfree,
    applyPatch_makePatch hsorted hcurrent hnull, fun c hc => ?_, fun path hpath => ?_⟩
  · unfold managedSettingsPatch
    dsimp only
    rw [hnew]
    rfl
  · rw [hput]
    exact at?_putAll (placed_pairwise hkeys hdistinct) (mem_placed.mpr ⟨c, hc, rfl⟩) _
  · rw [hput]
    refine at?_putAll_of_apart (fun c hc => ?_) _
    obtain ⟨c', hc', rfl⟩ := mem_placed.mp hc
    exact hpath c' hc'

/-- The telemetry settings where the current document says something else about telemetry. -/
theorem telemetry_patch_inverse :
    ∃ patch rollback new,
      managedSettingsPatch [("copilot.managed.telemetry.enabled", .leaf "true"),
        ("copilot.managed.model", .leaf "auto")] (some [("telemetry", .leaf "off"), ("ui", .obj [])]) =
        .ok (patch, rollback) ∧
      applyMergePatch (.obj [("telemetry", .leaf "off"), ("ui", .obj [])]) (.obj patch) = .obj new ∧
      applyMergePatch (.obj new) (.obj rollback) = .obj [("telemetry", .leaf "off"), ("ui", .obj [])] := by
  obtain ⟨patch, rollback, new, hok, hforth, hback, -⟩ := @managedSettingsPatch_inverse _ _
    [("copilot.managed.telemetry.enabled", .leaf "true"), ("copilot.managed.model", .leaf "auto")]
    (some [("telemetry", .leaf "off"), ("ui", .obj [])]) (by rw [managedKeys_eq]; decide) (by decide)
    (by
      intro c hc
      rcases mem_pair.mp hc with rfl | rfl
      · exact ⟨.leaf _, .leaf _⟩
      · exact ⟨.leaf _, .leaf _⟩)
    (by
      refine .obj (by decide) fun m hm => ?_
      rcases mem_pair.mp hm with rfl | rfl
      · exact .leaf _
      · exact .obj SortedKeys.nil nofun)
    (by
      refine .obj fun m hm => ?_
      rcases mem_pair.mp hm with rfl | rfl
      · exact .leaf _
      · exact .obj nofun)
  exact ⟨patch, rollback, new, hok, hforth, hback⟩

end TokenBill.ManagedSettings
