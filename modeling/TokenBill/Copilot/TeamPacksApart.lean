import TokenBill.Copilot.TeamPacks
import TokenBill.General.Deal

/-!
# Packs of teams that do not meet

A slug is new unless a team falls back to a name with its digest that is taken already. The waves of a deal
in turn are level, and packs written into one directory keep their texts when the slugs of the settings
files differ, the slugs of the READMEs differ and no team is shown as the whole organisation.
-/

namespace TokenBill.TeamPacks

open General Kanon List

/-! ### Slugs -/

variable {c : Char} {w : Wave} {n : Nat} {cohort : String}

theorem isLower_toLower (h : c.isUpper) : c.toLower.isLower := by
  unfold Char.isUpper at h
  simp only [decide_eq_true_eq, ge_iff_le, UInt32.le_iff_toNat_le] at h
  unfold Char.toLower Char.isLower
  rw [dif_pos (by simpa only [ge_iff_le, UInt32.le_iff_toNat_le] using h)]
  simp only [Bool.and_eq_true, decide_eq_true_eq, ge_iff_le, UInt32.le_iff_toNat_le, UInt32.toNat_add]
  have hA : 'A'.val.toNat = 65 := rfl
  have hZ : 'Z'.val.toNat = 90 := rfl
  have ha : 'a'.val.toNat = 97 := rfl
  have hz : 'z'.val.toNat = 122 := rfl
  have hshift : ('a'.val - 'A'.val).toNat = 32 := rfl
  constructor <;> omega

theorem toLower_of_not_isUpper (h : ¬c.isUpper) : c.toLower = c := by
  unfold Char.isUpper at h
  exact dif_neg fun hu => h (decide_eq_true hu)

theorem isSlugChar_toLower (h : isSlugChar c) : isSlugChar c.toLower := by
  by_cases hc : c.isUpper
  · unfold isSlugChar Char.isAlphanum Char.isAlpha
    rw [isLower_toLower hc, Bool.or_true]
    rfl
  · rwa [toLower_of_not_isUpper hc]

theorem isSlugChar_of_mem_hyphenate {text : List Char} {inRun : Bool} (h : c ∈ hyphenate inRun text) :
    isSlugChar c := by
  induction text generalizing inRun with
  | nil => cases h
  | cons d ds ih =>
    unfold hyphenate at h
    split at h
    · rename_i hd
      rcases mem_cons.mp h with rfl | h
      · exact hd
      · exact ih h
    · split at h
      · exact ih h
      · rcases mem_cons.mp h with rfl | h
        · rfl
        · exact ih h

theorem isSlugChar_of_mem_slugChars {text : String} (h : c ∈ slugChars text) : isSlugChar c := by
  obtain ⟨d, hd, rfl⟩ := mem_map.mp h
  have hmem : d ∈ hyphenate false text.toList :=
    (dropWhile_sublist _).mem (mem_reverse.mp ((dropWhile_sublist _).mem (mem_reverse.mp hd)))
  exact isSlugChar_toLower (isSlugChar_of_mem_hyphenate hmem)

theorem isSlugChar_of_mem_orTeam {text : List Char} (htext : ∀ c ∈ text, isSlugChar c) :
    ∀ c ∈ orTeam text, isSlugChar c := by
  unfold orTeam
  split
  · exact all_eq_true.mp rfl
  · exact htext

theorem isSlugChar_plain (h : isSlugChar c) : c ≠ '/' ∧ c ≠ '\\' ∧ c ≠ ':' := by
  refine ⟨?_, ?_, ?_⟩ <;>
    · rintro rfl
      exact absurd h (by decide)

theorem isSlugChar_of_mem_base {team : String} (h : c ∈ (base team).toList) : isSlugChar c := by
  unfold base at h
  rw [String.toList_ofList] at h
  exact isSlugChar_of_mem_orTeam (fun c hc => isSlugChar_of_mem_slugChars (mem_of_mem_take hc)) c h

theorem isSlugChar_of_isHex (h : isHex c) : isSlugChar c := by
  unfold isSlugChar Char.isAlphanum Char.isAlpha
  rcases Bool.or_eq_true_iff.mp h with hd | ha
  · rw [hd, Bool.or_true]
    rfl
  · have hl : c.isLower := by
      obtain ⟨hlow, hhigh⟩ := Bool.and_eq_true_iff.mp ha
      rw [decide_eq_true_eq, Char.le_def] at hlow hhigh
      unfold Char.isLower
      rw [decide_eq_true hlow, Bool.true_and, decide_eq_true_eq]
      exact UInt32.le_trans hhigh (by decide)
    rw [hl, Bool.or_true]
    rfl

section Digests

variable {h : Host} (hhex : ∀ text, ∀ c ∈ (h.sha256 text).toList, isHex c)

include hhex

theorem isSlugChar_of_mem_slug {team : String} {taken : List String} {c : Char}
    (hc : c ∈ (slug h team taken).toList) : isSlugChar c := by
  unfold slug at hc
  split at hc
  · unfold hashed at hc
    rw [String.toList_append, String.toList_append, append_assoc, mem_append] at hc
    rcases hc with hc | hc
    · exact isSlugChar_of_mem_base hc
    rcases mem_append.mp hc with hc | hc
    · rw [show "-".toList = ['-'] from rfl, mem_singleton] at hc
      subst hc
      rfl
    · rw [String.toList_ofList] at hc
      exact isSlugChar_of_isHex (hhex _ _ (mem_of_mem_take hc))
  · exact isSlugChar_of_mem_base hc

end Digests

/-- The slug of a team is new unless it is a digest name that is taken. -/
theorem slug_not_mem_iff {h : Host} {team : String} {taken : List String} :
    slug h team taken ∉ taken ↔ (base team ∈ taken ∨ base team ≠ h.lower team → hashed h team ∉ taken) := by
  unfold slug
  split
  · rename_i hc
    exact ⟨fun h _ => h, fun h => h hc⟩
  · rename_i hc
    exact ⟨fun _ h => absurd h hc, fun _ => (not_or.mp hc).1⟩

/-! ### Waves -/

/-- Every team that falls back to its digest finds that name free. -/
def Fresh (h : Host) : List String → List String → Prop
  | _, [] => True
  | taken, team :: rest =>
    (base team ∈ taken ∨ base team ≠ h.lower team → hashed h team ∉ taken) ∧
      Fresh h (slug h team taken :: taken) rest

instance Fresh.decide (h : Host) : (taken teams : List String) → Decidable (Fresh h taken teams)
  | _, [] => isTrue trivial
  | taken, team :: rest =>
    have := Fresh.decide h (slug h team taken :: taken) rest
    inferInstanceAs (Decidable ((base team ∈ taken ∨ base team ≠ h.lower team → hashed h team ∉ taken) ∧
      Fresh h (slug h team taken :: taken) rest))

/-- The slugs of a deal are new and differ when every digest name is free. -/
theorem slugs_nodup_iff (h : Host) (waves i : Nat) (taken : List String) (teams : List (String × Bool)) :
    (((dealWaves h waves i taken teams).map (·.slug)).Nodup ∧
      ∀ w ∈ dealWaves h waves i taken teams, w.slug ∉ taken) ↔ Fresh h taken (teams.map (·.1)) := by
  induction teams generalizing i taken with
  | nil => exact ⟨fun _ => trivial, fun _ => ⟨nodup_nil, nofun⟩⟩
  | cons t teams ih =>
    rw [map_cons]
    unfold dealWaves Fresh
    rw [map_cons, nodup_cons, forall_mem_cons, ← slug_not_mem_iff, ← ih (i + 1)]
    simp only [mem_map, not_exists, not_and, mem_cons, not_or]
    constructor
    · rintro ⟨⟨hne, hnodup⟩, hnew, hrest⟩
      exact ⟨hnew, hnodup, fun w hw => ⟨hne w hw, hrest w hw⟩⟩
    · rintro ⟨hnew, hnodup, hrest⟩
      exact ⟨⟨fun w hw => (hrest w hw).1, hnodup⟩, hnew, fun w hw => (hrest w hw).2⟩

/-- What a deal says of teams, strata and waves does not depend on the slugs. -/
theorem map_dealWaves (h : Host) (waves i : Nat) (taken : List String) (teams : List (String × Bool)) :
    (dealWaves h waves i taken teams).map (fun w => (w.team, w.heavy, w.wave)) =
      (teams.zipIdx i).map fun t => (t.1.1, t.1.2, t.2 % waves + 1) := by
  induction teams generalizing i taken with
  | nil => rfl
  | cons t teams ih =>
    unfold dealWaves
    rw [map_cons, ih, zipIdx_cons, map_cons]

theorem dealt_perm (h : Host) (teams : List (String × Counts)) (k : Nat) :
    (dealt h teams k).Perm ((eligible teams k).map fun t => (t.1, isHeavy h t.2)) := by
  refine ((perm_insertionSort _ _).append (perm_insertionSort _ _)).trans ?_
  exact filter_append_perm (fun t : String × Bool => t.2) _

theorem teamWaves_perm (h : Host) (teams : List (String × Counts)) (k : Nat) :
    (teamWaves h teams k).Perm (dealWaves h (waveCount teams k) 0 [] (dealt h teams k)) :=
  perm_insertionSort _ _

theorem waveCount_pos (teams : List (String × Counts)) (k : Nat) : 0 < waveCount teams k :=
  Nat.lt_of_lt_of_le Nat.zero_lt_one (Nat.le_max_right _ _)

theorem map_team_perm (h : Host) (teams : List (String × Counts)) (k : Nat) :
    ((teamWaves h teams k).map (·.team)).Perm ((eligible teams k).map (·.1)) := by
  have hdeal := congrArg (List.map (·.1))
    (map_dealWaves h (waveCount teams k) 0 [] (dealt h teams k))
  rw [map_map, map_map] at hdeal
  have hfst : (dealt h teams k).zipIdx.map (fun t => t.1.1) = (dealt h teams k).map (·.1) := by
    conv_rhs => rw [← zipIdx_map_fst 0 (dealt h teams k), map_map]
    rfl
  refine ((teamWaves_perm h teams k).map _).trans ?_
  rw [show (dealWaves h (waveCount teams k) 0 [] (dealt h teams k)).map (·.team) = (dealt h teams k).map (·.1) from
    hdeal.trans hfst]
  have hperm := (dealt_perm h teams k).map (·.1)
  rwa [map_map] at hperm

theorem wave_mem {h : Host} {teams : List (String × Counts)} {k : Nat} (hw : w ∈ teamWaves h teams k) :
    1 ≤ w.wave ∧ w.wave ≤ waveCount teams k := by
  have hmem := mem_map_of_mem (f := fun w : Wave => (w.team, w.heavy, w.wave))
    ((teamWaves_perm h teams k).mem_iff.mp hw)
  rw [map_dealWaves] at hmem
  obtain ⟨t, -, ht⟩ := mem_map.mp hmem
  have hwave : t.2 % waveCount teams k + 1 = w.wave := congrArg (·.2.2) ht
  have hlt := Nat.mod_lt t.2 (waveCount_pos teams k)
  omega

def waveSize (waves : List Wave) (strata : Bool → Bool) (n : Nat) : Nat :=
  (waves.filter fun w => strata w.heavy && decide (w.wave = n)).length

theorem waveSize_teamWaves (h : Host) (teams : List (String × Counts)) (k : Nat) (strata : Bool → Bool)
    (hn : 1 ≤ n) : waveSize (teamWaves h teams k) strata n =
      ((dealt h teams k).zipIdx.filter fun t =>
        strata t.1.2 && decide (t.2 % waveCount teams k = n - 1)).length := by
  unfold waveSize
  rw [((teamWaves_perm h teams k).filter _).length_eq]
  have hmap := congrArg (fun l => (l.filter fun t : String × Bool × Nat => strata t.2.1 && decide (t.2.2 = n)).length)
    (map_dealWaves h (waveCount teams k) 0 [] (dealt h teams k))
  rw [filter_map, length_map, filter_map, length_map] at hmap
  refine hmap.trans (congrArg List.length (filter_congr fun t _ => ?_))
  dsimp only [Function.comp]
  congr 2
  exact propext ⟨fun h => by omega, fun h => by omega⟩

/-- The indices of a stratum are consecutive. -/
theorem stratum_zipIdx (h : Host) (teams : List (String × Counts)) (k : Nat) (heavy : Bool) :
    ∃ (stratum : List (String × Bool)) (start : Nat), ∀ q : Nat → Bool,
      ((dealt h teams k).zipIdx.filter fun t => (t.1.2 == heavy) && q t.2) =
        (stratum.zipIdx start).filter fun t => q t.2 := by
  have hsplit : ∃ first second : List (String × Bool), dealt h teams k = first ++ second ∧
      (∀ t ∈ first, t.2 = true) ∧ ∀ t ∈ second, t.2 = false := by
    refine ⟨_, _, rfl, fun t ht => ?_, fun t ht => ?_⟩
    · exact (mem_filter.mp ((mem_insertionSort _).mp ht)).2
    · simpa using (mem_filter.mp ((mem_insertionSort _).mp ht)).2
  obtain ⟨first, second, heq, hfirst, hsecond⟩ := hsplit
  rw [heq, zipIdx_append]
  have hall : ∀ {l : List (String × Bool)} {start : Nat} {b : Bool}, (∀ t ∈ l, t.2 = b) → ∀ q : Nat → Bool,
      (l.zipIdx start).filter (fun t => (t.1.2 == heavy) && q t.2) =
        if b = heavy then (l.zipIdx start).filter fun t => q t.2 else [] := by
    intro l start b hl q
    split
    · rename_i hb
      refine filter_congr fun t ht => ?_
      rw [hl _ (fst_mem_of_mem_zipIdx ht), hb, beq_self_eq_true, Bool.true_and]
    · rename_i hb
      refine filter_eq_nil_iff.mpr fun t ht => ?_
      rw [hl _ (fst_mem_of_mem_zipIdx ht), beq_false_of_ne hb]
      exact Bool.noConfusion
  cases heavy with
  | true =>
    refine ⟨first, 0, fun q => ?_⟩
    rw [filter_append, hall hfirst q, hall hsecond q]
    exact append_nil _
  | false =>
    refine ⟨second, 0 + first.length, fun q => ?_⟩
    rw [filter_append, hall hfirst q, hall hsecond q]
    rfl


theorem waveSize_level (h : Host) (teams : List (String × Counts)) (k : Nat) (strata : Bool → Bool)
    (stratum : List (String × Bool)) (start : Nat) (hstratum : ∀ q : Nat → Bool,
      ((dealt h teams k).zipIdx.filter fun t => strata t.1.2 && q t.2) =
        (stratum.zipIdx start).filter fun t => q t.2) {m : Nat}
    (hm : 1 ≤ m ∧ m ≤ waveCount teams k) (hn : 1 ≤ n ∧ n ≤ waveCount teams k) :
    waveSize (teamWaves h teams k) strata m ≤ waveSize (teamWaves h teams k) strata n + 1 := by
  rw [waveSize_teamWaves h teams k strata hm.1, waveSize_teamWaves h teams k strata hn.1,
    hstratum fun i => decide (i % waveCount teams k = m - 1), hstratum fun i => decide (i % waveCount teams k = n - 1)]
  have hupper := (length_filter_turn (waveCount_pos teams k) stratum start (r := m - 1) (by omega)).2
  have hlower := (length_filter_turn (waveCount_pos teams k) stratum start (r := n - 1) (by omega)).1
  omega

/-- No wave has two teams more than another, overall and in each stratum. -/
theorem waves_level (h : Host) (teams : List (String × Counts)) (k : Nat) {m : Nat}
    (hm : 1 ≤ m ∧ m ≤ waveCount teams k) (hn : 1 ≤ n ∧ n ≤ waveCount teams k) :
    waveSize (teamWaves h teams k) (fun _ => true) m ≤ waveSize (teamWaves h teams k) (fun _ => true) n + 1 ∧
      ∀ heavy, waveSize (teamWaves h teams k) (· == heavy) m ≤ waveSize (teamWaves h teams k) (· == heavy) n + 1 := by
  refine ⟨waveSize_level h teams k (fun _ => true) (dealt h teams k) 0 (fun _ => rfl) hm hn,
    fun heavy => ?_⟩
  obtain ⟨stratum, start, hstratum⟩ := stratum_zipIdx h teams k heavy
  exact waveSize_level h teams k (· == heavy) stratum start hstratum hm hn

/-! ### Writing -/

/-- A path that `write_pack` accepts. -/
def Writable (rel : String) : Prop :=
  ¬('\\' ∈ rel.toList ∨ ':' ∈ rel.toList) ∧
    ¬("/".toList.isPrefixOf rel.toList ∨ ['.', '.'] ∈ pathParts rel ∨ pathParts rel = [])

local instance namesLawful : LawfulBEq (List Char) := inferInstance

instance : DecidablePred Writable := fun rel => by unfold Writable; infer_instance

def placed (file : String × String) : List (List Char) × String := (pathParts file.1, file.2)

theorem fst_placed (file : String × String) : (placed file).1 = pathParts file.1 := rfl

theorem writeFile_of_writable {file : String × String} (h : Writable file.1) (dir : Directory) :
    writeFile dir file = .ok (upsert (·.1) (placed file) dir) := by
  unfold writeFile
  rw [if_neg h.1, if_neg h.2]
  rfl

theorem foldlM_writeFile {files : List (String × String)} (h : ∀ f ∈ files, Writable f.1) (dir : Directory) :
    files.foldlM writeFile dir = .ok ((files.map placed).foldl (fun d f => upsert (·.1) f d) dir) := by
  induction files generalizing dir with
  | nil => rfl
  | cons f files ih =>
    rw [forall_mem_cons] at h
    rw [foldlM_cons, writeFile_of_writable h.1]
    exact ih h.2 _

/-- Writing packs with paths that are accepted writes their files one by one. -/
theorem writePacks_of_writable {packs : List Pack} (h : ∀ p ∈ packs, ∀ f ∈ p.files, Writable f.1)
    (dir : Directory) : writePacks dir packs =
      .ok (((packs.flatMap Pack.files).map placed).foldl (fun d f => upsert (·.1) f d) dir) := by
  unfold writePacks
  induction packs generalizing dir with
  | nil => rfl
  | cons p packs ih =>
    rw [forall_mem_cons] at h
    rw [foldlM_cons, flatMap_cons, map_append, foldl_append]
    unfold writePack
    rw [foldlM_writeFile h.1]
    exact ih h.2 _

/-! ### Paths below `copilot/teams` -/

/-- A path of a file in `copilot/teams`. -/
def teamsFile (file : List Char) : List (List Char) := ["copilot".toList, "teams".toList, file]

theorem pathParts_team {rel : String} {file : List Char} (hrel : rel.toList = "copilot/teams/".toList ++ file)
    (hplain : ∀ c ∈ file, isSlugChar c) (hlong : 3 ≤ file.length) : pathParts rel = teamsFile file := by
  have hslash : '/' ∉ file := fun h => (isSlugChar_plain (hplain _ h)).1 rfl
  have hsplit : rel.toList.splitOn '/' = ["copilot".toList, "teams".toList, file] := by
    rw [hrel, show "copilot/teams/".toList ++ file = "copilot".toList ++ '/' :: ("teams".toList ++ '/' :: file) from rfl,
      splitOn_append_cons_self, splitOn_append_cons_self, splitOn_eq_singleton hslash,
      splitOn_eq_singleton (by decide), splitOn_eq_singleton (by decide)]
    rfl
  have hname : ∀ text : List Char, text.length < 3 → file ≠ text := by
    rintro text htext rfl
    omega
  unfold pathParts
  rw [hsplit, filter_cons_of_pos (by decide), filter_cons_of_pos (by decide), filter_cons_of_pos,
    filter_nil]
  · rfl
  · rw [Bool.and_eq_true, decide_eq_true_eq, decide_eq_true_eq]
    exact ⟨hname [] (by decide), hname ['.'] (by decide)⟩

theorem writable_team {rel : String} {file : List Char} (hrel : rel.toList = "copilot/teams/".toList ++ file)
    (hplain : ∀ c ∈ file, isSlugChar c) (hlong : 3 ≤ file.length) : Writable rel := by
  unfold Writable
  rw [pathParts_team hrel hplain hlong, hrel]
  refine ⟨?_, ?_⟩
  · rintro (h | h)
    · rcases mem_append.mp h with h | h
      · exact absurd h (by decide)
      · exact (isSlugChar_plain (hplain _ h)).2.1 rfl
    · rcases mem_append.mp h with h | h
      · exact absurd h (by decide)
      · exact (isSlugChar_plain (hplain _ h)).2.2 rfl
  · rintro (h | h | h)
    · exact Bool.noConfusion h
    · unfold teamsFile at h
      simp only [mem_cons, not_mem_nil, or_false] at h
      rcases h with h | h | h
      · exact absurd h (by decide)
      · exact absurd h (by decide)
      · rw [← h] at hlong
        exact absurd hlong (by decide)
    · cases h

/-- What a wave's settings file is called below `copilot/teams`. -/
def settingsFile (w : Wave) : List Char := w.slug.toList ++ ".json".toList

def readmeFile (cohort : String) : List Char :=
  "README-".toList ++ orTeam (slugChars cohort) ++ ".md".toList

theorem toList_settingsPath (w : Wave) : (settingsPath w).toList = "copilot/teams/".toList ++ settingsFile w := by
  unfold settingsPath settingsFile
  rw [String.toList_append, String.toList_append, append_assoc]

theorem toList_readmePath (h : cohort ≠ "all") :
    (readmePath cohort).toList = "copilot/teams/".toList ++ readmeFile cohort := by
  have hpre : "copilot/teams/README-" = "copilot/teams/" ++ "README-" := rfl
  unfold readmePath readmeFile
  rw [if_neg h, hpre, String.toList_append, String.toList_append, String.toList_append,
    String.toList_ofList (l := orTeam _), append_assoc, append_assoc, append_assoc]

theorem isSlugChar_of_mem_settingsFile (h : ∀ c ∈ w.slug.toList, isSlugChar c) : ∀ c ∈ settingsFile w, isSlugChar c :=
  forall_mem_append.mpr ⟨h, all_eq_true.mp rfl⟩

theorem isSlugChar_of_mem_readmeFile (cohort : String) : ∀ c ∈ readmeFile cohort, isSlugChar c :=
  forall_mem_append.mpr ⟨forall_mem_append.mpr ⟨all_eq_true.mp rfl,
    isSlugChar_of_mem_orTeam fun _ hc => isSlugChar_of_mem_slugChars hc⟩, all_eq_true.mp rfl⟩

theorem settingsFile_long (w : Wave) : 3 ≤ (settingsFile w).length := by
  have : ".json".toList.length = 5 := by decide
  unfold settingsFile
  rw [length_append]
  omega

theorem readmeFile_long (cohort : String) : 3 ≤ (readmeFile cohort).length := by
  have : "README-".toList.length = 7 := by decide
  unfold readmeFile
  rw [length_append, length_append]
  omega

theorem settingsFile_inj {w' : Wave} (h : settingsFile w = settingsFile w') : w.slug = w'.slug :=
  String.toList_inj.mp (append_cancel_right h)

theorem readmeFile_inj {cohort' : String} (h : readmeFile cohort = readmeFile cohort') :
    orTeam (slugChars cohort) = orTeam (slugChars cohort') :=
  append_cancel_left (append_cancel_right h)

theorem settingsFile_ne_readmeFile (w : Wave) (cohort : String) : settingsFile w ≠ readmeFile cohort := by
  intro h
  have hlast := congrArg List.getLast? h
  unfold settingsFile readmeFile at hlast
  rw [getLast?_append_of_ne_nil _ (by decide), getLast?_append_of_ne_nil _ (by decide)] at hlast
  exact absurd hlast (by decide)

/-! ### The paths of the organisation -/

/-- The paths of the organisation's pack that are no team's. -/
def organisationPaths : List String :=
  ["README.md", "copilot/managed-settings.patch.json", "copilot/rollback.patch.json", "github/admin-checklist.md",
    "ci/copilot-limits.md", "ci/agentic-workflows.md", "github/requests.jsonl", "vscode/settings.snippet.json",
    "vscode/agent-traces-optin.md", "repo/.github/copilot/settings.patch.json", "repo/.github/allowed_models.txt",
    "copilot/team-mappings.patch.json"]

/-- They are accepted, stand for different files, and none stands in `copilot/teams`. -/
theorem organisationPaths_apart : (∀ rel ∈ organisationPaths, Writable rel ∧
    (pathParts rel).take 2 ≠ ["copilot".toList, "teams".toList]) ∧ (organisationPaths.map pathParts).Nodup := by
  decide

def organisationFiles (h : Host) (inp : Inputs) : List (String × String) :=
  ("README.md", (mainPack h inp).readmeMd) :: inp.organisation.files ++ [mappingFile h (runWaves h inp)]

theorem organisationFiles_sublist (h : Host) (inp : Inputs) :
    ((organisationFiles h inp).map (·.1)).Sublist organisationPaths := by
  have hoption : ∀ (text : Option String) (rel : String),
      ((text.map fun t => (rel, t)).toList.map (·.1)).Sublist [rel] := by
    intro text rel
    cases text with
    | none => exact nil_sublist _
    | some t => exact List.Sublist.refl _
  unfold organisationFiles Organisation.files
  rw [map_append, map_cons, map_append, map_append]
  exact (((List.Sublist.refl _).append (hoption _ _)).append (hoption _ _)).cons_cons _ |>.append (List.Sublist.refl _)


/-! ### All files of the packs -/

def settingsOf (h : Host) (inp : Inputs) (w : Wave) : String × String := (settingsPath w, settingsText h inp w)

def readmeOf (inp : Inputs) (w : Wave) : String × String := (readmePath (name w.team), teamReadme inp w)

theorem fst_readmeOf (inp : Inputs) (w : Wave) : (readmeOf inp w).1 = readmePath (name w.team) := by
  dsimp only [readmeOf]

def ownFiles (h : Host) (inp : Inputs) : List (String × String) :=
  organisationFiles h inp ++ (runWaves h inp).map (settingsOf h inp) ++ (runWaves h inp).map (readmeOf inp)

def packsOf (h : Host) (inp : Inputs) : List Pack :=
  mainPack h inp :: ((runWaves h inp).map (teamPack h inp)).insertionSort fun a b => a.cohort ≤ b.cohort

theorem buildCopilotPacks_ok {h : Host} {inp : Inputs} {packs : List Pack}
    (hbuild : buildCopilotPacks h inp = .ok packs) : packs = packsOf h inp := by
  unfold buildCopilotPacks at hbuild
  split at hbuild
  · cases hbuild
  · obtain ⟨_, -, hbuild⟩ := bind_eq_ok.mp hbuild
    obtain ⟨_, -, hbuild⟩ := bind_eq_ok.mp hbuild
    exact (Except.ok.inj hbuild).symm

theorem mem_packsOf {h : Host} {inp : Inputs} {p : Pack} :
    p ∈ packsOf h inp ↔ p = mainPack h inp ∨ ∃ w ∈ runWaves h inp, teamPack h inp w = p := by
  unfold packsOf
  rw [mem_cons, mem_insertionSort, mem_map]

theorem cohort_teamPack (h : Host) (inp : Inputs) (w : Wave) : (teamPack h inp w).cohort = name w.team := rfl

theorem files_teamPack (h : Host) (inp : Inputs) (w : Wave) :
    (teamPack h inp w).files = [readmeOf inp w, settingsOf h inp w] := rfl

theorem mem_files_mainPack {h : Host} {inp : Inputs} (hwaves : runWaves h inp ≠ []) {f : String × String} :
    f ∈ (mainPack h inp).files ↔
      f ∈ organisationFiles h inp ∨ f ∈ (runWaves h inp).map (settingsOf h inp) := by
  have hhooks : f ∈ (mainPack h inp).hooks ↔ f ∈ inp.organisation.files ∨
      f ∈ (runWaves h inp).map (settingsOf h inp) ∨ f = mappingFile h (runWaves h inp) := by
    unfold mainPack mainFiles
    dsimp only
    rw [if_neg hwaves, mem_insertionSort, mem_append, mem_append, mem_singleton]
    exact Iff.rfl
  have hreadme : readmePath (mainPack h inp).cohort = "README.md" := if_pos rfl
  unfold Pack.files organisationFiles
  rw [mem_cons, hhooks, hreadme, mem_append, mem_cons, mem_singleton]
  constructor
  · rintro (h | h | h | h)
    · exact .inl (.inl (.inl h))
    · exact .inl (.inl (.inr h))
    · exact .inr h
    · exact .inl (.inr h)
  · rintro (((h | h) | h) | h)
    · exact .inl h
    · exact .inr (.inl h)
    · exact .inr (.inr (.inr h))
    · exact .inr (.inr (.inl h))

theorem mem_ownFiles {h : Host} {inp : Inputs} (hwaves : runWaves h inp ≠ []) {p : Pack} (hp : p ∈ packsOf h inp)
    {f : String × String} (hf : f ∈ p.files) : f ∈ ownFiles h inp := by
  unfold ownFiles
  rw [mem_append, mem_append]
  rcases mem_packsOf.mp hp with rfl | ⟨w, hw, rfl⟩
  · exact .inl ((mem_files_mainPack hwaves).mp hf)
  · rw [files_teamPack] at hf
    rcases mem_pair.mp hf with rfl | rfl
    · exact .inr (mem_map_of_mem hw)
    · exact .inl (.inr (mem_map_of_mem hw))

/-! ### Names that keep teams apart -/

/-- The names of the teams with enough people keep their files apart. -/
structure NamesApart (h : Host) (inp : Inputs) : Prop where
  /-- No two shown names have one slug. -/
  readmes : ((eligible inp.teams inp.k).map fun t => orTeam (slugChars (name t.1))).Nodup
  /-- No team is shown as the cohort of the organisation. -/
  notAll : ∀ t ∈ eligible inp.teams inp.k, name t.1 ≠ "all"
  /-- No name with a digest is taken when a team falls back to it. -/
  fresh : Fresh h [] ((dealt h inp.teams inp.k).map (·.1))

/-- What teams' packs promise when they are written into a directory. -/
structure PacksApart (h : Host) (inp : Inputs) (dir : Directory) (packs : List Pack) : Prop where
  /-- Every team with enough people is in exactly one wave, and no other team is. -/
  once : ∀ team, ((runWaves h inp).map (·.team)).count team =
    if team ∈ (eligible inp.teams inp.k).map (·.1) then 1 else 0
  inRange : ∀ w ∈ runWaves h inp, 1 ≤ w.wave ∧ w.wave ≤ waveCount inp.teams inp.k
  /-- The sizes of two waves differ by at most one, overall and within a stratum. -/
  level : ∀ {m n}, (1 ≤ m ∧ m ≤ waveCount inp.teams inp.k) → (1 ≤ n ∧ n ≤ waveCount inp.teams inp.k) →
    waveSize (runWaves h inp) (fun _ => true) m ≤ waveSize (runWaves h inp) (fun _ => true) n + 1 ∧
      ∀ heavy, waveSize (runWaves h inp) (· == heavy) m ≤ waveSize (runWaves h inp) (· == heavy) n + 1
  /-- The mapping has one entry for each team. -/
  mapped : (teamMapping (runWaves h inp)).length = (eligible inp.teams inp.k).length ∧
    ∀ w ∈ runWaves h inp, (teamMapping (runWaves h inp)).lookup (name w.team) = some (settingsPath w, w.wave)
  /-- Settings files, READMEs and the other files have different paths. -/
  settings : ((runWaves h inp).map settingsPath).Nodup
  readmes : (packs.map fun p => readmePath p.cohort).Nodup
  outside : ∀ w ∈ runWaves h inp, settingsPath w ∉ organisationPaths ∧
    readmePath (name w.team) ∉ organisationPaths
  /-- After all packs are written every README and every other file of a pack says what the pack says. -/
  written : ∃ after, writePacks dir packs = .ok after ∧
    ∀ p ∈ packs, ∀ f ∈ p.files, after.read (pathParts f.1) = some f.2


theorem runWaves_of_ne_nil {h : Host} {inp : Inputs} (hwaves : runWaves h inp ≠ []) :
    runWaves h inp = teamWaves h inp.teams inp.k := by
  unfold runWaves at hwaves ⊢
  split
  · rfl
  · rename_i hflags
    rw [if_neg hflags] at hwaves
    exact absurd rfl hwaves

theorem runWaves_ne_nil {h : Host} {inp : Inputs} (hlong : 1 < (packsOf h inp).length) : runWaves h inp ≠ [] := by
  intro hnil
  unfold packsOf at hlong
  rw [hnil, map_nil, insertionSort_nil, length_singleton] at hlong
  exact absurd hlong (Nat.lt_irrefl 1)

theorem nodup_eligible {teams : List (String × Counts)} (hteams : (teams.map (·.1)).Nodup) (k : Nat) :
    ((eligible teams k).map (·.1)).Nodup := by
  have hperm : (eligible teams k).Perm (teams.filter _) := perm_insertionSort _ _
  exact (hperm.map _).nodup_iff.mpr (hteams.sublist (filter_sublist.map _))

/-- The slugs of the waves differ when every digest name is free. -/
theorem slugs_teamWaves_nodup_iff (h : Host) (teams : List (String × Counts)) (k : Nat) :
    ((teamWaves h teams k).map (·.slug)).Nodup ↔ Fresh h [] ((dealt h teams k).map (·.1)) := by
  rw [((teamWaves_perm h teams k).map _).nodup_iff, ← slugs_nodup_iff h (waveCount teams k) 0]
  exact ⟨fun h => ⟨h, fun w _ => not_mem_nil⟩, fun h => h.1⟩

theorem nodup_settingsPath_iff (waves : List Wave) :
    (waves.map settingsPath).Nodup ↔ (waves.map (·.slug)).Nodup := by
  have hinj : Function.Injective fun slug : String => "copilot/teams/" ++ slug ++ ".json" := by
    intro a b hab
    have htext := congrArg String.toList hab
    rw [String.toList_append, String.toList_append, String.toList_append, String.toList_append] at htext
    exact String.toList_inj.mp (append_cancel_left (append_cancel_right htext))
  have hmap : waves.map settingsPath = (waves.map (·.slug)).map fun slug => "copilot/teams/" ++ slug ++ ".json" := by
    rw [map_map]
    rfl
  rw [hmap, nodup_map_iff hinj]

theorem readmePath_ne (h : cohort ≠ "all") : readmePath cohort ≠ "README.md" := by
  intro heq
  have htext := congrArg String.toList heq
  have hpre : "copilot/teams/".toList = 'c' :: "opilot/teams/".toList := by decide
  have hreadme : "README.md".toList = 'R' :: "EADME.md".toList := by decide
  rw [toList_readmePath h, hpre, hreadme, cons_append] at htext
  exact absurd (List.cons.inj htext).1 (by decide)

theorem readmePath_inj {cohort' : String} (h : cohort ≠ "all") (h' : cohort' ≠ "all") :
    readmePath cohort = readmePath cohort' ↔ orTeam (slugChars cohort) = orTeam (slugChars cohort') := by
  constructor
  · intro heq
    have htext := congrArg String.toList heq
    rw [toList_readmePath h, toList_readmePath h'] at htext
    exact readmeFile_inj (append_cancel_left htext)
  · intro heq
    unfold readmePath
    rw [if_neg h, if_neg h', heq]

/-- READMEs with different paths name different slugs, none of them in the place of the organisation's. -/
theorem nodup_readmePath_iff (h : Host) (inp : Inputs) :
    ((packsOf h inp).map fun p => readmePath p.cohort).Nodup ↔
      ((runWaves h inp).map fun w => orTeam (slugChars (name w.team))).Nodup ∧
        ∀ w ∈ runWaves h inp, name w.team ≠ "all" := by
  have hperm : ((packsOf h inp).map fun p => readmePath p.cohort).Perm
      ("README.md" :: (runWaves h inp).map fun w => readmePath (name w.team)) := by
    unfold packsOf
    rw [map_cons, show readmePath (mainPack h inp).cohort = "README.md" from if_pos rfl]
    refine .cons _ (((perm_insertionSort (fun a b : Pack => a.cohort ≤ b.cohort) _).map _).trans ?_)
    rw [map_map]
    exact .of_eq (map_congr_left fun w _ => by rw [Function.comp_apply, cohort_teamPack])
  have hnot : "README.md" ∉ ((runWaves h inp).map fun w => readmePath (name w.team)) ↔
      ∀ w ∈ runWaves h inp, name w.team ≠ "all" := by
    rw [mem_map]
    constructor
    · intro hmem w hw hall
      exact hmem ⟨w, hw, if_pos hall⟩
    · rintro hall ⟨w, hw, heq⟩
      exact readmePath_ne (hall w hw) heq
  rw [hperm.nodup_iff, nodup_cons, hnot, and_comm]
  refine and_congr_left fun hall => ?_
  rw [List.Nodup, List.Nodup, pairwise_map, pairwise_map]
  exact List.Pairwise.iff_of_mem fun hv hw => not_congr (readmePath_inj (hall _ hv) (hall _ hw))


theorem exists_slug_of_mem_dealWaves {h : Host} {waves i : Nat} {taken : List String}
    {teams : List (String × Bool)} (hw : w ∈ dealWaves h waves i taken teams) :
    ∃ taken', w.slug = slug h w.team taken' := by
  induction teams generalizing i taken with
  | nil => cases hw
  | cons t teams ih =>
    rcases mem_cons.mp hw with rfl | hw
    · exact ⟨taken, rfl⟩
    · exact ih hw

section Written

variable {h : Host} (hhex : ∀ text, ∀ c ∈ (h.sha256 text).toList, isHex c) {inp : Inputs}
  (hwaves : runWaves h inp ≠ [])

include hhex hwaves

variable {w : Wave}

theorem isSlugChar_of_mem_wave (hw : w ∈ runWaves h inp) : ∀ c ∈ w.slug.toList, isSlugChar c := by
  rw [runWaves_of_ne_nil hwaves] at hw
  obtain ⟨taken, hslug⟩ := exists_slug_of_mem_dealWaves ((teamWaves_perm h inp.teams inp.k).mem_iff.mp hw)
  rw [hslug]
  exact fun c hc => isSlugChar_of_mem_slug hhex hc

theorem pathParts_settingsPath (hw : w ∈ runWaves h inp) : pathParts (settingsPath w) = teamsFile (settingsFile w) :=
  pathParts_team (toList_settingsPath w)
    (isSlugChar_of_mem_settingsFile (isSlugChar_of_mem_wave hhex hwaves hw)) (settingsFile_long w)

theorem pathParts_settingsOf (hw : w ∈ runWaves h inp) :
    pathParts (settingsOf h inp w).1 = teamsFile (settingsFile w) :=
  pathParts_settingsPath hhex hwaves hw

theorem writable_settingsPath (hw : w ∈ runWaves h inp) : Writable (settingsPath w) :=
  writable_team (toList_settingsPath w)
    (isSlugChar_of_mem_settingsFile (isSlugChar_of_mem_wave hhex hwaves hw)) (settingsFile_long w)

omit hhex hwaves

theorem pathParts_readmePath {cohort : String} (hall : cohort ≠ "all") :
    pathParts (readmePath cohort) = teamsFile (readmeFile cohort) :=
  pathParts_team (toList_readmePath hall) (isSlugChar_of_mem_readmeFile cohort) (readmeFile_long cohort)

theorem pathParts_readmeOf (hall : name w.team ≠ "all") :
    pathParts (readmeOf inp w).1 = teamsFile (readmeFile (name w.team)) := by
  rw [fst_readmeOf]
  exact pathParts_readmePath hall

theorem writable_readmePath {cohort : String} (hall : cohort ≠ "all") : Writable (readmePath cohort) :=
  writable_team (toList_readmePath hall) (isSlugChar_of_mem_readmeFile cohort) (readmeFile_long cohort)

theorem nodup_organisationFiles (h : Host) (inp : Inputs) :
    ((organisationFiles h inp).map fun f => pathParts f.1).Nodup := by
  have hsub := (organisationFiles_sublist h inp).map pathParts
  rw [map_map] at hsub
  exact organisationPaths_apart.2.sublist hsub

theorem organisationFiles_outside {f : String × String} (hf : f ∈ organisationFiles h inp) (file : List Char) :
    pathParts f.1 ≠ teamsFile file := by
  intro heq
  refine (organisationPaths_apart.1 f.1 ((organisationFiles_sublist h inp).mem (mem_map_of_mem hf))).2 ?_
  rw [heq]
  rfl

include hhex hwaves

/-- Different files of the packs have different paths. -/
theorem nodup_ownFiles (hslugs : ((runWaves h inp).map (·.slug)).Nodup)
    (hreadmes : ((runWaves h inp).map fun w => orTeam (slugChars (name w.team))).Nodup)
    (hall : ∀ w ∈ runWaves h inp, name w.team ≠ "all") :
    ((ownFiles h inp).map fun f => pathParts f.1).Nodup := by
  have hfile : ∀ {a b : List Char}, teamsFile a = teamsFile b → a = b := fun hab =>
    (List.cons.inj (List.cons.inj (List.cons.inj hab).2).2).1
  have hsettings : (((runWaves h inp).map (settingsOf h inp)).map fun f => pathParts f.1).Nodup := by
    rw [map_map, List.Nodup, pairwise_map]
    refine (pairwise_map.mp hslugs).imp_of_mem fun {v w} hv hw hne heq => hne ?_
    rw [Function.comp_apply, Function.comp_apply, pathParts_settingsOf hhex hwaves hv,
      pathParts_settingsOf hhex hwaves hw] at heq
    exact settingsFile_inj (hfile heq)
  have hreadme : (((runWaves h inp).map (readmeOf inp)).map fun f => pathParts f.1).Nodup := by
    rw [map_map, List.Nodup, pairwise_map]
    refine (pairwise_map.mp hreadmes).imp_of_mem fun {v w} hv hw hne heq => hne ?_
    rw [Function.comp_apply, Function.comp_apply, pathParts_readmeOf (hall v hv),
      pathParts_readmeOf (hall w hw)] at heq
    exact readmeFile_inj (hfile heq)
  unfold ownFiles
  rw [map_append, map_append, nodup_append, nodup_append]
  refine ⟨⟨nodup_organisationFiles h inp, hsettings, ?_⟩, hreadme, ?_⟩
  · rintro _ hf _ hw rfl
    obtain ⟨f, hf, heq⟩ := mem_map.mp hf
    rw [map_map] at hw
    obtain ⟨w, hw, hpath⟩ := mem_map.mp hw
    rw [Function.comp_apply, pathParts_settingsOf hhex hwaves hw] at hpath
    exact organisationFiles_outside hf _ (heq.trans hpath.symm)
  · rintro _ hf _ hw rfl
    rw [map_map] at hw
    obtain ⟨w, hw, hpath⟩ := mem_map.mp hw
    rw [Function.comp_apply, pathParts_readmeOf (hall w hw)] at hpath
    rcases mem_append.mp hf with hf | hf
    · obtain ⟨f, hf, heq⟩ := mem_map.mp hf
      exact organisationFiles_outside hf _ (heq.trans hpath.symm)
    · rw [map_map] at hf
      obtain ⟨v, hv, heq⟩ := mem_map.mp hf
      rw [Function.comp_apply, pathParts_settingsOf hhex hwaves hv] at heq
      exact settingsFile_ne_readmeFile v (name w.team) (hfile (heq.trans hpath.symm))

theorem writable_of_mem_ownFiles (hall : ∀ w ∈ runWaves h inp, name w.team ≠ "all") {f : String × String}
    (hf : f ∈ ownFiles h inp) : Writable f.1 := by
  rcases mem_append.mp hf with hf | hf
  · rcases mem_append.mp hf with hf | hf
    · exact (organisationPaths_apart.1 f.1 ((organisationFiles_sublist h inp).mem (mem_map_of_mem hf))).1
    · obtain ⟨w, hw, rfl⟩ := mem_map.mp hf
      exact writable_settingsPath hhex hwaves hw
  · obtain ⟨w, hw, rfl⟩ := mem_map.mp hf
    rw [fst_readmeOf]
    exact writable_readmePath (hall w hw)

/-- When the names are apart, every file of a pack says what the pack says after all packs are written. -/
theorem writePacks_reads (dir : Directory) (hslugs : ((runWaves h inp).map (·.slug)).Nodup)
    (hreadmes : ((runWaves h inp).map fun w => orTeam (slugChars (name w.team))).Nodup)
    (hall : ∀ w ∈ runWaves h inp, name w.team ≠ "all") :
    ∃ after, writePacks dir (packsOf h inp) = .ok after ∧
      ∀ p ∈ packsOf h inp, ∀ f ∈ p.files, after.read (pathParts f.1) = some f.2 := by
  have hown : ∀ p ∈ packsOf h inp, ∀ f ∈ p.files, f ∈ ownFiles h inp := fun p hp f hf => mem_ownFiles hwaves hp hf
  refine ⟨_, writePacks_of_writable (fun p hp f hf =>
    writable_of_mem_ownFiles hhex hwaves hall (hown p hp f hf)) dir, fun p hp f hf => ?_⟩
  have hread := find?_foldl_upsert (·.1) (mem_map_of_mem (f := placed)
    (mem_flatMap.mpr ⟨p, hp, hf⟩)) (fun w hw hpath => by
      obtain ⟨f', hf', rfl⟩ := mem_map.mp hw
      obtain ⟨p', hp', hf'⟩ := mem_flatMap.mp hf'
      exact congrArg placed (inj_on_of_nodup_map (nodup_ownFiles hhex hwaves hslugs hreadmes hall)
        (hown p' hp' f' hf') (hown p hp f hf) hpath)) dir
  rw [fst_placed] at hread
  unfold Directory.read
  rw [hread]
  rfl

end Written

theorem teamMapping_eq {waves : List Wave} (h : (waves.map fun w => name w.team).Nodup) :
    teamMapping waves = waves.map fun w => (name w.team, settingsPath w, w.wave) := by
  have hnodup : (([] ++ waves.map fun w : Wave => (name w.team, settingsPath w, w.wave)).map Prod.fst).Nodup := by
    rwa [nil_append, map_map]
  have hfold := foldl_upsert_append Prod.fst hnodup
  rwa [foldl_map, nil_append] at hfold

/-- Teams with enough people have as many waves as there are such teams. -/
theorem length_teamWaves (h : Host) (teams : List (String × Counts)) (k : Nat) :
    (teamWaves h teams k).length = (eligible teams k).length := by
  have hlen := (map_team_perm h teams k).length_eq
  rwa [length_map, length_map] at hlen

/-- A property of the names of the teams with enough people, read at the waves. -/
theorem nodup_names_iff {β : Type} (f : String → β) (h : Host) (teams : List (String × Counts)) (k : Nat) :
    ((teamWaves h teams k).map fun w => f w.team).Nodup ↔ ((eligible teams k).map fun t => f t.1).Nodup := by
  have hperm := (map_team_perm h teams k).map f
  rw [map_map, map_map] at hperm
  exact hperm.nodup_iff

theorem forall_names_iff {P : String → Prop} (h : Host) (teams : List (String × Counts)) (k : Nat) :
    (∀ w ∈ teamWaves h teams k, P w.team) ↔ ∀ t ∈ eligible teams k, P t.1 := by
  have hperm := map_team_perm h teams k
  rw [← forall_mem_map (f := fun w : Wave => w.team), ← forall_mem_map (f := fun t : String × Counts => t.1)]
  exact forall_congr' fun team => imp_congr_left hperm.mem_iff

theorem NamesApart.of_packsApart {h : Host} {inp : Inputs} {dir : Directory} (hwaves : runWaves h inp ≠ [])
    (hp : PacksApart h inp dir (packsOf h inp)) : NamesApart h inp := by
  obtain ⟨hreadmes, hall⟩ := (nodup_readmePath_iff h inp).mp hp.readmes
  have hslugs := (nodup_settingsPath_iff _).mp hp.settings
  rw [runWaves_of_ne_nil hwaves] at hreadmes hall hslugs
  exact ⟨(nodup_names_iff (fun team => orTeam (slugChars (name team))) h inp.teams inp.k).mp hreadmes,
    (forall_names_iff (P := fun team => name team ≠ "all") h inp.teams inp.k).mp hall,
    (slugs_teamWaves_nodup_iff h inp.teams inp.k).mp hslugs⟩

theorem PacksApart.of_namesApart {h : Host} {inp : Inputs} (dir : Directory)
    (hhex : ∀ text, ∀ c ∈ (h.sha256 text).toList, isHex c) (hteams : (inp.teams.map (·.1)).Nodup)
    (hwaves : runWaves h inp ≠ []) (hn : NamesApart h inp) : PacksApart h inp dir (packsOf h inp) := by
  have hrun := runWaves_of_ne_nil hwaves
  have hreadmes : ((runWaves h inp).map fun w => orTeam (slugChars (name w.team))).Nodup := by
    rw [hrun]
    exact (nodup_names_iff (fun team => orTeam (slugChars (name team))) h inp.teams inp.k).mpr hn.readmes
  have hall : ∀ w ∈ runWaves h inp, name w.team ≠ "all" := by
    rw [hrun]
    exact (forall_names_iff (P := fun team => name team ≠ "all") h inp.teams inp.k).mpr hn.notAll
  have hslugs : ((runWaves h inp).map (·.slug)).Nodup := by
    rw [hrun]
    exact (slugs_teamWaves_nodup_iff h inp.teams inp.k).mpr hn.fresh
  have hnames : ((runWaves h inp).map fun w => name w.team).Nodup := by
    have hmap : (((runWaves h inp).map fun w => name w.team).map fun shown => orTeam (slugChars shown)).Nodup := by
      rw [map_map, Function.comp_def]
      exact hreadmes
    exact List.Nodup.of_map _ hmap
  have hmapping := teamMapping_eq hnames
  refine ⟨fun team => ?_, fun w hw => ?_, fun hm hn => ?_, ⟨?_, fun w hw => ?_⟩, (nodup_settingsPath_iff _).mpr hslugs,
    (nodup_readmePath_iff h inp).mpr ⟨hreadmes, hall⟩, fun w hw => ⟨fun hmem => ?_, fun hmem => ?_⟩,
    writePacks_reads hhex hwaves dir hslugs hreadmes hall⟩
  · rw [hrun, (map_team_perm h inp.teams inp.k).count_eq]
    exact (nodup_eligible hteams inp.k).count
  · exact wave_mem (hrun ▸ hw)
  · rw [hrun]
    exact waves_level h inp.teams inp.k hm hn
  · rw [hmapping, length_map, hrun, length_teamWaves]
  · rw [hmapping]
    refine lookup_of_mem ?_ (mem_map_of_mem hw)
    rw [map_map, Function.comp_def]
    exact hnames
  · refine (organisationPaths_apart.1 _ hmem).2 ?_
    rw [pathParts_settingsPath hhex hwaves hw]
    rfl
  · refine (organisationPaths_apart.1 _ hmem).2 ?_
    rw [pathParts_readmePath (hall w hw)]
    rfl

/-- The packs are apart exactly if the names of the teams keep their files apart. -/
theorem packsApart_iff {h : Host} {inp : Inputs} {packs : List Pack} (dir : Directory)
    (hhex : ∀ text, ∀ c ∈ (h.sha256 text).toList, isHex c) (hteams : (inp.teams.map (·.1)).Nodup)
    (hbuild : buildCopilotPacks h inp = .ok packs) (hlong : 1 < packs.length) :
    PacksApart h inp dir packs ↔ NamesApart h inp := by
  obtain rfl := buildCopilotPacks_ok hbuild
  have hwaves := runWaves_ne_nil hlong
  exact ⟨NamesApart.of_packsApart hwaves, PacksApart.of_namesApart dir hhex hteams hwaves⟩

/-- The packs are returned when no file names a person. -/
theorem buildCopilotPacks_of_plain {h : Host} {inp : Inputs} (hk : ¬inp.k < 1)
    (hteams : ∀ t ∈ inp.teams, checkTeam t = .ok ()) (hwaves : runWaves h inp ≠ [])
    (hfiles : ∀ f ∈ organisationFiles h inp, hasPseudonym false f.2.toList = false)
    (hsettings : ∀ w ∈ runWaves h inp, hasPseudonym false (settingsText h inp w).toList = false) :
    buildCopilotPacks h inp = .ok (packsOf h inp) := by
  have hguard : guard ((mainPack h inp).hooks ++ [("README.md", (mainPack h inp).readmeMd)]) = .ok () := by
    refine forM_eq_ok.mpr fun f hf => ?_
    have hfile : f ∈ (mainPack h inp).files := by
      unfold Pack.files
      rw [show readmePath (mainPack h inp).cohort = "README.md" from if_pos rfl]
      exact (perm_append_singleton _ _).mem_iff.mp hf
    have hplain : hasPseudonym false f.2.toList = false := by
      rcases (mem_files_mainPack hwaves).mp hfile with hf | hf
      · exact hfiles f hf
      · obtain ⟨w, hw, rfl⟩ := mem_map.mp hf
        exact hsettings w hw
    rw [hplain]
    rfl
  unfold buildCopilotPacks
  rw [if_neg hk, forM_eq_ok.mpr hteams, hguard]
  rfl

/-! ### Teams of five -/

/-- A host for teams with plain names, with the digests of some of them and the text of their mapping. -/
def plainHost (mapping : String) : Host where
  sha256 text :=
    if text = "Core" then "70ea1983c983deacc1b61805aea3d43648afd932f346fb2e5d9b15facd4035c2"
    else if text = "core" then "0d45f5fd462b8c70bffb10021ac1bcff3f58f29b1faf7568595095427d42812c"
    else if text = "data" then "3a6eb0790f39ac87c94f3856b2dd2c5d110e6811602261a9a923d3bb23adc8b7"
    else if text = "ops" then "a92c36e66a25ee99ff862faa8e87987be6c7cd13c3ee661c400a45b0f1e3b132"
    else ""
  hmac _ _ := ""
  keyId _ := ""
  lower text := String.ofList (text.toList.map Char.toLower)
  editorFamily _ := "other"
  canon
    | .obj [(_, .leaf _)] => "\x7b\"model\":\"auto\"\x7d"
    | .obj _ => "\x7b\"model\":null\x7d"
    | _ => "\"auto\""
  pretty
    | .obj [(_, .leaf _)] => "\x7b\n  \"model\": \"auto\"\n\x7d\n"
    | _ => mapping

theorem plainHost_hex (mapping text : String) : ∀ c ∈ ((plainHost mapping).sha256 text).toList, isHex c := by
  unfold plainHost
  dsimp only
  split
  · rw [String.toList_ofList]
    exact all_eq_true.mp rfl
  split
  · rw [String.toList_ofList]
    exact all_eq_true.mp rfl
  split
  · rw [String.toList_ofList]
    exact all_eq_true.mp rfl
  split
  · rw [String.toList_ofList]
    exact all_eq_true.mp rfl
  · exact nofun

/-- An organisation without other settings whose teams have five people. -/
def fivePeople (teams : List String) : Inputs where
  teams := teams.map fun team => (team, [("n_people", 5)])
  k := 5
  byTeam := true
  modelWanted := true
  modelWritten := true
  telemetry := false
  modelEntry := ⟨modelKey, "\"auto\"", autoLever, true, true, none, "Reach: CLI."⟩
  organisation := {
    patch := "{}\n", rollback := "{}\n", checklist := "", limits := "", agentic := "", requests := ""
    snippet := "{}\n", optin := "", repo := none, allowedModels := none, mergePatchJson := "{}"
    rollbackPatchJson := "{}", entries := [], arms := "tokenbill.arm=none,tokenbill.wave=0"
    readme := fun _ => "# Copilot\n" }

theorem buildCopilotPacks_fivePeople {mapping : String} {teams : List String}
    (hteams : ∀ team ∈ teams, team ≠ "") (hmapping : hasPseudonym false mapping.toList = false)
    (hwaves : runWaves (plainHost mapping) (fivePeople teams) ≠ []) :
    buildCopilotPacks (plainHost mapping) (fivePeople teams) =
      .ok (packsOf (plainHost mapping) (fivePeople teams)) := by
  refine buildCopilotPacks_of_plain (by decide : ¬5 < 1) (forall_mem_map.mpr fun team hteam => ?_) hwaves ?_
    fun w _ => ?_
  · exact if_neg (hteams team hteam)
  · refine forall_mem_append.mpr ⟨?_, forall_mem_singleton.mpr hmapping⟩
    exact (by decide : ∀ f ∈ [("README.md", "# Copilot\n"), ("copilot/managed-settings.patch.json", "{}\n"),
      ("copilot/rollback.patch.json", "{}\n"), ("github/admin-checklist.md", ""), ("ci/copilot-limits.md", ""),
      ("ci/agentic-workflows.md", ""), ("github/requests.jsonl", ""), ("vscode/settings.snippet.json", "{}\n"),
      ("vscode/agent-traces-optin.md", "")], hasPseudonym false f.2.toList = false)
  · show hasPseudonym false "\x7b\n  \"model\": \"auto\"\n\x7d\n".toList = false
    rw [String.toList_ofList]
    rfl

def coreMapping : String :=
  "\x7b\n  \"teams\": \x7b\n    \"Core\": \x7b\n      \"settings_file\": \"copilot/teams/core-70ea1983.json\",\n      " ++
    "\"wave\": 2\n    \x7d,\n    \"core\": \x7b\n      \"settings_file\": \"copilot/teams/core.json\",\n      " ++
    "\"wave\": 1\n    \x7d\n  \x7d\n\x7d\n"

set_option maxRecDepth 4000 in
theorem coreMapping_plain : hasPseudonym false coreMapping.toList = false := by
  unfold coreMapping
  rw [String.toList_append, String.toList_append, String.toList_ofList, String.toList_ofList, String.toList_ofList]
  rfl

/-- Teams whose names differ only in their case write one README. -/
theorem coreTeams_share_readme : ∃ h inp packs, (∀ text, ∀ c ∈ (h.sha256 text).toList, isHex c) ∧
    (inp.teams.map (·.1)).Nodup ∧ buildCopilotPacks h inp = .ok packs ∧ 1 < packs.length ∧
    ¬PacksApart h inp [] packs := by
  have hwaves : runWaves (plainHost coreMapping) (fivePeople ["Core", "core"]) ≠ [] := by decide
  refine ⟨plainHost coreMapping, fivePeople ["Core", "core"], packsOf _ _, plainHost_hex _, ?_,
    buildCopilotPacks_fivePeople (by decide) ?_ hwaves, ?_, fun hp => ?_⟩
  · decide
  · exact coreMapping_plain
  · decide
  · exact absurd (NamesApart.of_packsApart hwaves hp).readmes (by decide)

def dataMapping : String :=
  "\x7b\n  \"teams\": \x7b\n    \"data\": \x7b\n      \"settings_file\": \"copilot/teams/data.json\",\n      " ++
    "\"wave\": 1\n    \x7d,\n    \"ops\": \x7b\n      \"settings_file\": \"copilot/teams/ops.json\",\n      " ++
    "\"wave\": 2\n    \x7d\n  \x7d\n\x7d\n"

set_option maxRecDepth 4000 in
theorem dataMapping_plain : hasPseudonym false dataMapping.toList = false := by
  unfold dataMapping
  rw [String.toList_append, String.toList_append, String.toList_ofList, String.toList_ofList, String.toList_ofList]
  rfl

/-- Two teams whose packs are apart. -/
theorem dataTeams_apart : PacksApart (plainHost dataMapping) (fivePeople ["data", "ops"]) []
    (packsOf (plainHost dataMapping) (fivePeople ["data", "ops"])) := by
  have hwaves : runWaves (plainHost dataMapping) (fivePeople ["data", "ops"]) ≠ [] := by decide
  refine (packsApart_iff [] (plainHost_hex _) (by decide) (buildCopilotPacks_fivePeople (by decide) dataMapping_plain hwaves)
    (by decide)).mpr ⟨by decide, by decide, by decide⟩

end TokenBill.TeamPacks
