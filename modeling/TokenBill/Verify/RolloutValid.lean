import TokenBill.Verify.Rollout

/-!
# Rollout plans are valid designs

The holdback and the waves of a plan part its clusters, a seeded plan has both and waves of even sizes, and what is read
back of a plan is what was planned: its log has the hash of the pre-registration, and it is randomized when it was seeded.
-/

namespace TokenBill.Rollout

open General PyJson List

/-! ### Assignments -/

/-- A partition of the clusters into a holdback and waves that are numbered from 1 on and not empty. -/
structure Assignment.Valid (a : Assignment) (names : List Text) : Prop where
  perm : (a.holdback ++ a.waves.flatMap Prod.snd).Perm names
  numbers : a.waves.map Prod.fst = (List.range a.waves.length).map fun i : Nat => (i : Int) + 1
  waves : a.waves ≠ []
  clusters : ∀ w ∈ a.waves, w.2 ≠ []

theorem map_fst_numbered (groups : List (List Text)) :
    (numbered groups).map Prod.fst = (List.range groups.length).map fun i : Nat => (i : Int) + 1 := by
  unfold numbered
  rw [map_map, range_eq_range', ← zipIdx_map_snd 0 groups, map_map]
  rfl

theorem map_snd_numbered (groups : List (List Text)) : (numbered groups).map Prod.snd = groups := by
  unfold numbered
  rw [map_map]
  exact zipIdx_map_fst 0 groups

theorem length_numbered (groups : List (List Text)) : (numbered groups).length = groups.length := by
  unfold numbered
  rw [length_map, length_zipIdx]

theorem flatMap_numbered (groups : List (List Text)) : (numbered groups).flatMap Prod.snd = groups.flatten := by
  rw [flatMap_def, map_snd_numbered]

theorem mem_numbered {groups : List (List Text)} {w : Wave} (h : w ∈ numbered groups) : w.2 ∈ groups := by
  rw [← map_snd_numbered groups]
  exact mem_map_of_mem h

variable {names : List Text} {seed : Option Int} {source : String} {host : Host} {a : Assignment} {args : Args}
  {fields pre : Dict (List Nat)} {v : PyJson (List Nat)} {p : MeasurePlan}

/-- Numbered groups that part what is not held back are valid. -/
theorem valid_numbered {hold : List Text} {groups : List (List Text)}
    (hperm : (hold ++ groups.flatten).Perm names) (hgroups : groups ≠ []) (hne : ∀ g ∈ groups, g ≠ []) :
    Assignment.Valid ⟨source, seed, hold, numbered groups⟩ names where
  perm := by rwa [flatMap_numbered]
  numbers := by rw [length_numbered, map_fst_numbered]
  waves := fun h => hgroups (by rw [← map_snd_numbered groups, show numbered groups = [] from h]; rfl)
  clusters := fun w hw => hne w.2 (mem_numbered hw)

theorem sortTexts_perm (texts : List Text) : (sortTexts texts).Perm texts := perm_insertionSort _ _

/-- A share that is held back is at least one cluster and not all of them. -/
theorem held_bounds (held : Nat) {n : Nat} (hn : 2 ≤ n) :
    1 ≤ min (max 1 held) (n - 1) ∧ min (max 1 held) (n - 1) < n := by
  omega

theorem valid_assign {order : List Text} {nHold waves : Nat} (source : String) (seed : Option Int)
    (horder : order.Perm names) (hhold : nHold < names.length) (hwaves : 0 < waves)
    (hle : waves ≤ names.length - nHold) :
    Assignment.Valid ⟨source, seed, order.take nHold, numbered (deal waves (order.drop nHold))⟩ names ∧
      (order.take nHold).length = nHold ∧
      ∀ w ∈ numbered (deal waves (order.drop nHold)), ∀ w' ∈ numbered (deal waves (order.drop nHold)),
        w.2.length ≤ w'.2.length + 1 := by
  have hlen : order.length = names.length := horder.length_eq
  have hdrop : waves ≤ (order.drop nHold).length := by rw [length_drop, hlen]; exact hle
  refine ⟨valid_numbered ?_ ?_ fun g hg => ne_nil_of_mem_deal hwaves hdrop hg, ?_, fun w hw w' hw' => ?_⟩
  · refine ((deal_perm hwaves _).append_left _).trans ?_
    rw [take_append_drop]
    exact horder
  · refine ne_nil_of_length_pos ?_
    rw [length_deal]
    exact hwaves
  · rw [length_take, hlen]
    exact Nat.min_eq_left (Nat.le_of_lt hhold)
  · have hhigh := (length_of_mem_deal hwaves hdrop (mem_numbered hw)).2
    have hlow := (length_of_mem_deal hwaves hdrop (mem_numbered hw')).1
    omega

/-! ### Assignments of the user -/

theorem ne_nil_of_mem_byWave {labelled : List (Text × Option Int)} {g : List Text} (h : g ∈ byWave labelled) : g ≠ [] := by
  obtain ⟨e, -, rfl⟩ := mem_map.mp h
  exact fun hnil => nomatch hnil

/-- The clusters of the waves are those that are not held back. -/
theorem byWave_perm (labelled : List (Text × Option Int)) :
    ((labelled.filter fun c => c.2.isNone).map Prod.fst ++ (byWave labelled).flatten).Perm (labelled.map Prod.fst) := by
  have hwaves : (byWave labelled).flatten.Perm ((labelled.filter fun c => !c.2.isNone).map Prod.fst) := by
    have htreat : (labelled.filterMap fun c => c.2.map fun n => (n, c.1)).map Prod.snd =
        (labelled.filter fun c => !c.2.isNone).map Prod.fst := by
      induction labelled with
      | nil => rfl
      | cons c labelled ih =>
        rw [filterMap_cons, filter_cons]
        cases hc : c.2 with
        | none => exact ih
        | some n => exact congrArg (c.1 :: ·) ih
    have hgroups := (groupsOf_perm Prod.fst (labelled.filterMap fun c => c.2.map fun n => (n, c.1))).map Prod.snd
    rw [htreat, map_flatMap] at hgroups
    unfold byWave
    rw [← flatMap_def]
    exact ((perm_insertionSort _ _).flatMap_right _).trans hgroups
  refine (hwaves.append_left _).trans ?_
  rw [← map_append]
  exact (filter_append_perm _ _).map _

theorem labelled_fst {treated : List (Text × Text)} {clusters : List Text}
    {labelled : List (Text × Option Int)} (h : clusters.mapM (fun c => do
      let wave ← readLabel host ((treated.lookup c).getD [])
      pure (c, wave)) = .ok labelled) : labelled.map Prod.fst = clusters := by
  have hpoint := forall₂_imp_of_mem (S := fun c l => id c = Prod.fst l) (mapM_eq_ok.mp h) fun c _ l _ hl => by
    obtain ⟨wave, -, hl⟩ := bind_eq_ok.mp hl
    cases pure_eq_ok.mp hl
    rfl
  have hmap := map_eq_of_forall₂ hpoint
  rw [map_id] at hmap
  exact hmap.symm

theorem userAssignment_ok {clusters : List Text} {treated : List (Text × Text)} {hold : List Text}
    {waves : List Wave} (h : userAssignment host clusters treated = .ok (hold, waves)) (source : String)
    (seed : Option Int) : Assignment.Valid ⟨source, seed, hold, waves⟩ clusters := by
  unfold userAssignment at h
  split at h
  · cases h
  · split at h
    · cases h
    · obtain ⟨labelled, hlabelled, h⟩ := bind_eq_ok.mp h
      dsimp only at h
      split at h
      · cases h
      · rename_i hne
        cases pure_eq_ok.mp h
        refine valid_numbered ?_ hne fun g hg => ne_nil_of_mem_byWave hg
        refine (byWave_perm labelled).trans ?_
        rw [labelled_fst hlabelled]
        exact sortTexts_perm clusters

theorem Assignment.Valid.merged {source : String} {seed : Option Int} {hold names : List Text} {waves : List Wave}
    (h : Assignment.Valid ⟨source, seed, hold, waves⟩ names) :
    Assignment.Valid ⟨source, seed, hold, [(1, sortTexts (waves.flatMap Prod.snd))]⟩ names where
  perm := by
    refine List.Perm.trans ?_ h.perm
    rw [flatMap_singleton]
    exact (sortTexts_perm _).append_left _
  numbers := rfl
  waves := cons_ne_nil _ _
  clusters := fun w hw => by
    cases mem_singleton.mp hw
    obtain ⟨w, hw⟩ := exists_mem_of_ne_nil _ h.waves
    obtain ⟨c, hc⟩ := exists_mem_of_ne_nil _ (h.clusters w hw)
    exact ne_nil_of_mem ((sortTexts_perm _).mem_iff.mpr (mem_flatMap.mpr ⟨w, hw, hc⟩))

theorem assignment_ok {design : Design} (hwaves : 1 ≤ args.waves) (h : assignment host args design names = .ok a) :
    a.Valid names ∧ (args.treated = none ∧ a.source = "seeded" ∧ a.seed = some args.seed ∧ 1 ≤ a.holdback.length ∧
        a.holdback.length < names.length ∧ (∀ w ∈ a.waves, ∀ w' ∈ a.waves, w.2.length ≤ w'.2.length + 1) ∨
      args.treated.isSome = true ∧ a.source = "user" ∧ a.seed = none) := by
  unfold assignment at h
  split at h
  · cases h
  · split at h
    · cases h
    · rename_i hlen
      cases htreated : args.treated with
      | some treated =>
        rw [htreated] at h
        obtain ⟨⟨hold, waves⟩, huser, h⟩ := bind_eq_ok.mp h
        cases pure_eq_ok.mp h
        refine ⟨?_, Or.inr ⟨rfl, rfl, rfl⟩⟩
        have hvalid := userAssignment_ok huser "user" none
        split
        · exact hvalid.merged
        · exact hvalid
      | none =>
        rw [htreated] at h
        cases pure_eq_ok.mp h
        obtain ⟨hlow, hhigh⟩ := held_bounds (heldCount args.holdback names.length) (Nat.not_lt.mp hlen)
        generalize min (max 1 (heldCount args.holdback names.length)) (names.length - 1) = nHold at *
        have hpos : 0 < min (if design = .clusterRct then 1 else args.waves.toNat) (names.length - nHold) := by
          split <;> omega
        obtain ⟨hvalid, hheld, heven⟩ := valid_assign "seeded" (some args.seed)
          ((host.shuffle_perm args.seed args.leverId design _).trans (sortTexts_perm names)) hhigh hpos
          (Nat.min_le_right _ _)
        exact ⟨hvalid, Or.inl ⟨rfl, rfl, rfl, Nat.le_trans hlow (Nat.le_of_eq hheld.symm), hheld.trans_lt hhigh, heven⟩⟩

theorem valid_orgWide (h : names ≠ []) : (orgWide names).Valid names where
  perm := by simp [orgWide]
  numbers := rfl
  waves := cons_ne_nil _ _
  clusters := fun w hw => by
    cases mem_singleton.mp hw
    exact h

/-! ### The pre-registration -/

theorem escapes_of_encodable {s : Text} (h : encodable s = true) : ∀ n ∈ s, Escapes escapePlain n :=
  fun n hn => escapes_plain (of_decide_eq_true (all_eq_true.mp h n hn))

theorem writesItems_iff {items : List (PyJson (List Nat))} :
    writesItems items = true ↔ ∀ v ∈ items, writes v = true := by
  induction items with
  | nil => simp [writesItems]
  | cons v items ih => simp [writesItems, ih]

theorem writesFields_iff : writesFields fields = true ↔ ∀ f ∈ fields, encodable f.1 = true ∧ writes f.2 = true := by
  induction fields with
  | nil => simp [writesFields]
  | cons f fields ih => simp [writesFields, ih, and_assoc]

theorem writable_of_writes (h : writes v = true) (hdistinct : v.distinct = true) : Writable escapePlain v := by
  induction v using induct with
  | null => exact .null
  | bool b => exact .bool b
  | int n => exact .int (of_decide_eq_true h)
  | float x => cases h
  | str s => exact .str (escapes_of_encodable h)
  | list items ih =>
    exact .list fun v hv => ih v hv (writesItems_iff.mp h v hv) (distinctItems_iff.mp hdistinct v hv)
  | dict fields ih =>
    obtain ⟨hkeys, hfields⟩ := Bool.and_eq_true_iff.mp hdistinct
    have hall := writesFields_iff.mp h
    exact .dict (of_decide_eq_true hkeys) (fun f hf => escapes_of_encodable (hall f hf).1)
      fun f hf => ih f hf (hall f hf).2 (distinctFields_iff.mp hfields f hf)

/-- A member of an object is read under its name. -/
theorem get_of_mem (hkeys : (fields.map Prod.fst).Nodup) {name : String}
    (h : (codes name, v) ∈ fields) : get name fields = some v := by
  unfold get
  cases hfind : fields.find? fun f => decide (f.1 = codes name) with
  | none => exact absurd (decide_eq_true rfl) (find?_eq_none.mp hfind _ h)
  | some f =>
    have hname : f.1 = codes name := by simpa using find?_some hfind
    have hsame : f = (codes name, v) := inj_on_of_nodup_map hkeys (mem_of_find?_eq_some hfind) h hname
    rw [hsame]
    rfl

theorem mem_sorted {k : List Nat} (h : (k, v) ∈ fields) : (k, v.sorted) ∈ sortMembers (sortedFields fields) := by
  rw [(sortMembers_perm _).mem_iff, sortedFields_eq]
  exact mem_map_of_mem (f := fun f : List Nat × PyJson (List Nat) => (f.1, f.2.sorted)) h

/-- The fields between those of every design and those of the assignment. -/
structure Between (fields : Dict (List Nat)) : Prop where
  keys : (fields.map Prod.fst).Sublist [codes "spend_rho", codes "arm_shares", codes "holdback"] ∨
    fields.map Prod.fst = [codes "change_date", codes "placebo_date"]
  distinct : distinctFields fields = true

theorem distinct_orNull {α : Type} {f : α → PyJson (List Nat)} (h : ∀ a, (f a).distinct = true) (v : Option α) :
    (orNull f v).distinct = true := by
  cases v with
  | none => rfl
  | some a => exact h a

theorem distinct_payloads (leverId : Text) (waves : List Wave) : (payloads leverId waves).distinct = true := by
  refine distinctItems_iff.mpr fun v hv => ?_
  obtain ⟨w, -, rfl⟩ := mem_map.mp hv
  rfl

theorem keys_baseFields (args : Args) : (baseFields args).map Prod.fst =
    ["lever", "metric", "estimator", "looks", "rate_card_sha256", "projection", "design", "cluster_kind",
      "washout_hours", "unit"].map codes := rfl

theorem keys_assignmentFields (mde : Option Int) (a : Assignment) (logSha : Text) (spend : Option Bool) (leverId : Text) :
    (assignmentFields mde a logSha spend leverId).map Prod.fst =
      ["mde", "seed", "assignment", "assignment_log_sha256", "spend_targeted", "waves", "payloads"].map codes := rfl

theorem distinct_baseFields (args : Args) : distinctFields (baseFields args) = true := by
  have hlooks : distinctItems ((sortTexts args.looks.dedup).map .str) = true := by
    refine distinctItems_iff.mpr fun v hv => ?_
    obtain ⟨s, -, rfl⟩ := mem_map.mp hv
    rfl
  have hcard := distinct_orNull (f := PyJson.str) (fun _ => rfl) args.rateCardSha256
  have hprojection := distinct_orNull (f := Projection.json) Projection.distinct args.projection
  simp [baseFields, distinctFields, hlooks, hcard, hprojection, lit, distinct]

theorem distinct_assignmentFields (mde : Option Int) (a : Assignment) (logSha : Text) (spend : Option Bool)
    (leverId : Text) : distinctFields (assignmentFields mde a logSha spend leverId) = true := by
  have hmde := distinct_orNull (f := PyJson.int) (fun _ => rfl) mde
  have hseed := distinct_orNull (f := PyJson.int) (fun _ => rfl) a.seed
  have hspend := distinct_orNull (f := PyJson.bool) (fun _ => rfl) spend
  simp [assignmentFields, distinctFields, hmde, hseed, hspend, distinct_payloads, lit, distinct]

/-- What is read of the assignment. -/
theorem mem_assignmentFields (mde : Option Int) (a : Assignment) (logSha : Text) (spend : Option Bool) (leverId : Text) :
    (codes "seed", orNull .int a.seed) ∈ assignmentFields mde a logSha spend leverId ∧
      (codes "assignment", lit a.source) ∈ assignmentFields mde a logSha spend leverId ∧
      (codes "assignment_log_sha256", .str logSha) ∈ assignmentFields mde a logSha spend leverId := by
  simp [assignmentFields]

/-- The pre-registration has no field twice. -/
theorem distinct_prereg (args : Args) (hbetween : Between fields) (mde : Option Int)
    (a : Assignment) (logSha : Text) (spend : Option Bool) :
    distinct (.dict (prereg args fields mde a logSha spend)) = true := by
  have hnodup : ((prereg args fields mde a logSha spend).map Prod.fst).Nodup := by
    unfold prereg
    rw [map_append, map_append, keys_baseFields, keys_assignmentFields]
    obtain hkeys | hkeys := hbetween.keys
    · exact (((List.Sublist.refl _).append hkeys).append (List.Sublist.refl _)).nodup (by decide +kernel)
    · rw [hkeys]
      decide +kernel
  have hfields : ∀ f ∈ prereg args fields mde a logSha spend, f.2.distinct = true := by
    intro f hf
    obtain hf | hf := mem_append.mp hf
    · obtain hf | hf := mem_append.mp hf
      · exact distinctFields_iff.mp (distinct_baseFields args) f hf
      · exact distinctFields_iff.mp hbetween.distinct f hf
    · exact distinctFields_iff.mp (distinct_assignmentFields mde a logSha spend args.leverId) f hf
  exact Bool.and_eq_true_iff.mpr ⟨decide_eq_true hnodup, distinctFields_iff.mpr hfields⟩

/-- A field of the assignment reads as it was written. -/
theorem get_prereg (args : Args) (hbetween : Between fields) {mde : Option Int}
    {logSha : Text} {spend : Option Bool} {name : String}
    (h : (codes name, v) ∈ assignmentFields mde a logSha spend args.leverId) :
    get name (sortMembers (sortedFields (prereg args fields mde a logSha spend))) = some v.sorted := by
  have hdistinct := distinct_prereg args hbetween mde a logSha spend
  have hkeys := of_decide_eq_true (Bool.and_eq_true_iff.mp hdistinct).1
  refine get_of_mem (((sortMembers_perm _).map Prod.fst).nodup_iff.mpr ?_) (mem_sorted (mem_append_right _ h))
  rwa [keys_sortedFields]

/-! ### Plans -/

/-- An assignment was seeded: the design is randomized, and the user supplied none. -/
def Args.Seeded (args : Args) : Prop := args.planned ≠ .its ∧ args.treated = none

/-- What is planned of some clusters. -/
structure Planned (args : Args) (names : List Text) (a : Assignment) (fields : Dict (List Nat)) : Prop where
  valid : a.Valid names
  between : Between fields
  seeded : args.Seeded → a.source = "seeded" ∧ a.seed = some args.seed ∧ 1 ≤ a.holdback.length ∧
    a.holdback.length < names.length ∧ ∀ w ∈ a.waves, ∀ w' ∈ a.waves, w.2.length ≤ w'.2.length + 1
  unseeded : ¬args.Seeded → a.source ≠ "seeded"

theorem distinct_armShares (host : Host) (rows : List PreRow) (names hold : List Text) :
    (armShares host rows names hold).distinct = true := by
  unfold armShares
  dsimp only
  have hkeys : [controlArm, codes "treatment"].Nodup := by decide
  split <;> simpa [distinct, distinctFields] using hkeys

theorem planned_ok {mde : Option Int} {spend : Option Bool} (hnames : names ≠ []) (hwaves : 1 ≤ args.waves)
    (h : planned host args names = .ok (a, fields, mde, spend)) : Planned args names a fields := by
  unfold planned at h
  split at h
  · rename_i hits
    obtain ⟨⟨change, placebo⟩, -, h⟩ := bind_eq_ok.mp h
    cases pure_eq_ok.mp h
    refine ⟨valid_orgWide hnames, ⟨Or.inr rfl, ?_⟩, fun hseeded => absurd hits hseeded.1, fun _ => ?_⟩
    rotate_left
    · exact fun hsource => absurd hsource (show "org_wide" ≠ "seeded" by decide)
    have hchange := distinct_orNull (f := PyJson.str) (fun _ => rfl) change
    have hplacebo := distinct_orNull (f := PyJson.str) (fun _ => rfl) placebo
    simp [distinctFields, hchange, hplacebo]
  · rename_i hits
    obtain ⟨a', ha, h⟩ := bind_eq_ok.mp h
    cases pure_eq_ok.mp h
    obtain ⟨hvalid, hcases⟩ := assignment_ok hwaves ha
    refine ⟨hvalid, ⟨Or.inl ?_, ?_⟩, fun hseeded => ?_, fun hunseeded => ?_⟩
    · split
      · cases host.spendTargeting args (priority a) with
        | none => exact sublist_cons_self _ _
        | some s => exact List.Sublist.refl _
      · exact sublist_cons_self _ _
    · refine distinctFields_iff.mpr fun f hf => ?_
      obtain hf | hf := mem_append.mp hf
      · obtain ⟨s, -, rfl⟩ := Option.map_eq_some_iff.mp (Option.mem_toList.mp hf)
        rfl
      · obtain rfl | hf := mem_cons.mp hf
        · exact distinct_armShares _ _ _ _
        · cases mem_singleton.mp hf
          rfl
    · obtain ⟨-, hrest⟩ | ⟨htreated, -⟩ := hcases
      · exact hrest
      · rw [hseeded.2] at htreated
        cases htreated
    · obtain ⟨htreated, -⟩ | ⟨-, hsource, -⟩ := hcases
      · exact absurd ⟨hits, htreated⟩ hunseeded
      · rw [hsource]
        decide

theorem codes_injective : Function.Injective codes := by
  intro s t h
  have hlist : s.toList = t.toList := map_injective_iff.mpr (fun a b hab => Char.toNat_inj.mp hab) h
  exact String.toList_inj.mp hlist

theorem sorted_orNull_int (v : Option Int) : (orNull PyJson.int v).sorted = orNull PyJson.int v := by
  cases v <;> rfl

theorem checkArgs_ok (h : checkArgs host args = .ok ()) :
    args.clusters ≠ [] ∧ args.clusters.Nodup ∧ 1 ≤ args.waves := by
  unfold checkArgs at h
  by_cases hclusters : args.clusters = [] ∨ ∃ c ∈ args.clusters, c = [] ∨ encodable c = false
  · rw [if_pos hclusters] at h
    cases h
  · rw [if_neg hclusters] at h
    by_cases hnodup : args.clusters.Nodup
    · rw [if_neg (not_not.mpr hnodup)] at h
      by_cases hwaves : args.waves < 1
      · rw [if_pos hwaves] at h
        split at h <;> cases h
      · exact ⟨fun hnil => hclusters (Or.inl hnil), hnodup, Int.not_lt.mp hwaves⟩
    · rw [if_pos hnodup] at h
      cases h

/-- The pre-registration is read back with its members in order. -/
theorem preregistration_ok (args : Args) (a : Assignment) (mde : Option Int) (logSha : Text)
    (hwrites : writes (.dict pre) = true) (hdistinct : distinct (.dict pre) = true)
    (hdepth : nesting (.dict pre) ≤ host.depth) :
    preregistration host (measurePlan host args a mde logSha (canonicalJson (.dict pre))) =
      some (sortMembers (sortedFields pre)) := by
  have hload : loadsWith host.hooks host.depth (canonicalJson (.dict pre)) = some (PyJson.dict pre).sorted :=
    loadsWith_dumps _ _ (writable_of_writes hwrites hdistinct) hdepth
  unfold preregistration measurePlan
  rw [if_neg (fun hne => hne rfl), hload]
  rfl

/-- The log of a plan is the one that was hashed when the pre-registration has its source and its seed. -/
theorem verifyAssignment_ok
    (hpre : preregistration host p = some pre) (hseed : get "seed" pre = some (orNull .int seed))
    (hsource : get "assignment" pre = some (lit source))
    (hsha : get "assignment_log_sha256" pre = some (.str p.assignmentLogSha256))
    (hlog : p.assignmentLogSha256 = host.sha (logLines p.leverId p.design p.clusterKind (orNull .int seed)
      (codes source) p.holdback p.waves)) : verifyAssignment host p none = true := by
  have hread : intOrNull (some (orNull PyJson.int seed)) = orNull .int seed := by cases seed <;> rfl
  unfold verifyAssignment assignmentLogText
  rw [hpre]
  rw [show (none <|> Option.map _ (some pre)) = Option.map _ (some pre) from rfl, Option.map_some]
  simp only [hseed, hsource, hsha, hread]
  refine Bool.and_eq_true_iff.mpr ⟨decide_eq_true hlog.symm, decide_eq_true rfl⟩

theorem isRandomized_iff (hpre : preregistration host p = some pre) (hseed : get "seed" pre = some (orNull .int seed))
    (hsource : get "assignment" pre = some (lit source)) :
    isRandomized host p = true ↔ p.design ≠ .its ∧ source = "seeded" ∧ seed.isSome = true := by
  have hseeded : isText (some (lit source)) (codes "seeded") = true ↔ source = "seeded" := by
    rw [← codes_injective.eq_iff]
    exact decide_eq_true_iff
  unfold isRandomized
  rw [hpre]
  simp only [hseed, hsource, Bool.and_eq_true, hseeded, decide_eq_true_eq, and_assoc]
  cases seed <;> simp [orNull]

/-- What a plan is made of. -/
theorem plan_ok (h : plan host args = .ok p) :
    checkArgs host args = .ok () ∧ ∃ a fields mde spend,
      planned host args (sortTexts args.clusters) = .ok (a, fields, mde, spend) ∧
      writes (.dict (prereg args fields mde a (host.sha (args.log a)) spend)) = true ∧
      nesting (.dict (prereg args fields mde a (host.sha (args.log a)) spend)) ≤ host.depth ∧
      p = measurePlan host args a mde (host.sha (args.log a))
        (canonicalJson (.dict (prereg args fields mde a (host.sha (args.log a)) spend))) := by
  obtain ⟨⟨⟩, hcheck, h⟩ := bind_eq_ok.mp h
  obtain ⟨⟨a, fields, mde, spend⟩, hplanned, h⟩ := bind_eq_ok.mp h
  dsimp only at h
  by_cases hwrites : writes (.dict (prereg args fields mde a (host.sha (args.log a)) spend)) = false ∨
      host.depth < nesting (.dict (prereg args fields mde a (host.sha (args.log a)) spend))
  · rw [if_pos hwrites] at h
    cases h
  · rw [if_neg hwrites] at h
    obtain ⟨hwrites, hdepth⟩ := not_or.mp hwrites
    exact ⟨hcheck, a, fields, mde, spend, hplanned, Bool.eq_true_of_not_eq_false hwrites, Nat.not_lt.mp hdepth,
      (pure_eq_ok.mp h).symm⟩

/-- Every plan is a valid design, and is read back as what was planned. -/
theorem plan_valid {host : Host} {args : Args} {p : MeasurePlan} (h : plan host args = .ok p) :
    args.clusters.Nodup ∧ (p.holdback ++ p.waves.flatMap Prod.snd).Perm args.clusters ∧
      (p.waves.map Prod.fst = (List.range p.waves.length).map fun i : Nat => (i : Int) + 1) ∧ p.waves ≠ [] ∧
      (∀ w ∈ p.waves, w.2 ≠ []) ∧
      (args.Seeded → 1 ≤ p.holdback.length ∧ p.holdback.length < args.clusters.length ∧
        ∀ w ∈ p.waves, ∀ w' ∈ p.waves, w.2.length ≤ w'.2.length + 1) ∧
      verifyAssignment host p none = true ∧ (isRandomized host p = true ↔ args.Seeded) := by
  obtain ⟨hcheck, a, fields, mde, spend, hplanned, hwrites, hdepth, rfl⟩ := plan_ok h
  obtain ⟨hne, hnodup, hwaves⟩ := checkArgs_ok hcheck
  have hperm := sortTexts_perm args.clusters
  have hspec := planned_ok (fun hnil => hne (perm_nil.mp (hnil ▸ hperm.symm))) hwaves hplanned
  have hvalid := hspec.valid
  have hpre := preregistration_ok args a mde (host.sha (args.log a)) hwrites
    (distinct_prereg args hspec.between _ _ _ _) hdepth
  obtain ⟨hseed, hsource, hsha⟩ := mem_assignmentFields mde a (host.sha (args.log a)) spend args.leverId
  have hseed := get_prereg args hspec.between hseed
  have hsource := get_prereg args hspec.between hsource
  have hsha := get_prereg args hspec.between hsha
  rw [sorted_orNull_int] at hseed
  refine ⟨hnodup, hvalid.perm.trans hperm, hvalid.numbers, hvalid.waves, hvalid.clusters, fun hseeded => ?_,
    verifyAssignment_ok hpre hseed hsource hsha rfl, (isRandomized_iff hpre hseed hsource).trans ?_⟩
  · obtain ⟨-, -, hlow, hhigh, heven⟩ := hspec.seeded hseeded
    exact ⟨hlow, hperm.length_eq ▸ hhigh, heven⟩
  · constructor
    · rintro ⟨-, hfrom, -⟩
      exact not_not.mp fun hunseeded => hspec.unseeded hunseeded hfrom
    · intro hseeded
      obtain ⟨hfrom, hseed, -⟩ := hspec.seeded hseeded
      exact ⟨hseeded.1, hfrom, by rw [hseed]; rfl⟩

/-- The hashes of the two texts of the plan below, the order that its seed leaves, and its shares. -/
def sampleHost : Host where
  sha text :=
    if text[5]? = some '_' then codes "8ae955d19e7f987095055fd3490a731c1fd282957c2c2e7c424c4d4792fe0f44"
    else codes "cd005bf37f245fb905be7918574a42ba46cd0bf65d3ca251e0e5b235d840140c"
  shuffle _ _ _ xs := xs.reverse
  shuffle_perm _ _ _ xs := reverse_perm xs
  normalize label := label
  int _ := none
  isDate text := decide (text.length = 10)
  nextDay _ := none
  mde _ _ _ _ := none
  spendTargeting _ _ := none
  share num _ := if num = 1 then codes "0.250000" else codes "0.750000"
  depth := 900
  hooks := ⟨fun _ => none, fun _ => none⟩
  str _ := []

/-- Four clusters in a seeded stepped wedge of two waves. -/
def sampleArgs : Args where
  clusters := ["a", "b", "c", "d"].map codes
  leverId := codes "L1"
  clusterKind := .mdmGroup
  design := .steppedWedge
  waves := 2
  holdback := ⟨false, 20, -2⟩
  seed := 9
  prePanel := none
  projection := none
  washoutHours := 2
  looks := [codes "2026-10-01"]
  treated := none
  orgWideDelivery := true
  changeDate := none
  rateCardSha256 := none

theorem samplePlan_valid : ∃ p, plan sampleHost sampleArgs = .ok p ∧ p.holdback.length < 4 ∧
    verifyAssignment sampleHost p none = true ∧ isRandomized sampleHost p = true := by
  have hok : (plan sampleHost sampleArgs).toBool = true := by decide +kernel
  cases hplan : plan sampleHost sampleArgs with
  | error e =>
    rw [hplan] at hok
    cases hok
  | ok p =>
    obtain ⟨-, -, -, -, -, heven, hverify, hrandomized⟩ := plan_valid hplan
    have hseeded : sampleArgs.Seeded := ⟨by decide, rfl⟩
    exact ⟨p, rfl, (heven hseeded).2.1, hverify, hrandomized.mpr hseeded⟩

end TokenBill.Rollout
