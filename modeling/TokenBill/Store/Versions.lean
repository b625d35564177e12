import TokenBill.Core.EncodeInj
import TokenBill.General.Champion
import TokenBill.Store.Work

/-!
# The version of a provider record

`choose_version` compares two versions by the latest fetch if one of them is of GitHub Copilot, and
by finality first if none is. Versions of both kinds under one id can beat each other in a circle,
so the stored version depends on the order of the sources. It does not where one version is chosen
against every other (`Settled`), and there every run of upserts stores that version.
-/

namespace TokenBill.Store

open General List

/-! ### Provider records -/

/-- A record of a provider table. -/
inductive ProviderRecord where
  | aggregate (a : UsageAggregate)
  | costLine (c : CostLine)
  | outcome (o : OutcomeAggregate)
  deriving DecidableEq

/-- The version of a provider record. -/
def ProviderRecord.version : ProviderRecord → RecordVersion
  | .aggregate a => UsageAggregate.version a
  | .costLine c => CostLine.version c
  | .outcome o => OutcomeAggregate.version o

def ProviderRecord.canon (r : ProviderRecord) : String := r.version.canon

/-- Objects with one value have one set of names. -/
theorem names_of_toValue_eq {fs gs : List (String × Json)} (hf : (fs.map (·.1)).Nodup) (hg : (gs.map (·.1)).Nodup)
    (h : Json.toValue (.obj fs) = Json.toValue (.obj gs)) {k : String} (hk : k ∈ fs.map (·.1)) :
    k ∈ gs.map (·.1) := by
  obtain ⟨v, hv⟩ := exists_lookup hk
  have hread := Json.field_eq hf hg h k
  rw [hv] at hread
  obtain ⟨w, hw, -⟩ := Option.map_eq_some_iff.mp hread.symm
  exact mem_map.mpr ⟨_, mem_of_lookup hw, rfl⟩

theorem ProviderRecord.canon_injective : Function.Injective ProviderRecord.canon := by
  have hagg : ∀ (a : UsageAggregate) (c : CostLine), Json.canonical a.toJson ≠ Json.canonical c.toJson := by
    intro a c h
    have hvalue := Json.canonical_inj a.distinct_toJson c.distinct_toJson h
    rw [CostLine.toJson_eq] at hvalue
    have hmem := names_of_toValue_eq c.nodup_names (by simp) hvalue.symm (k := "line_id") (by simp [CostLine.fixedFields])
    revert hmem
    simp
  have hagg' : ∀ (a : UsageAggregate) (o : OutcomeAggregate), Json.canonical a.toJson ≠ Json.canonical o.toJson := by
    intro a o h
    have hvalue := Json.canonical_inj a.distinct_toJson o.distinct_toJson h
    rw [OutcomeAggregate.toJson_eq] at hvalue
    have hmem := names_of_toValue_eq o.nodup_names (by simp) hvalue.symm (k := "team")
      (by simp [OutcomeAggregate.fixedFields])
    revert hmem
    simp
  have hline : ∀ (c : CostLine) (o : OutcomeAggregate), Json.canonical c.toJson ≠ Json.canonical o.toJson := by
    intro c o h
    have hvalue := Json.canonical_inj c.distinct_toJson o.distinct_toJson h
    rw [CostLine.toJson_eq, OutcomeAggregate.toJson_eq] at hvalue
    have hmem := names_of_toValue_eq c.nodup_names o.nodup_names hvalue (k := "line_id") (by simp [CostLine.fixedFields])
    revert hmem
    unfold OutcomeAggregate.fixedFields OutcomeAggregate.extraField
    split <;> simp
  intro r s h
  cases r with
  | aggregate a =>
    cases s with
    | aggregate b => exact congrArg ProviderRecord.aggregate (UsageAggregate.canonical_inj h)
    | costLine c => exact absurd h (hagg a c)
    | outcome o => exact absurd h (hagg' a o)
  | costLine c =>
    cases s with
    | aggregate b => exact absurd h.symm (hagg b c)
    | costLine d => exact congrArg ProviderRecord.costLine (CostLine.canonical_inj h)
    | outcome o => exact absurd h (hline c o)
  | outcome o =>
    cases s with
    | aggregate b => exact absurd h.symm (hagg' b o)
    | costLine c => exact absurd h.symm (hline c o)
    | outcome p => exact congrArg ProviderRecord.outcome (OutcomeAggregate.canonical_inj h)

/-! ### The choice between two versions -/

section Choice

variable {α : Type} {version : α → RecordVersion}

theorem chooseVersion_sel (a b : α) : chooseVersion version a b = a ∨ chooseVersion version a b = b := by
  unfold chooseVersion
  split
  · exact .inr rfl
  · exact .inl rfl

/-- The order of a version under the rule for two versions. -/
abbrev pairKey (version : α → RecordVersion) (a b : α) : Bool ×ₗ Nat ×ₗ String :=
  versionKey (version a) ((version a).copilot || (version b).copilot)

theorem canon_of_versionKey_eq {v w : RecordVersion} {copilot : Bool} (h : versionKey v copilot = versionKey w copilot) :
    v.canon = w.canon := by
  have hsnd := (Prod.ext_iff.mp (toLex_inj.mp h)).2
  exact (Prod.ext_iff.mp (toLex_inj.mp hsnd)).2

/-- A version is chosen against another exactly if it is not below it. -/
theorem beats_iff (hinj : Function.Injective fun a => (version a).canon) {w x : α} :
    Beats (chooseVersion version) w x ↔ pairKey version x w ≤ pairKey version w x := by
  unfold Beats chooseVersion replacesVersion pairKey
  simp only [Bool.or_comm (version w).copilot]
  constructor
  · rintro ⟨hwx, -⟩
    by_contra hlt
    rw [if_pos (decide_eq_true (not_le.mp hlt))] at hwx
    rw [hwx] at hlt
    exact hlt le_rfl
  · intro hle
    refine ⟨if_neg (by simpa using hle), ?_⟩
    rcases hle.lt_or_eq with hlt | heq
    · exact if_pos (decide_eq_true hlt)
    · have hxw : x = w := hinj (canon_of_versionKey_eq heq)
      rw [hxw]
      split <;> rfl

/-- A Copilot version was fetched last of all, or a version of another source is the best of these and was not
fetched before any Copilot version. -/
def Settled (version : α → RecordVersion) (xs : List α) : Prop :=
  (∃ w ∈ xs, (version w).copilot = true ∧ ∀ x ∈ xs, versionKey (version x) true ≤ versionKey (version w) true) ∨
    ∃ w ∈ xs, (version w).copilot = false ∧
      (∀ x ∈ xs, (version x).copilot = false → versionKey (version x) false ≤ versionKey (version w) false) ∧
      ∀ x ∈ xs, (version x).copilot = true → versionKey (version x) true ≤ versionKey (version w) true

theorem settled_iff {xs : List α} :
    Settled version xs ↔ ∃ w ∈ xs, ∀ x ∈ xs, pairKey version x w ≤ pairKey version w x := by
  unfold Settled pairKey
  constructor
  · rintro (⟨w, hw, hcopilot, hle⟩ | ⟨w, hw, hcopilot, hothers, hcopilots⟩)
    · refine ⟨w, hw, fun x hx => ?_⟩
      rw [hcopilot, Bool.or_true, Bool.true_or]
      exact hle x hx
    · refine ⟨w, hw, fun x hx => ?_⟩
      rw [hcopilot, Bool.or_false, Bool.false_or]
      cases hx' : (version x).copilot with
      | false => exact hothers x hx hx'
      | true => exact hcopilots x hx hx'
  · rintro ⟨w, hw, hle⟩
    cases hcopilot : (version w).copilot with
    | true =>
      refine .inl ⟨w, hw, hcopilot, fun x hx => ?_⟩
      have h := hle x hx
      rwa [hcopilot, Bool.or_true, Bool.true_or] at h
    | false =>
      refine .inr ⟨w, hw, hcopilot, fun x hx hx' => ?_, fun x hx hx' => ?_⟩
      all_goals
        have h := hle x hx
        rwa [hcopilot, hx'] at h

/-- The choice among some versions does not depend on their order exactly if they are settled. -/
theorem orderFree_chooseVersion_iff [DecidableEq α] (hinj : Function.Injective fun a => (version a).canon)
    {xs : List α} (hne : xs ≠ []) : OrderFree (chooseVersion version) xs ↔ Settled version xs := by
  rw [orderFree_iff chooseVersion_sel hne, settled_iff]
  simp only [beats_iff hinj]

end Choice

/-! ### Upserts -/

section Upserts

variable {α κ : Type} [DecidableEq κ] {key : α → κ} {version : α → RecordVersion}

def rowOf (key : α → κ) (k : κ) (rows : List α) : Option α := rows.find? fun r => decide (key r = k)

/-- The row of a key is chosen from some versions, and there is none of no versions. -/
def Stored (key : α → κ) (version : α → RecordVersion) (k : κ) (rows xs : List α) : Prop :=
  match rowOf key k rows with
  | none => xs = []
  | some c => Chosen (chooseVersion version) xs c

variable {k : κ} {rows xs : List α}

theorem key_of_rowOf {r : α} (h : rowOf key k rows = some r) : key r = k := by
  simpa using find?_some h

theorem rowOf_cons (k : κ) (r : α) (rows : List α) :
    rowOf key k (r :: rows) = if key r = k then some r else rowOf key k rows := by
  unfold rowOf
  by_cases hk : key r = k <;> simp [hk]

/-- The row of a key after one record. -/
theorem rowOf_putVersion (k : κ) (rows : List α) (rec : α) :
    rowOf key k (putVersion key version rows rec) =
      if key rec = k then
        some (match rowOf key k rows with
          | none => rec
          | some c => chooseVersion version c rec)
      else rowOf key k rows := by
  have hfind : (rows.find? fun r => decide (key r = key rec)) = rowOf key (key rec) rows := rfl
  unfold putVersion
  rw [hfind]
  cases hrow : rowOf key (key rec) rows with
  | none =>
    unfold rowOf
    rw [find?_append]
    by_cases hk : key rec = k
    · subst hk
      rw [if_pos rfl, ← hfind.symm, hrow]
      simp
    · simp [hk]
  | some c =>
    have hkey : key (chooseVersion version c rec) = key rec := by
      rcases chooseVersion_sel c rec with h | h <;> rw [h]
      exact key_of_rowOf hrow
    unfold rowOf
    rw [find?_upsert, hkey]
    by_cases hk : key rec = k
    · subst hk
      rw [if_pos rfl, if_pos rfl]
      exact congrArg some (by rw [← hfind.symm, hrow])
    · rw [if_neg hk, if_neg hk]

theorem Stored.put {ys : List α} {rec : α} (h : Stored key version k rows xs)
    (hrec : key rec = k) (hys : Chosen (chooseVersion version) ys rec) :
    Stored key version k (putVersion key version rows rec) (xs ++ ys) := by
  unfold Stored at h ⊢
  rw [rowOf_putVersion, if_pos hrec]
  cases hrow : rowOf key k rows with
  | none =>
    rw [hrow] at h
    rw [h]
    exact hys
  | some c =>
    rw [hrow] at h
    exact Chosen.node h hys

theorem Stored.put_other {rec : α} (h : Stored key version k rows xs)
    (hrec : key rec ≠ k) : Stored key version k (putVersion key version rows rec) xs := by
  unfold Stored at h ⊢
  rw [rowOf_putVersion, if_neg hrec]
  exact h

def ofKey (key : α → κ) (k : κ) (records : List α) : List α := records.filter fun r => decide (key r = k)

theorem Stored.foldl (h : Stored key version k rows xs) (records : List α) :
    Stored key version k (records.foldl (putVersion key version) rows) (xs ++ ofKey key k records) := by
  induction records generalizing rows xs with
  | nil =>
    rw [ofKey, filter_nil, append_nil]
    exact h
  | cons rec records ih =>
    rw [foldl_cons]
    by_cases hk : key rec = k
    · have hkeys : ofKey key k (rec :: records) = [rec] ++ ofKey key k records := by simp [ofKey, hk]
      rw [hkeys, ← append_assoc]
      exact ih (h.put hk (.leaf rec))
    · have hkeys : ofKey key k (rec :: records) = ofKey key k records := by simp [ofKey, hk]
      rw [hkeys]
      exact ih (h.put_other hk)

theorem nodup_putVersion (h : (rows.map key).Nodup) (rec : α) :
    ((putVersion key version rows rec).map key).Nodup := by
  unfold putVersion
  split
  · rename_i hnone
    rw [map_append, map_singleton, nodup_append]
    refine ⟨h, nodup_singleton _, fun a ha b hb => ?_⟩
    obtain ⟨r, hr, rfl⟩ := mem_map.mp ha
    rw [mem_singleton.mp hb]
    simpa using find?_eq_none.mp hnone r hr
  · exact nodup_map_upsert h

theorem nodup_foldl_putVersion (h : (rows.map key).Nodup) (records : List α) :
    ((records.foldl (putVersion key version) rows).map key).Nodup := by
  induction records generalizing rows with
  | nil => exact h
  | cons rec records ih => exact ih (nodup_putVersion h rec)

theorem Stored.foldl_rows {best ys : List α} (h : Stored key version k rows xs)
    (hbest : Stored key version k best ys) (hnodup : (best.map key).Nodup) :
    Stored key version k (best.foldl (putVersion key version) rows) (xs ++ ys) := by
  have hothers : ∀ {post rows xs : List α}, Stored key version k rows xs → k ∉ post.map key →
      Stored key version k (post.foldl (putVersion key version) rows) xs := by
    intro post rows xs h hk
    have hpost := h.foldl post
    have hnone : ofKey key k post = [] := filter_eq_nil_iff.mpr fun r hr he =>
      hk (mem_map.mpr ⟨r, hr, of_decide_eq_true he⟩)
    rwa [hnone, append_nil] at hpost
  induction best generalizing rows with
  | nil =>
    have hnil : ys = [] := hbest
    rw [hnil, append_nil]
    exact h
  | cons r best ih =>
    obtain ⟨hnot, hnodup⟩ := nodup_cons.mp hnodup
    unfold Stored at hbest
    rw [rowOf_cons] at hbest
    rw [foldl_cons]
    by_cases hk : key r = k
    · rw [if_pos hk] at hbest
      exact hothers (h.put hk hbest) (hk ▸ hnot)
    · rw [if_neg hk] at hbest
      exact ih (h.put_other hk) hbest hnodup

theorem stored_run (key : α → κ) (version : α → RecordVersion) (k : κ) (batches : List (List α)) :
    Stored key version k (batches.foldl (upsertVersions key version) []) (ofKey key k batches.flatten) := by
  have hrun : ∀ (batches : List (List α)) (rows xs : List α), Stored key version k rows xs →
      Stored key version k (batches.foldl (upsertVersions key version) rows) (xs ++ ofKey key k batches.flatten) := by
    intro batches
    induction batches with
    | nil =>
      intro rows xs h
      rw [flatten_nil, ofKey, filter_nil, append_nil]
      exact h
    | cons batch batches ih =>
      intro rows xs h
      have hnil : Stored key version k ([] : List α) [] := rfl
      have hbest := hnil.foldl batch
      have hstep : Stored key version k (upsertVersions key version rows batch) (xs ++ ofKey key k batch) :=
        h.foldl_rows hbest (nodup_foldl_putVersion (by simp) batch)
      have hall := ih _ _ hstep
      rw [append_assoc] at hall
      rw [foldl_cons, flatten_cons, ofKey, filter_append]
      exact hall
  exact hrun batches [] [] rfl

/-- Runs of upserts of settled versions store the same version, in whatever order and batches. -/
theorem stored_version_eq [DecidableEq α] (hinj : Function.Injective fun a => (version a).canon)
    {batches batches' : List (List α)} (hperm : batches.flatten.Perm batches'.flatten)
    (hsettled : Settled version (ofKey key k batches.flatten)) :
    rowOf key k (batches.foldl (upsertVersions key version) []) =
      rowOf key k (batches'.foldl (upsertVersions key version) []) := by
  have hne : ofKey key k batches.flatten ≠ [] := by
    rcases hsettled with ⟨w, hw, -⟩ | ⟨w, hw, -⟩
    · exact ne_nil_of_mem hw
    · exact ne_nil_of_mem hw
  have hkeys : (ofKey key k batches'.flatten).Perm (ofKey key k batches.flatten) := (hperm.filter _).symm
  have hne' : ofKey key k batches'.flatten ≠ [] := fun hnil => hne (hnil ▸ hkeys).symm.eq_nil
  have hstored := stored_run key version k batches
  have hstored' := stored_run key version k batches'
  unfold Stored at hstored hstored'
  cases hrow : rowOf key k (batches.foldl (upsertVersions key version) []) with
  | none => exact absurd (by rwa [hrow] at hstored) hne
  | some c =>
    cases hrow' : rowOf key k (batches'.foldl (upsertVersions key version) []) with
    | none => exact absurd (by rwa [hrow'] at hstored') hne'
    | some d =>
      rw [hrow] at hstored
      rw [hrow'] at hstored'
      exact congrArg some
        ((orderFree_chooseVersion_iff hinj hne).mpr hsettled _ _ c d (List.Perm.refl _) hkeys hstored hstored')

end Upserts

/-! ### The order of the sources -/

def lineVersion (channel finality : String) (fetchedMs : Nat) : ProviderRecord :=
  .costLine { lineId := "cl_1", sourceKind := "github.ai_usage_report", dateUtc := 20000, channel := channel,
              workspaceId := none, description := "usage", model := none, costType := none, tokenType := none,
              sku := none, serviceTier := none, inferenceGeo := none, endpointScope := none, amountNano := 0,
              finality := finality, fetchedMs := fetchedMs }

/-- A Copilot version, a final one fetched before it and a provisional one fetched after it beat each other in a
circle. -/
theorem circle_of_versions :
    let copilot := lineVersion "github_copilot" "final" 1
    let final := lineVersion "anthropic_api" "final" 0
    let provisional := lineVersion "anthropic_api" "provisional" 2
    let choose := chooseVersion ProviderRecord.version
    choose (choose copilot final) provisional = provisional ∧
      choose copilot (choose final provisional) = copilot ∧ copilot ≠ provisional := by
  decide

/-- Upserts of settled versions of a provider record store one row for it, in whatever order and batches they come. -/
theorem stored_record_eq {κ : Type} [DecidableEq κ] {key : ProviderRecord → κ} {k : κ}
    {batches batches' : List (List ProviderRecord)} (hperm : batches.flatten.Perm batches'.flatten)
    (hsettled : Settled ProviderRecord.version (ofKey key k batches.flatten)) :
    rowOf key k (batches.foldl (upsertVersions key ProviderRecord.version) []) =
      rowOf key k (batches'.foldl (upsertVersions key ProviderRecord.version) []) :=
  stored_version_eq ProviderRecord.canon_injective hperm hsettled

theorem lineVersions_settled : Settled ProviderRecord.version (ofKey (fun _ => ()) ()
    [lineVersion "anthropic_api" "provisional" 0, lineVersion "anthropic_api" "final" 1]) := by
  refine .inr ⟨lineVersion "anthropic_api" "final" 1, mem_cons_of_mem _ mem_cons_self, rfl, fun x hx _ => ?_, fun x hx h => ?_⟩
  · rcases mem_cons.mp hx with rfl | hx
    · exact Prod.Lex.toLex_le_toLex.mpr (.inl (by decide))
    · rw [mem_singleton.mp hx]
  · rcases mem_cons.mp hx with rfl | hx
    · cases h
    · rw [mem_singleton.mp hx] at h
      cases h

/-- A final line and a provisional one, in one batch or in two. -/
theorem stored_record_eq_lines :
    rowOf (fun _ => ()) () ([[lineVersion "anthropic_api" "provisional" 0], [lineVersion "anthropic_api" "final" 1]].foldl
      (upsertVersions (fun _ => ()) ProviderRecord.version) []) =
    rowOf (fun _ => ()) () ([[lineVersion "anthropic_api" "final" 1, lineVersion "anthropic_api" "provisional" 0]].foldl
      (upsertVersions (fun _ => ()) ProviderRecord.version) []) :=
  stored_record_eq (.swap _ _ _) lineVersions_settled

end TokenBill.Store
