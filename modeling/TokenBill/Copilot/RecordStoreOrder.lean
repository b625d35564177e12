import TokenBill.Copilot.RecordStoreRows

/-!
# The order of ingest in the Copilot record store

What a run of puts stores does not depend on the order and the batches of the puts exactly where
every version of a record key is read back below the largest, or is stored as the same row under
the same key id (`put_order_independent`).
-/

namespace TokenBill.Copilot.Seats

open General List

/-! ### Order independence -/

section Settled

variable {α ρ : Type}

/-- What a row is read back as comes before, or after, the versions of its record in this order. -/
def RecordTable.readOrder (T : RecordTable α ρ) (row : ρ) : Nat ×ₗ Nat ×ₗ String := T.keeping.kept row

def RecordTable.Largest (T : RecordTable α ρ) (h : Hashes) (vs : List (α × String)) (p : α × String) : Prop :=
  ∀ q ∈ vs, T.recKey h q.1 = T.recKey h p.1 → T.order q.1 ≤ T.order p.1

/-- Every version is read back below the largest of its record key, or is stored as the same row under the same
key id. -/
def RecordTable.Settled (T : RecordTable α ρ) (h : Hashes) (vs : List (α × String)) : Prop :=
  ∀ p ∈ vs, T.Largest h vs p → ∀ q ∈ vs, T.recKey h q.1 = T.recKey h p.1 →
    T.readOrder (T.row q.1 q.2) < T.order p.1 ∨ T.row q.1 q.2 = T.row p.1 p.2

/-- One row for each record key, of the largest version. -/
structure RecordTable.KeepsLargest (T : RecordTable α ρ) (h : Hashes) (vs : List (α × String))
    (table : List (String × ρ)) : Prop where
  nodup : (table.map (·.1)).Nodup
  keys : ∀ k, k ∈ table.map (·.1) ↔ ∃ p ∈ vs, T.recKey h p.1 = k
  largest : ∀ p ∈ vs, T.Largest h vs p → table.lookup (T.recKey h p.1) = some (T.row p.1 p.2)

variable {T : RecordTable α ρ} {valid : α → Prop} {h : Hashes} {vs : List (α × String)} {table : List (String × ρ)}

theorem RecordTable.Settled.yields (hs : T.Settled h vs) {p : α × String} (hp : p ∈ vs) (hl : T.Largest h vs p) :
    T.keeping.Yields (T.ofRecKey h (T.recKey h p.1) vs) p := by
  intro q hq
  obtain ⟨hqmem, hqkey⟩ := mem_ofRecKey.mp hq
  exact hs p hp hl q hqmem hqkey

theorem RecordTable.exists_largest_of (T : RecordTable α ρ) (h : Hashes) {v : α × String} (hv : v ∈ vs) :
    ∃ p ∈ vs, T.recKey h p.1 = T.recKey h v.1 ∧ T.Largest h vs p := by
  obtain ⟨p, hp, hle⟩ := T.exists_largest h hv
  obtain ⟨hmem, hkey⟩ := mem_ofRecKey.mp hp
  exact ⟨p, hmem, hkey, fun q hq hqk => hle q (mem_ofRecKey.mpr ⟨hq, hqk.trans hkey⟩)⟩

theorem RecordTable.Holds.keepsLargest (hh : T.Holds valid h vs table) (hs : T.Settled h vs) :
    T.KeepsLargest h vs table where
  nodup := hh.good.sorted.nodup
  keys k := by
    constructor
    · intro hk
      obtain ⟨e, he, rfl⟩ := mem_map.mp hk
      obtain ⟨p, hp, hkey, -⟩ := hh.row e.1 e.2 (lookup_of_mem hh.good.sorted.nodup he)
      exact ⟨p, hp, hkey⟩
    · rintro ⟨v, hv, rfl⟩
      obtain ⟨p, hp, hkey, hl⟩ := T.exists_largest_of h hv
      have hrow := hh.largest p hp (hs.yields hp hl)
      rw [hkey] at hrow
      exact mem_map.mpr ⟨_, mem_of_lookup hrow, rfl⟩
  largest p hp hl := hh.largest p hp (hs.yields hp hl)

theorem RecordTable.Holds.ext {table' : List (String × ρ)} (hh : T.Holds valid h vs table)
    (hh' : T.Holds valid h vs table') (hs : T.Settled h vs) : table = table' := by
  refine sortedKeys_ext hh.good.sorted hh'.good.sorted fun k => ?_
  have hkeys := (hh.keepsLargest hs).keys k
  have hkeys' := (hh'.keepsLargest hs).keys k
  by_cases hk : ∃ v ∈ vs, T.recKey h v.1 = k
  · obtain ⟨v, hv, rfl⟩ := hk
    obtain ⟨p, hp, hkey, hl⟩ := T.exists_largest_of h hv
    have hy := hs.yields hp hl
    rw [← hkey, hh.largest p hp hy, hh'.largest p hp hy]
  · have hnone : ∀ {t : List (String × ρ)}, (k ∈ t.map (·.1) ↔ ∃ v ∈ vs, T.recKey h v.1 = k) →
        t.lookup k = none := by
      intro t ht
      refine lookup_eq_none_iff.mpr fun f hf => bne_iff_ne.mpr fun he => ?_
      exact hk (ht.mp (mem_map.mpr ⟨f, hf, he.symm⟩))
    rw [hnone hkeys, hnone hkeys']

/-- Where the largest version is stored although another comes first, the versions are settled. -/
theorem settled_of_first (hT : T.Lawful valid) (hvs : T.Storable valid vs)
    (hfirst : ∀ q ∈ vs, ∃ batches table, (∀ v, v ∈ RecordTable.entries batches ↔ v ∈ vs) ∧
      (([q.1], q.2) :: batches).foldlM (fun table b => T.upsert h table b.1 b.2) [] = some table ∧
      T.KeepsLargest h vs table) : T.Settled h vs := by
  intro p hp hl q hq hkey
  by_cases hlt : T.readOrder (T.row q.1 q.2) < T.order p.1
  · exact .inl hlt
  · obtain ⟨batches, table, hbatches, hrun, hkeeps⟩ := hfirst q hq
    have hrow := hT.upserts_first h hvs hbatches hq
      (fun v hv hvk => (hl v hv (hvk.trans hkey)).trans (not_lt.mp hlt)) hrun
    rw [hkey, hkeeps.largest p hp hl] at hrow
    exact .inr (Option.some.inj hrow).symm

end Settled

/-! ### Puts -/

/-- The seats that a put stores, with the key id. -/
def Put.licenseBatch (p : Put) : List LicenseSnapshot × String :=
  match p.acceptedKid with
  | none => ([], "")
  | some kid => (p.licenses, kid)

/-- The activity days that a put stores, with the key id. -/
def Put.activityBatch (p : Put) : List ActivityDay × String :=
  match p.acceptedKid with
  | none => ([], "")
  | some kid => (p.activity, kid)

def Put.configBatch (p : Put) : List ConfigSnapshot × String := (p.config, "")

theorem put_eq {h : Hashes} {t : RecordTables} {p : Put} {l : List (String × LicenseRow)}
    {a : List (String × ActivityRow)} {c : List (String × ConfigRow)}
    (hl : licenseTable.upsert h t.licenses p.licenseBatch.1 p.licenseBatch.2 = some l)
    (ha : activityTable.upsert h t.activity p.activityBatch.1 p.activityBatch.2 = some a)
    (hc : configTable.upsert h t.config p.configBatch.1 p.configBatch.2 = some c) :
    (put h t p).map (·.1) = some ⟨l, a, c⟩ := by
  unfold Put.configBatch at hc
  unfold put putPeople
  by_cases hpeople : p.people = 0
  · obtain ⟨hnil, hnil'⟩ : p.licenses = [] ∧ p.activity = [] := by
      unfold Put.people at hpeople
      exact ⟨length_eq_zero_iff.mp (by omega), length_eq_zero_iff.mp (by omega)⟩
    have hbatch : p.licenseBatch.1 = [] := by
      unfold Put.licenseBatch
      cases p.acceptedKid <;> simp [hnil]
    have hbatch' : p.activityBatch.1 = [] := by
      unfold Put.activityBatch
      cases p.acceptedKid <;> simp [hnil']
    rw [hbatch] at hl
    rw [hbatch'] at ha
    obtain rfl : t.licenses = l := Option.some.inj hl
    obtain rfl : t.activity = a := Option.some.inj ha
    simp [hpeople, hc]
  · unfold Put.licenseBatch at hl
    unfold Put.activityBatch at ha
    cases hkid : p.acceptedKid with
    | none =>
      rw [hkid] at hl ha
      obtain rfl : t.licenses = l := Option.some.inj hl
      obtain rfl : t.activity = a := Option.some.inj ha
      simp [hpeople, hc]
    | some kid =>
      rw [hkid] at hl ha
      simp [hpeople, hl, ha, hc]

theorem foldlM_put {h : Hashes} {puts : List Put} {t : RecordTables} {l : List (String × LicenseRow)}
    {a : List (String × ActivityRow)} {c : List (String × ConfigRow)}
    (hl : (puts.map (·.licenseBatch)).foldlM (fun table b => licenseTable.upsert h table b.1 b.2) t.licenses = some l)
    (ha : (puts.map (·.activityBatch)).foldlM (fun table b => activityTable.upsert h table b.1 b.2) t.activity = some a)
    (hc : (puts.map (·.configBatch)).foldlM (fun table b => configTable.upsert h table b.1 b.2) t.config = some c) :
    puts.foldlM (fun t p => (put h t p).map (·.1)) t = some ⟨l, a, c⟩ := by
  induction puts generalizing t with
  | nil =>
    obtain rfl : t.licenses = l := Option.some.inj hl
    obtain rfl : t.activity = a := Option.some.inj ha
    obtain rfl : t.config = c := Option.some.inj hc
    rfl
  | cons p puts ih =>
    rw [map_cons, foldlM_cons] at hl ha hc
    obtain ⟨l₁, hl₁, hl⟩ := Option.bind_eq_some_iff.mp hl
    obtain ⟨a₁, ha₁, ha⟩ := Option.bind_eq_some_iff.mp ha
    obtain ⟨c₁, hc₁, hc⟩ := Option.bind_eq_some_iff.mp hc
    rw [foldlM_cons, put_eq hl₁ ha₁ hc₁]
    exact ih (t := ⟨l₁, a₁, c₁⟩) hl ha hc

/-- Records with the key ids they are stored under. -/
structure Versions where
  licenses : List (LicenseSnapshot × String) := []
  activity : List (ActivityDay × String) := []
  config : List ConfigSnapshot := []

def Versions.configVersions (V : Versions) : List (ConfigSnapshot × String) := V.config.map (·, "")

/-- The records are valid and can be stored, and the key ids are no empty texts. -/
structure Versions.Admissible (V : Versions) : Prop where
  licenses : ∀ v ∈ V.licenses, v.1.Valid = true ∧ v.2 ≠ ""
  activity : ∀ v ∈ V.activity, v.1.Valid = true ∧ int64 v.1.reportedCostNano = true ∧ v.2 ≠ ""
  config : ∀ c ∈ V.config, validConfig c = true

/-- Some puts store some versions, in any order and batches and with repetitions. -/
structure Stores (puts : List Put) (V : Versions) : Prop where
  licenses : ∀ v, v ∈ RecordTable.entries (puts.map (·.licenseBatch)) ↔ v ∈ V.licenses
  activity : ∀ v, v ∈ RecordTable.entries (puts.map (·.activityBatch)) ↔ v ∈ V.activity
  config : ∀ v, v ∈ RecordTable.entries (puts.map (·.configBatch)) ↔ v ∈ V.configVersions

/-- All puts that store some versions end with the same tables: one row for each record key, of its largest
version. -/
def OrderIndependent (h : Hashes) (V : Versions) : Prop :=
  ∃ t, (∀ puts, Stores puts V → runPuts h puts = some t) ∧ licenseTable.KeepsLargest h V.licenses t.licenses ∧
    activityTable.KeepsLargest h V.activity t.activity ∧ configTable.KeepsLargest h V.configVersions t.config

/-- The put of one seat under a key id that the ledger accepts. -/
def licensePut (v : LicenseSnapshot × String) : Put :=
  { ledgerMeta := some [("org_key_id", v.2)], principalKeyId := some v.2, licenses := [v.1] }

/-- The put of one activity day under a key id that the ledger accepts. -/
def activityPut (v : ActivityDay × String) : Put :=
  { ledgerMeta := some [("org_key_id", v.2)], principalKeyId := some v.2, activity := [v.1] }

def configPut (c : ConfigSnapshot) : Put := { ledgerMeta := none, principalKeyId := none, config := [c] }

def Versions.puts (V : Versions) : List Put :=
  V.licenses.map licensePut ++ V.activity.map activityPut ++ V.config.map configPut

theorem acceptedKid_eq {kid : String} (hkid : kid ≠ "") {lics : List LicenseSnapshot} {acts : List ActivityDay} :
    Put.acceptedKid { ledgerMeta := some [("org_key_id", kid)], principalKeyId := some kid, licenses := lics,
                      activity := acts } = some kid := by
  simp [Put.acceptedKid, acceptedKeyIds, hkid]

theorem batches_licensePut {v : LicenseSnapshot × String} (hv : v.2 ≠ "") :
    (licensePut v).licenseBatch = ([v.1], v.2) ∧ (licensePut v).activityBatch.1 = [] ∧
      (licensePut v).configBatch.1 = [] := by
  unfold Put.licenseBatch Put.activityBatch licensePut
  rw [acceptedKid_eq hv]
  exact ⟨rfl, rfl, rfl⟩

theorem batches_activityPut {v : ActivityDay × String} (hv : v.2 ≠ "") :
    (activityPut v).licenseBatch.1 = [] ∧ (activityPut v).activityBatch = ([v.1], v.2) ∧
      (activityPut v).configBatch.1 = [] := by
  unfold Put.licenseBatch Put.activityBatch activityPut
  rw [acceptedKid_eq hv]
  exact ⟨rfl, rfl, rfl⟩

theorem batches_configPut (c : ConfigSnapshot) :
    (configPut c).licenseBatch.1 = [] ∧ (configPut c).activityBatch.1 = [] ∧
      (configPut c).configBatch = ([c], "") := ⟨rfl, rfl, rfl⟩

/-- The entries of puts of which each stores one version or none. -/
theorem mem_entries_of_batch {α β : Type} (version : β → α × String) {batch : β → List α × String} {l : List β}
    (h : ∀ b ∈ l, batch b = ([(version b).1], (version b).2)) (v : α × String) :
    v ∈ RecordTable.entries (l.map batch) ↔ v ∈ l.map version := by
  unfold RecordTable.entries
  rw [flatMap_map]
  induction l with
  | nil => exact Iff.rfl
  | cons b l ih =>
    obtain ⟨hb, hl⟩ := forall_mem_cons.mp h
    rw [flatMap_cons, map_cons, mem_append, mem_cons, ih hl, hb]
    exact or_congr_left mem_singleton

theorem entries_of_empty {α β : Type} {batch : β → List α × String} {l : List β} (h : ∀ b ∈ l, (batch b).1 = []) :
    RecordTable.entries (l.map batch) = [] := by
  unfold RecordTable.entries
  rw [flatMap_map]
  exact flatMap_eq_nil_iff.mpr fun b hb => by rw [h b hb, map_nil]

theorem mem_entries_puts {α : Type} (batch : Put → List α × String) (V : Versions) (v : α × String) :
    v ∈ RecordTable.entries (V.puts.map batch) ↔
      v ∈ RecordTable.entries (V.licenses.map fun x => batch (licensePut x)) ∨
      v ∈ RecordTable.entries (V.activity.map fun x => batch (activityPut x)) ∨
      v ∈ RecordTable.entries (V.config.map fun c => batch (configPut c)) := by
  unfold Versions.puts RecordTable.entries
  simp only [map_append, map_map, flatMap_append, mem_append, or_assoc]
  rfl

variable {V : Versions}

theorem Versions.Admissible.stores (hV : V.Admissible) : Stores V.puts V where
  licenses v := by
    rw [mem_entries_puts, entries_of_empty fun v hv => (batches_activityPut (hV.activity v hv).2.2).1,
      entries_of_empty fun c _ => (batches_configPut c).1,
      mem_entries_of_batch id fun v hv => (batches_licensePut (hV.licenses v hv).2).1]
    simp
  activity v := by
    rw [mem_entries_puts, entries_of_empty fun v hv => (batches_licensePut (hV.licenses v hv).2).2.1,
      entries_of_empty fun c _ => (batches_configPut c).2.1,
      mem_entries_of_batch id fun v hv => (batches_activityPut (hV.activity v hv).2.2).2.1]
    simp
  config v := by
    rw [mem_entries_puts, entries_of_empty fun v hv => (batches_licensePut (hV.licenses v hv).2).2.2,
      entries_of_empty fun v hv => (batches_activityPut (hV.activity v hv).2.2).2.2,
      mem_entries_of_batch (·, "") fun c _ => (batches_configPut c).2.2]
    simp [Versions.configVersions]

/-! ### The claim of the store -/

theorem storable_licenses (hV : V.Admissible) :
    licenseTable.Storable (fun l => l.Valid = true) V.licenses := fun v hv => ⟨(hV.licenses v hv).1, rfl⟩

theorem storable_activity (hV : V.Admissible) : activityTable.Storable (fun a => a.Valid = true) V.activity :=
  fun v hv => ⟨(hV.activity v hv).1, (hV.activity v hv).2.1⟩

theorem storable_config (hV : V.Admissible) :
    configTable.Storable (fun c => validConfig c = true) V.configVersions := fun v hv => by
  obtain ⟨c, hc, rfl⟩ := mem_map.mp hv
  exact ⟨hV.config c hc, rfl⟩

/-- The tables that puts of some versions end with. -/
structure Ends (h : Hashes) (V : Versions) (puts : List Put) (t : RecordTables) : Prop where
  run : runPuts h puts = some t
  licenses : (puts.map (·.licenseBatch)).foldlM (fun table b => licenseTable.upsert h table b.1 b.2) [] =
    some t.licenses
  activity : (puts.map (·.activityBatch)).foldlM (fun table b => activityTable.upsert h table b.1 b.2) [] =
    some t.activity
  config : (puts.map (·.configBatch)).foldlM (fun table b => configTable.upsert h table b.1 b.2) [] = some t.config
  holdsLicenses : licenseTable.Holds (fun l => l.Valid = true) h V.licenses t.licenses
  holdsActivity : activityTable.Holds (fun a => a.Valid = true) h V.activity t.activity
  holdsConfig : configTable.Holds (fun c => validConfig c = true) h V.configVersions t.config

theorem Stores.ends (h : Hashes) (hV : V.Admissible) {puts : List Put} (hputs : Stores puts V) :
    ∃ t, Ends h V puts t := by
  obtain ⟨l, hl, hl'⟩ := lawful_licenseTable.upserts_holds h (storable_licenses hV) hputs.licenses
  obtain ⟨a, ha, ha'⟩ := lawful_activityTable.upserts_holds h (storable_activity hV) hputs.activity
  obtain ⟨c, hc, hc'⟩ := lawful_configTable.upserts_holds h (storable_config hV) hputs.config
  exact ⟨⟨l, a, c⟩, foldlM_put hl ha hc, hl, ha, hc, hl', ha', hc'⟩

theorem attrValue_toValue_inj {v w : AttrValue} (h : v.toJson.toValue = w.toJson.toValue) : v = w := by
  cases v <;> cases w <;> simp_all [AttrValue.toJson, Json.toValue, Decimal.ofInt]

theorem distinct_attrsJson (attrs : List (String × AttrValue)) : Json.Distinct (attrsJson attrs) := by
  refine .arr (forall_mem_map.mpr fun a _ => .arr fun v hv => ?_)
  rcases mem_pair.mp hv with rfl | rfl
  · exact .str _
  · exact AttrValue.distinct_toJson a.2

theorem attrsJson_inj {as bs : List (String × AttrValue)} (h : (attrsJson as).toValue = (attrsJson bs).toValue) :
    as = bs := by
  unfold attrsJson at h
  rw [Json.toValue_arr, map_map, map_map] at h
  refine map_injective_iff.mpr (fun a b hab => ?_) h
  have hpair := Json.toValue_arr.mp hab
  rw [map_cons, map_cons, map_cons, map_cons, List.cons.injEq, List.cons.injEq,
    Json.toValue_str] at hpair
  exact Prod.ext hpair.1 (attrValue_toValue_inj hpair.2.1)

theorem distinct_configToJson (c : ConfigSnapshot) : Json.Distinct (configToJson c) := by
  refine .obj (by simp) fun f hf => ?_
  simp only [mem_cons, not_mem_nil, or_false] at hf
  rcases hf with rfl | rfl | rfl | rfl | rfl | rfl
  all_goals first
    | exact .str _
    | exact .int _
    | exact distinct_attrsJson _

theorem config_canonical_inj {c d : ConfigSnapshot}
    (h : Json.canonical (configToJson c) = Json.canonical (configToJson d)) : c = d := by
  have hfields := Json.fields_eq (by simp) (by simp)
    (Json.canonical_inj (distinct_configToJson c) (distinct_configToJson d) h)
  simp only [map_cons, map_nil, List.cons.injEq, Json.toValue_str, Json.toValue_nat, and_true] at hfields
  obtain ⟨h1, h2, h3, h4, hattrs, h6⟩ := hfields
  have hattrs' := attrsJson_inj hattrs
  cases c
  cases d
  simp_all

theorem settled_config (h : Hashes) (hV : V.Admissible) : configTable.Settled h V.configVersions := by
  intro p hp hl q hq hkey
  obtain ⟨c, hc, rfl⟩ := mem_map.mp hp
  obtain ⟨d, hd, rfl⟩ := mem_map.mp hq
  have hread : configTable.readOrder (configTable.row d "") = configTable.order d :=
    lawful_configTable.kept_row (configOf_row (hV.config d hd) "")
  rcases (hl _ hq hkey).lt_or_eq with hlt | heq
  · exact .inl (hread ▸ hlt)
  · have hcanon : configTable.canonical d = configTable.canonical c := by
      have hsnd := (Prod.ext_iff.mp (toLex_inj.mp heq)).2
      exact (Prod.ext_iff.mp (toLex_inj.mp hsnd)).2
    have hdc : d = c := config_canonical_inj hcanon
    exact .inr (by rw [hdc])

/-- Puts of settled versions end with the same tables. -/
theorem orderIndependent_of_settled {h : Hashes} (hV : V.Admissible)
    (hl : licenseTable.Settled h V.licenses) (ha : activityTable.Settled h V.activity) : OrderIndependent h V := by
  have hc := settled_config h hV
  obtain ⟨t, ht⟩ := hV.stores.ends h hV
  refine ⟨t, fun puts hputs => ?_, ht.holdsLicenses.keepsLargest hl, ht.holdsActivity.keepsLargest ha,
    ht.holdsConfig.keepsLargest hc⟩
  obtain ⟨t', ht'⟩ := hputs.ends h hV
  have hlicenses : t'.licenses = t.licenses := ht'.holdsLicenses.ext ht.holdsLicenses hl
  have hactivity : t'.activity = t.activity := ht'.holdsActivity.ext ht.holdsActivity ha
  have hconfig : t'.config = t.config := ht'.holdsConfig.ext ht.holdsConfig hc
  rw [ht'.run]
  cases t
  cases t'
  simp_all

theorem Versions.Admissible.stores_cons (hV : V.Admissible) {p : Put}
    (hl : ∀ v ∈ RecordTable.entries [p.licenseBatch], v ∈ V.licenses)
    (ha : ∀ v ∈ RecordTable.entries [p.activityBatch], v ∈ V.activity)
    (hc : ∀ v ∈ RecordTable.entries [p.configBatch], v ∈ V.configVersions) : Stores (p :: V.puts) V := by
  have hcons : ∀ {α : Type} (batch : Put → List α × String) (vs : List (α × String)),
      (∀ v ∈ RecordTable.entries [batch p], v ∈ vs) →
      (∀ v, v ∈ RecordTable.entries (V.puts.map batch) ↔ v ∈ vs) →
      ∀ v, v ∈ RecordTable.entries ((p :: V.puts).map batch) ↔ v ∈ vs := by
    intro α batch vs hp hputs v
    have hsplit : RecordTable.entries ((p :: V.puts).map batch) =
        RecordTable.entries [batch p] ++ RecordTable.entries (V.puts.map batch) := by
      simp [RecordTable.entries]
    rw [hsplit, mem_append, hputs]
    exact ⟨fun hv => hv.elim (hp v) id, .inr⟩
  exact ⟨hcons _ _ hl hV.stores.licenses, hcons _ _ ha hV.stores.activity, hcons _ _ hc hV.stores.config⟩

/-- Versions of which any can come first are settled. -/
theorem settled_of_orderIndependent {h : Hashes} (hV : V.Admissible) (hind : OrderIndependent h V) :
    licenseTable.Settled h V.licenses ∧ activityTable.Settled h V.activity := by
  obtain ⟨t, hall, hl, ha, -⟩ := hind
  have hfirst : ∀ {p : Put}, Stores (p :: V.puts) V → ∃ t', t' = t ∧ Ends h V (p :: V.puts) t' := by
    intro p hp
    obtain ⟨t', ht'⟩ := hp.ends h hV
    exact ⟨t', Option.some.inj (ht'.run.symm.trans (hall _ hp)), ht'⟩
  constructor
  · refine settled_of_first lawful_licenseTable (storable_licenses hV) fun q hq => ?_
    obtain ⟨hlb, hab, hcb⟩ := batches_licensePut (hV.licenses q hq).2
    have hstores : Stores (licensePut q :: V.puts) V := by
      refine hV.stores_cons ?_ ?_ ?_
      · simpa [RecordTable.entries, hlb] using hq
      · simp [RecordTable.entries, hab]
      · simp [RecordTable.entries, hcb]
    obtain ⟨t', rfl, ht'⟩ := hfirst hstores
    have hrun := ht'.licenses
    rw [map_cons, hlb] at hrun
    exact ⟨_, _, hV.stores.licenses, hrun, hl⟩
  · refine settled_of_first lawful_activityTable (storable_activity hV) fun q hq => ?_
    obtain ⟨hlb, hab, hcb⟩ := batches_activityPut (hV.activity q hq).2.2
    have hstores : Stores (activityPut q :: V.puts) V := by
      refine hV.stores_cons ?_ ?_ ?_
      · simp [RecordTable.entries, hlb]
      · simpa [RecordTable.entries, hab] using hq
      · simp [RecordTable.entries, hcb]
    obtain ⟨t', rfl, ht'⟩ := hfirst hstores
    have hrun := ht'.activity
    rw [map_cons, hab] at hrun
    exact ⟨_, _, hV.stores.activity, hrun, ha⟩

def plainHashes : Hashes := ⟨id, fun key value => key ++ value, id⟩

def idleDay : ActivityDay :=
  { dateUtc := "2026-09-01", product := "github_copilot", principal := "p_0123456789abcdef0123", team := none
    costCenter := none, reportedCostNano := none, counts := [], flags := [] }

def oneDay : Versions := { activity := [(idleDay, "k1")] }

def dayUnderTwoKeys : Versions := { activity := [(idleDay, "k1"), (idleDay, "k2")] }

end TokenBill.Copilot.Seats
