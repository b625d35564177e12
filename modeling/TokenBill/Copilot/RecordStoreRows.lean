import TokenBill.Copilot.RecordStore
import TokenBill.Core.EncodeInj
import TokenBill.General.KeepLargest

/-!
# The rows of the Copilot record store

A stored row is read back as its record, but for an empty organisation, which is read back as none:
that is canonically larger. So a row never reads back below its record, and what upserts store under
a record key is what keeping the largest version stores (`Lawful.upserts_holds`).
-/

namespace TokenBill.Copilot.Seats

open General List
open Json (nat ofBool? ofInt? ofStr?)

/-! ### Reading rows back -/

variable {β : Type}

/-- A function that reads back what another writes reads back lists. -/
theorem mapM_map_some {α γ : Type} {read : β → Option γ} {write : α → β} {f : α → γ} {l : List α}
    (h : ∀ a ∈ l, read (write a) = some (f a)) : (l.map write).mapM read = some (l.map f) := by
  induction l with
  | nil => rfl
  | cons a l ih =>
    rw [map_cons, mapM_cons, h a mem_cons_self, ih fun b hb => h b (mem_cons_of_mem _ hb)]
    rfl

theorem mapM_map_self {α : Type} {read : β → Option α} {write : α → β} {l : List α}
    (h : ∀ a ∈ l, read (write a) = some a) : (l.map write).mapM read = some l := by
  rw [mapM_map_some h, map_id']

/-- A stored list of pairs is read back. -/
theorem pairsOf_canonical {n : β → String} {v : β → Json} (hdistinct : ∀ b, (v b).Distinct)
    (l : List β) : pairsOf (Json.canonical (.arr (l.map fun b => .arr [.str (n b), v b]))) =
      some (l.map fun b => (n b, (v b).toValue)) := by
  have hd : Json.Distinct (.arr (l.map fun b => .arr [.str (n b), v b])) := by
    refine .arr (forall_mem_map.mpr fun b _ => .arr fun v hv => ?_)
    rcases mem_pair.mp hv with rfl | rfl
    · exact .str _
    · exact hdistinct b
  have hread := JsonText.loads_render hd.sorted
  rw [Json.render_toValue, Json.toValue, Json.toValues_eq, map_map] at hread
  unfold pairsOf Json.canonical
  rw [String.toList_ofList, hread]
  exact mapM_map_some fun b _ => rfl

theorem AttrValue.distinct_toJson (v : AttrValue) : Json.Distinct v.toJson := by
  cases v with
  | str s => exact .str s
  | int n => exact .int n
  | bool b => exact .bool b
  | null => exact .null

/-- The counts of an activity day are read back. -/
theorem countsOf_canonical (counts : List (String × Nat)) :
    (pairsOf (Json.canonical (countsJson counts))).bind (·.mapM countOf) = some counts := by
  unfold countsJson
  rw [pairsOf_canonical (n := Prod.fst) (v := fun c => nat c.2) fun c => .int c.2, Option.bind_some]
  exact mapM_map_self fun c _ => rfl

theorem attrsOf_canonical (attrs : List (String × AttrValue)) :
    (pairsOf (Json.canonical (attrsJson attrs))).bind (·.mapM attrOf) = some attrs := by
  unfold attrsJson
  rw [pairsOf_canonical (n := Prod.fst) (v := fun a => a.2.toJson) fun a => AttrValue.distinct_toJson a.2,
    Option.bind_some]
  refine mapM_map_self fun a _ => ?_
  obtain ⟨k, v⟩ := a
  cases v <;> rfl

/-- The flags of an activity day are read back. -/
theorem flagsOf_intercalate {flags : List String} (h : ∀ f ∈ flags, f ≠ "" ∧ ',' ∉ f.toList) :
    (((",".intercalate flags).toList.splitOn ',').map String.ofList).filter (fun f => decide (f ≠ "")) = flags := by
  rcases eq_or_ne flags [] with rfl | hne
  · decide
  have hsplit : (",".intercalate flags).toList.splitOn ',' = flags.map String.toList := by
    rw [String.toList_intercalate]
    refine splitOn_intercalate ',' (forall_mem_map.mpr fun f hf => (h f hf).2) ?_
    simpa using hne
  have hback : (flags.map String.toList).map String.ofList = flags := by simp
  rw [hsplit, hback]
  exact filter_eq_self.mpr fun f hf => decide_eq_true (h f hf).1

theorem activityOf_row {a : ActivityDay} (ha : a.Valid) (kid : String) : activityOf (activityRow a kid) = some a := by
  have hflags : ∀ f ∈ a.flags, f ≠ "" ∧ ',' ∉ f.toList := by
    have hall : ∀ f ∈ activityFlags, f ≠ "" ∧ ',' ∉ f.toList := by decide
    intro f hf
    simp only [ActivityDay.Valid, Bool.and_eq_true, all_eq_true, decide_eq_true_eq] at ha
    exact hall f (ha.1.2 f hf)
  unfold activityOf activityRow
  rw [countsOf_canonical, flagsOf_intercalate hflags]
  exact if_pos ha

theorem configOf_row {c : ConfigSnapshot} (hc : validConfig c) (kid : String) :
    configOf (configRow c kid) = some c := by
  unfold configOf configRow
  rw [attrsOf_canonical]
  exact if_pos hc

/-- What a seat is read back as: an empty organisation is none. -/
def readBack (l : LicenseSnapshot) : LicenseSnapshot := { l with org := l.org.filter (· ≠ "") }

theorem licenseOf_row {l : LicenseSnapshot} (hl : l.Valid) (kid : String) :
    licenseOf (licenseRow l kid) = some (readBack l) := by
  have hteam : ((l.assignedViaTeam.map Bool.toNat).map fun n => decide (n ≠ 0)) = l.assignedViaTeam := by
    cases l.assignedViaTeam with
    | none => rfl
    | some b => cases b <;> rfl
  have horg : (if l.org.getD "" = "" then none else some (l.org.getD "")) = l.org.filter (· ≠ "") := by
    cases l.org with
    | none => rfl
    | some org => by_cases h : org = "" <;> simp [h, Option.filter]
  unfold licenseOf licenseRow
  rw [hteam, horg]
  exact if_pos hl

theorem canonical_readBack (l : LicenseSnapshot) :
    Json.canonical l.toJson ≤ Json.canonical (readBack l).toJson := by
  by_cases h : l.org = some ""
  · obtain ⟨P, Q, hrender⟩ := Json.render_hole
      [("snapshot_date", .str l.snapshotDate), ("product", .str l.product), ("plan", .str l.plan),
        ("principal", .str l.principal), ("team", ofStr? l.team), ("cost_center", ofStr? l.costCenter)]
      [("seat_created", ofStr? l.seatCreated), ("pending_cancellation", ofStr? l.pendingCancellation),
        ("last_activity_bucket", .str l.lastActivityBucket), ("last_activity_surface", ofStr? l.lastActivitySurface),
        ("last_authenticated_bucket", .str l.lastAuthenticatedBucket),
        ("assigned_via_team", ofBool? l.assignedViaTeam), ("fetched_ms", nat l.fetchedMs),
        ("source_kind", .str l.sourceKind)] "org"
    have hl : Json.render l.toJson = P ++ Json.render (.str "") ++ Q := by
      rw [← hrender]
      unfold LicenseSnapshot.toJson
      rw [h]
      rfl
    have hr : Json.render (readBack l).toJson = P ++ Json.render .null ++ Q := by
      rw [← hrender]
      unfold LicenseSnapshot.toJson readBack
      rw [h]
      rfl
    unfold Json.canonical
    rw [hl, hr]
    refine le_of_lt (String.lt_iff_toList_lt.mpr ?_)
    rw [String.toList_ofList, String.toList_ofList, append_assoc, append_assoc]
    refine append_left_lt (cons_lt_cons_iff.mpr (.inl ?_))
    decide
  · have heq : readBack l = l := by
      unfold readBack
      cases horg : l.org with
      | none => rw [Option.filter_none, ← horg]
      | some org =>
        have hne : org ≠ "" := fun he => h (by rw [horg, he])
        rw [Option.filter_some, if_pos (by simpa using hne), ← horg]
    rw [heq]

/-! ### Tables that keep the largest version -/

namespace RecordTable

variable {α ρ : Type} (T : RecordTable α ρ)

/-- The versions of a table: records with the key id they are stored under. -/
def keeping : Keeping (α × String) ρ (Nat ×ₗ Nat ×ₗ String) where
  order v := T.order v.1
  row v := T.row v.1 v.2
  kept row := toLex (sourceRank (T.rowSourceKind row),
    toLex (T.rowFetchedMs row, ((T.record row).map T.canonical).getD ""))

/-- A row has the source and the fetch of its record, and is read back as a record that is canonically no smaller. -/
structure Lawful (valid : α → Prop) : Prop where
  sourceKind : ∀ r kid, T.rowSourceKind (T.row r kid) = T.sourceKind r
  fetchedMs : ∀ r kid, T.rowFetchedMs (T.row r kid) = T.fetchedMs r
  readBack : ∀ r kid, valid r → ∃ o, T.record (T.row r kid) = some o ∧ T.canonical r ≤ T.canonical o

/-- The rows of a table are rows of valid records. -/
structure Good (valid : α → Prop) (table : List (String × ρ)) : Prop where
  sorted : SortedKeys table
  rows : ∀ e ∈ table, ∃ r kid, valid r ∧ e.2 = T.row r kid

variable {T} {valid : α → Prop} (hT : T.Lawful valid)

theorem lex_lt_iff {a a' b b' : Nat} {c c' : String} :
    (toLex (a, toLex (b, c)) : Nat ×ₗ Nat ×ₗ String) < toLex (a', toLex (b', c')) ↔
      (toLex (a, b) : Nat ×ₗ Nat) < toLex (a', b') ∨ (toLex (a, b) : Nat ×ₗ Nat) = toLex (a', b') ∧ c < c' := by
  simp only [Prod.Lex.toLex_lt_toLex, toLex_inj, Prod.mk.injEq]
  constructor
  · rintro (h | ⟨h, h' | ⟨h', h''⟩⟩)
    · exact .inl (.inl h)
    · exact .inl (.inr ⟨h, h'⟩)
    · exact .inr ⟨⟨h, h'⟩, h''⟩
  · rintro ((h | ⟨h, h'⟩) | ⟨⟨h, h'⟩, h''⟩)
    · exact .inl h
    · exact .inr ⟨h, .inl h'⟩
    · exact .inr ⟨h, .inr ⟨h', h''⟩⟩

include hT

variable {v : α × String} {table : List (String × ρ)} {batches : List (List α × String)} {vs : List (α × String)}

/-- A row does not read back below its record. -/
theorem Lawful.order_le (hv : valid v.1) : T.keeping.order v ≤ T.keeping.kept (T.keeping.row v) := by
  obtain ⟨o, ho, hle⟩ := hT.readBack v.1 v.2 hv
  unfold keeping order
  dsimp only
  rw [hT.sourceKind, hT.fetchedMs, ho]
  refine not_lt.mp fun hlt => ?_
  rcases lex_lt_iff.mp hlt with h | ⟨-, h⟩
  · exact lt_irrefl _ h
  · exact not_lt.mpr hle h

/-- What a row reads back as. -/
theorem Lawful.kept_row {r o : α} {kid : String} (ho : T.record (T.row r kid) = some o) :
    T.keeping.kept (T.row r kid) =
      toLex (sourceRank (T.sourceKind r), toLex (T.fetchedMs r, T.canonical o)) := by
  unfold keeping
  dsimp only
  rw [hT.sourceKind, hT.fetchedMs, ho]
  rfl

/-- A record is written over a row that reads back below it. -/
theorem Lawful.writes_row {r : α} (hr : valid r) (kid : String) (rec : α) :
    T.writes (some (T.row r kid)) rec = some (decide (T.keeping.kept (T.row r kid) < T.order rec)) := by
  obtain ⟨o, ho, -⟩ := hT.readBack r kid hr
  simp only [hT.kept_row ho, order, lex_lt_iff]
  unfold writes
  simp only [hT.sourceKind, hT.fetchedMs, ho, Option.map_some]
  rcases lt_trichotomy (toLex (sourceRank (T.sourceKind rec), T.fetchedMs rec) : Nat ×ₗ Nat)
    (toLex (sourceRank (T.sourceKind r), T.fetchedMs r)) with h | h | h
  · rw [if_pos h]
    simp [lt_asymm h, ne_of_gt h]
  · rw [if_neg h.not_lt, if_pos h, ← decide_not]
    refine congrArg some (decide_eq_decide.mpr ?_)
    rw [not_le]
    exact ⟨fun hlt => .inr ⟨h.symm, hlt⟩, fun hlt => (hlt.resolve_left h.symm.not_lt).2⟩
  · rw [if_neg (lt_asymm h), if_neg (ne_of_gt h)]
    simp [h]

/-- A key of a table after one record. -/
theorem Lawful.upsertOne_spec (hgood : T.Good valid table) (kid : String) {e : String × α}
    (he : valid e.2) (hs : T.storable e.2 = true) :
    ∃ table', T.upsertOne kid table e = some table' ∧ T.Good valid table' ∧
      ∀ k, table'.lookup k = if k = e.1 then T.keeping.put (table.lookup e.1) (e.2, kid) else table.lookup k := by
  have hwrite : T.Good valid (insertKey e.1 (T.row e.2 kid) table) := by
    refine ⟨hgood.sorted.insertKey _ _, fun f hf => ?_⟩
    rcases mem_insertKey hf with rfl | hf
    · exact ⟨e.2, kid, he, rfl⟩
    · exact hgood.rows f hf
  unfold upsertOne
  cases hrow : table.lookup e.1 with
  | none =>
    refine ⟨insertKey e.1 (T.row e.2 kid) table, if_pos hs, hwrite, fun k => ?_⟩
    rw [lookup_insertKey]
    rfl
  | some row =>
    obtain ⟨r, kid', hr, hrow'⟩ := hgood.rows _ (mem_of_lookup hrow)
    dsimp only at hrow'
    rw [hrow', hT.writes_row hr]
    by_cases hlt : T.keeping.kept (T.row r kid') < T.order e.2
    · refine ⟨insertKey e.1 (T.row e.2 kid) table, ?_, hwrite, fun k => ?_⟩
      · rw [decide_eq_true hlt]
        exact if_pos hs
      · have hput : T.keeping.put (some (T.row r kid')) (e.2, kid) = some (T.row e.2 kid) := if_pos hlt
        rw [lookup_insertKey, hput]
    · refine ⟨table, ?_, hgood, fun k => ?_⟩
      · rw [decide_eq_false hlt]
      · have hput : T.keeping.put (some (T.row r kid')) (e.2, kid) = some (T.row r kid') := if_neg hlt
        rw [hput]
        by_cases hk : k = e.1
        · rw [if_pos hk, hk, hrow, hrow']
        · rw [if_neg hk]

/-- The keys of a table after one record each. -/
theorem Lawful.foldlM_upsertOne (kid : String) {es : List (String × α)} (hkeys : (es.map (·.1)).Nodup)
    (hes : ∀ e ∈ es, valid e.2 ∧ T.storable e.2 = true) (hgood : T.Good valid table) :
    ∃ table', es.foldlM (T.upsertOne kid) table = some table' ∧ T.Good valid table' ∧
      ∀ k, table'.lookup k =
        match es.lookup k with
        | none => table.lookup k
        | some r => T.keeping.put (table.lookup k) (r, kid) := by
  induction es generalizing table with
  | nil => exact ⟨table, rfl, hgood, fun k => rfl⟩
  | cons e es ih =>
    obtain ⟨hnot, hkeys⟩ := nodup_cons.mp hkeys
    obtain ⟨he, hes⟩ := forall_mem_cons.mp hes
    obtain ⟨table₁, hone, hgood₁, hlookup₁⟩ := hT.upsertOne_spec hgood kid he.1 he.2
    obtain ⟨table₂, hrest, hgood₂, hlookup₂⟩ := ih hkeys hes hgood₁
    refine ⟨table₂, ?_, hgood₂, fun k => ?_⟩
    · rw [foldlM_cons, hone]
      exact hrest
    · rw [hlookup₂, hlookup₁, lookup_cons]
      by_cases hk : k = e.1
      · have hnone : es.lookup e.1 = none := lookup_eq_none_iff.mpr fun f hf =>
          bne_iff_ne.mpr fun he => hnot (mem_map.mpr ⟨f, hf, he.symm⟩)
        rw [hk, hnone, beq_self_eq_true, if_pos rfl]
      · rw [beq_false_of_ne hk, if_neg hk]

omit hT in
/-- The largest version of a key is that of the records of the key. -/
theorem lookup_best (h : Hashes) (recs : List α) (kid : String) (k : String) :
    ((T.best h recs).lookup k).map (·, kid) =
      T.keeping.best ((recs.filter fun r => decide (T.recKey h r = k)).map (·, kid)) := by
  have hfold : ∀ (l : List α) (cur : Option α),
      (l.foldl (fun held r => some (T.larger held r)) cur).map (·, kid) =
        (l.map (·, kid)).foldl (fun held v => some (T.keeping.larger held v)) (cur.map (·, kid)) := by
    intro l
    induction l with
    | nil => exact fun _ => rfl
    | cons r l ih =>
      intro cur
      rw [foldl_cons, map_cons, foldl_cons, ih]
      congr 1
      cases cur with
      | none => rfl
      | some b =>
        unfold larger Keeping.larger keeping
        dsimp only [Option.map_some]
        split <;> rfl
  unfold best
  rw [lookup_collect, hfold]
  rfl

omit hT in
theorem nodup_best (h : Hashes) (recs : List α) : ((T.best h recs).map (·.1)).Nodup := nodup_collect _ _ _

/-- An upsert keeps the largest version under each key. -/
theorem Lawful.upsert_spec (h : Hashes) (hgood : T.Good valid table) {recs : List α}
    (hrecs : ∀ r ∈ recs, valid r ∧ T.storable r = true) (kid : String) :
    ∃ table', T.upsert h table recs kid = some table' ∧ T.Good valid table' ∧
      ∀ k, table'.lookup k = T.keeping.step (table.lookup k)
        ((recs.filter fun r => decide (T.recKey h r = k)).map (·, kid)) := by
  have hes : ∀ e ∈ T.best h recs, valid e.2 ∧ T.storable e.2 = true := by
    intro e he
    have hlookup : (T.best h recs).lookup e.1 = some e.2 := lookup_of_mem (nodup_best h recs) he
    have hbest := lookup_best (T := T) h recs kid e.1
    rw [hlookup] at hbest
    have hne : ((recs.filter fun r => decide (T.recKey h r = e.1)).map (·, kid)) ≠ [] := by
      intro hnil
      rw [hnil] at hbest
      exact absurd hbest (Option.some_ne_none _)
    obtain ⟨b, hb, hmem, -⟩ := T.keeping.exists_best hne
    rw [hb] at hbest
    obtain ⟨r, hr, hrb⟩ := mem_map.mp hmem
    have her : e.2 = r := congrArg Prod.fst ((Option.some.inj hbest).trans hrb.symm)
    exact her ▸ hrecs r (mem_filter.mp hr).1
  obtain ⟨table', hfold, hgood', hlookup⟩ := hT.foldlM_upsertOne kid (nodup_best h recs) hes hgood
  refine ⟨table', hfold, hgood', fun k => ?_⟩
  rw [hlookup k]
  unfold Keeping.step
  rw [← lookup_best]
  cases (T.best h recs).lookup k <;> rfl

omit hT in
def versionsOf (T : RecordTable α ρ) (h : Hashes) (k : String) (batch : List α × String) : List (α × String) :=
  (batch.1.filter fun r => decide (T.recKey h r = k)).map (·, batch.2)

theorem Lawful.upserts_spec (h : Hashes) (hbatches : ∀ b ∈ batches, ∀ r ∈ b.1, valid r ∧ T.storable r = true)
    (hgood : T.Good valid table) :
    ∃ table', batches.foldlM (fun table b => T.upsert h table b.1 b.2) table = some table' ∧ T.Good valid table' ∧
      ∀ k, table'.lookup k = (batches.map (T.versionsOf h k)).foldl T.keeping.step (table.lookup k) := by
  induction batches generalizing table with
  | nil => exact ⟨table, rfl, hgood, fun k => rfl⟩
  | cons b batches ih =>
    obtain ⟨hb, hbatches⟩ := forall_mem_cons.mp hbatches
    obtain ⟨table₁, hone, hgood₁, hlookup₁⟩ := hT.upsert_spec h hgood hb b.2
    obtain ⟨table₂, hrest, hgood₂, hlookup₂⟩ := ih hbatches hgood₁
    refine ⟨table₂, ?_, hgood₂, fun k => ?_⟩
    · rw [foldlM_cons, hone]
      exact hrest
    · rw [hlookup₂, hlookup₁]
      rfl

omit hT in
/-- The records of some batches, each with the key id it is stored under. -/
def entries (batches : List (List α × String)) : List (α × String) := batches.flatMap fun b => b.1.map (·, b.2)

omit hT in
theorem mem_versionsOf {h : Hashes} {k : String} :
    (∃ b ∈ batches.map (T.versionsOf h k), v ∈ b) ↔ v ∈ entries batches ∧ T.recKey h v.1 = k := by
  simp only [entries, versionsOf, mem_map, mem_flatMap, mem_filter, decide_eq_true_eq,
    exists_exists_and_eq_and]
  constructor
  · rintro ⟨b, hb, r, ⟨hr, hk⟩, rfl⟩
    exact ⟨⟨b, hb, r, hr, rfl⟩, hk⟩
  · rintro ⟨⟨b, hb, r, hr, rfl⟩, hk⟩
    exact ⟨b, hb, r, ⟨hr, hk⟩, rfl⟩

/-- Some versions whose records are valid and can be stored. -/
def Storable (T : RecordTable α ρ) (valid : α → Prop) (vs : List (α × String)) : Prop :=
  ∀ v ∈ vs, valid v.1 ∧ T.storable v.1 = true

def ofRecKey (T : RecordTable α ρ) (h : Hashes) (k : String) (vs : List (α × String)) : List (α × String) :=
  vs.filter fun v => decide (T.recKey h v.1 = k)

omit hT in
theorem mem_ofRecKey {h : Hashes} {k : String} : v ∈ T.ofRecKey h k vs ↔ v ∈ vs ∧ T.recKey h v.1 = k := by
  unfold ofRecKey
  rw [mem_filter, decide_eq_true_eq]

/-- What batches of some versions store. -/
structure Holds (T : RecordTable α ρ) (valid : α → Prop) (h : Hashes) (vs : List (α × String))
    (table : List (String × ρ)) : Prop where
  good : T.Good valid table
  /-- The version the others yield to is stored. -/
  largest : ∀ p ∈ vs, T.keeping.Yields (T.ofRecKey h (T.recKey h p.1) vs) p →
    table.lookup (T.recKey h p.1) = some (T.row p.1 p.2)
  /-- A row is of a version of its key. -/
  row : ∀ k row, table.lookup k = some row → ∃ p ∈ vs, T.recKey h p.1 = k ∧ row = T.row p.1 p.2

theorem Lawful.upserts_holds (h : Hashes) (hvs : T.Storable valid vs) (hbatches : ∀ v, v ∈ entries batches ↔ v ∈ vs) :
    ∃ table, batches.foldlM (fun table b => T.upsert h table b.1 b.2) [] = some table ∧ T.Holds valid h vs table := by
  have hrecs : ∀ b ∈ batches, ∀ r ∈ b.1, valid r ∧ T.storable r = true := fun b hb r hr =>
    hvs (r, b.2) ((hbatches _).mp (mem_flatMap.mpr ⟨b, hb, mem_map.mpr ⟨r, hr, rfl⟩⟩))
  have hnil : T.Good valid [] := ⟨SortedKeys.nil, fun e he => absurd he not_mem_nil⟩
  obtain ⟨table, hrun, hgood, hlookup⟩ := hT.upserts_spec h hrecs hnil
  have hmem : ∀ {k : String} {v : α × String},
      (∃ b ∈ batches.map (T.versionsOf h k), v ∈ b) ↔ v ∈ T.ofRecKey h k vs := fun {k v} => by
    rw [mem_versionsOf, hbatches, mem_ofRecKey]
  refine ⟨table, hrun, hgood, fun p hp hy => ?_, fun k row hk => ?_⟩
  · rw [hlookup]
    refine T.keeping.run_largest
      (fun v hv => hT.order_le (hvs v (mem_ofRecKey.mp hv).1).1) hy (fun b hb v hv => hmem.mp ⟨b, hb, hv⟩) ?_
    exact hmem.mpr (mem_ofRecKey.mpr ⟨hp, rfl⟩)
  · rw [hlookup] at hk
    obtain ⟨v, hv, rfl⟩ := T.keeping.run_of_row
      (fun b hb v hv => hmem.mp ⟨b, hb, hv⟩) hk
    exact ⟨v, (mem_ofRecKey.mp hv).1, (mem_ofRecKey.mp hv).2, rfl⟩

/-- A version that comes first stays if no other of its key is above what its row is read back as. -/
theorem Lawful.upserts_first (h : Hashes) (hvs : T.Storable valid vs)
    (hbatches : ∀ v, v ∈ entries batches ↔ v ∈ vs) {q : α × String} (hq : q ∈ vs)
    (hle : ∀ v ∈ vs, T.recKey h v.1 = T.recKey h q.1 → T.order v.1 ≤ T.keeping.kept (T.row q.1 q.2))
    (hrun : (([q.1], q.2) :: batches).foldlM (fun table b => T.upsert h table b.1 b.2) [] = some table) :
    table.lookup (T.recKey h q.1) = some (T.row q.1 q.2) := by
  have hrecs : ∀ b ∈ (([q.1], q.2) :: batches), ∀ r ∈ b.1, valid r ∧ T.storable r = true := by
    intro b hb r hr
    rcases mem_cons.mp hb with rfl | hb
    · rw [mem_singleton.mp hr]
      exact hvs q hq
    · exact hvs (r, b.2) ((hbatches _).mp (mem_flatMap.mpr ⟨b, hb, mem_map.mpr ⟨r, hr, rfl⟩⟩))
  have hnil : T.Good valid [] := ⟨SortedKeys.nil, fun e he => absurd he not_mem_nil⟩
  obtain ⟨table', hrun', -, hlookup⟩ := hT.upserts_spec h hrecs hnil
  obtain rfl := Option.some.inj (hrun.symm.trans hrun')
  have hhead : T.versionsOf h (T.recKey h q.1) ([q.1], q.2) = [q] := by
    unfold versionsOf
    rw [filter_singleton, decide_eq_true rfl]
    rfl
  rw [hlookup, map_cons, hhead]
  refine T.keeping.run_first fun b hb v hv => ?_
  obtain ⟨hmem, hkey⟩ := mem_versionsOf.mp ⟨b, hb, hv⟩
  exact hle v ((hbatches v).mp hmem) hkey

omit hT in
theorem exists_largest (T : RecordTable α ρ) (h : Hashes) (hv : v ∈ vs) :
    ∃ p ∈ T.ofRecKey h (T.recKey h v.1) vs, ∀ q ∈ T.ofRecKey h (T.recKey h v.1) vs, T.order q.1 ≤ T.order p.1 := by
  obtain ⟨p, -, hp, hle⟩ := T.keeping.exists_best (ne_nil_of_mem (mem_ofRecKey.mpr ⟨hv, rfl⟩))
  exact ⟨p, hp, hle⟩

end RecordTable

/-! ### The three tables -/

theorem lawful_licenseTable : licenseTable.Lawful fun l => l.Valid = true where
  sourceKind _ _ := rfl
  fetchedMs _ _ := rfl
  readBack l kid hl := ⟨readBack l, licenseOf_row hl kid, canonical_readBack l⟩

theorem lawful_activityTable : activityTable.Lawful fun a => a.Valid = true where
  sourceKind _ _ := rfl
  fetchedMs _ _ := rfl
  readBack a kid ha := ⟨a, activityOf_row ha kid, le_refl _⟩

theorem lawful_configTable : configTable.Lawful fun c => validConfig c = true where
  sourceKind _ _ := rfl
  fetchedMs _ _ := rfl
  readBack c kid hc := ⟨c, configOf_row hc kid, le_refl _⟩

end TokenBill.Copilot.Seats
