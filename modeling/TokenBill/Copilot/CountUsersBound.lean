import TokenBill.Copilot.CountUsers
import Mathlib.Algebra.Order.BigOperators.Group.Finset

/-!
# The count of people is a lower bound

Every stored seat or activity day is of one person, and no person has two principals under one key
id, so no key id has more principals than people. A count row tells of some people, and the count
rows of one snapshot of an entity tell of disjoint ones, so their sum is a number of people. Count
rows of two snapshots of one day are added up all the same; `count_users_le_people` is about the
queries that add up none.
-/

namespace TokenBill.Copilot.Seats

open General List

/-! ### Largest counts -/

theorem maxOf_le {counts : List Nat} {bound : Nat} (h : ∀ n ∈ counts, n ≤ bound) : maxOf counts ≤ bound := by
  have hfold : ∀ (l : List Nat) (m : Nat), m ≤ bound → (∀ n ∈ l, n ≤ bound) → l.foldl max m ≤ bound := by
    intro l
    induction l with
    | nil => exact fun m hm _ => hm
    | cons n l ih =>
      intro m hm hl
      obtain ⟨hn, hl⟩ := forall_mem_cons.mp hl
      exact ih _ (max_le hm hn) hl
  exact hfold counts 0 (Nat.zero_le _) h

section People

variable {P : Type} [DecidableEq P] {who : String → String → P} {behind : ConfigSnapshot → Finset P}

def peopleOf {ρ : Type} (who : String → String → P) (kid principal : ρ → String) (rows : List ρ) : Finset P :=
  (rows.map fun r => who (kid r) (principal r)).toFinset

theorem countPeople_le {ρ : Type} (hwho : ∀ kid, Function.Injective (who kid)) (kid principal : ρ → String)
    (rows : List ρ) : countPeople kid principal rows ≤ (peopleOf who kid principal rows).card := by
  refine maxOf_le (forall_mem_map.mpr fun k _ => ?_)
  rw [← card_toFinset, ← Finset.card_image_of_injective _ (hwho k)]
  refine Finset.card_le_card fun x hx => ?_
  obtain ⟨principal', hp, rfl⟩ := Finset.mem_image.mp hx
  obtain ⟨r, hr, rfl⟩ := mem_map.mp (mem_toFinset.mp hp)
  obtain ⟨hmem, hkid⟩ := mem_filter.mp hr
  rw [← of_decide_eq_true hkid]
  exact mem_toFinset.mpr (mem_map.mpr ⟨r, hmem, rfl⟩)

def toldOf (behind : ConfigSnapshot → Finset P) (rows : List ConfigSnapshot) : Finset P :=
  rows.toFinset.biUnion behind

theorem sum_le_toldOf {rows : List ConfigSnapshot} (hnodup : rows.Nodup)
    (hcounts : ∀ c ∈ rows, nPeople c ≤ (behind c).card)
    (hdisjoint : ∀ c ∈ rows, ∀ d ∈ rows, c ≠ d → Disjoint (behind c) (behind d)) :
    (rows.map nPeople).sum ≤ (toldOf behind rows).card := by
  unfold toldOf
  rw [Finset.card_biUnion fun c hc d hd hne =>
    hdisjoint c (mem_toFinset.mp hc) d (mem_toFinset.mp hd) hne, ← sum_toFinset _ hnodup]
  exact Finset.sum_le_sum fun c hc => hcounts c (mem_toFinset.mp hc)

theorem mem_perSnapshot {rows : List ConfigSnapshot} {e : (String × String) × Nat} (he : e ∈ perSnapshot rows) :
    e.2 = ((rows.filter fun c => decide (snapshotOf c = e.1)).map nPeople).sum := by
  have hfold : ∀ (l : List ConfigSnapshot) (s : Nat),
      l.foldl (fun held c => (some held).getD 0 + nPeople c) s = s + (l.map nPeople).sum := by
    intro l
    induction l with
    | nil => exact fun s => rfl
    | cons c l ih =>
      intro s
      rw [foldl_cons, ih, map_cons, sum_cons, Option.getD_some, Nat.add_assoc]
  obtain ⟨c, rest, hrows, hsum⟩ := mem_collect (k := e.1) (s := e.2) he
  rw [hrows, ← hsum, hfold, map_cons, sum_cons, Option.getD_none, Nat.zero_add]

/-! ### Stored configurations -/

/-- A history of puts: a person has one principal for each key id, a count row counts people it tells of, and the
seat counts of one snapshot of an entity tell of disjoint people. -/
structure History (puts : List Put) (who : String → String → P) (behind : ConfigSnapshot → Finset P) : Prop where
  valid : ∀ p ∈ puts, ∀ c ∈ p.config, validConfig c = true
  onePrincipal : ∀ kid, Function.Injective (who kid)
  counts : ∀ p ∈ puts, ∀ c ∈ p.config, c.kind = "seat_counts" ∨ c.kind = "activity_counts" →
    nPeople c ≤ (behind c).card
  parts : ∀ p ∈ puts, ∀ c ∈ p.config, ∀ q ∈ puts, ∀ d ∈ q.config, c.kind = "seat_counts" → d.kind = "seat_counts" →
    c.entityId = d.entityId → c.snapshotMs = d.snapshotMs → Handoff.configKey c ≠ Handoff.configKey d →
    Disjoint (behind c) (behind d)

end People

variable {h : Hashes} {t : RecordTables} {puts : List Put}

theorem config_of_put {t' : RecordTables} {p : Put} (hput : (put h t p).map (·.1) = some t') :
    configTable.upsert h t.config p.config "" = some t'.config := by
  obtain ⟨r, hr, rfl⟩ := Option.map_eq_some_iff.mp hput
  obtain ⟨⟨l, a, counts⟩, -, hr⟩ := Option.bind_eq_some_iff.mp hr
  obtain ⟨c, hc, hr⟩ := Option.bind_eq_some_iff.mp hr
  rw [hc, ← Option.some.inj hr]

theorem config_of_run {t' : RecordTables} (hrun : puts.foldlM (fun t p => (put h t p).map (·.1)) t = some t') :
    (puts.map fun p => (p.config, "")).foldlM (fun table b => configTable.upsert h table b.1 b.2) t.config =
      some t'.config := by
  induction puts generalizing t with
  | nil => exact congrArg (Option.map RecordTables.config) hrun
  | cons p puts ih =>
    rw [foldlM_cons] at hrun
    obtain ⟨t₁, hput, hrun⟩ := Option.bind_eq_some_iff.mp hrun
    rw [map_cons, foldlM_cons, config_of_put hput]
    exact ih hrun

theorem stored_config (hrun : runPuts h puts = some t) (hvalid : ∀ p ∈ puts, ∀ c ∈ p.config, validConfig c = true) :
    (t.config.map (·.1)).Nodup ∧ ∀ e ∈ t.config, ∃ p ∈ puts, ∃ c ∈ p.config,
      configTable.recKey h c = e.1 ∧ configOf e.2 = some c := by
  have hmem : ∀ v, v ∈ RecordTable.entries (puts.map fun p => (p.config, "")) → ∃ p ∈ puts, ∃ c ∈ p.config, v = (c, "") := by
    intro v hv
    obtain ⟨b, hb, hv⟩ := mem_flatMap.mp hv
    obtain ⟨p, hp, rfl⟩ := mem_map.mp hb
    obtain ⟨c, hc, rfl⟩ := mem_map.mp hv
    exact ⟨p, hp, c, hc, rfl⟩
  have hstorable : configTable.Storable (fun c => validConfig c = true)
      (RecordTable.entries (puts.map fun p => (p.config, ""))) := by
    intro v hv
    obtain ⟨p, hp, c, hc, rfl⟩ := hmem v hv
    exact ⟨hvalid p hp c hc, rfl⟩
  obtain ⟨table, htable, hholds⟩ := lawful_configTable.upserts_holds h hstorable fun v => Iff.rfl
  have htc : table = t.config := Option.some.inj (htable.symm.trans (config_of_run hrun))
  rw [htc] at hholds
  refine ⟨hholds.good.sorted.nodup, fun e he => ?_⟩
  obtain ⟨v, hv, hkey, hrow⟩ := hholds.row e.1 e.2 (lookup_of_mem hholds.good.sorted.nodup he)
  obtain ⟨p, hp, c, hc, rfl⟩ := hmem v hv
  exact ⟨p, hp, c, hc, hkey, hrow ▸ configOf_row (hvalid p hp c hc) ""⟩

/-- Rows that are read back are read back under their keys. -/
theorem mapM_configOf {P : ConfigSnapshot → Prop} {l : List (String × ConfigRow)}
    (hl : ∀ e ∈ l, ∃ c, P c ∧ configTable.recKey h c = e.1 ∧ configOf e.2 = some c) :
    ∃ cs, (l.map (·.2)).mapM configOf = some cs ∧ cs.map (configTable.recKey h) = l.map (·.1) ∧ ∀ c ∈ cs, P c := by
  induction l with
  | nil => exact ⟨[], rfl, rfl, fun c hc => absurd hc not_mem_nil⟩
  | cons e l ih =>
    obtain ⟨⟨c, hc, hkey, hread⟩, hl⟩ := forall_mem_cons.mp hl
    obtain ⟨cs, hcs, hkeys, hall⟩ := ih hl
    refine ⟨c :: cs, ?_, ?_, forall_mem_cons.mpr ⟨hc, hall⟩⟩
    · rw [map_cons, mapM_cons, hread, hcs]
      rfl
    · rw [map_cons, map_cons, hkey, hkeys]

/-- The configurations of a window have distinct keys and came in puts. -/
theorem configRows_spec (hrun : runPuts h puts = some t)
    (hvalid : ∀ p ∈ puts, ∀ c ∈ p.config, validConfig c = true) (lo hi : Int) :
    ∃ cs, configRows t lo hi = some cs ∧ (cs.map (configTable.recKey h)).Nodup ∧ ∀ c ∈ cs, ∃ p ∈ puts, c ∈ p.config := by
  obtain ⟨hnodup, hstored⟩ := stored_config hrun hvalid
  unfold configRows
  split
  · exact ⟨[], rfl, nodup_nil, fun c hc => absurd hc not_mem_nil⟩
  dsimp only
  rw [filter_map]
  obtain ⟨cs, hcs, hkeys, hall⟩ := mapM_configOf (h := h) (P := fun c => ∃ p ∈ puts, c ∈ p.config)
    (l := t.config.filter ((fun r => decide (max lo (-(2 ^ 63)) ≤ r.snapshotMs ∧
      (r.snapshotMs : Int) < min hi (2 ^ 63 - 1))) ∘ Prod.snd)) fun e he => by
    obtain ⟨p, hp, c, hc, hkey, hread⟩ := hstored e (mem_filter.mp he).1
    exact ⟨c, ⟨p, hp, hc⟩, hkey, hread⟩
  rw [hcs]
  refine ⟨_, rfl, ?_, fun c hc => hall c ((perm_insertionSort _ _).mem_iff.mp hc)⟩
  rw [((perm_insertionSort _ cs).map _).nodup_iff, hkeys]
  exact hnodup.sublist (filter_sublist.map _)

/-- The count rows of a query have distinct keys and came in puts. -/
theorem summaryRows_spec (hrun : runPuts h puts = some t)
    (hvalid : ∀ p ∈ puts, ∀ c ∈ p.config, validConfig c = true) (kind : String) (lo hi : Int) (clause : Clause) :
    ∃ rows, summaryRows t kind lo hi clause = some rows ∧ (rows.map (configTable.recKey h)).Nodup ∧
      ∀ c ∈ rows, c.kind = kind ∧ ∃ p ∈ puts, c ∈ p.config := by
  obtain ⟨cs, hcs, hnodup, hall⟩ := configRows_spec hrun hvalid lo hi
  unfold summaryRows
  rw [hcs]
  refine ⟨_, rfl, hnodup.sublist (filter_sublist.map _), fun c hc => ?_⟩
  obtain ⟨hmem, hmatch⟩ := mem_filter.mp hc
  rw [Bool.and_eq_true, decide_eq_true_eq] at hmatch
  exact ⟨hmatch.1, hall c hmem⟩

/-! ### The bound -/

section Bound

variable {P : Type} [DecidableEq P] {who : String → String → P} {behind : ConfigSnapshot → Finset P}

/-- The people behind the rows in a window that match a clause. -/
def peopleBehind (who : String → String → P) (behind : ConfigSnapshot → Finset P) (t : RecordTables) (lo hi : Int)
    (clause : Clause) (source : String) : Finset P :=
  match dateRange lo hi with
  | none => ∅
  | some range =>
    if usesSummaries t range source then
      let kind := if source = "licenses" then "seat_counts" else "activity_counts"
      toldOf behind ((summaryRows t kind lo hi clause).getD [])
    else if source = "licenses" then
      peopleOf who LicenseRow.principalKeyId LicenseRow.principal (matchingLicenses t range clause)
    else
      peopleOf who ActivityRow.principalKeyId ActivityRow.principal (matchingActivity t range clause)

/-- Where the seat counts are added up, those of one entity and UTC day that match are of one snapshot. -/
def OneSnapshot (t : RecordTables) (lo hi : Int) (clause : Clause) (source : String) : Prop :=
  source = "licenses" → ∀ range, dateRange lo hi = some range → usesSummaries t range source = true →
    ∀ rows, summaryRows t "seat_counts" lo hi clause = some rows →
    ∀ c ∈ rows, ∀ d ∈ rows, snapshotOf c = snapshotOf d → c.snapshotMs = d.snapshotMs

/-- The sum of the seat counts of a snapshot is a number of people. -/
theorem perSnapshot_le {h : Hashes} {puts : List Put} (hh : History puts who behind) {rows : List ConfigSnapshot}
    (hnodup : (rows.map (configTable.recKey h)).Nodup)
    (hrows : ∀ c ∈ rows, c.kind = "seat_counts" ∧ ∃ p ∈ puts, c ∈ p.config)
    (hone : ∀ c ∈ rows, ∀ d ∈ rows, snapshotOf c = snapshotOf d → c.snapshotMs = d.snapshotMs)
    {e : (String × String) × Nat} (he : e ∈ perSnapshot rows) : e.2 ≤ (toldOf behind rows).card := by
  have hsub : ∀ c ∈ rows.filter fun c => decide (snapshotOf c = e.1), c ∈ rows ∧ snapshotOf c = e.1 := fun c hc => by
    obtain ⟨hmem, hkey⟩ := mem_filter.mp hc
    exact ⟨hmem, of_decide_eq_true hkey⟩
  have hsum : ((rows.filter fun c => decide (snapshotOf c = e.1)).map nPeople).sum ≤
      (toldOf behind (rows.filter fun c => decide (snapshotOf c = e.1))).card := by
    refine sum_le_toldOf (hnodup.of_map.sublist filter_sublist) (fun c hc => ?_) fun c hc d hd hne => ?_
    · obtain ⟨hkind, p, hp, hcp⟩ := hrows c (hsub c hc).1
      exact hh.counts p hp c hcp (.inl hkind)
    · obtain ⟨hcmem, hckey⟩ := hsub c hc
      obtain ⟨hdmem, hdkey⟩ := hsub d hd
      obtain ⟨hckind, p, hp, hcp⟩ := hrows c hcmem
      obtain ⟨hdkind, q, hq, hdq⟩ := hrows d hdmem
      have hsame := hckey.trans hdkey.symm
      refine hh.parts p hp c hcp q hq d hdq hckind hdkind (Prod.ext_iff.mp hsame).1 (hone c hcmem d hdmem hsame) ?_
      intro hkey
      refine hne (inj_on_of_nodup_map hnodup hcmem hdmem ?_)
      exact congrArg (fun k => h.stableId "rk" [k]) hkey
  rw [mem_perSnapshot he]
  refine hsum.trans (Finset.card_le_card (Finset.biUnion_subset_biUnion_of_subset_left behind fun c hc => ?_))
  exact mem_toFinset.mpr (hsub c (mem_toFinset.mp hc)).1

/-- The count of a query is at most the number of people behind the rows that match. -/
theorem countFromSummaries_le {h : Hashes} {puts : List Put} {t : RecordTables} (hrun : runPuts h puts = some t)
    (hh : History puts who behind) {source : String} {clause : Clause} {lo hi : Int} {n : Nat}
    (hone : source = "licenses" → ∀ rows, summaryRows t "seat_counts" lo hi clause = some rows →
      ∀ c ∈ rows, ∀ d ∈ rows, snapshotOf c = snapshotOf d → c.snapshotMs = d.snapshotMs)
    (hn : countFromSummaries t source clause lo hi = .ok n) :
    n ≤ (toldOf behind ((summaryRows t (if source = "licenses" then "seat_counts" else "activity_counts") lo hi
      clause).getD [])).card := by
  unfold countFromSummaries at hn
  split at hn
  · rename_i hsource
    obtain ⟨rows, hrows, hnodup, hall⟩ := summaryRows_spec hrun hh.valid "seat_counts" lo hi clause
    rw [hrows] at hn
    rw [if_pos hsource, hrows, ← Except.ok.inj hn, Option.getD_some]
    refine maxOf_le (forall_mem_map.mpr fun e he => ?_)
    exact perSnapshot_le hh hnodup hall (hone hsource rows hrows) he
  · rename_i hsource
    obtain ⟨rows, hrows, hnodup, hall⟩ := summaryRows_spec hrun hh.valid "activity_counts" lo hi clause
    rw [hrows] at hn
    rw [if_neg hsource, hrows, ← Except.ok.inj hn, Option.getD_some]
    refine maxOf_le (forall_mem_map.mpr fun c hc => ?_)
    obtain ⟨hkind, p, hp, hcp⟩ := hall c hc
    refine (hh.counts p hp c hcp (.inr hkind)).trans (Finset.card_le_card ?_)
    exact Finset.subset_biUnion_of_mem behind (mem_toFinset.mpr hc)

end Bound

/-! ### Two snapshots of one day -/

def lastHashes : Hashes := ⟨fun s => String.ofList s.toList.reverse, fun key value => key ++ value, id⟩

def oneSeat : Put :=
  { ledgerMeta := some [("org_key_id", "k1")], principalKeyId := some "k1"
    licenses := [{ snapshotDate := "1970-01-01", product := "github_copilot", plan := "business"
                   principal := "p_0123456789abcdef0123", team := none, costCenter := none, org := some "acme"
                   seatCreated := none, pendingCancellation := none, lastActivityBucket := "0-7"
                   lastActivitySurface := none, lastAuthenticatedBucket := "unknown", assignedViaTeam := none }] }

def oneSeatTables : RecordTables :=
  { licenses := oneSeat.licenses.map fun l => (licenseTable.recKey lastHashes l, licenseRow l "k1") }

def fiveSeats (snapshotMs : Nat) (bucket : String) : ConfigSnapshot :=
  { snapshotMs, sourceKind := "tokenbill.copilot_export", kind := "seat_counts", entityId := "org:acme"
    attrs := [("bucket", .str bucket), ("n_people", .int 5)] }

def movedPeople : List Put :=
  [{ ledgerMeta := none, principalKeyId := none, config := [fiveSeats 0 "0-7"] },
    { ledgerMeta := none, principalKeyId := none, config := [fiveSeats 3600000 "8-30"] }]

def movedTables : RecordTables :=
  { config := [fiveSeats 3600000 "8-30", fiveSeats 0 "0-7"].map fun c =>
      (configTable.recKey lastHashes c, configRow c "") }

theorem runPuts_movedPeople : runPuts lastHashes movedPeople = some movedTables := by decide

theorem valid_fiveSeats : validConfig (fiveSeats 0 "0-7") = true ∧ validConfig (fiveSeats 3600000 "8-30") = true := by
  decide

theorem summaryRows_movedTables : summaryRows movedTables "seat_counts" 0 86400000 [] =
    some [fiveSeats 0 "0-7", fiveSeats 3600000 "8-30"] := by
  have hread : [configRow (fiveSeats 3600000 "8-30") "", configRow (fiveSeats 0 "0-7") ""].mapM configOf =
      some [fiveSeats 3600000 "8-30", fiveSeats 0 "0-7"] := by
    rw [mapM_cons, mapM_cons, configOf_row valid_fiveSeats.1, configOf_row valid_fiveSeats.2]
    rfl
  have hwindow : (movedTables.config.map (·.2)).filter (fun r => decide (max 0 (-(2 ^ 63)) ≤ (r.snapshotMs : Int) ∧
      (r.snapshotMs : Int) < min 86400000 (2 ^ 63 - 1))) =
      [configRow (fiveSeats 3600000 "8-30") "", configRow (fiveSeats 0 "0-7") ""] := by decide
  unfold summaryRows configRows
  rw [if_neg (by decide)]
  dsimp only
  rw [hwindow, hread]
  decide

def fivePeople : Finset String := {"a", "b", "c", "d", "e"}

theorem history_movedPeople : History movedPeople (fun _ principal => principal) fun _ => fivePeople where
  valid := by
    intro p hp c hc
    rcases mem_pair.mp hp with rfl | rfl
    · rw [mem_singleton.mp hc]
      exact valid_fiveSeats.1
    · rw [mem_singleton.mp hc]
      exact valid_fiveSeats.2
  onePrincipal _ _ _ h := h
  counts := by
    intro p hp c hc _
    rcases mem_pair.mp hp with rfl | rfl
    · rw [mem_singleton.mp hc]
      decide
    · rw [mem_singleton.mp hc]
      decide
  parts := by
    intro p hp c hc q hq d hd _ _ _ hms hkey
    rcases mem_pair.mp hp with rfl | rfl <;> rcases mem_pair.mp hq with rfl | rfl <;>
      rw [mem_singleton.mp hc, mem_singleton.mp hd] at hms hkey
    · exact absurd rfl hkey
    · exact absurd hms (by decide)
    · exact absurd hms (by decide)
    · exact absurd rfl hkey

end TokenBill.Copilot.Seats
