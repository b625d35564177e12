import TokenBill.Copilot.Handoff
import TokenBill.General.Champion
import TokenBill.General.Ladders
import TokenBill.Verify.Panel

/-!
# Seat counts of an aggregate-only bundle

`_seat_counts` of `copilot/handoff.py`: of each person and date one licence snapshot describes the seat, the
seats of an entity and date are counted by eight criteria and by team, and groups of fewer than `k` people
climb a ladder of coarser criteria. A date is its day since 1970-01-01. The texts that `repr` gives of keys
are parameters: they only order the rows.
-/

namespace TokenBill.Copilot.SeatCounts

open General Handoff List

/-! ### Snapshots -/

/-- The key of `best`. -/
def personKey (l : LicenseSnapshot) : Nat × Principal := (l.snapshotDate, l.principal)

/-- `_seat_rank`. -/
def seatRank (l : LicenseSnapshot) : Bool ×ₗ Bool ×ₗ Nat ×ₗ String ×ₗ String :=
  toLex (decide (l.plan ≠ "unknown"), toLex (decide (l.sourceKind = "github.copilot_seats"),
    toLex (l.fetchedMs, toLex (l.org.getD "", l.plan))))

def bestLicenses (licenses : List LicenseSnapshot) : List LicenseSnapshot :=
  (licenses.map personKey).dedup.filterMap fun key =>
    best (fun a b => seatRank a < seatRank b) (licenses.filter fun l => decide (personKey l = key))

/-- `f"org:{lic.org}" if lic.org else "enterprise"`. -/
def entity (l : LicenseSnapshot) : String :=
  match l.org with
  | none => "enterprise"
  | some org => if org = "" then "enterprise" else "org:" ++ org

/-- The key of `by_snap`. -/
def snap (l : LicenseSnapshot) : String × Nat := (entity l, l.snapshotDate)

/-! ### Criteria -/

/-- The values of `_SEAT_DETAIL`. -/
structure SeatDetail where
  team : Option String
  plan : String
  (bucket surface : Option String)
  assignedViaTeam : Option Bool
  (pendingCancellation createdOver30d zeroCost30d : Bool)
  deriving DecidableEq

/-- `_ai_credit_gross`, as the lines of all people. -/
def aiCreditGross (lines : List CostLine) : List (Option Principal × Nat × Int) :=
  (lines.filter fun l => decide (l.channel = "github_copilot") && startsWith (l.costType.getD "") "ai_credit").map
    fun l => (l.principal, l.dateUtc, l.listAmountNano.getD l.amountNano)

/-- `lo <= d <= date`, with the 30 days up to a date. -/
def inMonth (day d : Nat) : Bool := decide (day ≤ d + 29 ∧ d ≤ day)

/-- `_seat_created_date`. -/
def seatCreatedDate (value : Option String) : Option Int :=
  value.bind fun text => Verify.parseDate (String.ofList (text.toList.take 10))

/-- The `key` of a licence. -/
def detailKey (lines : List CostLine) (l : LicenseSnapshot) : SeatDetail :=
  let gross := aiCreditGross lines
  let own := gross.filter fun g => decide (g.1 = some l.principal) && inMonth l.snapshotDate g.2.1
  let spent : Int := (own.map (·.2.2)).sum
  { team := l.team, plan := l.plan
    bucket := some l.lastActivityBucket, surface := l.lastActivitySurface
    assignedViaTeam := l.assignedViaTeam, pendingCancellation := l.pendingCancellation.isSome
    createdOver30d := (seatCreatedDate l.seatCreated).any fun created => decide (30 < (l.snapshotDate : Int) - created)
    zeroCost30d := (gross.any fun g => inMonth l.snapshotDate g.2.1) && decide (spent = 0) }

/-- `levels`. -/
def levels : List (SeatDetail → SeatDetail) :=
  [fun key => { key with team := some otherTeam },
    fun key => ⟨some otherTeam, key.plan, key.bucket, none, none, false, false, false⟩,
    fun key => ⟨some otherTeam, key.plan, none, none, none, false, false, false⟩]

/-- What `repr` gives of a key and of a team's key. -/
structure KeyTexts where
  detail : SeatDetail → String
  team : Option String → String

/-! ### Sections -/

/-- The counts of an entity and date. -/
structure Section where
  entity : String
  (day fetchedMs : Nat)
  detail : LadderTable SeatDetail SeatDetail Principal × Nat
  summary : LadderTable (Option String) (Option String) Principal × Nat

def peopleOf (licenses : List LicenseSnapshot) : Finset Principal := (licenses.map (·.principal)).toFinset

/-- The people of each key, in the order in which keys come last. -/
def peopleBy {κ : Type} [DecidableEq κ] (key : LicenseSnapshot → κ) (licenses : List LicenseSnapshot) :
    List (κ × Finset Principal) :=
  (licenses.map key).dedup.map fun k => (k, peopleOf (licenses.filter fun l => decide (key l = k)))

/-- The counts of the licences `lics` of an entity and date. -/
def sectionOf (texts : KeyTexts) (k : Nat) (lines : List CostLine) (s : String × Nat)
    (licenses : List LicenseSnapshot) : Section where
  entity := s.1
  day := s.2
  fetchedMs := (licenses.map (·.fetchedMs)).foldr max 0
  detail := ladder texts.detail k levels (peopleBy (detailKey lines) licenses)
  summary := ladder texts.team k [fun _ => some otherTeam] (peopleBy (·.team) licenses)

def sections (texts : KeyTexts) (k : Nat) (lines : List CostLine) (licenses : List LicenseSnapshot) : List Section :=
  (((bestLicenses licenses).map snap).dedup.insertionSort fun a b => toLex a ≤ toLex b).map fun s =>
    sectionOf texts k lines s ((bestLicenses licenses).filter fun l => decide (snap l = s))

/-! ### Rows -/

def ofStr? (v : Option String) : AttrValue := v.elim .null .str

def ofBool? (v : Option Bool) : AttrValue := v.elim .null .bool

/-- `_count_row` of `seat_counts`. -/
def countRow (s : Section) (attrs : List (String × AttrValue)) : ConfigSnapshot where
  snapshotMs := s.day * 86400000
  sourceKind := "tokenbill.copilot_export"
  kind := "seat_counts"
  entityId := s.entity
  attrs := attrs
  fetchedMs := s.fetchedMs

/-- The attributes of a count by all criteria, sorted by name. -/
def detailAttrs (t : SeatDetail × LadderGroup SeatDetail Principal) : List (String × AttrValue) :=
  [("assigned_via_team", ofBool? t.1.assignedViaTeam), ("bucket", ofStr? t.1.bucket),
    ("created_over_30d", .bool t.1.createdOver30d), ("n", .int t.2.people.card),
    ("pending_cancellation", .bool t.1.pendingCancellation), ("plan", .str t.1.plan), ("surface", ofStr? t.1.surface),
    ("team", ofStr? t.1.team), ("zero_cost_30d", .bool t.1.zeroCost30d)]

def summaryAttrs (t : Option String × LadderGroup (Option String) Principal) : List (String × AttrValue) :=
  [("bucket", .str "*"), ("n_people", .int t.2.people.card), ("team", ofStr? t.1)]

def Section.rows (s : Section) : List ConfigSnapshot :=
  s.detail.1.map (fun t => countRow s (detailAttrs t)) ++ s.summary.1.map fun t => countRow s (summaryAttrs t)

/-- `_seat_counts`: the rows, and the people that `dq` counts as suppressed. -/
def seatCounts (texts : KeyTexts) (k : Nat) (lines : List CostLine) (licenses : List LicenseSnapshot) :
    List ConfigSnapshot × Nat :=
  let all := sections texts k lines licenses
  (all.flatMap Section.rows, (all.map fun s => s.detail.2 + s.summary.2).sum)


/-! ### The licence that describes a seat -/

/-- Snapshots of one person and date that rank alike are one. -/
def NoTies (licenses : List LicenseSnapshot) : Prop :=
  ∀ l ∈ licenses, ∀ l' ∈ licenses, personKey l = personKey l' → seatRank l = seatRank l' → l = l'

instance (licenses : List LicenseSnapshot) : Decidable (NoTies licenses) :=
  inferInstanceAs (Decidable (∀ l ∈ licenses, ∀ l' ∈ licenses, personKey l = personKey l' →
    seatRank l = seatRank l' → l = l'))

variable {l : LicenseSnapshot} {licenses' : List LicenseSnapshot} {s : String × Nat}

theorem best_mem {licenses : List LicenseSnapshot} {key : Nat × Principal}
    (h : best (fun a b => seatRank a < seatRank b) (licenses.filter fun l => decide (personKey l = key)) = some l) :
    l ∈ licenses ∧ personKey l = key ∧ ∀ l' ∈ licenses, personKey l' = key → seatRank l' ≤ seatRank l := by
  obtain ⟨hmem, hbest⟩ := best_spec (r := fun a b => seatRank a < seatRank b)
    (fun _ _ _ hab hbc => not_lt.mpr ((not_lt.mp hbc).trans (not_lt.mp hab))) (fun _ _ hab => not_lt.mpr hab.le) h
  obtain ⟨hmem, hkey⟩ := mem_filter.mp hmem
  exact ⟨hmem, of_decide_eq_true hkey, fun l' hl' hkey' =>
    not_lt.mp (hbest l' (mem_filter.mpr ⟨hl', decide_eq_true hkey'⟩))⟩

theorem mem_bestLicenses {licenses : List LicenseSnapshot} (h : l ∈ bestLicenses licenses) :
    best (fun a b => seatRank a < seatRank b) (licenses.filter fun l' => decide (personKey l' = personKey l)) =
      some l := by
  obtain ⟨key, -, hbest⟩ := mem_filterMap.mp h
  rw [(best_mem hbest).2.1]
  exact hbest

theorem nodup_bestLicenses (licenses : List LicenseSnapshot) : ((bestLicenses licenses).map personKey).Nodup := by
  have hnodup : (bestLicenses licenses).Nodup := by
    refine (nodup_dedup _).filterMap fun a b l ha hb => ?_
    rw [← (best_mem ha).2.1, (best_mem hb).2.1]
  refine List.Nodup.map_on (fun l hl l' hl' hkey => ?_) hnodup
  have hbest := mem_bestLicenses hl
  rw [hkey, mem_bestLicenses hl'] at hbest
  exact (Option.some.inj hbest).symm

theorem bestLicenses_perm {licenses : List LicenseSnapshot} (hties : NoTies licenses)
    (h : licenses.Perm licenses') : (bestLicenses licenses).Perm (bestLicenses licenses') := by
  have hbest : ∀ key, best (fun a b => seatRank a < seatRank b) (licenses.filter fun l => decide (personKey l = key)) =
      best (fun a b => seatRank a < seatRank b) (licenses'.filter fun l => decide (personKey l = key)) := by
    intro key
    cases hl : best (fun a b => seatRank a < seatRank b) (licenses.filter fun l => decide (personKey l = key)) with
    | none =>
      have hnil := best_eq_none hl
      have hnil' : licenses'.filter (fun l => decide (personKey l = key)) = [] := by
        rw [← length_eq_zero_iff, ← (h.filter _).length_eq, hnil]
        rfl
      rw [hnil']
      rfl
    | some l =>
      cases hl' : best (fun a b => seatRank a < seatRank b) (licenses'.filter fun l => decide (personKey l = key)) with
      | none =>
        have hnil := best_eq_none hl'
        obtain ⟨hmem, hkey, -⟩ := best_mem hl
        have hmem' : l ∈ licenses'.filter fun l => decide (personKey l = key) :=
          mem_filter.mpr ⟨h.mem_iff.mp hmem, decide_eq_true hkey⟩
        rw [hnil] at hmem'
        cases hmem'
      | some l' =>
        obtain ⟨hmem, hkey, hmax⟩ := best_mem hl
        obtain ⟨hmem', hkey', hmax'⟩ := best_mem hl'
        have hin := h.mem_iff.mpr hmem'
        exact congrArg some (hties l hmem l' hin (hkey.trans hkey'.symm)
          (le_antisymm (hmax' l (h.mem_iff.mp hmem) hkey) (hmax l' hin hkey')))
  unfold bestLicenses
  rw [filterMap_congr fun key _ => hbest key]
  exact (h.map _).dedup.filterMap _

/-! ### People by key -/

section People

variable {κ : Type} [DecidableEq κ] {key : LicenseSnapshot → κ} {licenses : List LicenseSnapshot}

theorem mem_peopleOf {p : Principal} : p ∈ peopleOf licenses ↔ ∃ l ∈ licenses, l.principal = p := by
  unfold peopleOf
  rw [mem_toFinset, mem_map]

theorem peopleBy_perm {licenses' : List LicenseSnapshot} (h : licenses.Perm licenses') :
    (peopleBy key licenses).Perm (peopleBy key licenses') := by
  have hpeople : ∀ k, peopleOf (licenses.filter fun l => decide (key l = k)) =
      peopleOf (licenses'.filter fun l => decide (key l = k)) :=
    fun k => toFinset_eq_of_perm _ _ ((h.filter _).map _)
  unfold peopleBy
  rw [map_congr_left fun k _ => by rw [hpeople k]]
  exact (h.map key).dedup.map _

/-- People with one licence each are in one group. -/
theorem countP_peopleBy (hone : (licenses.map (·.principal)).Nodup) (p : Principal) :
    (peopleBy key licenses).countP (fun r => p ∈ r.2) = if p ∈ peopleOf licenses then 1 else 0 := by
  unfold peopleBy
  rw [countP_map]
  split
  · rename_i hp
    obtain ⟨l, hl, rfl⟩ := mem_peopleOf.mp hp
    have hiff : ∀ k, l.principal ∈ peopleOf (licenses.filter fun l => decide (key l = k)) ↔ k = key l := by
      intro k
      rw [mem_peopleOf]
      constructor
      · rintro ⟨l', hl', heq⟩
        obtain ⟨hl', hk⟩ := mem_filter.mp hl'
        rw [← inj_on_of_nodup_map hone hl' hl heq]
        exact (of_decide_eq_true hk).symm
      · rintro rfl
        exact ⟨l, mem_filter.mpr ⟨hl, decide_eq_true rfl⟩, rfl⟩
    have hcount : ∀ k, ((fun r : κ × Finset Principal => decide (l.principal ∈ r.2)) ∘ fun k =>
        (k, peopleOf (licenses.filter fun l => decide (key l = k)))) k = (k == key l) := fun k => by
      rw [Function.comp_apply, Bool.eq_iff_iff, decide_eq_true_eq, hiff, beq_iff_eq]
    rw [countP_congr fun k _ => by rw [hcount k]]
    exact count_eq_one_of_mem (nodup_dedup _) (mem_dedup.mpr (mem_map_of_mem hl))
  · rename_i hp
    refine countP_eq_zero.mpr fun k _ hmem => hp ?_
    obtain ⟨l, hl, heq⟩ := mem_peopleOf.mp (of_decide_eq_true hmem)
    exact mem_peopleOf.mpr ⟨l, mem_of_mem_filter hl, heq⟩

theorem nodup_texts_peopleBy {τ : Type} {text : κ → τ}
    (htext : ∀ l ∈ licenses, ∀ l' ∈ licenses, text (key l) = text (key l') → key l = key l') :
    ((peopleBy key licenses).map fun r => text r.1).Nodup := by
  unfold peopleBy
  rw [map_map]
  refine List.Nodup.map_on (fun k hk k' hk' heq => ?_) (nodup_dedup _)
  obtain ⟨l, hl, rfl⟩ := mem_map.mp (mem_dedup.mp hk)
  obtain ⟨l', hl', rfl⟩ := mem_map.mp (mem_dedup.mp hk')
  exact htext l hl l' hl' heq

end People


/-! ### Sections -/

variable {texts : KeyTexts} {k : Nat} {lines : List CostLine} {licenses : List LicenseSnapshot}

/-- The texts of the keys tell the licences' keys apart. -/
structure KeyTexts.Apart (texts : KeyTexts) (lines : List CostLine) (licenses : List LicenseSnapshot) : Prop where
  detail : ∀ l ∈ licenses, ∀ l' ∈ licenses,
    texts.detail (detailKey lines l) = texts.detail (detailKey lines l') → detailKey lines l = detailKey lines l'
  team : ∀ l ∈ licenses, ∀ l' ∈ licenses, texts.team l.team = texts.team l'.team → l.team = l'.team

/-- The licences of a section, the ones that describe the seats of an entity and date. -/
def licensesAt (licenses : List LicenseSnapshot) (s : String × Nat) : List LicenseSnapshot :=
  (bestLicenses licenses).filter fun l => decide (snap l = s)

theorem snap_of_mem (hl : l ∈ licensesAt licenses s) : snap l = s :=
  of_decide_eq_true (mem_filter.mp hl).2

theorem nodup_principals (licenses : List LicenseSnapshot) (s : String × Nat) :
    ((licensesAt licenses s).map (·.principal)).Nodup := by
  have hsub : (licensesAt licenses s).Sublist (bestLicenses licenses) := filter_sublist
  have hnodup : ((licensesAt licenses s).map personKey).Nodup := (nodup_bestLicenses licenses).sublist (hsub.map _)
  refine List.Nodup.map_on (fun l hl l' hl' heq => ?_) (List.Nodup.of_map personKey hnodup)
  have hsnap : snap l = snap l' := (snap_of_mem hl).trans (snap_of_mem hl').symm
  have hday : l.snapshotDate = l'.snapshotDate := (Prod.mk.inj hsnap).2
  have hkey : personKey l = personKey l' := Prod.ext hday heq
  exact inj_on_of_nodup_map hnodup hl hl' hkey

/-- A section parts its people on both ladders. -/
theorem sectionOf_laddered (texts : KeyTexts) (k : Nat) (lines : List CostLine)
    (hone : (licenses.map (·.principal)).Nodup) :
    Laddered k (peopleOf licenses) (sectionOf texts k lines s licenses).detail.1
        (sectionOf texts k lines s licenses).detail.2 ∧
      Laddered k (peopleOf licenses) (sectionOf texts k lines s licenses).summary.1
        (sectionOf texts k lines s licenses).summary.2 := by
  have hdetail := @countP_peopleBy _ _ (detailKey lines) licenses hone
  have hteam := @countP_peopleBy _ _ (fun l => l.team) licenses hone
  exact ⟨@ladder_laddered _ _ _ _ _ _ texts.detail k levels _ _ hdetail,
    @ladder_laddered _ _ _ _ _ _ texts.team k [fun _ => some otherTeam] _ _ hteam⟩

theorem foldr_max_perm {a b : List Nat} (h : a.Perm b) : a.foldr max 0 = b.foldr max 0 :=
  h.foldr_eq 0

theorem sectionOf_perm (h : licenses.Perm licenses') (htexts : texts.Apart lines licenses) :
    sectionOf texts k lines s licenses = sectionOf texts k lines s licenses' := by
  unfold sectionOf
  rw [ladder_perm (peopleBy_perm h) (nodup_texts_peopleBy htexts.detail),
    ladder_perm (peopleBy_perm h) (nodup_texts_peopleBy htexts.team), foldr_max_perm (h.map _)]

theorem sorted_snaps_perm {a b : List (String × Nat)} (h : a.Perm b) :
    (a.dedup.insertionSort fun a b => toLex a ≤ toLex b) = b.dedup.insertionSort fun a b => toLex a ≤ toLex b := by
  refine List.Perm.eq_of_pairwise (fun x y _ _ hxy hyx => ?_) (pairwise_insertionSort _ _)
    (pairwise_insertionSort _ _)
    (((perm_insertionSort _ _).trans h.dedup).trans (perm_insertionSort _ _).symm)
  exact toLex.injective (le_antisymm hxy hyx)

/-- The sections do not depend on the order of the snapshots. -/
theorem sections_perm (hties : NoTies licenses) (h : licenses.Perm licenses')
    (htexts : texts.Apart lines licenses) : sections texts k lines licenses = sections texts k lines licenses' := by
  have hbest := bestLicenses_perm hties h
  have hmem : ∀ s, ∀ l ∈ licensesAt licenses s, l ∈ licenses := fun s l hl => by
    obtain ⟨key, -, hbest⟩ := mem_filterMap.mp (mem_of_mem_filter hl)
    exact (best_mem hbest).1
  unfold sections
  rw [sorted_snaps_perm (hbest.map snap)]
  refine map_congr_left fun s _ => sectionOf_perm (hbest.filter _) ⟨fun l hl l' hl' => ?_, fun l hl l' hl' => ?_⟩
  · exact htexts.detail l (hmem s l hl) l' (hmem s l' hl')
  · exact htexts.team l (hmem s l hl) l' (hmem s l' hl')

/-! ### Rows -/

def rowKey (row : ConfigSnapshot) : String × Nat × List (String × AttrValue) :=
  (row.entityId, row.snapshotMs, row.attrs.filter fun a => decide (a.1 ∉ countAttrs))

/-- The count of a row. -/
def rowCount (row : ConfigSnapshot) : Option Int :=
  match row.attrs.find? fun a => decide (a.1 ∈ countAttrs) with
  | some (_, .int n) => some n
  | _ => none

theorem ofStr?_inj {a b : Option String} (h : ofStr? a = ofStr? b) : a = b := by
  cases a <;> cases b <;> simp [ofStr?] at h ⊢
  exact h

theorem ofBool?_inj {a b : Option Bool} (h : ofBool? a = ofBool? b) : a = b := by
  cases a <;> cases b <;> simp [ofBool?] at h ⊢
  exact h

theorem rowKey_detail (s : Section) (t : SeatDetail × LadderGroup SeatDetail Principal) :
    rowKey (countRow s (detailAttrs t)) = (s.entity, s.day * 86400000,
      [("assigned_via_team", ofBool? t.1.assignedViaTeam), ("bucket", ofStr? t.1.bucket),
        ("created_over_30d", .bool t.1.createdOver30d), ("pending_cancellation", .bool t.1.pendingCancellation),
        ("plan", .str t.1.plan), ("surface", ofStr? t.1.surface), ("team", ofStr? t.1.team),
        ("zero_cost_30d", .bool t.1.zeroCost30d)]) := rfl

theorem rowKey_summary (s : Section) (t : Option String × LadderGroup (Option String) Principal) :
    rowKey (countRow s (summaryAttrs t)) =
      (s.entity, s.day * 86400000, [("bucket", .str "*"), ("team", ofStr? t.1)]) := rfl

theorem nodup_rows_section {s : Section} (hdetail : (s.detail.1.map (·.1)).Nodup)
    (hsummary : (s.summary.1.map (·.1)).Nodup) : (s.rows.map rowKey).Nodup := by
  unfold Section.rows
  rw [map_append, map_map, map_map, nodup_append]
  refine ⟨?_, ?_, ?_⟩
  · rw [List.Nodup, pairwise_map]
    refine (pairwise_map.mp hdetail).imp fun {t t'} hne heq => hne ?_
    rw [Function.comp_apply, Function.comp_apply, rowKey_detail, rowKey_detail] at heq
    simp only [Prod.mk.injEq, List.cons.injEq, AttrValue.bool.injEq, AttrValue.str.injEq, true_and, and_true] at heq
    obtain ⟨hassigned, hbucket, hcreated, hpending, hplan, hsurface, hteam, hzero⟩ := heq
    obtain ⟨⟨team, plan, bucket, surface, assigned, pending, created, zero⟩, g⟩ := t
    obtain ⟨⟨team', plan', bucket', surface', assigned', pending', created', zero'⟩, g'⟩ := t'
    dsimp only at *
    rw [ofBool?_inj hassigned, ofStr?_inj hbucket, hcreated, hpending, hplan, ofStr?_inj hsurface, ofStr?_inj hteam,
      hzero]
  · rw [List.Nodup, pairwise_map]
    refine (pairwise_map.mp hsummary).imp fun {t t'} hne heq => hne ?_
    rw [Function.comp_apply, Function.comp_apply, rowKey_summary, rowKey_summary] at heq
    simp only [Prod.mk.injEq, List.cons.injEq, true_and, and_true] at heq
    exact ofStr?_inj heq
  · intro a ha b hb hab
    obtain ⟨t, -, rfl⟩ := mem_map.mp ha
    obtain ⟨t', -, rfl⟩ := mem_map.mp hb
    rw [Function.comp_apply, Function.comp_apply, rowKey_detail, rowKey_summary] at hab
    exact absurd (congrArg (fun key => key.2.2.length) hab) (by decide : ¬8 = 2)


/-! ### Counts -/

/-- What the rows of one entity and date state. -/
structure SectionCounts (k : Nat) (licenses : List LicenseSnapshot) (s : Section) : Prop where
  detail : Laddered k (peopleOf (licensesAt licenses (s.entity, s.day))) s.detail.1 s.detail.2
  summary : Laddered k (peopleOf (licensesAt licenses (s.entity, s.day))) s.summary.1 s.summary.2
  /-- Every row counts a group of at least `k` people of the entity and date. -/
  protects : ∀ row ∈ s.rows, row.entityId = s.entity ∧ row.snapshotMs = s.day * 86400000 ∧
    ∃ group ⊆ peopleOf (licensesAt licenses (s.entity, s.day)), k ≤ group.card ∧ rowCount row = some group.card

/-- The sections are the entities and dates of the seats, their ladders part the people, and the rows are theirs. -/
structure SeatsCounted (texts : KeyTexts) (k : Nat) (lines : List CostLine) (licenses : List LicenseSnapshot) :
    Prop where
  apart : ((sections texts k lines licenses).map fun s => (s.entity, s.day)).Nodup
  seats : ∀ l ∈ bestLicenses licenses, ∃ s ∈ sections texts k lines licenses, (s.entity, s.day) = snap l
  counted : ∀ s ∈ sections texts k lines licenses, SectionCounts k licenses s
  rows : (seatCounts texts k lines licenses).1 = (sections texts k lines licenses).flatMap Section.rows
  suppressed : (seatCounts texts k lines licenses).2 =
    ((sections texts k lines licenses).map fun s => s.detail.2 + s.summary.2).sum
  distinct : ((seatCounts texts k lines licenses).1.map rowKey).Nodup
  order : ∀ licenses', licenses.Perm licenses' → seatCounts texts k lines licenses' = seatCounts texts k lines licenses

theorem sectionOf_counts (texts : KeyTexts) (k : Nat) (lines : List CostLine) (licenses : List LicenseSnapshot)
    (s : String × Nat) : SectionCounts k licenses (sectionOf texts k lines s (licensesAt licenses s)) := by
  obtain ⟨hdetail, hsummary⟩ := sectionOf_laddered texts k lines (s := s) (nodup_principals licenses s)
  refine ⟨hdetail, hsummary, fun row hrow => ?_⟩
  rcases mem_append.mp hrow with hrow | hrow
  · obtain ⟨t, ht, rfl⟩ := mem_map.mp hrow
    exact ⟨rfl, rfl, t.2.people, hdetail.subset t ht, hdetail.protects t ht, rfl⟩
  · obtain ⟨t, ht, rfl⟩ := mem_map.mp hrow
    exact ⟨rfl, rfl, t.2.people, hsummary.subset t ht, hsummary.protects t ht, rfl⟩

/-- The entities and dates of the sections. -/
theorem sections_snaps (texts : KeyTexts) (k : Nat) (lines : List CostLine) (licenses : List LicenseSnapshot) :
    (sections texts k lines licenses).map (fun s => (s.entity, s.day)) =
      ((bestLicenses licenses).map snap).dedup.insertionSort fun a b => toLex a ≤ toLex b := by
  unfold sections
  rw [map_map]
  exact map_id _

theorem nodup_rows (texts : KeyTexts) (k : Nat) (lines : List CostLine) (licenses : List LicenseSnapshot)
    (hcounts : ∀ s ∈ sections texts k lines licenses, SectionCounts k licenses s)
    (hnodup : ((sections texts k lines licenses).map fun s => (s.entity, s.day)).Nodup) :
    ((seatCounts texts k lines licenses).1.map rowKey).Nodup := by
  show (((sections texts k lines licenses).flatMap Section.rows).map rowKey).Nodup
  rw [map_flatMap, nodup_flatMap]
  refine ⟨fun s hs => nodup_rows_section (hcounts s hs).detail.distinct (hcounts s hs).summary.distinct, ?_⟩
  refine (List.Pairwise.and_mem.mp (pairwise_map.mp hnodup)).imp fun {s s'} h key hkey hkey' => ?_
  obtain ⟨row, hrow, rfl⟩ := mem_map.mp hkey
  obtain ⟨row', hrow', heq⟩ := mem_map.mp hkey'
  obtain ⟨hs, hs', hne⟩ := h
  obtain ⟨hentity, hday, -⟩ := (hcounts s hs).protects row hrow
  obtain ⟨hentity', hday', -⟩ := (hcounts s' hs').protects row' hrow'
  obtain ⟨hsame, hms⟩ : row'.entityId = row.entityId ∧ row'.snapshotMs = row.snapshotMs :=
    ⟨congrArg Prod.fst heq, congrArg (fun key => key.2.1) heq⟩
  refine hne (Prod.ext ?_ ?_)
  · rw [← hentity, ← hentity', hsame]
  · rw [hday, hday'] at hms
    exact (Nat.eq_of_mul_eq_mul_right (by decide) hms).symm

/-- What `repr` gives of plain texts, `None` and Booleans in a tuple. -/
def plainTexts : KeyTexts where
  detail key := "(" ++ text key.team ++ ", '" ++ key.plan ++ "', " ++ text key.bucket ++ ", " ++ text key.surface ++
    ", " ++ key.assignedViaTeam.elim "None" bool ++ ", " ++ bool key.pendingCancellation ++ ", " ++
    bool key.createdOver30d ++ ", " ++ bool key.zeroCost30d ++ ")"
  team team := "(" ++ text team ++ ",)"
where
  text (v : Option String) : String := v.elim "None" fun s => "'" ++ s ++ "'"
  bool (b : Bool) : String := if b then "True" else "False"

def alice : String := "00000000000000000001"

def bob : String := "00000000000000000002"

/-- The seat of a person on the day 20000. -/
def seatOn (person org team : String) (fetchedMs : Nat) : LicenseSnapshot where
  snapshotDate := 20000
  product := "github_copilot"
  plan := "business"
  principal := .p person
  team := some team
  costCenter := none
  org := some org
  seatCreated := none
  pendingCancellation := none
  lastActivityBucket := "0-7"
  lastActivitySurface := some "vscode"
  lastAuthenticatedBucket := "unknown"
  assignedViaTeam := some false
  fetchedMs := fetchedMs

def otherSeat : LicenseSnapshot := { seatOn alice "acme" "web" 2 with product := "other" }

end TokenBill.Copilot.SeatCounts
