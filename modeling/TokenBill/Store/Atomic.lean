import TokenBill.Store.Retained

/-!
# Failed ingests

An ingest that fails rolls its open transaction back, but the rate cards the store object
has seen and the key ids it accepts stay in memory. The states an ingest passes through
are listed, so that it may fail in any of them; as long as a failed ingest had nothing new
to remember, the store is as it was before, every stored rate card has its basis in `meta`,
and a store that is opened again answers as before.
-/

namespace TokenBill.Store

open General List

variable {h : Hashes} {pricer : Option Pricer}

/-! ### The points of an ingest -/

/-- The states between the statements of an ingest's commit phase, up to one that raises. -/
def ingestStages (cfg : Config) (now : Nat) (s : SqliteStore) (result : IngestResult)
    (pricer : Option Pricer) (adopting : Bool) (cleaned : Cleaned) : List (Except Fault Work) :=
  let src := result.source
  let begun : Work := { db := s.db, committed := s.db, mem := s.mem }
  let adopted := if adopting then begun.adoptFrom now src else begun
  let named := adopted.setNameKey cfg s.db.info src
  let shelled := named.shells cleaned.shells
  let opened := shelled.sessions result.sessions
  let contribs := cleaned.requests.map fun r => Contribution.of r src.adapter src.sourceId
  let merged := (chunks batchRows contribs).inits.map (opened.mergeChunks cfg.hashes pricer)
  let whole := opened.mergeChunks cfg.hashes pricer (chunks batchRows contribs)
  let evented := (fun w : Work => w.events cfg.hashes cleaned.events) <$> whole
  let recorded := (fun w : Work =>
    w.providerRecords cleaned.aggregates cleaned.costLines result.outcomes) <$> evented
  [.ok begun, .ok adopted, .ok named, .ok shelled, .ok opened] ++ merged ++
    [evented, recorded, Work.finish <$> recorded,
      (fun w : Work => w.finish.recordSource now result cleaned) <$> recorded]

/-- The fault of an ingest: raised by the merge engine, or from outside in a state it passes. -/
inductive IngestFault (cfg : Config) (now : Nat) (s : SqliteStore) (result : IngestResult)
    (pricer : Option Pricer) (adopting : Bool) (cleaned : Cleaned) : Fault → Prop
  | raised {f : Fault} : .error f ∈ ingestStages cfg now s result pricer adopting cleaned →
      IngestFault cfg now s result pricer adopting cleaned f
  | broken {w : Work} (e : Error) : .ok w ∈ ingestStages cfg now s result pricer adopting cleaned →
      IngestFault cfg now s result pricer adopting cleaned ⟨e, w.committed, w.mem⟩

/-! ### Recorded rate cards -/

/-- Whether memory has seen the rate card of a pricer, if there is one. -/
def seenCard (mem : Memory) : Option Pricer → Bool
  | none => true
  | some p => (mem.basisSeen.lookup p.rateCardSha256).isSome

/-- The rate card of these prices has its basis in `meta`. -/
def Recorded (info : Meta) (cols : PricedColumns) : Prop :=
  ∀ sha, cols.rateCardSha = some sha → (info.rateCardBasis.lookup sha).isSome

/-- Every stored rate card has its basis in `meta`, and memory knows what `meta` says. -/
structure BasesRecorded (db : Db) (mem : Memory) : Prop where
  stored : ∀ r ∈ db.requests, ∀ i ∈ r.inferences, Recorded db.info i.priced
  seen : ∀ sha b, mem.basisSeen.lookup sha = some b → db.info.rateCardBasis.lookup sha = some b

variable {w : Work} {s s' : SqliteStore} {cfg : Config} {cleaned : Cleaned} {now : Nat} {result : IngestResult}
  {nameKeyId : Option String}

theorem recordBasis_seen (hs : seenCard w.mem pricer) : w.recordBasis pricer = w := by
  cases pricer with
  | none => rfl
  | some p =>
    exact if_pos hs

theorem recordBasis_unseen {p : Pricer} (hs : seenCard w.mem (some p) = false) :
    w.recordBasis (some p) =
      { w with
        db := { w.db with info := { w.db.info with
          rateCardBasis := upsert (·.1) (p.rateCardSha256, p.basis) w.db.info.rateCardBasis } }
        mem := { w.mem with basisSeen := (p.rateCardSha256, p.basis) :: w.mem.basisSeen } } := by
  exact if_neg (by simpa only [seenCard, Bool.not_eq_true] using hs)

theorem Recorded.recordBasis {cols : PricedColumns} (hr : Recorded w.db.info cols) :
    Recorded (w.recordBasis pricer).db.info cols := by
  cases hs : seenCard w.mem pricer with
  | true => rwa [recordBasis_seen hs]
  | false =>
    cases pricer with
    | none => cases hs
    | some p =>
      rw [recordBasis_unseen hs]
      intro sha hsha
      rw [lookup_upsert]
      split
      · rfl
      · exact hr sha hsha

theorem rateCardSha_pricedTuple (p : PricedInference) (sha : Option String) :
    (pricedTuple p sha).rateCardSha = sha := by
  unfold pricedTuple
  split <;> rfl

theorem rateCardSha_priceColumns {i : Inference} {ts : Nat} {sha : String}
    (hs : (priceColumns pricer i ts).rateCardSha = some sha) :
    ∃ p, pricer = some p ∧ p.rateCardSha256 = sha := by
  unfold priceColumns at hs
  split at hs
  · cases hs
  · cases pricer with
    | none => cases hs
    | some p =>
      refine ⟨p, rfl, ?_⟩
      rw [rateCardSha_pricedTuple] at hs
      exact Option.some.inj hs

namespace BasesRecorded

variable {w : Work}

theorem card (hw : BasesRecorded w.db w.mem) (p : Pricer) :
    ((w.recordBasis (some p)).db.info.rateCardBasis.lookup p.rateCardSha256).isSome := by
  cases hs : seenCard w.mem (some p) with
  | true =>
    rw [recordBasis_seen hs]
    obtain ⟨b, hb⟩ := Option.isSome_iff_exists.mp hs
    rw [hw.seen _ b hb]
    rfl
  | false =>
    rw [recordBasis_unseen hs]
    rw [lookup_upsert, if_pos rfl]
    rfl

theorem priced (hw : BasesRecorded w.db w.mem) (i : Inference) (ts : Nat) :
    Recorded (w.recordBasis pricer).db.info (priceColumns pricer i ts) := by
  intro sha hsha
  obtain ⟨p, rfl, rfl⟩ := rateCardSha_priceColumns hsha
  exact hw.card p

theorem recordBasis (hw : BasesRecorded w.db w.mem) (pricer : Option Pricer) :
    BasesRecorded (w.recordBasis pricer).db (w.recordBasis pricer).mem := by
  cases hs : seenCard w.mem pricer with
  | true => rwa [recordBasis_seen hs]
  | false =>
    cases pricer with
    | none => cases hs
    | some p =>
      have hgrows : ∀ cols, Recorded w.db.info cols → Recorded (w.recordBasis (some p)).db.info cols :=
        fun _ h => h.recordBasis
      rw [recordBasis_unseen hs] at hgrows ⊢
      refine ⟨fun r hr i hi => hgrows _ (hw.stored r hr i hi), fun sha b hb => ?_⟩
      rw [lookup_upsert]
      rw [lookup_cons] at hb
      by_cases he : sha = p.rateCardSha256
      · rw [if_pos he]
        rwa [beq_iff_eq.mpr he] at hb
      · rw [if_neg he]
        rw [beq_eq_false_iff_ne.mpr he] at hb
        exact hw.seen sha b hb

/-- A database with the same bases whose prices were stored before. -/
theorem of_stored {db db' : Db} {mem : Memory} (hb : BasesRecorded db mem)
    (hi : db'.info.rateCardBasis = db.info.rateCardBasis)
    (hr : ∀ r' ∈ db'.requests, ∀ i' ∈ r'.inferences, ∃ r ∈ db.requests, ∃ i ∈ r.inferences,
      i'.priced = i.priced) : BasesRecorded db' mem := by
  refine ⟨fun r' hr' i' hi' sha hsha => ?_, fun sha b h => hi ▸ hb.seen sha b h⟩
  obtain ⟨r, hmem, i, hmemi, he⟩ := hr r' hr' i' hi'
  rw [hi]
  exact hb.stored r hmem i hmemi sha (he ▸ hsha)

/-- Rows taken away, or other tables changed. -/
theorem of_subset {db db' : Db} {mem : Memory} (hb : BasesRecorded db mem)
    (hi : db'.info.rateCardBasis = db.info.rateCardBasis) (hr : ∀ r ∈ db'.requests, r ∈ db.requests) :
    BasesRecorded db' mem :=
  hb.of_stored hi fun r hmem i hmemi => ⟨r, hr r hmem, i, hmemi, rfl⟩

end BasesRecorded

/-- The merge engine records the rate cards it stores; where it has seen the pricer's, memory stays. -/
theorem basesInv (h : Hashes) (pricer : Option Pricer) (mem : Memory) {settled : Prop}
    (hs : settled → seenCard mem pricer) : WorkInv h pricer (fun _ => True) Recorded
      fun w => BasesRecorded w.db w.mem ∧ (settled → w.mem = mem) where
  index hw _ _ _ _ := ⟨hw.1.of_subset rfl fun _ h => h, hw.2⟩
  basis {w} hw := by
    refine ⟨hw.1.recordBasis pricer, fun hset => ?_⟩
    rw [recordBasis_seen (by rw [hw.2 hset]; exact hs hset)]
    exact hw.2 hset
  grows _ hr := hr.recordBasis
  priced hw i ts := hw.1.priced i ts
  free _ _ h := nomatch h
  rows {w w' entries} hw he hrows := by
    obtain rfl := Work.writeRows_cases hrows
    refine ⟨⟨fun r hr i hi => ?_, hw.1.seen⟩, hw.2⟩
    rcases mem_append.mp hr with hr | hr
    · exact hw.1.stored r hr i hi
    · obtain ⟨group, mg, priced, -, -, hD, rfl⟩ := he r hr
      obtain ⟨a, -, hi⟩ := mem_flatMap.mp hi
      obtain ⟨inf, -, rfl⟩ := mem_map.mp hi
      exact hD inf a.tsStartMs
  members hw _ := ⟨hw.1.of_subset rfl fun _ h => h, hw.2⟩
  stored _ _ _ _ := trivial
  storedPrices hw := hw.1.stored
  delete hw _ _ := ⟨hw.1.of_subset rfl fun _ h => mem_of_mem_filter h, hw.2⟩

/-! ### What a fault leaves -/

/-- Where the pricer's rate card has been seen, the merge engine leaves memory as it is. -/
theorem memInv (h : Hashes) {pricer : Option Pricer} {mem : Memory} (hs : seenCard mem pricer) :
    WorkInv h pricer (fun _ => True) AnyPrice fun w => w.mem = mem where
  index hw _ _ _ _ := hw
  basis {w} hw := by rwa [recordBasis_seen (by rwa [hw])]
  grows _ _ := trivial
  priced _ _ _ := trivial
  free _ := trivial
  rows hw _ hrows := by
    obtain rfl := Work.writeRows_cases hrows
    exact hw
  members hw _ := hw
  stored _ _ _ _ := trivial
  storedPrices _ _ _ _ _ := trivial
  delete hw _ _ := hw

theorem chunks_length_le {α : Type} {n : Nat} {xs : List α} (hn : xs.length ≤ n) :
    (chunks n xs).length ≤ 1 := by
  unfold chunks
  cases xs with
  | nil => simp [chunksOf]
  | cons x xs =>
    have hdrop : (x :: xs).drop n = [] := drop_eq_nil_iff.mpr hn
    rw [length_cons, chunksOf, if_neg (by simp), hdrop]
    cases xs.length <;> simp [chunksOf]

/-- The state in which an ingest of one transaction fails: memory and the last commit are as before. -/
abbrev Untouched (s : SqliteStore) : Except Fault Work → Prop :=
  Post (fun w => w.mem = s.mem ∧ w.committed = s.db) fun f => f.mem = s.mem ∧ f.db = s.db

theorem mergeChunks_untouched (hs : seenCard s.mem pricer)
    (hm : w.mem = s.mem) (hc : w.committed = s.db) {chunks : List (List Contribution)}
    (hone : chunks.length ≤ 1) : Untouched s (w.mergeChunks h pricer chunks) := by
  match chunks with
  | [] => exact ⟨hm, hc⟩
  | [chunk] =>
    refine Post.bind (Post.mono ((memInv h hs).mergeChunk hm fun _ _ => trivial)
      (Q := fun w' => w'.mem = s.mem ∧ w'.committed = s.db)
      (fun w' hw' => ⟨hw'.1, hw'.2.committed.trans hc⟩) fun f hf => ?_) fun w' hw' => Post.pure hw'
    obtain ⟨w', hm', hc', hdb, hmem⟩ := hf
    exact ⟨hmem.trans hm', hdb.trans (hc'.trans hc)⟩
  | _ :: _ :: _ => simp at hone

/-- What the statements of an ingest around the merge engine keep. -/
structure Aside (cfg : Config) (now : Nat) (s : SqliteStore) (result : IngestResult) (adopting : Bool)
    (cleaned : Cleaned) (P : Work → Prop) : Prop where
  adopt : adopting → ∀ w, P w → P (w.adoptFrom now result.source)
  name : ∀ w, P w → P (w.setNameKey cfg s.db.info result.source)
  shell : ∀ w, P w → ∀ shell, P (putShell w shell)
  sessions : ∀ w, P w → P (w.sessions result.sessions)
  events : ∀ w, P w → P (w.events cfg.hashes cleaned.events)
  records : ∀ w, P w → P (w.providerRecords cleaned.aggregates cleaned.costLines result.outcomes)
  finish : ∀ w, P w → P w.finish
  source : ∀ w, P w → P (w.recordSource now result cleaned)

/-- What the merge engine and the statements around it keep holds at every point of an ingest. -/
theorem Aside.stages {adopting : Bool} {P : Work → Prop} {E : Fault → Prop}
    (ha : Aside cfg now s result adopting cleaned P) (hbegun : P { db := s.db, committed := s.db, mem := s.mem })
    (hmerge : ∀ w, P w → ∀ cs, cs <+: chunks batchRows (cleaned.requests.map fun r =>
      Contribution.of r result.source.adapter result.source.sourceId) →
        Post P E (w.mergeChunks cfg.hashes pricer cs)) :
    ∀ x ∈ ingestStages cfg now s result pricer adopting cleaned, Post P E x := by
  have hmap : ∀ {x : Except Fault Work} {g : Work → Work}, Post P E x → (∀ w, P w → P (g w)) →
      Post P E (g <$> x) := fun {x} {g} hx hg => by
    cases x with
    | ok w => exact hg w hx
    | error f => exact hx
  intro x hx
  set begun : Work := { db := s.db, committed := s.db, mem := s.mem }
  have hadopted : P (if adopting then begun.adoptFrom now result.source else begun) := by
    split
    · rename_i h
      exact ha.adopt h _ hbegun
    · exact hbegun
  set adopted := if adopting then begun.adoptFrom now result.source else begun
  have hnamed := ha.name _ hadopted
  have hshelled : P ((adopted.setNameKey cfg s.db.info result.source).shells cleaned.shells) :=
    foldl_inv (I := P) (fun w hw shell _ => ha.shell w hw shell) hnamed
  have hopened := ha.sessions _ hshelled
  have hevented := hmap (hmerge _ hopened _ prefix_rfl) ha.events
  have hrecorded := hmap hevented ha.records
  rcases mem_append.mp hx with hx | hx
  · rcases mem_append.mp hx with hx | hx
    · simp only [mem_cons, not_mem_nil, or_false] at hx
      rcases hx with rfl | rfl | rfl | rfl | rfl
      · exact hbegun
      · exact hadopted
      · exact hnamed
      · exact hshelled
      · exact hopened
    · obtain ⟨cs, hcs, rfl⟩ := mem_map.mp hx
      exact hmerge _ hopened cs ((mem_inits _ _).mp hcs)
  · simp only [mem_cons, not_mem_nil, or_false] at hx
    rcases hx with rfl | rfl | rfl | rfl
    · exact hevented
    · exact hrecorded
    · exact hmap hrecorded ha.finish
    · exact hmap hrecorded fun w hw => ha.source _ (ha.finish w hw)

/-- An ingest that returns ends in its last stage. -/
theorem ingestWork_mem (cfg : Config) (now : Nat) (s : SqliteStore) (result : IngestResult)
    (pricer : Option Pricer) (adopting : Bool) (cleaned : Cleaned) :
    ingestWork cfg now s result pricer adopting cleaned ∈
      ingestStages cfg now s result pricer adopting cleaned := by
  refine mem_append_right _ ?_
  simp only [mem_cons, not_mem_nil, or_false]
  refine .inr (.inr (.inr ?_))
  unfold ingestWork
  dsimp only
  generalize Work.mergeChunks _ _ _ _ = x
  cases x <;> rfl

/-- An ingest of one transaction that adopts no key id and prices under a rate card it has seen leaves
the store as it was, wherever it fails. -/
theorem IngestFault.restores {f : Fault} (hs : seenCard s.mem pricer) (hone : cleaned.requests.length ≤ batchRows)
    (hf : IngestFault cfg now s result pricer false cleaned f) : (⟨f.db, f.mem⟩ : SqliteStore) = s := by
  have haside : Aside cfg now s result false cleaned fun w => w.mem = s.mem ∧ w.committed = s.db :=
    { adopt := fun h => nomatch h
      name := fun w hw => by
        unfold Work.setNameKey
        split
        · split <;> exact hw
        · exact hw
      shell := fun w hw shell => by
        rcases putShell_cases w shell with he | ⟨-, l, -, -, he⟩ <;> rw [he] <;> exact hw
      sessions := fun _ hw => hw
      events := fun _ hw => hw
      records := fun _ hw => hw
      finish := fun _ hw => hw
      source := fun _ hw => hw }
  have hstages := haside.stages
    (E := fun f => f.mem = s.mem ∧ f.db = s.db) ⟨rfl, rfl⟩ fun w hw cs hcs =>
      mergeChunks_untouched hs hw.1 hw.2 (hcs.length_le.trans
        (chunks_length_le (by rw [length_map]; exact hone)))
  cases hf with
  | raised hmem =>
    obtain ⟨hm, hdb⟩ := (hstages _ hmem).of_error rfl
    rw [hm, hdb]
  | broken e hmem =>
    obtain ⟨hm, hc⟩ := (hstages _ hmem).of_ok rfl
    rw [hm, hc]

/-! ### Operations -/

namespace BasesRecorded

variable {db : Db} {mem : Memory} {now : Nat} {s : SqliteStore} {cfg : Config} {settled : Prop}

theorem deleteRequests (hb : BasesRecorded db mem) (which : RequestRow → Bool) :
    BasesRecorded (deleteRequests db which).1 mem := by
  obtain ⟨lanes, he, -⟩ := deleteRequests_frame db which
  rw [he]
  exact hb.of_subset rfl fun _ h => mem_of_mem_filter h

theorem finish {w : Work} (hb : BasesRecorded w.db mem) : BasesRecorded w.finish.db mem := by
  obtain ⟨lanes, hl⟩ := refreshLanes_frame w.db w.touchedLanes
  refine hb.of_subset ?_ fun r hr => ?_
  · show (refreshLanes w.db w.touchedLanes).info.rateCardBasis = _
    rw [hl]
  · have hr : r ∈ (refreshLanes w.db w.touchedLanes).requests := hr
    rwa [hl] at hr

theorem applyRetention {db' : Db} {days : RetentionDays}
    (hb : BasesRecorded db mem) (hr : applyRetention h db now days = .ok db') : BasesRecorded db' mem := by
  obtain ⟨c, members, -, -, hr⟩ := applyRetention_spec hr
  refine hb.of_stored hr.basis fun r' hr' i' hi' => ?_
  rw [hr.requests] at hr'
  obtain ⟨r, hmem, rfl⟩ := mem_map.mp hr'
  refine ⟨r, mem_of_mem_filter hmem, ?_⟩
  unfold nullRequest at hi'
  split at hi'
  · obtain ⟨i, hi, rfl⟩ := mem_map.mp hi'
    exact ⟨i, hi, rfl⟩
  · exact ⟨i', hi', rfl⟩

theorem reprice (hb : BasesRecorded s.db s.mem) (p : Pricer) (since until_ : Nat) :
    BasesRecorded (reprice s p since until_).db (reprice s p since until_).mem := by
  unfold Store.reprice Work.reprice
  dsimp only
  split
  · exact hb
  · set w : Work := { db := s.db, committed := s.db, mem := s.mem }
    have hw : BasesRecorded w.db w.mem := hb
    have hrec := hw.recordBasis (some p)
    refine ⟨fun r' hr' i' hi' => ?_, hrec.seen⟩
    obtain ⟨r, hr, rfl⟩ := mem_map.mp hr'
    unfold repriceRow at hi'
    split at hi'
    · obtain ⟨i, hi, rfl⟩ := mem_map.mp hi'
      split
      · intro sha hsha
        rw [rateCardSha_pricedTuple] at hsha
        exact Option.some.inj hsha ▸ hw.card p
      · exact hrec.stored r hr i hi
    · exact hrec.stored r hr i' hi'

theorem congr {mem' : Memory} (hb : BasesRecorded db mem)
    (hm : mem'.basisSeen = mem.basisSeen) : BasesRecorded db mem' :=
  ⟨hb.stored, fun sha b h => hb.seen sha b (hm ▸ h)⟩

/-- What the statements of an ingest around the merge engine do to the bases: nothing. -/
theorem aside (cfg : Config) (now : Nat) (s : SqliteStore) (result : IngestResult) (adopting : Bool)
    (cleaned : Cleaned) (settled : Prop) : Aside cfg now s result adopting cleaned fun w =>
      BasesRecorded w.db w.mem ∧
        (settled → w.mem.basisSeen = s.mem.basisSeen ∧ BasesRecorded w.committed w.mem) where
  adopt _ w hw := by
    have hbasis : (w.adoptFrom now result.source).db.info.rateCardBasis = w.db.info.rateCardBasis := by
      unfold Work.adoptFrom
      dsimp only
      split <;> rfl
    have hadopted : BasesRecorded (w.adoptFrom now result.source).db w.mem :=
      hw.1.of_subset hbasis fun _ h => h
    exact ⟨hadopted.congr rfl, fun hset => ⟨(hw.2 hset).1, (hw.2 hset).2.congr rfl⟩⟩
  name w hw := by
    unfold Work.setNameKey
    split
    · split
      · exact ⟨hw.1.of_subset rfl fun _ h => h, hw.2⟩
      · exact hw
    · exact hw
  shell w hw shell := by
    rcases putShell_cases w shell with he | ⟨-, l, -, -, he⟩
    · rwa [he]
    · rw [he]
      exact ⟨hw.1.of_subset rfl fun _ h => h, hw.2⟩
  sessions _ hw := ⟨hw.1.of_subset rfl fun _ h => h, hw.2⟩
  events _ hw := ⟨hw.1.of_subset rfl fun _ h => h, hw.2⟩
  records _ hw := ⟨hw.1.of_subset rfl fun _ h => h, hw.2⟩
  finish _ hw := ⟨hw.1.finish, hw.2⟩
  source _ hw := ⟨hw.1.of_subset rfl fun _ h => h, hw.2⟩

/-- At every point of an ingest the bases are recorded, and where the rate card has been seen before
they are recorded in what a fault leaves. -/
theorem stages {result : IngestResult} {adopting : Bool} {cleaned : Cleaned} (hb : BasesRecorded s.db s.mem)
    (hs : settled → seenCard s.mem pricer) :
    ∀ x ∈ ingestStages cfg now s result pricer adopting cleaned,
      Post (fun w => BasesRecorded w.db w.mem ∧
          (settled → w.mem.basisSeen = s.mem.basisSeen ∧ BasesRecorded w.committed w.mem))
        (fun f => settled → BasesRecorded f.db f.mem) x := by
  refine (aside cfg now s result adopting cleaned settled).stages ⟨hb, fun _ => ⟨rfl, hb⟩⟩
    fun w hw cs _ => ?_
  have hcard : settled → seenCard w.mem pricer := fun hset => by
    have hold := hs hset
    unfold seenCard at hold ⊢
    rwa [(hw.2 hset).1]
  have hI := basesInv cfg.hashes pricer w.mem hcard
  refine Post.mono (hI.mergeChunks (G := fun db => settled → BasesRecorded db w.mem) (fun w' hw' => ?_)
    ⟨hw.1, fun _ => rfl⟩ (fun hset => (hw.2 hset).2) fun _ _ _ _ => trivial) (fun w' hw' => ?_)
    fun f ⟨w', hw', hG, hdb, hm⟩ hset => ?_
  · exact ⟨⟨hw'.1.finish, hw'.2⟩, fun hset => hw'.2 hset ▸ hw'.1.finish⟩
  · refine ⟨hw'.1.1, fun hset => ?_⟩
    rw [hw'.1.2 hset]
    exact ⟨(hw.2 hset).1, hw'.2 hset⟩
  · rw [hdb, hm, hw'.2 hset]
    exact hG hset

theorem purgeRequests {w : Work} (hb : BasesRecorded w.db w.mem)
    (hm : settled → w.mem = mem) (hs : settled → seenCard mem cfg.pricer)
    (which : RequestRow → Bool) (member : MemberRow → Bool) (drop : Contribution → Bool) :
    Post (fun q => (BasesRecorded q.1.db q.1.mem ∧ (settled → q.1.mem = mem)) ∧
        q.1.committed = w.committed)
      (fun f => f.db = w.committed ∧ (settled → f.mem = mem))
      (w.purgeRequests cfg which member drop) := by
  unfold Work.purgeRequests
  have hdel := hb.deleteRequests which
  generalize Store.deleteRequests w.db which = d at hdel
  obtain ⟨db, n⟩ := d
  dsimp only
  split
  · exact ⟨⟨hdel, hm⟩, rfl⟩
  · have hI := basesInv cfg.hashes cfg.pricer mem hs
    have hregroup := hI.toWriteInv.regroup (w := { w with db })
      (fun w hw gids members => hI.delete hw gids members)
      (Q := fun w' => BasesRecorded w'.db w'.mem ∧ (settled → w'.mem = mem))
      (fun w' hw' => ⟨hw'.1.finish, hw'.2⟩) ⟨hdel, hm⟩ (fun _ _ _ c _ (_ : drop c = false) => trivial)
      (fun w' hw' => hI.storedPrices hw') (partialGroups db member)
    refine Post.bind (Post.mono hregroup (fun w' hw' => hw') fun f hf => ?_)
      fun w' hw' => Post.pure (P := fun q : Work × Nat =>
        (BasesRecorded q.1.db q.1.mem ∧ (settled → q.1.mem = mem)) ∧ q.1.committed = w.committed) hw'
    obtain ⟨w', hw', hc, hdb, hmem⟩ := hf
    exact ⟨hdb.trans hc, fun hset => hmem.trans (hw'.2 hset)⟩

theorem purgeWork (hb : BasesRecorded s.db s.mem)
    (hs : settled → seenCard s.mem cfg.pricer) (principal : Option Principal)
    (beforeMs : Option Nat) (actor : String) :
    Post (fun q => BasesRecorded q.1.db q.1.mem) (fun f => f.db = s.db ∧ (settled → f.mem = s.mem))
      (purgeWork cfg now s principal beforeMs actor) := by
  let P : Work × Nat → Prop := fun q =>
    (BasesRecorded q.1.db q.1.mem ∧ (settled → q.1.mem = s.mem)) ∧ q.1.committed = s.db
  have hprincipal : Post P (fun f => f.db = s.db ∧ (settled → f.mem = s.mem))
      (Work.purgePrincipal { db := s.db, committed := s.db, mem := s.mem } cfg principal) := by
    cases principal with
    | none => exact ⟨⟨hb, fun _ => rfl⟩, rfl⟩
    | some p =>
      exact (purgeRequests (w := { db := s.db, committed := s.db, mem := s.mem }) hb (fun _ => rfl) hs
        _ _ _).bind fun q hq => ⟨⟨hq.1.1.of_subset rfl fun _ h => h, hq.1.2⟩, hq.2⟩
  refine hprincipal.bind fun q hq => ?_
  have hbefore : Post P (fun f => f.db = s.db ∧ (settled → f.mem = s.mem))
      (q.1.purgeBefore cfg beforeMs) := by
    cases beforeMs with
    | none => exact hq
    | some before =>
      refine Post.bind (P := P) (Post.mono (purgeRequests hq.1.1 hq.1.2 hs _ _ _)
        (fun q' hq' => ⟨hq'.1, hq'.2.trans hq.2⟩) fun f hf => ⟨hf.1.trans hq.2, hf.2⟩) fun q' hq' => ?_
      exact ⟨⟨hq'.1.1.of_subset rfl fun _ h => h, hq'.1.2⟩, hq'.2⟩
  refine hbefore.bind fun q' hq' => ?_
  exact hq'.1.1.of_subset rfl fun _ h => h

end BasesRecorded

/-! ### Failed ingests and reopened stores -/

/-- The stores an ingest may leave when it fails, before its transaction or in it. -/
inductive FailedIngest (cfg : Config) (now : Nat) (s : SqliteStore) (result : IngestResult)
    (pricer : Option Pricer) : SqliteStore → Prop
  | prepared : FailedIngest cfg now s result pricer s
  | fault {adopting : Bool} {cleaned : Cleaned} {f : Fault} :
      adoption cfg s.db.info result.source = .ok adopting →
      clean cfg (namesOk cfg s.db.info result.source adopting)
        (principalsOk s.db.info result.source adopting) result = .ok cleaned →
      IngestFault cfg now s result (pricer.or cfg.pricer) adopting cleaned f →
      FailedIngest cfg now s result pricer ⟨f.db, f.mem⟩

theorem clean_requests_length {names principals : Bool} (hc : clean cfg names principals result = .ok cleaned) :
    cleaned.requests.length = (allRequests result).length := by
  obtain ⟨requests, hr, hc⟩ := bind_eq_ok.mp hc
  obtain ⟨_, -, hc⟩ := bind_eq_ok.mp hc
  obtain ⟨_, -, hc⟩ := bind_eq_ok.mp hc
  obtain rfl := pure_eq_ok.mp hc
  rw [length_map]
  exact (mapM_eq_ok.mp hr).length_eq.symm

/-- The org key of `_check_meta`. -/
def checkOrgKey (cfg : Config) (info : Meta) : Except Error Meta :=
  match cfg.orgKey with
  | none => .ok info
  | some key =>
    let own := cfg.hashes.keyId key
    if info.orgKeyId = "" then .ok { info with orgKeyId := own, orgKeyMode := "own" }
    else if info.orgKeyId = own then .ok info
    else .error (.usage "the org key does not match this ledger (key id differs)")

/-- The name key id of `_check_meta`. -/
def checkNameKey (nameKeyId : Option String) (info : Meta) : Except Error Meta :=
  match nameKeyId.filter (· ≠ "") with
  | none => .ok info
  | some name =>
    if info.nameKeyId = "" then .ok { info with nameKeyId := name }
    else if info.nameKeyId = name then .ok info
    else .error (.usage "the name key id does not match this ledger")

/-- `SqliteStore(path)` of a ledger that exists: `_check_meta`, and a memory of its own. -/
def SqliteStore.reopen (cfg : Config) (nameKeyId : Option String) (db : Db) :
    Except Error SqliteStore := do
  let info ← checkOrgKey cfg db.info
  let info ← checkNameKey nameKeyId info
  let own := (cfg.orgKey.map cfg.hashes.keyId).getD ""
  pure ⟨{ db with info },
    { acceptedKeyIds := ([info.orgKeyId, info.adoptedKeyId, own].filter (· ≠ "")).dedup }⟩

/-- A reopened ledger has the tables it had, and the bases of its rate cards. -/
theorem reopen_spec {db : Db} (hs : SqliteStore.reopen cfg nameKeyId db = .ok s) : ∃ info, s.db = { db with info } ∧
      info.rateCardBasis = db.info.rateCardBasis ∧ s.mem.basisSeen = [] := by
  obtain ⟨info, horg, hs⟩ := bind_eq_ok.mp hs
  obtain ⟨info', hname, hs⟩ := bind_eq_ok.mp hs
  obtain rfl := pure_eq_ok.mp hs
  refine ⟨info', rfl, ?_, rfl⟩
  have h1 : info.rateCardBasis = db.info.rateCardBasis := by
    unfold checkOrgKey at horg
    split at horg
    · cases horg
      rfl
    · dsimp only at horg
      split at horg
      · cases horg
        rfl
      · split at horg <;> cases horg
        rfl
  unfold checkNameKey at hname
  split at hname
  · cases hname
    exact h1
  · split at hname
    · cases hname
      exact h1
    · split at hname <;> cases hname
      exact h1

theorem aggregate_congr (hr : s'.db.requests = s.db.requests)
    (hl : s'.db.lanes = s.db.lanes) (hb : ∀ shas, billedBasis s' shas = billedBasis s shas)
    (since until_ : Int) (groupBy : List String) (clause : List (String × String)) (pricer : Option Pricer) :
    aggregate s' since until_ groupBy clause pricer = aggregate s since until_ groupBy clause pricer := by
  have hitems : aggItems s'.db since until_ clause = aggItems s.db since until_ clause := by
    have hkind : s'.db.laneKind = s.db.laneKind := funext fun key => by
      unfold Db.laneKind
      rw [hl]
    unfold aggItems
    rw [hr, hkind]
  have hrow : aggRow s' pricer = aggRow s pricer := by
    funext dims cell
    unfold aggRow
    simp only [hb]
  unfold aggregate
  rw [hitems, hrow]

/-- What memory knows of the bases is what a store without memory reads. -/
theorem BasesRecorded.billedBasis (hb : BasesRecorded s.db s.mem)
    (hi : s'.db.info.rateCardBasis = s.db.info.rateCardBasis) (hm : s'.mem.basisSeen = [])
    (shas : List String) : billedBasis s' shas = billedBasis s shas := by
  have hread : ∀ sha, ((s'.mem.basisSeen.lookup sha).or (s'.db.info.rateCardBasis.lookup sha)) =
      (s.mem.basisSeen.lookup sha).or (s.db.info.rateCardBasis.lookup sha) := fun sha => by
    rw [hm, hi, lookup_nil, Option.none_or]
    cases hx : s.mem.basisSeen.lookup sha with
    | none => rfl
    | some b => rw [hb.seen sha b hx, Option.some_or]
  unfold Store.billedBasis
  simp only [hread]

/-! ### Runs with faults -/

/-- An operation that fails in its transaction prices under a rate card memory has seen. -/
def Op.Settled (cfg : Config) (s : SqliteStore) : Op → Prop
  | .ingest now result pricer => ∀ adopting cleaned f,
      ingestWork cfg now s result (pricer.or cfg.pricer) adopting cleaned = .error f →
        seenCard s.mem (pricer.or cfg.pricer)
  | .purge now principal beforeMs actor => ∀ f,
      purgeWork cfg now s principal beforeMs actor = .error f → seenCard s.mem cfg.pricer
  -- a run takes the retentions by the database they leave
  | .retention _ _ => False
  | _ => True

/-- The stores some operations, failed ingests and reopenings reach, where what fails prices under a
rate card memory has seen. -/
inductive Reached (cfg : Config) (nameKeyId : Option String) : SqliteStore → Prop
  | create : Reached cfg nameKeyId (.create cfg nameKeyId)
  | step {s : SqliteStore} (op : Op) : Reached cfg nameKeyId s → op.Settled cfg s →
      Reached cfg nameKeyId (step cfg s op)
  | retention {s : SqliteStore} {now : Nat} {days : RetentionDays} {db : Db} :
      Reached cfg nameKeyId s → applyRetention cfg.hashes s.db now days = .ok db →
      Reached cfg nameKeyId { s with db }
  | failed {s s' : SqliteStore} {now : Nat} {result : IngestResult} {pricer : Option Pricer} :
      Reached cfg nameKeyId s → FailedIngest cfg now s result pricer s' →
      seenCard s.mem (pricer.or cfg.pricer) → Reached cfg nameKeyId s'
  | reopen {s s' : SqliteStore} {name : Option String} : Reached cfg nameKeyId s →
      SqliteStore.reopen cfg name s.db = .ok s' → Reached cfg nameKeyId s'

theorem BasesRecorded.ingest (hb : BasesRecorded s.db s.mem) (hop : (Op.ingest now result pricer).Settled cfg s) :
    BasesRecorded (ingest cfg now s result pricer).1.db (ingest cfg now s result pricer).1.mem := by
  unfold Store.ingest
  split
  · exact hb
  · dsimp only
    split
    · exact hb
    · rename_i adopting cleaned hprep
      have hmem := ingestWork_mem cfg now s result (pricer.or cfg.pricer) adopting cleaned
      split
      · rename_i f hf
        have hseen : True → seenCard s.mem (pricer.or cfg.pricer) := fun _ => hop adopting cleaned f hf
        exact (hb.stages hseen _ hmem).of_error hf trivial
      · rename_i w hw
        exact ((hb.stages False.elim _ hmem).of_ok hw).1

theorem BasesRecorded.purge {principal : Option Principal}
    {beforeMs : Option Nat} {actor : String} (hb : BasesRecorded s.db s.mem)
    (hop : (Op.purge now principal beforeMs actor).Settled cfg s) :
    BasesRecorded (purge cfg now s principal beforeMs actor).1.db
      (purge cfg now s principal beforeMs actor).1.mem := by
  unfold Store.purge
  split
  · exact hb
  · split
    · exact hb
    · split
      · rename_i f hf
        have hseen : True → seenCard s.mem cfg.pricer := fun _ => hop f hf
        obtain ⟨hdb, hmem⟩ := (hb.purgeWork hseen principal beforeMs actor).of_error hf
        rw [hdb, hmem trivial]
        exact hb
      · rename_i w n hw
        exact (hb.purgeWork False.elim principal beforeMs actor).of_ok hw

theorem BasesRecorded.step {op : Op} (hb : BasesRecorded s.db s.mem)
    (hop : op.Settled cfg s) : BasesRecorded (step cfg s op).db (step cfg s op).mem := by
  cases op with
  | ingest now result pricer => exact hb.ingest hop
  | purge now principal beforeMs actor => exact hb.purge hop
  | delete which => exact hb.deleteRequests which
  | retention now days => exact hop.elim
  | reprice p since until_ => exact hb.reprice p since until_
  | refresh dates => cases dates <;> exact hb.of_subset rfl fun _ h => h
  | clusterDays readOnly kind since until_ =>
    unfold Store.step Store.clusterDays
    dsimp only
    split
    · exact hb
    · exact hb.of_subset rfl fun _ h => h
  | putFindings now runId findings => exact hb.of_subset rfl fun _ h => h

theorem BasesRecorded.failed {pricer : Option Pricer} (hb : BasesRecorded s.db s.mem)
    (hf : FailedIngest cfg now s result pricer s') (hseen : seenCard s.mem (pricer.or cfg.pricer)) :
    BasesRecorded s'.db s'.mem := by
  cases hf with
  | prepared => exact hb
  | fault _ _ hf =>
    cases hf with
    | raised hmem => exact (hb.stages (fun _ : True => hseen) _ hmem).of_error rfl trivial
    | broken e hmem => exact (((hb.stages (fun _ : True => hseen) _ hmem).of_ok rfl).2 trivial).2

theorem BasesRecorded.reopen (hb : BasesRecorded s.db s.mem) (hr : SqliteStore.reopen cfg nameKeyId s.db = .ok s') :
    BasesRecorded s'.db s'.mem := by
  obtain ⟨info, hdb, hbasis, hm⟩ := reopen_spec hr
  rw [hdb]
  refine ⟨(@of_subset s.db { s.db with info } s.mem hb hbasis fun _ h => h).stored, fun sha b h => ?_⟩
  rw [hm] at h
  cases h

theorem BasesRecorded.create (cfg : Config) (nameKeyId : Option String) :
    BasesRecorded (SqliteStore.create cfg nameKeyId).db (SqliteStore.create cfg nameKeyId).mem where
  stored r hr := by cases hr
  seen sha b h := by cases h

theorem Reached.basesRecorded (hs : Reached cfg nameKeyId s) : BasesRecorded s.db s.mem := by
  induction hs with
  | create => exact .create cfg nameKeyId
  | step op _ hop ih => exact ih.step hop
  | retention _ hr ih => exact ih.applyRetention hr
  | failed _ hf hseen ih => exact ih.failed hf hseen
  | reopen _ hr ih => exact ih.reopen hr

/-- What a failed ingest, a stored price and a reopening promise. -/
structure Atomic (cfg : Config) (s : SqliteStore) : Prop where
  /-- An ingest of one transaction that fails with nothing new to remember leaves the store it met. -/
  restored : ∀ now result pricer s', FailedIngest cfg now s result pricer s' →
    (allRequests result).length ≤ batchRows → seenCard s.mem (pricer.or cfg.pricer) →
    adoption cfg s.db.info result.source ≠ .ok true → s' = s
  recorded : ∀ r ∈ s.db.requests, ∀ i ∈ r.inferences, Recorded s.db.info i.priced
  /-- A store that is opened again reports the totals it reported. -/
  reopened : ∀ nameKeyId s', SqliteStore.reopen cfg nameKeyId s.db = .ok s' →
    ∀ since until_ groupBy clause pricer,
      aggregate s' since until_ groupBy clause pricer = aggregate s since until_ groupBy clause pricer

def contractPricer : Pricer where
  rateCardSha256 := "card"
  basis := .contract
  priceInference _ _ :=
    { figure := exactFigure 7 .contract, lines := [], exactNano := 7, estimated := none
      unpricedReason := none }

def sharedAttempt : IngestResult where
  source := sampleSource "a"
  requests := [sampleRequest "q" none,
    { sampleRequest "r" none with
      attempts := (sampleRequest "q" none).attempts, attempts_ne := (sampleRequest "q" none).attempts_ne }]

def failedFirst : List Op :=
  [.ingest 0 sharedAttempt (some contractPricer),
   .ingest 0 { source := sampleSource "b", requests := [sampleRequest "r" none] } (some contractPricer)]

/-- Whether every stored rate card has its basis in `meta`. -/
def allRecorded (db : Db) : Bool :=
  db.requests.all fun r => r.inferences.all fun i =>
    i.priced.rateCardSha.all fun sha => (db.info.rateCardBasis.lookup sha).isSome

def reopenedBasis (cfg : Config) (s : SqliteStore) (sha : String) : Option Basis :=
  (SqliteStore.reopen cfg none s.db).toOption.map fun s' => billedBasis s' [sha]

theorem allRecorded_iff {db : Db} :
    allRecorded db = true ↔ ∀ r ∈ db.requests, ∀ i ∈ r.inferences, Recorded db.info i.priced := by
  simp [allRecorded, Recorded, Option.all_eq_true]

end TokenBill.Store
