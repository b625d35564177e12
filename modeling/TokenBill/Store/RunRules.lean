import TokenBill.Store.Freshness

/-!
# Rules of a run

What the operations of a run do to the rollups and to what they are computed from, said
once: each is a transaction of tracked writes, a refresh of some dates, or a change of
other tables. An invariant of databases that survives these survives every operation but
a retention, if an ingest's shells are tracked too.
-/

namespace TokenBill.Store

open General

/-- Two databases with the same requests, lanes and rollups. -/
structure SameRollups (db db' : Db) : Prop where
  requests : db'.requests = db.requests
  lanes : db'.lanes = db.lanes
  daily : db'.dailyRollup = db.dailyRollup
  cluster : db'.clusterDay = db.clusterDay
  retained : db'.info.identityRetainedBefore = db.info.identityRetainedBefore

/-- The writes of `delete_requests`, before its lanes are refreshed. -/
def dropWork (db : Db) (which : RequestRow → Bool) : Work :=
  let gone := db.requests.filter which
  { db := dropRequests db which
    committed := db
    mem := {}
    touchedLanes := gone.map (·.request.laneKey)
    dirty := gone.map (·.dateUtc) }

theorem deleteRequests_requests (db : Db) (which : RequestRow → Bool) :
    (deleteRequests db which).1.requests = db.requests.filter fun r => !which r :=
  (refreshLanes_spec _ _).1

def From (beforeMs : Nat) (w : Work) : Prop :=
  ∀ r ∈ w.db.requests, beforeMs ≤ r.request.tsStartMs

/-- A database without its rollup rows and provider records before a date. -/
structure DropsBefore (cut : Nat) (db db' : Db) : Prop where
  requests : db'.requests = db.requests
  lanes : db'.lanes = db.lanes
  info : db'.info = db.info
  daily : db'.dailyRollup = db.dailyRollup.filter fun r => decide (cut ≤ r.key.dateUtc)
  cluster : db'.clusterDay = db.clusterDay.filter fun r => decide (cut ≤ r.key.dateUtc)

/-- An invariant `F` of databases that survives the writes `T` tracks. -/
structure RunInv (T : Db → Work → Prop) (F : Db → Prop) : Prop where
  work : ∀ h pricer db, WorkInv h pricer (fun _ => True) AnyPrice (T db)
  start : ∀ w : Work, T w.db w
  aside : ∀ {db w w'}, T db w → SameRollups w.db w'.db → w'.stale = w.stale → T db w'
  finish : ∀ {db w}, T db w → T db w.finish
  drops : ∀ db which, T db (dropWork db which)
  reprice : ∀ {db w}, T db w → ∀ p inWindow, T db (w.reprice p inWindow)
  tracked : ∀ {db w}, F db → T db w → w.dirty = [] → F w.db
  refresh : ∀ {db}, F db → ∀ dates, F (refreshDates db dates)
  dropBefore : ∀ {db db' cut}, F db → (∀ r ∈ db.requests, cut ≤ r.dateUtc) → DropsBefore cut db db' → F db'

/-! ### Purges -/

theorem From.writeInv (h : Hashes) (pricer : Option Pricer) (beforeMs : Nat) :
    WriteInv h pricer (fun c => beforeMs ≤ c.request.tsStartMs) AnyPrice (From beforeMs) where
  grows _ _ := trivial
  priced _ _ _ := trivial
  free _ := trivial
  index hw _ _ _ _ := hw
  basis {w} hw := by
    unfold Work.recordBasis
    split
    · exact hw
    · split <;> exact hw
  rows {w w' entries} hw he hrows := by
    obtain rfl := Work.writeRows_cases hrows
    intro r hr
    rcases List.mem_append.mp hr with hr | hr
    · exact hw r hr
    · obtain ⟨group, mg, priced, hC, hg, -, rfl⟩ := he r hr
      calc beforeMs ≤ mg.winner.request.tsStartMs := hC _ (mergeGroup_winner hg)
        _ = mg.request.tsStartMs := (mergeGroup_tsStart hg).symm
  members hw _ := hw

/-- What a purge before a time leaves starts at that time or later. -/
theorem purgeRequests_from {cfg : Config} (w : Work) (beforeMs : Nat) (member : MemberRow → Bool) :
    Post (fun p => From beforeMs p.1) (fun _ => True)
      (w.purgeRequests cfg (fun r => decide (r.request.tsStartMs < beforeMs)) member
        fun c => decide (c.request.tsStartMs < beforeMs)) := by
  unfold Work.purgeRequests
  have hreq := deleteRequests_requests w.db fun r => decide (r.request.tsStartMs < beforeMs)
  generalize deleteRequests w.db _ = d at hreq
  obtain ⟨db, n⟩ := d
  dsimp only at hreq ⊢
  have hw : From beforeMs { w with db } := by
    intro r hr
    have hr := (List.mem_filter.mp (hreq ▸ hr)).2
    simpa using hr
  split
  · exact hw
  · refine Post.bind (P := From beforeMs) (Post.mono
      ((From.writeInv cfg.hashes cfg.pricer beforeMs).regroup
        (fun w hw gids members r hr => hw r (List.mem_of_mem_filter hr)) (Q := From beforeMs)
        (fun w' hw' r hr => ?_) hw (fun _ _ _ c _ hd => by simpa using hd)
        (fun _ _ _ _ _ _ => trivial) _) (fun w' h => h.1)
      fun _ _ => trivial) fun w' hw' => Post.pure (P := fun p : Work × Nat => From beforeMs p.1) hw'
    exact hw' r ((refreshLanes_spec w'.db w'.touchedLanes).1 ▸ hr)

theorem clean_shells {cfg : Config} {names principals : Bool} {result : IngestResult}
    {cleaned : Cleaned} (h : clean cfg names principals result = .ok cleaned) :
    cleaned.shells = allShells result := by
  obtain ⟨_, -, h⟩ := bind_eq_ok.mp h
  obtain ⟨_, -, h⟩ := bind_eq_ok.mp h
  obtain ⟨_, -, h⟩ := bind_eq_ok.mp h
  obtain rfl := pure_eq_ok.mp h
  rfl

/-- The shells of an ingest are tracked: unless it is skipped, from every work that has the requests
and lanes of the store. -/
def ShellsTracked (T : Db → Work → Prop) (db : Db) (result : IngestResult) : Prop :=
  ingested db result.source = false → ∀ w : Work, T db w → w.db.requests = db.requests →
    w.db.lanes = db.lanes → w.stale = db.info.rollupsDirty → T db (w.shells (allShells result))

/-- What an operation must meet to keep an invariant of a run: it is no retention, and an ingest's
shells are tracked. -/
def Op.Tracked (T : Db → Work → Prop) (s : SqliteStore) : Op → Prop
  | .ingest _ result _ => ShellsTracked T s.db result
  | .retention _ _ => False
  | _ => True

namespace RunInv

variable {T : Db → Work → Prop} {F : Db → Prop}

theorem elsewhere (hI : RunInv T F) {db db' : Db} (hf : F db) (hs : SameRollups db db')
    (hd : db'.info.rollupsDirty = db.info.rollupsDirty) : F db' := by
  have ht := hI.start { db := db, committed := db, mem := {} }
  have ht' : T db { db := db', committed := db, mem := {} } := by
    refine hI.aside ht hs ?_
    exact congrArg (· ++ []) hd
  exact hI.tracked hf ht' rfl

/-! ### Ingest -/

/-- Keys and names are kept in `meta`. -/
theorem keys (hI : RunInv T F) (cfg : Config) (now : Nat) (s : SqliteStore) (src : SourceInfo)
    (adopting : Bool) :
    let w0 : Work := { db := s.db, committed := s.db, mem := s.mem }
    let w1 := (if adopting then w0.adoptFrom now src else w0).setNameKey cfg s.db.info src
    T s.db w1 ∧ w1.db.requests = s.db.requests ∧ w1.db.lanes = s.db.lanes ∧
      w1.stale = s.db.info.rollupsDirty ∧ w1.committed = s.db := by
  intro w0 w1
  have hstart : T s.db w0 := hI.start w0
  have hframe : SameRollups w0.db w1.db ∧ w1.stale = w0.stale ∧ w1.committed = s.db := by
    have hadopt : SameRollups w0.db (if adopting then w0.adoptFrom now src else w0).db ∧
        (if adopting then w0.adoptFrom now src else w0).stale = w0.stale ∧
        (if adopting then w0.adoptFrom now src else w0).committed = s.db := by
      split
      · unfold Work.adoptFrom
        dsimp only
        split <;> exact ⟨⟨rfl, rfl, rfl, rfl, rfl⟩, rfl, rfl⟩
      · exact ⟨⟨rfl, rfl, rfl, rfl, rfl⟩, rfl, rfl⟩
    obtain ⟨hsame, hstale, hc⟩ := hadopt
    unfold w1 Work.setNameKey
    split
    · split
      · exact ⟨⟨hsame.requests, hsame.lanes, hsame.daily, hsame.cluster, hsame.retained⟩, hstale, hc⟩
      · exact ⟨hsame, hstale, hc⟩
    · exact ⟨hsame, hstale, hc⟩
  obtain ⟨hsame, hstale, hc⟩ := hframe
  exact ⟨hI.aside hstart hsame hstale, hsame.requests, hsame.lanes,
    hstale.trans (List.append_nil _), hc⟩

variable {s : SqliteStore} {cfg : Config} {w : Work}

theorem ingestWork (hI : RunInv T F) (cfg : Config) (now : Nat) {result : IngestResult}
    (pricer : Option Pricer) (adopting : Bool) {cleaned : Cleaned} (hf : F s.db)
    (hnew : ingested s.db result.source = false) (hclean : cleaned.shells = allShells result)
    (hs : ShellsTracked T s.db result) :
    Post (fun w => F w.db) (fun f => F f.db) (ingestWork cfg now s result pricer adopting cleaned) := by
  unfold Store.ingestWork
  dsimp only
  have hkeys := hI.keys cfg now s result.source adopting
  dsimp only at hkeys
  generalize (if adopting then Work.adoptFrom _ now result.source else _).setNameKey cfg s.db.info
    result.source = w1 at hkeys
  obtain ⟨ht0, hreq, hlanes, hstale, hcommitted⟩ := hkeys
  have ht1 : T s.db (w1.shells cleaned.shells) := hclean ▸ hs hnew w1 ht0 hreq hlanes hstale
  have hcommit1 : (w1.shells cleaned.shells).committed = s.db := by
    refine foldl_inv (I := fun w : Work => w.committed = s.db) (fun w hw shell _ => ?_) hcommitted
    unfold putShell
    dsimp only
    split <;> exact hw
  have ht2 : T s.db ((w1.shells cleaned.shells).sessions result.sessions) :=
    hI.aside ht1 ⟨rfl, rfl, rfl, rfl, rfl⟩ rfl
  have hf2 : F ((w1.shells cleaned.shells).sessions result.sessions).committed := hcommit1.symm ▸ hf
  refine Post.bind (Post.mono ((hI.work cfg.hashes pricer s.db).mergeChunks (G := F)
    (fun w hw => ⟨hI.aside (hI.finish hw) ⟨rfl, rfl, rfl, rfl, rfl⟩ rfl,
      hI.tracked hf (hI.finish hw) rfl⟩) ht2 hf2
    fun _ _ _ _ => trivial) (fun w h => h.1) fun f herr => ?_) fun w hw => ?_
  · obtain ⟨w, -, hg, hdb, -⟩ := herr
    exact hdb ▸ hg
  refine Post.pure (hI.tracked (w := Work.recordSource _ now result cleaned) hf ?_ rfl)
  have hrecords : T s.db ((w.events cfg.hashes cleaned.events).providerRecords cleaned.aggregates
      cleaned.costLines result.outcomes) := hI.aside hw ⟨rfl, rfl, rfl, rfl, rfl⟩ rfl
  exact hI.aside (hI.finish hrecords) ⟨rfl, rfl, rfl, rfl, rfl⟩ rfl

theorem ingest (hI : RunInv T F) {now : Nat} {result : IngestResult}
    {pricer : Option Pricer} (hf : F s.db) (hs : ShellsTracked T s.db result) :
    F (ingest cfg now s result pricer).1.db := by
  unfold Store.ingest
  split
  · exact hf
  · rename_i hnew
    dsimp only
    split
    · exact hf
    · rename_i adopting cleaned hprep
      obtain ⟨a, -, hprep⟩ := bind_eq_ok.mp hprep
      obtain ⟨c, hclean, hprep⟩ := bind_eq_ok.mp hprep
      obtain ⟨rfl, rfl⟩ : a = adopting ∧ c = cleaned := by simpa using pure_eq_ok.mp hprep
      have hpost := hI.ingestWork cfg now (pricer.or cfg.pricer) a hf (by simpa using hnew)
        (clean_shells hclean) hs
      split
      · rename_i f hw
        exact hpost.of_error hw
      · rename_i w hw
        exact hpost.of_ok hw

/-! ### Deletion and purge -/

theorem delete (hI : RunInv T F) {db : Db} (hf : F db) (which : RequestRow → Bool) :
    F (deleteRequests db which).1 :=
  hI.tracked hf (hI.finish (hI.drops db which)) rfl

theorem purgeRequests (hI : RunInv T F) (hf : F w.db) (hc : F w.committed)
    (which : RequestRow → Bool) (member : MemberRow → Bool) (drop : Contribution → Bool) :
    Post (fun p => F p.1.db ∧ F p.1.committed) (fun f => F f.db)
      (w.purgeRequests cfg which member drop) := by
  unfold Work.purgeRequests
  have hdel := hI.delete hf which
  generalize deleteRequests w.db which = d at hdel
  obtain ⟨db, n⟩ := d
  dsimp only
  split
  · exact ⟨hdel, hc⟩
  · have hw : T db { w with db } := hI.start { w with db }
    have hwork := hI.work cfg.hashes cfg.pricer db
    refine Post.bind (P := fun w' : Work => F w'.db ∧ F w'.committed) (Post.mono
      (hwork.toWriteInv.regroup (fun w hw gids members => hwork.delete hw gids members)
        (Q := fun w' => F w'.db) (fun w' hw' => hI.tracked hdel (hI.finish hw') rfl) hw
        (fun _ _ _ _ _ _ => trivial) (fun _ _ _ _ _ _ => trivial) _) (fun w' h => ⟨h.1, ?_⟩) fun f h => ?_)
      fun w' hw' => Post.pure (P := fun p : Work × Nat => F p.1.db ∧ F p.1.committed) hw'
    · exact h.2.symm ▸ hc
    · exact h.db.symm ▸ hc

theorem purgePrincipal (hI : RunInv T F) (cfg : Config) (hf : F w.db) (hc : F w.committed)
    (principal : Option Principal) : Post (fun q => F q.1.db ∧ F q.1.committed)
      (fun f => F f.db) (w.purgePrincipal cfg principal) := by
  cases principal with
  | none => exact ⟨hf, hc⟩
  | some p =>
    refine (hI.purgeRequests hf hc _ _ _).bind fun q hq => ?_
    exact ⟨hI.elsewhere hq.1 ⟨rfl, rfl, rfl, rfl, rfl⟩ rfl, hq.2⟩

theorem purgeBefore (hI : RunInv T F) (hf : F w.db) (hc : F w.committed)
    (beforeMs : Option Nat) : Post (fun q => F q.1.db ∧ F q.1.committed)
      (fun f => F f.db) (w.purgeBefore cfg beforeMs) := by
  cases beforeMs with
  | none => exact ⟨hf, hc⟩
  | some before =>
    refine ((hI.purgeRequests hf hc _ _ _).and (purgeRequests_from w before _)).bind fun q hq => ?_
    obtain ⟨⟨hq, hqc⟩, hfrom⟩ := hq
    have hcut : ∀ r ∈ q.1.db.requests, dayOf (min before maxMs) ≤ r.dateUtc := fun r hr =>
      Nat.div_le_div_right ((Nat.min_le_left _ _).trans (hfrom r hr))
    exact ⟨hI.dropBefore hq hcut ⟨rfl, rfl, rfl, rfl, rfl⟩, hqc⟩

theorem purge (hI : RunInv T F) {now : Nat} (hf : F s.db)
    (principal : Option Principal) (beforeMs : Option Nat) (actor : String) :
    F (purge cfg now s principal beforeMs actor).1.db := by
  have hpost : Post (fun q => F q.1.db) (fun f => F f.db)
      (purgeWork cfg now s principal beforeMs actor) := by
    have hprincipal := hI.purgePrincipal cfg
      (w := { db := s.db, committed := s.db, mem := s.mem }) hf hf principal
    refine hprincipal.bind fun q hq => ?_
    refine (hI.purgeBefore hq.1 hq.2 beforeMs).bind fun q' hq' => ?_
    exact hI.elsewhere (hI.refresh hq'.1 _) ⟨rfl, rfl, rfl, rfl, rfl⟩ rfl
  unfold Store.purge
  split
  · exact hf
  · split
    · exact hf
    · split
      · rename_i f hw
        exact hpost.of_error hw
      · rename_i w n hw
        exact hpost.of_ok hw

/-! ### Steps -/

theorem repriced (hI : RunInv T F) (hf : F s.db) (p : Pricer) (since until_ : Nat) :
    F (Store.reprice s p since until_).db := by
  have ht := hI.reprice (hI.start { db := s.db, committed := s.db, mem := s.mem }) p fun r =>
    decide (since ≤ r.request.tsStartMs ∧ r.request.tsStartMs < until_)
  refine hI.tracked hf ht ?_
  unfold Work.reprice
  dsimp only
  split
  · rfl
  · unfold Work.recordBasis
    dsimp only
    split <;> rfl

theorem step (hI : RunInv T F) (hf : F s.db) {op : Op} (hop : op.Tracked T s) : F (step cfg s op).db := by
  cases op with
  | ingest now result pricer => exact hI.ingest hf hop
  | purge now principal beforeMs actor => exact hI.purge hf principal beforeMs actor
  | delete which => exact hI.delete hf which
  | retention now days => exact hop.elim
  | reprice pricer since until_ => exact hI.repriced hf pricer since until_
  | refresh dates =>
    cases dates with
    | none => exact hI.refresh hf _
    | some dates => exact hI.refresh hf dates
  | clusterDays readOnly kind since until_ =>
    unfold Store.step Store.clusterDays
    dsimp only
    split
    · exact hf
    · exact hI.refresh hf _
  | putFindings now runId findings => exact hI.elsewhere hf ⟨rfl, rfl, rfl, rfl, rfl⟩ rfl

end RunInv

end TokenBill.Store
