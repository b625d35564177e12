import TokenBill.General.Post
import TokenBill.Store.Runs

/-!
# Rules of the write path

What a write of the merge engine can do, said once: it changes the join indexes, marks a
rate card, deletes stored groups, inserts the rows of merged groups and adds member rows.
An invariant of a `Work` that survives these survives a chunk, an ingest's chunks and a
regroup; an operation that raises leaves the last committed database.
-/

namespace TokenBill.Store

open General List

variable {h : Hashes} {pricer : Option Pricer}

/-- The join indexes and the counters of a work, replaced. -/
def Work.setIndex (w : Work) (messages : List (String × String)) (hints : List HintRow)
    (collisions mismatches : Nat) : Work :=
  { w with
    db := { w.db with messageIndex := messages, requestIndex := hints }
    collisions, mismatches }

def Work.addMembers (w : Work) (rows : List MemberRow) : Work :=
  { w with db := { w.db with mergeMembers := w.db.mergeMembers ++ rows } }

/-- A `requests` row written for a merged group of contributions that satisfy `C`, with prices that
satisfy `E`. -/
def Written (h : Hashes) (C : Contribution → Prop) (E : PricedColumns → Prop) (e : RequestRow) : Prop :=
  ∃ group mg priced, (∀ c ∈ group, C c) ∧ mergeGroup h group = some mg ∧ (∀ i ts, E (priced i ts)) ∧
    e = groupRow mg priced

/-- A `merge_members` row written for a contribution that satisfies `C`. -/
def WrittenMember (h : Hashes) (C : Contribution → Prop) (m : MemberRow) : Prop :=
  ∃ gid c, C c ∧ m = memberRow h gid c

/-- An invariant of writing merged groups of contributions that satisfy `C`, with prices that satisfy
`D` beside the keys of `meta`. -/
structure WriteInv (h : Hashes) (pricer : Option Pricer) (C : Contribution → Prop)
    (D : Meta → PricedColumns → Prop) (inv : Work → Prop) : Prop where
  index : ∀ {w}, inv w → ∀ messages hints n m, inv (w.setIndex messages hints n m)
  basis : ∀ {w}, inv w → inv (w.recordBasis pricer)
  grows : ∀ {w cols}, inv w → D w.db.info cols → D (w.recordBasis pricer).db.info cols
  priced : ∀ {w}, inv w → ∀ i ts, D (w.recordBasis pricer).db.info (priceColumns pricer i ts)
  free : ∀ {w}, inv w → D w.db.info notBillable
  rows : ∀ {w w'} {entries : List RequestRow}, inv w →
    (∀ e ∈ entries, Written h C (D w.db.info) e) → w.writeRows entries = .ok w' → inv w'
  members : ∀ {w} {rows : List MemberRow}, inv w → (∀ m ∈ rows, WrittenMember h C m) →
    inv (w.addMembers rows)

/-- An invariant of the write path: the stored contributions satisfy `C` and the stored prices `D`, and
stored groups may be deleted. -/
structure WorkInv (h : Hashes) (pricer : Option Pricer) (C : Contribution → Prop)
    (D : Meta → PricedColumns → Prop) (inv : Work → Prop) : Prop extends WriteInv h pricer C D inv where
  stored : ∀ {w}, inv w → ∀ {gid c}, c ∈ w.db.members gid → C c
  storedPrices : ∀ {w}, inv w → ∀ r ∈ w.db.requests, ∀ i ∈ r.inferences, D w.db.info i.priced
  delete : ∀ {w}, inv w → ∀ gids members, inv (w.deleteGroups gids members)

/-! ### The rows of merged groups -/

theorem fastRow_eq (h : Hashes) (pricer : Option Pricer) (c : Contribution) : ∃ mg, mergeGroup h [c] = some mg ∧
    fastRow pricer c = groupRow mg (priceColumns pricer) := ⟨_, rfl, rfl⟩

namespace Work

/-! ### Errors -/

theorem recordBasis_committed (w : Work) : (w.recordBasis pricer).committed = w.committed := by
  unfold recordBasis
  split
  · rfl
  · split <;> rfl

theorem writeRows_cases {w w' : Work} {entries : List RequestRow}
    (hw : w.writeRows entries = .ok w') : w' =
      { w with
        db := { w.db with requests := w.db.requests ++ entries }
        touchedLanes := w.touchedLanes ++ entries.map (·.request.laneKey)
        dirty := w.dirty ++ entries.map (·.dateUtc) } := by
  unfold writeRows at hw
  split at hw
  · exact (Except.ok.inj hw).symm
  · cases hw

end Work

variable {C : Contribution → Prop} {D : Meta → PricedColumns → Prop} {inv : Work → Prop}

/-- A later state of the same transaction, with the prices of the earlier one. -/
structure Later (D : Meta → PricedColumns → Prop) (w w' : Work) : Prop where
  committed : w'.committed = w.committed
  prices : ∀ cols, D w.db.info cols → D w'.db.info cols

theorem Later.refl (w : Work) : Later D w w := ⟨rfl, fun _ h => h⟩

theorem Later.trans {w1 w2 w3 : Work} (h1 : Later D w1 w2) (h2 : Later D w2 w3) : Later D w1 w3 :=
  ⟨h2.committed.trans h1.committed, fun cols h => h2.prices cols (h1.prices cols h)⟩

/-- An error raised in a state of the invariant, in the transaction of `w`. -/
def RaisedIn (inv : Work → Prop) (w : Work) (f : Fault) : Prop :=
  ∃ w', inv w' ∧ w'.committed = w.committed ∧ f.db = w'.committed ∧ f.mem = w'.mem

theorem RaisedIn.db {w : Work} {f : Fault} (h : RaisedIn inv w f) : f.db = w.committed := by
  obtain ⟨w', -, hc, hdb, -⟩ := h
  exact hdb.trans hc

/-- What an operation of the write path promises from the state `w`: the invariant, or an error raised
in a state of it. -/
abbrev Keeps (D : Meta → PricedColumns → Prop) (inv : Work → Prop) (w : Work) : Except Fault Work → Prop :=
  Post (fun w' => inv w' ∧ Later D w w') (RaisedIn inv w)

/-- An operation in a later state of the transaction. -/
theorem Keeps.later {w w1 : Work} {x : Except Fault Work} (hk : Keeps D inv w1 x) (hl : Later D w w1) :
    Keeps D inv w x :=
  Post.mono hk (fun _ h => ⟨h.1, hl.trans h.2⟩) fun _ ⟨w', h1, h2, h3⟩ => ⟨w', h1, h2.trans hl.committed, h3⟩

namespace WriteInv

variable {w : Work}

/-- A change outside the keys of `meta`. -/
theorem laterOf {w' : Work} (hc : w'.committed = w.committed) (hi : w'.db.info = w.db.info) :
    Later D w w' := ⟨hc, fun _ h => hi ▸ h⟩

theorem laterBasis (hI : WriteInv h pricer C D inv) (hw : inv w) :
    Later D w (w.recordBasis pricer) := ⟨w.recordBasis_committed, fun _ h => hI.grows hw h⟩

theorem writeRows (hI : WriteInv h pricer C D inv) (hw : inv w) {entries : List RequestRow}
    (he : ∀ e ∈ entries, Written h C (D w.db.info) e) : Keeps D inv w (w.writeRows entries) := by
  cases hx : w.writeRows entries with
  | ok w' =>
    refine ⟨hI.rows hw he hx, ?_⟩
    rw [Work.writeRows_cases hx]
    exact laterOf rfl rfl
  | error f =>
    unfold Work.writeRows at hx
    split at hx
    · cases hx
    · cases hx
      exact ⟨w, hw, rfl, rfl, rfl⟩

theorem writeGroup (hI : WriteInv h pricer C D inv) (hw : inv w) {group : List Contribution}
    {mg : MergedGroup} (hC : ∀ c ∈ group, C c) (hg : mergeGroup h group = some mg)
    {stored : Option (List (String × PricedColumns))} (hs : ∀ prices ∈ stored, ∀ x ∈ prices, D w.db.info x.2) :
    Keeps D inv w (w.writeGroup h pricer mg stored) := by
  unfold Work.writeGroup
  -- where the prices come from does not matter below
  have hpriced : ∀ (w1 : Work) (priced : Inference → Nat → PricedColumns), inv w1 → Later D w w1 →
      (∀ i ts, D w1.db.info (priced i ts)) → Keeps D inv w (do
        let w ← w1.writeRows [groupRow mg priced]
        pure { w with db := { w.db with
          mergeMembers := w.db.mergeMembers ++
            if 1 < mg.members.length then mg.members.map (memberRow h mg.request.requestId) else []
          messageIndex := putMessages w.db.messageIndex (idsOf (·.messageIds) mg.members)
            mg.request.requestId
          requestIndex := (idsOf (·.requestHints) mg.members).foldl
            (putHint · · mg.request.requestId) w.db.requestIndex } }) := by
    intro w1 priced hw1 hl hD
    have hrow : ∀ e ∈ [groupRow mg priced], Written h C (D w1.db.info) e := by
      intro e he
      rw [mem_singleton.mp he]
      exact ⟨group, mg, priced, hC, hg, hD, rfl⟩
    refine ((hI.writeRows hw1 hrow).later hl).bind fun w2 hw2 => Post.pure ⟨?_, ?_⟩
    · refine hI.index (w := w2.addMembers _) (hI.members hw2.1 fun m hm => ?_) _ _ w2.collisions
        w2.mismatches
      split at hm
      · obtain ⟨c, hc, rfl⟩ := mem_map.mp hm
        exact ⟨_, c, hC c ((mergeGroup_members hg).mem_iff.mp hc), rfl⟩
      · cases hm
    · exact hw2.2.trans (laterOf rfl rfl)
  dsimp only
  split
  · rename_i prices hkept
    obtain ⟨hst, -⟩ := Option.filter_eq_some_iff.mp hkept
    refine hpriced w _ hw (.refl w) fun i ts => ?_
    dsimp only
    cases hx : prices.lookup i.inferenceId with
    | none => exact hI.free hw
    | some cols => exact hs prices hst (_, cols) (mem_of_lookup hx)
  · exact hpriced _ _ (hI.basis hw) (hI.laterBasis hw) (hI.priced hw)

theorem writeGroups (hI : WriteInv h pricer C D inv) (hw : inv w) {merged : List MergedGroup}
    (hm : ∀ mg ∈ merged, ∃ group, (∀ c ∈ group, C c) ∧ mergeGroup h group = some mg)
    {prices : List (String × List (String × PricedColumns))} (hp : ∀ x ∈ prices, ∀ y ∈ x.2, D w.db.info y.2) :
    Keeps D inv w (w.writeGroups h pricer prices merged) := by
  refine Post.foldlM (fun w' hw' mg hmg => ?_) ⟨hw, .refl w⟩
  obtain ⟨group, hC, hg⟩ := hm mg hmg
  refine (hI.writeGroup hw'.1 hC hg fun stored hst y hy => hw'.2.prices _ ?_).later hw'.2
  exact hp (_, stored) (mem_of_lookup hst) y hy

theorem insertFast (hI : WriteInv h pricer C D inv) (hw : inv w) {contribs : List Contribution}
    (hC : ∀ c ∈ contribs, C c) : Keeps D inv w (w.insertFast pricer contribs) := by
  unfold Work.insertFast
  split
  · exact Post.pure ⟨hw, .refl w⟩
  · refine ((hI.writeRows (hI.basis hw) fun e he => ?_).later (hI.laterBasis hw)).bind fun w2 hw2 =>
      Post.pure ⟨hI.index hw2.1 _ _ w2.collisions w2.mismatches, hw2.2.trans (laterOf rfl rfl)⟩
    obtain ⟨c, hc, rfl⟩ := mem_map.mp he
    obtain ⟨mg, hg, hrow⟩ := fastRow_eq h pricer c
    exact ⟨[c], mg, _, fun c' hc' => mem_singleton.mp hc' ▸ hC c hc, hg, hI.priced hw, hrow⟩

theorem detectCollisions (hI : WriteInv h pricer C D inv) (hw : inv w) (chunk : List Contribution) :
    inv (w.detectCollisions chunk).1 ∧ Later D w (w.detectCollisions chunk).1 := by
  refine foldl_inv (I := fun s : Work × Collisions => inv s.1 ∧ Later D w s.1)
    (fun s hs hint _ => ?_) ⟨hw, .refl w⟩
  unfold detectCollision
  dsimp only
  split
  · exact hs
  · split
    · exact ⟨hI.index hs.1 s.1.db.messageIndex _ _ s.1.mismatches, hs.2.trans (laterOf rfl rfl)⟩
    · exact hs

/-- The merged groups of contributions that satisfy `C`. -/
theorem groups_of {contribs : List Contribution} (hC : ∀ c ∈ contribs, C c) (collided : List String) :
    ∀ mg ∈ mergeContributions h contribs collided,
      ∃ group, (∀ c ∈ group, C c) ∧ mergeGroup h group = some mg := fun _ hmg => by
  obtain ⟨group, hsub, hg⟩ := mem_mergeContributions hmg
  exact ⟨group, fun c hc => hC c (hsub c hc), hg⟩

/-- The prices of stored groups are stored prices. -/
theorem prices_of {db : Db} {P : PricedColumns → Prop}
    (hP : ∀ r ∈ db.requests, ∀ i ∈ r.inferences, P i.priced) (gids : List String) :
    ∀ x ∈ db.winnerPrices h gids, ∀ y ∈ x.2, P y.2 := by
  intro x hx y hy
  obtain ⟨gid, -, hw⟩ := mem_filterMap.mp (mem_reverse.mp hx)
  obtain ⟨winner, -, rfl⟩ := Option.map_eq_some_iff.mp hw
  obtain ⟨r, hr, hy⟩ := mem_flatMap.mp hy
  obtain ⟨i, hi, rfl⟩ := mem_map.mp hy
  exact hP r (mem_of_mem_filter hr) i hi

end WriteInv

namespace WorkInv

open WriteInv

variable {w : Work}

theorem remerge (hI : WorkInv h pricer C D inv) (hw : inv w) {incoming : List Contribution}
    (hin : ∀ c ∈ incoming, C c) (affected gids : List String) :
    Keeps D inv w (w.remerge h pricer affected gids incoming) := by
  unfold Work.remerge
  have hold : ∀ c ∈ (gids.map w.db.members).flatten, C c := by
    intro c hc
    obtain ⟨l, hl, hc⟩ := mem_flatten.mp hc
    obtain ⟨gid, -, rfl⟩ := mem_map.mp hl
    exact hI.stored hw hc
  dsimp only
  split
  · exact Post.pure ⟨hw, .refl w⟩
  · refine (hI.writeGroups (w := { w.deleteGroups gids _ with mismatches := _ }) ?_
      (groups_of (fun c hc => ?_) _) (prices_of (hI.storedPrices hw) gids)).later (laterOf rfl rfl)
    · exact hI.index (hI.delete hw gids _) _ _ (w.deleteGroups gids _).collisions _
    · rcases mem_append.mp hc with hc | hc
      · exact hold c hc
      · exact hin c (mem_of_mem_filter hc)

theorem mem_comps {s : Nodes} {chunk : List Contribution}
    {comp : List String × List Contribution} (hcomp : comp ∈ s.comps chunk) {c : Contribution}
    (hc : c ∈ comp.2) : c ∈ chunk := by
  obtain ⟨root, -, rfl⟩ := mem_map.mp hcomp
  obtain ⟨⟨c', i⟩, hc', rfl⟩ := mem_map.mp hc
  exact (mem_zipIdx' (mem_of_mem_filter hc')).2 ▸ getElem_mem _

theorem mem_of_fastOf {comp : List String × List Contribution} {c : Contribution}
    (hf : fastOf comp = some c) : c ∈ comp.2 := by
  unfold fastOf at hf
  split at hf
  · exact mem_singleton.mpr (Option.some.inj hf).symm
  · cases hf

/-- A chunk keeps every invariant of the write path. -/
theorem mergeChunk (hI : WorkInv h pricer C D inv) (hw : inv w) {chunk : List Contribution}
    (hC : ∀ c ∈ chunk, C c) : Keeps D inv w (w.mergeChunk h pricer chunk) := by
  unfold Work.mergeChunk
  obtain ⟨hw1, hl1⟩ := hI.detectCollisions hw chunk
  generalize w.detectCollisions chunk = d at hw1 hl1
  dsimp only
  generalize hcomps : Nodes.comps _ chunk = comps
  have hin : ∀ comp ∈ comps, ∀ c ∈ comp.2, C c := by
    rintro comp hcomp c hc
    subst hcomps
    exact hC c (mem_comps hcomp hc)
  refine Post.bind (Post.foldlM (I := fun w2 => inv w2 ∧ Later D w w2)
    (fun w2 hw2 comp hcomp => ?_) ⟨hw1, hl1⟩) fun w2 hw2 => ?_
  · split
    · exact Post.pure hw2
    · exact (hI.remerge hw2.1 (hin comp hcomp) _ _).later hw2.2
  · refine (hI.insertFast hw2.1 fun c hc => ?_).later hw2.2
    obtain ⟨comp, hcomp, hf⟩ := mem_filterMap.mp hc
    exact hin comp hcomp c (mem_of_fastOf hf)

/-- The chunks of an ingest: between two of them the work is finished and committed, and an error
leaves a committed database that satisfies `G`. -/
theorem mergeChunks (hI : WorkInv h pricer C D inv) {G : Db → Prop}
    (hcommit : ∀ w, inv w → inv w.finish.commit ∧ G w.finish.db) (hw : inv w)
    (hgood : G w.committed) {chunks : List (List Contribution)} (hC : ∀ chunk ∈ chunks, ∀ c ∈ chunk, C c) :
    Post (fun w' => inv w' ∧ G w'.committed)
      (fun f => ∃ w', inv w' ∧ G w'.committed ∧ f.db = w'.committed ∧ f.mem = w'.mem)
      (w.mergeChunks h pricer chunks) := by
  have hstep : ∀ w1, inv w1 → G w1.committed → ∀ chunk ∈ chunks, Post (fun w' => inv w' ∧ G w'.committed)
      (fun f => ∃ w', inv w' ∧ G w'.committed ∧ f.db = w'.committed ∧ f.mem = w'.mem)
      (w1.mergeChunk h pricer chunk) := fun w1 h1 hg1 chunk hchunk =>
    Post.mono (hI.mergeChunk h1 (hC chunk hchunk)) (fun w' h => ⟨h.1, h.2.committed.symm ▸ hg1⟩)
      fun f ⟨w', h2, hc, hf⟩ => ⟨w', h2, hc.symm ▸ hg1, hf⟩
  cases chunks with
  | nil => exact Post.pure ⟨hw, hgood⟩
  | cons first rest =>
    refine (hstep w hw hgood first mem_cons_self).bind fun w1 hw1 => ?_
    refine Post.foldlM (fun w2 hw2 chunk hchunk => ?_) hw1
    obtain ⟨h3, hg3⟩ := hcommit w2 hw2.1
    exact hstep _ h3 hg3 chunk (mem_cons_of_mem _ hchunk)

end WorkInv

/-! ### Regrouping -/

namespace WriteInv

/-- A regroup keeps every invariant of writing what it keeps of the stored contributions. -/
theorem regroupChunk (hI : WriteInv h pricer C D inv)
    (hdelete : ∀ w, inv w → ∀ gids members, inv (w.deleteGroups gids members)) {w : Work} (hw : inv w)
    {drop : Contribution → Bool}
    (hkeep : ∀ gid, ∀ c ∈ w.db.members gid, drop c = false → C c)
    (hprices : ∀ r ∈ w.db.requests, ∀ i ∈ r.inferences, D w.db.info i.priced) (gids : List String) :
    Keeps D inv w (w.regroupChunk h pricer drop gids) := by
  refine (hI.writeGroups (hdelete w hw gids _) (groups_of (fun c hc => ?_) _)
    (prices_of hprices gids)).later (laterOf rfl rfl)
  obtain ⟨hc, hd⟩ := mem_filter.mp hc
  obtain ⟨gid, -, hc⟩ := mem_flatMap.mp hc
  exact hkeep gid c hc (by simpa using hd)

theorem regroup (hI : WriteInv h pricer C D inv)
    (hdelete : ∀ w, inv w → ∀ gids members, inv (w.deleteGroups gids members)) {Q : Work → Prop}
    (hfinish : ∀ w, inv w → Q w.finish) {w : Work} (hw : inv w) {drop : Contribution → Bool}
    (hkeep : ∀ w, inv w → ∀ gid, ∀ c ∈ w.db.members gid, drop c = false → C c)
    (hprices : ∀ w, inv w → ∀ r ∈ w.db.requests, ∀ i ∈ r.inferences, D w.db.info i.priced)
    (gids : List String) :
    Post (fun w' => Q w' ∧ w'.committed = w.committed) (RaisedIn inv w) (w.regroup h pricer gids drop) := by
  refine Post.bind (Post.foldlM (I := fun w2 => inv w2 ∧ Later D w w2) (fun w2 hw2 chunk _ =>
    (hI.regroupChunk hdelete hw2.1 (hkeep w2 hw2.1) (hprices w2 hw2.1) chunk).later hw2.2) ⟨hw, .refl w⟩)
    fun w2 hw2 => Post.pure ⟨hfinish w2 hw2.1, hw2.2.committed⟩

end WriteInv

def AnyPrice : Meta → PricedColumns → Prop := fun _ _ => True

end TokenBill.Store
