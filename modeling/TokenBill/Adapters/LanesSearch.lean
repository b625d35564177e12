import TokenBill.Adapters.InferLanes

/-!
# The trie finds what the search finds

The trie of a group represents the last paths of its lanes, so its deepest place has the lanes that share the
longest prefix, and the latest of them is the nearest of all. A run keeps that, and so both give the same lanes.
-/

namespace TokenBill.InferLanes

open General List

theorem nearest_spec {path : List String} {lanes : List Lane} {c : Lane} (h : nearest path lanes = some c) :
    c ∈ lanes ∧ ∀ l ∈ lanes, ¬c.Farther path l := by
  refine best_spec (fun a b c hab hbc hac => ?_) (fun a b hab hba => ?_) h
  · unfold Lane.Farther at *
    omega
  · unfold Lane.Farther at *
    omega

theorem latest_spec {recency : String → Nat} {lanes : List String} {k : String} (h : latest recency lanes = some k) :
    k ∈ lanes ∧ ∀ j ∈ lanes, recency j ≤ recency k := by
  have hspec := best_spec (r := fun b k => recency b < recency k ∨ (recency b = recency k ∧ b < k))
    (fun a b c hab hbc hac => ?_) (fun a b hab hba => ?_) h
  · exact ⟨hspec.1, fun j hj => Nat.le_of_not_lt fun hlt => hspec.2 j hj (.inl hlt)⟩
  · rcases hac with hac | ⟨hac, hlt⟩
    · exact hab (.inl (by
        by_contra hba
        exact hbc (.inl (by omega))))
    · have hab' : recency b ≤ recency a := Nat.le_of_not_lt fun h => hab (.inl h)
      have hbc' : recency c ≤ recency b := Nat.le_of_not_lt fun h => hbc (.inl h)
      have hba : ¬a < b := fun h => hab (.inr ⟨by omega, h⟩)
      have hcb : ¬b < c := fun h => hbc (.inr ⟨by omega, h⟩)
      exact absurd hlt (not_lt.mpr ((not_lt.mp hcb).trans (not_lt.mp hba)))
  · rcases hab with hab | ⟨hab, hlt⟩ <;> rcases hba with hba | ⟨hba, hlt'⟩
    · omega
    · omega
    · omega
    · exact lt_asymm hlt hlt'

/-! ### What a run keeps -/

/-- The state of the code and that of the search agree: the trie of each group represents the last paths of its
lanes, whose keys come from requests seen and which were extended at different times. -/
structure Mirrors (hashes : Hashes) (session : String) (seen : List String) (st : State) (nv : Naive) : Prop where
  plain : st.plainLanes = nv.plainLanes
  tick : st.tick = nv.tick
  out : st.out = nv.out
  keys : (nv.lanes.map (·.key)).Nodup
  opened : ∀ l ∈ nv.lanes, ∃ id ∈ seen, l.key = laneKey hashes session id
  ticks : ∀ l ∈ nv.lanes, l.tick ≤ nv.tick
  apart : ∀ l ∈ nv.lanes, ∀ m ∈ nv.lanes, l.tick = m.tick → l = m
  tails : ∀ l ∈ nv.lanes, st.tails l.key = some l.tail
  recency : ∀ l ∈ nv.lanes, st.recency l.key = l.tick
  tries : ∃ table : Group → String → Option (List String), (∀ g, (st.tries g).Represents (table g)) ∧
    ∀ g k tail, table g k = some tail ↔ ∃ l ∈ nv.lanes, l.key = k ∧ l.group = g ∧ l.tail = tail

variable {hashes : Hashes} {session : String}

theorem mirrors_init : Mirrors hashes session [] .init .init where
  plain := rfl
  tick := rfl
  out := rfl
  keys := nodup_nil
  opened _ h := absurd h not_mem_nil
  ticks _ h := absurd h not_mem_nil
  apart _ h := absurd h not_mem_nil
  tails _ h := absurd h not_mem_nil
  recency _ h := absurd h not_mem_nil
  tries := ⟨fun _ _ => none, fun _ => Trie.represents_empty, fun g k tail =>
    ⟨fun h => absurd h (by simp), fun ⟨_, hl, _⟩ => absurd hl not_mem_nil⟩⟩

theorem eq_of_key {lanes : List Lane} (hkeys : (lanes.map (·.key)).Nodup) {l m : Lane} (hl : l ∈ lanes) (hm : m ∈ lanes)
    (h : l.key = m.key) : l = m := inj_on_of_nodup_map hkeys hl hm h

section

variable {seen : List String} {st : State} {nv : Naive}

/-- The deepest place of the trie has the nearest lane of the group. -/
theorem Mirrors.joined_eq (h : Mirrors hashes session seen st nv) (r : Request) (fp : ContentFingerprint) :
    (if systemBlocks fp < ((st.tries (groupOf hashes r fp)).deepest (pathOf fp)).1 then
      latest st.recency ((st.tries (groupOf hashes r fp)).deepest (pathOf fp)).2 else none) =
      (nv.joined hashes r fp).map (·.key) := by
  obtain ⟨table, hrep, htable⟩ := h.tries
  obtain ⟨hlabels, hmost, hne⟩ := (hrep (groupOf hashes r fp)).deepest (pathOf fp)
  generalize (st.tries (groupOf hashes r fp)).deepest (pathOf fp) = found at hlabels hmost hne ⊢
  obtain ⟨depth, labels⟩ := found
  have hmem : ∀ l, l ∈ nv.lanes.filter (fun l => decide (l.group = groupOf hashes r fp)) ↔
      l ∈ nv.lanes ∧ l.group = groupOf hashes r fp := fun l => by
    rw [mem_filter, decide_eq_true_eq]
  have hshared : ∀ l ∈ nv.lanes, l.group = groupOf hashes r fp → Trie.shared (pathOf fp) l.tail ≤ depth := fun l hl hg =>
    hmost l.key l.tail ((htable _ _ _).mpr ⟨l, hl, rfl, hg, rfl⟩)
  unfold Naive.joined
  by_cases hdeep : systemBlocks fp < depth
  · rw [if_pos hdeep]
    cases hlatest : latest st.recency labels with
    | none => exact absurd (best_eq_none hlatest) (hne (Nat.lt_of_le_of_lt (Nat.zero_le _) hdeep))
    | some k =>
      obtain ⟨hk, hlast⟩ := latest_spec hlatest
      obtain ⟨tail, htail, hdepth⟩ := (hlabels k).mp hk
      obtain ⟨l, hl, hlk, hlg, hlt⟩ := (htable _ _ _).mp htail
      cases hnearest : nearest (pathOf fp) (nv.lanes.filter fun l => decide (l.group = groupOf hashes r fp)) with
      | none =>
        have hnone := best_eq_none hnearest
        have hin := (hmem l).mpr ⟨hl, hlg⟩
        rw [hnone] at hin
        cases hin
      | some c =>
        obtain ⟨hc, hbest⟩ := nearest_spec hnearest
        obtain ⟨hcl, hcg⟩ := (hmem c).mp hc
        have hnot := hbest l ((hmem l).mpr ⟨hl, hlg⟩)
        have hcle := hshared c hcl hcg
        have hlshared : Trie.shared (pathOf fp) l.tail = depth := hlt ▸ hdepth
        have hcshared : Trie.shared (pathOf fp) c.tail = depth :=
          Nat.le_antisymm hcle (Nat.le_of_not_lt fun hlt' => hnot (.inl (by rw [hlshared]; exact hlt')))
        have hclabel : c.key ∈ labels :=
          (hlabels c.key).mpr ⟨c.tail, (htable _ _ _).mpr ⟨c, hcl, rfl, hcg, rfl⟩, hcshared⟩
        have hcrecency := hlast c.key hclabel
        rw [h.recency c hcl, ← hlk, h.recency l hl] at hcrecency
        have hltick : l.tick ≤ c.tick := Nat.le_of_not_lt fun hlt' => hnot (.inr ⟨hcshared.trans hlshared.symm, hlt'⟩)
        have heq : c = l := h.apart c hcl l hl (Nat.le_antisymm hcrecency hltick)
        rw [Option.filter_some, if_pos (by rw [hcshared]; exact decide_eq_true hdeep), Option.map_some, heq, hlk]
  · rw [if_neg hdeep]
    cases hnearest : nearest (pathOf fp) (nv.lanes.filter fun l => decide (l.group = groupOf hashes r fp)) with
    | none => rfl
    | some c =>
      obtain ⟨hcl, hcg⟩ := (hmem c).mp (nearest_spec hnearest).1
      have hle := hshared c hcl hcg
      rw [Option.filter_some, if_neg (by simpa using Nat.le_trans hle (Nat.le_of_not_lt hdeep)), Option.map_none]

/-- A request without a fingerprint keeps the states in agreement. -/
theorem Mirrors.stepPlain (h : Mirrors hashes session seen st nv) (r : Request) :
    Mirrors hashes session (r.requestId :: seen) (st.stepPlain hashes session r) (nv.stepPlain hashes session r) := by
  have hopened : ∀ l ∈ nv.lanes, ∃ id ∈ r.requestId :: seen, l.key = laneKey hashes session id := fun l hl => by
    obtain ⟨id, hid, hkey⟩ := h.opened l hl
    exact ⟨id, mem_cons_of_mem _ hid, hkey⟩
  have hticks : ∀ l ∈ nv.lanes, l.tick ≤ nv.tick + 1 := fun l hl => Nat.le_succ_of_le (h.ticks l hl)
  unfold State.stepPlain Naive.stepPlain
  rw [h.plain]
  cases nv.plainLanes r.model with
  | some lane =>
    exact ⟨rfl, congrArg (· + 1) h.tick, by rw [h.out], h.keys, hopened, hticks, h.apart, h.tails, h.recency, h.tries⟩
  | none =>
    exact ⟨rfl, congrArg (· + 1) h.tick, by rw [h.out], h.keys, hopened, hticks, h.apart, h.tails, h.recency,
      h.tries⟩

/-- The last paths of the lanes of each group, with a lane's path set. -/
theorem update_table {table : Group → String → Option (List String)} {lanes : List Lane}
    (htable : ∀ g k tail, table g k = some tail ↔ ∃ l ∈ lanes, l.key = k ∧ l.group = g ∧ l.tail = tail)
    {lanes' : List Lane} {new : Lane} (hnew : new ∈ lanes') (hgroup : ∀ l ∈ lanes', l.key = new.key → l = new)
    (hothers : ∀ l, l.key ≠ new.key → (l ∈ lanes' ↔ l ∈ lanes)) (hkeys : ∀ l ∈ lanes, l.key = new.key → l.group = new.group)
    (g : Group) (k : String) (tail : List String) :
    Function.update table new.group (Function.update (table new.group) new.key (some new.tail)) g k = some tail ↔
      ∃ l ∈ lanes', l.key = k ∧ l.group = g ∧ l.tail = tail := by
  by_cases hk : k = new.key
  · subst hk
    by_cases hg : g = new.group
    · subst hg
      rw [Function.update_self, Function.update_self, Option.some.injEq]
      refine ⟨fun h => ⟨new, hnew, rfl, rfl, h⟩, ?_⟩
      rintro ⟨l, hl, hlk, -, rfl⟩
      rw [hgroup l hl hlk]
    · rw [Function.update_of_ne hg, htable]
      refine ⟨?_, ?_⟩
      · rintro ⟨l, hl, hlk, hlg, -⟩
        exact absurd (hlg.symm.trans (hkeys l hl hlk)) hg
      · rintro ⟨l, hl, hlk, hlg, -⟩
        rw [hgroup l hl hlk] at hlg
        exact absurd hlg.symm hg
  · have hsame : Function.update table new.group (Function.update (table new.group) new.key (some new.tail)) g k =
        table g k := by
      by_cases hg : g = new.group
      · subst hg
        rw [Function.update_self, Function.update_of_ne hk]
      · rw [Function.update_of_ne hg]
    rw [hsame, htable]
    refine exists_congr fun l => ?_
    refine ⟨fun h => ⟨(hothers l (h.2.1 ▸ hk)).mpr h.1, h.2⟩, fun h => ⟨(hothers l (h.2.1 ▸ hk)).mp h.1, h.2⟩⟩

/-- The states stay in agreement when one lane gets a path: an old one, without its last path in the trie of its group,
or a new one. -/
theorem Mirrors.extend (h : Mirrors hashes session seen st nv) (new : Lane) {requestId : String} {lanes' : List Lane}
    {trie : Trie String String} {table : Group → String → Option (List String)}
    (hrep : ∀ g, (st.tries g).Represents (table g))
    (htable : ∀ g k tail, table g k = some tail ↔ ∃ l ∈ nv.lanes, l.key = k ∧ l.group = g ∧ l.tail = tail)
    (htrie : trie.Represents (Function.update (table new.group) new.key none))
    (htick : new.tick = nv.tick + 1) (hnodup : (lanes'.map (·.key)).Nodup) (hnew : new ∈ lanes')
    (hothers : ∀ l, l.key ≠ new.key → (l ∈ lanes' ↔ l ∈ nv.lanes))
    (hkeys : ∀ l ∈ nv.lanes, l.key = new.key → l.group = new.group)
    (hopened : ∃ id ∈ requestId :: seen, new.key = laneKey hashes session id) :
    Mirrors hashes session (requestId :: seen) (st.extend new.group trie new.tail requestId new.key)
      { nv with lanes := lanes', tick := nv.tick + 1, out := nv.out ++ [(requestId, new.key)] } := by
  have hgroup : ∀ l ∈ lanes', l.key = new.key → l = new := fun l hl hk => eq_of_key hnodup hl hnew hk
  have hcases : ∀ l ∈ lanes', l = new ∨ (l ∈ nv.lanes ∧ l.key ≠ new.key) := fun l hl => by
    by_cases hk : l.key = new.key
    · exact .inl (hgroup l hl hk)
    · exact .inr ⟨(hothers l hk).mp hl, hk⟩
  refine ⟨h.plain, congrArg (· + 1) h.tick, ?_, hnodup, fun l hl => ?_, fun l hl => ?_, fun l hl m hm hlm => ?_,
    fun l hl => ?_, fun l hl => ?_, ?_⟩
  · show st.out ++ _ = _
    rw [h.out]
  · rcases hcases l hl with rfl | ⟨hl, -⟩
    · exact hopened
    · obtain ⟨id, hid, hkey⟩ := h.opened l hl
      exact ⟨id, mem_cons_of_mem _ hid, hkey⟩
  · rcases hcases l hl with rfl | ⟨hl, -⟩
    · exact Nat.le_of_eq htick
    · exact Nat.le_succ_of_le (h.ticks l hl)
  · rcases hcases l hl with hlnew | ⟨hlold, -⟩ <;> rcases hcases m hm with hmnew | ⟨hmold, -⟩
    · rw [hlnew, hmnew]
    · have hle := h.ticks m hmold
      rw [hlnew] at hlm
      omega
    · have hle := h.ticks l hlold
      rw [hmnew] at hlm
      omega
    · exact h.apart l hlold m hmold hlm
  · show Function.update st.tails new.key (some new.tail) l.key = _
    rcases hcases l hl with rfl | ⟨hl, hk⟩
    · rw [Function.update_self]
    · rw [Function.update_of_ne hk, h.tails l hl]
  · show Function.update st.recency new.key (st.tick + 1) l.key = _
    rcases hcases l hl with rfl | ⟨hl, hk⟩
    · rw [Function.update_self, h.tick, htick]
    · rw [Function.update_of_ne hk, h.recency l hl]
  · refine ⟨_, fun g => ?_, update_table htable hnew hgroup hothers hkeys⟩
    show (Function.update st.tries new.group (trie.insert new.key new.tail) g).Represents _
    by_cases hg : g = new.group
    · subst hg
      rw [Function.update_self, Function.update_self]
      have hinsert := htrie.insert (Function.update_self ..) new.tail
      rwa [Function.update_idem] at hinsert
    · rw [Function.update_of_ne hg, Function.update_of_ne hg]
      exact hrep g

/-- A request with a fingerprint keeps the states in agreement. -/
theorem Mirrors.stepPath (h : Mirrors hashes session seen st nv) (r : Request) (fp : ContentFingerprint)
    (hfresh : ∀ id ∈ seen, laneKey hashes session id ≠ laneKey hashes session r.requestId) :
    Mirrors hashes session (r.requestId :: seen) (st.stepPath hashes session r fp) (nv.stepPath hashes session r fp) := by
  obtain ⟨table, hrep, htable⟩ := h.tries
  unfold State.stepPath Naive.stepPath
  dsimp only
  rw [h.joined_eq r fp]
  cases hjoined : nv.joined hashes r fp with
  | none =>
    have hout : ∀ l ∈ nv.lanes, l.key ≠ laneKey hashes session r.requestId := fun l hl => by
      obtain ⟨id, hid, hkey⟩ := h.opened l hl
      rw [hkey]
      exact hfresh id hid
    have hnone : table (groupOf hashes r fp) (laneKey hashes session r.requestId) = none := by
      cases ht : table (groupOf hashes r fp) (laneKey hashes session r.requestId) with
      | none => rfl
      | some tail =>
        obtain ⟨l, hl, hlk, -⟩ := (htable _ _ _).mp ht
        exact absurd hlk (hout l hl)
    refine h.extend ⟨laneKey hashes session r.requestId, groupOf hashes r fp, pathOf fp, nv.tick + 1⟩ hrep htable
      ?_ rfl ?_ (mem_append_right _ (mem_singleton.mpr rfl)) (fun l hl => ?_) (fun l hl hk => absurd hk (hout l hl))
      ⟨r.requestId, mem_cons_self, rfl⟩
    · have hself : Function.update (table (groupOf hashes r fp)) (laneKey hashes session r.requestId) none =
          table (groupOf hashes r fp) := by
        rw [← hnone]
        exact Function.update_eq_self _ _
      rw [hself]
      exact hrep _
    · rw [map_append]
      refine h.keys.append (nodup_singleton _) fun k hk hk' => ?_
      obtain ⟨l, hl, rfl⟩ := mem_map.mp hk
      exact hout l hl (mem_singleton.mp hk')
    · rw [mem_append, mem_singleton]
      exact or_iff_left fun hlnew => hl (congrArg Lane.key hlnew)
  | some c =>
    obtain ⟨hnearest, -⟩ := Option.filter_eq_some_iff.mp hjoined
    obtain ⟨hmem, -⟩ := nearest_spec hnearest
    obtain ⟨hc, hcg⟩ := mem_filter.mp hmem
    have hcg : c.group = groupOf hashes r fp := of_decide_eq_true hcg
    have hkeys : ((nv.lanes.map fun l => if l.key = c.key then { l with tail := pathOf fp, tick := nv.tick + 1 } else l).map
        (·.key)) = nv.lanes.map (·.key) := by
      rw [map_map]
      refine map_congr_left fun l _ => ?_
      dsimp only [Function.comp_apply]
      split <;> rfl
    show Mirrors hashes session (r.requestId :: seen)
      (st.extend (groupOf hashes r fp) ((st.tries (groupOf hashes r fp)).remove c.key ((st.tails c.key).getD [])) (pathOf fp)
        r.requestId c.key) _
    rw [h.tails c hc, Option.getD_some, ← hcg]
    refine h.extend { c with tail := pathOf fp, tick := nv.tick + 1 } hrep htable ?_ rfl (hkeys ▸ h.keys)
      (mem_map.mpr ⟨c, hc, if_pos rfl⟩) (fun l hl => ?_) (fun l hl hk => ?_) ?_
    · exact (hrep c.group).remove ((htable _ _ _).mpr ⟨c, hc, rfl, rfl, rfl⟩)
    · rw [mem_map]
      refine ⟨?_, fun hin => ⟨l, hin, if_neg hl⟩⟩
      rintro ⟨m, hm, rfl⟩
      split at hl
      · rename_i hmk
        exact absurd hmk hl
      · rename_i hmk
        rwa [if_neg hmk]
    · have hlc : l = c := eq_of_key h.keys hl hc hk
      rw [hlc]
    · obtain ⟨id, hid, hkey⟩ := h.opened c hc
      exact ⟨id, mem_cons_of_mem _ hid, hkey⟩

end

/-- The states agree after every request of a session. -/
theorem mirrors_run {requests : List Request} {seen : List String} {st : State} {nv : Naive}
    (h : Mirrors hashes session seen st nv) (hnodup : (requests.map (·.requestId)).Nodup)
    (hnew : ∀ r ∈ requests, ∀ id ∈ seen, laneKey hashes session id ≠ laneKey hashes session r.requestId)
    (hkeys : ∀ r ∈ requests, ∀ r' ∈ requests,
      laneKey hashes session r.requestId = laneKey hashes session r'.requestId → r.requestId = r'.requestId) :
    ∃ seen', Mirrors hashes session seen' (requests.foldl (State.step hashes session) st)
      (requests.foldl (Naive.step hashes session) nv) := by
  induction requests generalizing seen st nv with
  | nil => exact ⟨seen, h⟩
  | cons r requests ih =>
    rw [map_cons, nodup_cons] at hnodup
    have hstep : Mirrors hashes session (r.requestId :: seen) (st.step hashes session r) (nv.step hashes session r) := by
      unfold State.step Naive.step
      cases r.fingerprint with
      | none => exact h.stepPlain r
      | some fp => exact h.stepPath r fp (hnew r mem_cons_self)
    refine ih hstep hnodup.2 (fun r' hr' id hid => ?_) fun a ha b hb => hkeys a (mem_cons_of_mem _ ha) b
      (mem_cons_of_mem _ hb)
    rcases mem_cons.mp hid with rfl | hid
    · intro heq
      have hsame := hkeys r mem_cons_self r' (mem_cons_of_mem _ hr') heq
      exact hnodup.1 (hsame ▸ mem_map_of_mem hr')
    · exact hnew r' (mem_cons_of_mem _ hr') id hid

/-! ### The order of the list -/

theorem sessionRequests_perm (requests : List Request) (session : String) :
    (sessionRequests requests session).Perm (requests.filter fun r => decide (r.sessionKey = session)) :=
  perm_insertionSort _ _

theorem sessions_eq_of_perm {requests requests' : List Request} (h : requests'.Perm requests) :
    sessions requests' = sessions requests := by
  have hperm := ((perm_insertionSort (· ≤ ·) _).trans (h.map (·.sessionKey)).dedup).trans
    (perm_insertionSort (· ≤ ·) (requests.map (·.sessionKey)).dedup).symm
  exact hperm.eq_of_pairwise (fun a b _ _ hab hba => le_antisymm hab hba) (pairwise_insertionSort _ _)
    (pairwise_insertionSort _ _)

theorem sessionRequests_eq_of_perm {requests requests' : List Request} (hids : (requests.map (·.requestId)).Nodup)
    (h : requests'.Perm requests) (session : String) :
    sessionRequests requests' session = sessionRequests requests session := by
  have hperm := ((sessionRequests_perm requests' session).trans (h.filter _)).trans (sessionRequests_perm requests session).symm
  have htotal : Std.Total fun a b : Request => orderKey a ≤ orderKey b := ⟨fun a b => le_total _ _⟩
  have htrans : IsTrans Request fun a b => orderKey a ≤ orderKey b := ⟨fun a b c => le_trans⟩
  refine hperm.eq_of_pairwise (fun a b ha hb hab hba => ?_) (pairwise_insertionSort _ _)
    (pairwise_insertionSort _ _)
  have hkey : orderKey a = orderKey b := le_antisymm hab hba
  have hid : a.requestId = b.requestId := by
    have hfields := toLex.injective hkey
    have hrest := toLex.injective (Prod.ext_iff.mp hfields).2
    have hlast := toLex.injective (Prod.ext_iff.mp hrest).2
    exact (Prod.ext_iff.mp hlast).2
  have hina : a ∈ requests := mem_of_mem_filter
    ((sessionRequests_perm requests session).mem_iff.mp (hperm.mem_iff.mp ha))
  have hinb : b ∈ requests := mem_of_mem_filter ((sessionRequests_perm requests session).mem_iff.mp hb)
  exact inj_on_of_nodup_map hids hina hinb hid

/-- The lanes given are those of the search through all lanes, whatever the order of the list. -/
theorem inferLanes_eq_naiveLanes {hashes : Hashes} {requests : List Request}
    (hids : (requests.map (·.requestId)).Nodup)
    (hkeys : ∀ r ∈ requests, ∀ r' ∈ requests, r.sessionKey = r'.sessionKey →
      laneKey hashes r.sessionKey r.requestId = laneKey hashes r'.sessionKey r'.requestId → r.requestId = r'.requestId) :
    inferLanes hashes requests = naiveLanes hashes requests ∧
      ∀ requests' : List Request, requests'.Perm requests → inferLanes hashes requests' = inferLanes hashes requests := by
  constructor
  · unfold inferLanes naiveLanes
    refine flatMap_congr fun session _ => ?_
    have hin : ∀ r ∈ sessionRequests requests session, r ∈ requests ∧ r.sessionKey = session := fun r hr => by
      have hmem := mem_filter.mp ((sessionRequests_perm requests session).mem_iff.mp hr)
      exact ⟨hmem.1, of_decide_eq_true hmem.2⟩
    have hnodup : ((sessionRequests requests session).map (·.requestId)).Nodup :=
      (((sessionRequests_perm requests session).map _).nodup_iff).mpr (hids.sublist (filter_sublist.map _))
    obtain ⟨seen, hmirrors⟩ := mirrors_run (mirrors_init : Mirrors hashes session [] .init .init) hnodup
      (fun _ _ _ hid => absurd hid not_mem_nil) fun r hr r' hr' heq => by
        obtain ⟨hr, hrs⟩ := hin r hr
        obtain ⟨hr', hrs'⟩ := hin r' hr'
        exact hkeys r hr r' hr' (hrs.trans hrs'.symm) (by rw [hrs, hrs']; exact heq)
    exact hmirrors.out
  · intro requests' hperm
    unfold inferLanes
    rw [sessions_eq_of_perm hperm]
    refine flatMap_congr fun session _ => ?_
    rw [sessionRequests_eq_of_perm hids hperm]

/-! ### Two requests of one conversation -/

/-- A request of the session `s` whose blocks are a system prompt and some messages. -/
def talkRequest (requestId : String) (seq : Nat) (messages : List String) : Request where
  requestId := requestId
  sessionKey := "s"
  laneKey := ""
  seq := seq
  attribution := {}
  params := { modelRequested := "m" }
  attempts := [.plain "at" 1 seq []]
  attempts_ne := cons_ne_nil _ _
  fingerprint := some {
    keyId := "k"
    blocks := ⟨"sys", none, none, "system", "system_text", none, 3, none, none, [], 0, false⟩ ::
      messages.map fun h => ⟨h, none, none, "messages", "text", some "user", 2, none, none, [], 1, false⟩
    tierEnd := (0, 1, messages.length + 1) }

/-- The hashes of the lane keys of that session and of an empty set of tools. -/
def talkHashes : Hashes where
  sha256 text :=
    if text = "s\x1finferred\x1fr1" then "faa209a69da8ad4bda2ec31b37282419a4df5e01743a2e500343f48e009da2ec"
    else if text = "s\x1finferred\x1fr2" then "1eaf322f45611b301007bde77764c32c9d81123acd2114b972e1cd43aee46003"
    else "e3b0c44298fc1c149afbf4c8996fb92427ae41e4649b934ca495991b7852b855"
  hmac _ value := value
  keyId key := key

theorem talk_lanes : inferLanes talkHashes [talkRequest "r2" 1 ["a", "b"], talkRequest "r1" 0 ["a"]] =
      naiveLanes talkHashes [talkRequest "r2" 1 ["a", "b"], talkRequest "r1" 0 ["a"]] ∧
    ∀ requests' : List Request, requests'.Perm [talkRequest "r2" 1 ["a", "b"], talkRequest "r1" 0 ["a"]] →
      inferLanes talkHashes requests' = inferLanes talkHashes [talkRequest "r2" 1 ["a", "b"], talkRequest "r1" 0 ["a"]] :=
  inferLanes_eq_naiveLanes (by decide) (by decide)

end TokenBill.InferLanes
