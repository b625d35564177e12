import TokenBill.Adapters.Fingerprint
import TokenBill.General.Memo

/-!
# The memo of fingerprinted blocks

`FingerprintCache`, and requests fingerprinted one after the other through one cache. The recorded byte count is
always that of the held entries and within the size. Through caches of every size the fingerprints are those
computed without one exactly when no two blocks with one key, tokenizer family, tier, kind, text and position are
such that one has no role and the other an empty one: the tag writes both roles alike.
-/

namespace TokenBill.Fingerprint

open General List

/-! ### The cache -/

/-- What an entry is kept under. -/
structure CacheKey where
  (kid family : String)
  (tag wire : List Char)
  pos : Nat
  kind : String
  deriving DecidableEq

def CacheKey.size (k : CacheKey) : Nat := k.wire.length + 64

/-- `FingerprintCache`: the text that is held with a block is the one of its key. -/
abbrev Cache : Type := Memo CacheKey BlockRef

/-- A block to fingerprint: the key of the hashes, the tokenizer family, the block and its position. -/
structure Op where
  key : List UInt8
  family : String
  block : WiredBlock
  pos : Nat

section

variable (host : Host)

/-- `ck`. -/
def Op.cacheKey (x : Op) : CacheKey :=
  ⟨host.keyId x.key, x.family, tagOf x.block.tier x.block.role, x.block.wire, x.pos, x.block.kind⟩

def Op.ref (x : Op) : BlockRef := blockRef host x.key x.family x.block x.pos

def placed (key : List UInt8) (family : String) (blocks : List WiredBlock) : List Op :=
  List.zipWith (fun w pos => ⟨key, family, w, pos⟩) blocks (lookbackPositions (blocks.map (·.kind)))

/-- `fingerprint_blocks` with a cache. -/
def fingerprintBlocksCached (cache : Cache) (key : List UInt8) (tier : ContentTier) (family : String)
    (blocks : List WiredBlock) : Except String Fingerprinted × Cache :=
  match checkFpArgs key tier with
  | some why => (.error why, cache)
  | none =>
    let found := cache.calls CacheKey.size (Op.cacheKey host) (Op.ref host) (placed key family blocks)
    let nTools := blocks.countP fun w => decide (w.tier = "tools")
    let nSystem := blocks.countP fun w => decide (w.tier = "system")
    (.ok {
      fingerprint := ⟨host.keyId key, found.1, nTools, nTools + nSystem, found.1.length⟩
      breakpoints := breakpointsFrom 0 (blocks.map (·.marker))
      content := if tier = .full then
          (found.1.zip blocks).foldl (fun content e => setContent content e.1.h e.2.wire) []
        else [] }, found.2)

/-- `fingerprint_request` with a cache. -/
def fingerprintRequestCached (cache : Cache) (key : List UInt8) (tier : ContentTier) (family : String) (p : Sent) :
    Except String Fingerprinted × Cache :=
  match checkFpArgs key tier with
  | some why => (.error why, cache)
  | none => fingerprintBlocksCached host cache key tier family (snapshotBlocks p)

/-- A request to fingerprint. -/
structure Job where
  key : List UInt8
  tier : ContentTier
  family : String
  sent : Sent

/-- Requests fingerprinted one after the other through one cache. -/
def runJobs (cache : Cache) : List Job → List (Except String Fingerprinted) × Cache
  | [] => ([], cache)
  | j :: jobs =>
    let r := fingerprintRequestCached host cache j.key j.tier j.family j.sent
    (r.1 :: (runJobs r.2 jobs).1, (runJobs r.2 jobs).2)

def Job.alone (j : Job) : Except String Fingerprinted := fingerprintRequest host j.key j.tier j.family j.sent

/-- The blocks of a request that are fingerprinted. -/
def Job.ops (j : Job) : List Op :=
  match checkFpArgs j.key j.tier with
  | some _ => []
  | none => placed j.key j.family (snapshotBlocks j.sent)

/-- The fingerprints of the requests are those without a cache. -/
def Transparent (maxBytes : Nat) (jobs : List Job) : Prop :=
  (runJobs host (Memo.empty maxBytes) jobs).1.map (fun r => r.map (·.fingerprint)) =
    jobs.map fun j => (j.alone host).map (·.fingerprint)

/-- The recorded byte count is that of the held entries and within the size. -/
def Accounted (maxBytes : Nat) (cache : Cache) : Prop :=
  cache.bytes = (cache.items.map fun e => e.1.wire.length + 64).sum ∧ cache.bytes ≤ maxBytes

/-- Two blocks with one key, tokenizer family, tier, kind, text and position. -/
def Op.Same (x y : Op) : Prop :=
  x.key = y.key ∧ x.family = y.family ∧ x.block.tier = y.block.tier ∧ x.block.kind = y.block.kind ∧
    x.block.wire = y.block.wire ∧ x.pos = y.pos

/-! ### Runs and calls -/

variable {host}

theorem placed_ref (key : List UInt8) (family : String) (blocks : List WiredBlock) :
    (placed key family blocks).map (Op.ref host) =
      List.zipWith (blockRef host key family) blocks (lookbackPositions (blocks.map (·.kind))) := by
  unfold placed
  rw [map_zipWith]
  rfl

/-- A request fingerprinted through a cache that returns the blocks without one is the request without one. -/
theorem cached_eq {cache : Cache} {j : Job} (h : (cache.calls CacheKey.size (Op.cacheKey host) (Op.ref host) j.ops).1 =
    j.ops.map (Op.ref host)) :
    (fingerprintRequestCached host cache j.key j.tier j.family j.sent).1 = j.alone host := by
  unfold Job.ops at h
  unfold fingerprintRequestCached fingerprintBlocksCached Job.alone fingerprintRequest fingerprintBlocks
  cases hargs : checkFpArgs j.key j.tier with
  | some why => rfl
  | none =>
    rw [hargs] at h
    dsimp only at h ⊢
    rw [placed_ref] at h
    rw [h]

theorem cache_eq (cache : Cache) (j : Job) : (fingerprintRequestCached host cache j.key j.tier j.family j.sent).2 =
    (cache.calls CacheKey.size (Op.cacheKey host) (Op.ref host) j.ops).2 := by
  unfold fingerprintRequestCached fingerprintBlocksCached Job.ops
  cases checkFpArgs j.key j.tier <;> rfl

/-- The blocks of a fingerprint. -/
def blocksOf (r : Except String ContentFingerprint) : List BlockRef :=
  match r with
  | .ok fp => fp.blocks
  | .error _ => []

theorem blocksOf_cached (cache : Cache) (j : Job) :
    blocksOf ((fingerprintRequestCached host cache j.key j.tier j.family j.sent).1.map (·.fingerprint)) =
      (cache.calls CacheKey.size (Op.cacheKey host) (Op.ref host) j.ops).1 := by
  unfold fingerprintRequestCached fingerprintBlocksCached Job.ops
  cases checkFpArgs j.key j.tier <;> rfl

theorem blocksOf_alone (j : Job) : blocksOf ((j.alone host).map (·.fingerprint)) = j.ops.map (Op.ref host) := by
  unfold Job.alone fingerprintRequest fingerprintBlocks Job.ops
  cases checkFpArgs j.key j.tier with
  | some why => rfl
  | none => exact (placed_ref _ _ _).symm

theorem blocks_runJobs (cache : Cache) (jobs : List Job) :
    ((runJobs host cache jobs).1.map fun r => blocksOf (r.map (·.fingerprint))).flatten =
      (cache.calls CacheKey.size (Op.cacheKey host) (Op.ref host) (jobs.flatMap Job.ops)).1 := by
  induction jobs generalizing cache with
  | nil => rfl
  | cons j jobs ih =>
    rw [flatMap_cons, Memo.calls_append, ← cache_eq, ← ih, ← blocksOf_cached]
    rfl

/-- A run is transparent exactly when the calls return the blocks without a cache. -/
theorem runJobs_eq_iff (cache : Cache) (jobs : List Job) :
    (runJobs host cache jobs).1.map (fun r => r.map (·.fingerprint)) =
        jobs.map (fun j => (j.alone host).map (·.fingerprint)) ↔
      (cache.calls CacheKey.size (Op.cacheKey host) (Op.ref host) (jobs.flatMap Job.ops)).1 =
        (jobs.flatMap Job.ops).map (Op.ref host) := by
  constructor
  · intro h
    have hblocks := congrArg (fun l => (l.map blocksOf).flatten) h
    rw [map_map, map_map] at hblocks
    rw [← blocks_runJobs cache jobs, map_flatMap]
    refine hblocks.trans ?_
    rw [flatMap_def]
    exact congrArg List.flatten (map_congr_left fun j _ => blocksOf_alone j)
  · intro h
    induction jobs generalizing cache with
    | nil => rfl
    | cons j jobs ih =>
      rw [flatMap_cons, Memo.calls_append, map_append] at h
      obtain ⟨hfirst, hrest⟩ := append_inj h (by rw [Memo.length_calls, length_map])
      rw [← cache_eq] at hrest
      rw [map_cons, ← ih _ hrest, ← cached_eq hfirst]
      rfl

/-! ### Blocks that share a key -/

theorem tier_of_walk (p : Sent) : ∀ r ∈ walk p, r.tier = "tools" ∨ r.tier = "system" ∨ r.tier = "messages" := by
  intro r hr
  rcases mem_append.mp hr with hr | hr
  · rcases mem_append.mp hr with hr | hr
    · obtain ⟨tool, -, rfl⟩ := mem_map.mp hr
      exact .inl rfl
    · have hsystem : ∀ v, (systemRaw v).tier = "system" := fun v => by cases v <;> rfl
      unfold systemRaws at hr
      split at hr
      · split at hr
        · cases hr
        · rw [mem_singleton.mp hr]
          exact .inr (.inl (hsystem _))
      · obtain ⟨v, -, rfl⟩ := mem_map.mp hr
        exact .inr (.inl (hsystem v))
      · cases hr
  · obtain ⟨msg, -, hr⟩ := mem_flatMap.mp hr
    have hcontent : ∀ role v, (contentRaw role v).tier = "messages" := fun role v => by cases v <;> rfl
    unfold messageRaws at hr
    split at hr
    · split at hr
      · rw [mem_singleton.mp hr]
        exact .inr (.inr (hcontent _ _))
      · obtain ⟨v, -, rfl⟩ := mem_map.mp hr
        exact .inr (.inr (hcontent _ v))
      · cases hr
    · rw [mem_singleton.mp hr]
      exact .inr (.inr rfl)

theorem mem_placed {key : List UInt8} {family : String} {blocks : List WiredBlock} {x : Op}
    (h : x ∈ placed key family blocks) : x.key = key ∧ x.block ∈ blocks := by
  unfold placed at h
  obtain ⟨i, hi, rfl⟩ := getElem_of_mem h
  rw [getElem_zipWith]
  exact ⟨rfl, getElem_mem _⟩

theorem mem_ops {j : Job} {x : Op} (h : x ∈ j.ops) :
    x.key = j.key ∧ (x.block.tier = "tools" ∨ x.block.tier = "system" ∨ x.block.tier = "messages") := by
  unfold Job.ops at h
  split at h
  · cases h
  · obtain ⟨hkey, hblock⟩ := mem_placed h
    obtain ⟨r, hr, hrx⟩ := mem_map.mp hblock
    have htier : (wireBlock r).tier = r.tier := by
      unfold wireBlock
      split <;> rfl
    rw [← hrx, htier]
    exact ⟨hkey, tier_of_walk _ r hr⟩

/-- The tag tells the tiers apart, and the roles but for a missing and an empty one. -/
theorem tagOf_inj {t t' : String} {role role' : Option String} (ht : t = "tools" ∨ t = "system" ∨ t = "messages")
    (ht' : t' = "tools" ∨ t' = "system" ∨ t' = "messages") (h : tagOf t role = tagOf t' role') :
    t = t' ∧ role.getD "" = role'.getD "" := by
  have htier : t = t' := by
    unfold tagOf at h
    rcases ht with rfl | rfl | rfl <;> rcases ht' with rfl | rfl | rfl <;> first | rfl | exact absurd h (by simp)
  subst htier
  have hroles : (role.getD "").toList = (role'.getD "").toList := by simpa [tagOf] using h
  exact ⟨rfl, String.toList_injective hroles⟩

theorem same_of_cacheKey {jobs : List Job} (hkeys : ∀ j ∈ jobs, ∀ j' ∈ jobs, host.keyId j.key = host.keyId j'.key →
    j.key = j'.key) {x y : Op} (hx : x ∈ jobs.flatMap Job.ops) (hy : y ∈ jobs.flatMap Job.ops)
    (h : x.cacheKey host = y.cacheKey host) : x.Same y ∧ x.block.role.getD "" = y.block.role.getD "" := by
  obtain ⟨j, hj, hxj⟩ := mem_flatMap.mp hx
  obtain ⟨j', hj', hyj⟩ := mem_flatMap.mp hy
  obtain ⟨hxkey, hxtier⟩ := mem_ops hxj
  obtain ⟨hykey, hytier⟩ := mem_ops hyj
  obtain ⟨hkid, hfamily, htag, hwire, hpos, hkind⟩ := CacheKey.mk.inj h
  obtain ⟨htier, hrole⟩ := tagOf_inj hxtier hytier htag
  have hkey : x.key = y.key := by
    rw [hxkey, hykey] at hkid ⊢
    exact hkeys j hj j' hj' hkid
  exact ⟨⟨hkey, hfamily, htier, hkind, hwire, hpos⟩, hrole⟩

theorem ref_eq_of_same {x y : Op} (h : x.Same y) (hrole : x.block.role = y.block.role) : x.ref host = y.ref host := by
  obtain ⟨hkey, hfamily, htier, hkind, hwire, hpos⟩ := h
  unfold Op.ref blockRef
  rw [hkey, hfamily, htier, hkind, hwire, hpos, hrole]

/-- Through caches of every size the fingerprints of a sequence of requests are those without a cache, and what a
cache holds is accounted for after every operation, exactly when no two of the blocks are the same but for a missing
and an empty role. -/
theorem cache_transparent_iff {jobs : List Job}
    (hkeys : ∀ j ∈ jobs, ∀ j' ∈ jobs, host.keyId j.key = host.keyId j'.key → j.key = j'.key) :
    ((∀ maxBytes, Transparent host maxBytes jobs) ∧
        ∀ maxBytes cache, Memo.Reach CacheKey.size maxBytes cache → Accounted maxBytes cache) ↔
      ∀ x ∈ jobs.flatMap Job.ops, ∀ y ∈ jobs.flatMap Job.ops, x.Same y →
        ¬(x.block.role = none ∧ y.block.role = some "") := by
  have haccounted : ∀ maxBytes cache, Memo.Reach CacheKey.size maxBytes cache → Accounted maxBytes cache := by
    intro maxBytes cache hreach
    obtain ⟨hbounded, hmax⟩ := hreach.bounded
    exact ⟨hbounded.bytes_eq, hmax ▸ hbounded.bytes_le⟩
  have hruns : (∀ maxBytes, Transparent host maxBytes jobs) ↔ ∀ x ∈ jobs.flatMap Job.ops, ∀ y ∈ jobs.flatMap Job.ops,
      x.cacheKey host = y.cacheKey host → x.ref host = y.ref host := by
    rw [← Memo.calls_eq_map_iff CacheKey.size]
    exact forall_congr' fun maxBytes => runJobs_eq_iff _ jobs
  rw [and_iff_left haccounted, hruns]
  constructor
  · rintro h x hx y hy hsame ⟨hnone, hempty⟩
    have hkey : x.cacheKey host = y.cacheKey host := by
      obtain ⟨hkey, hfamily, htier, hkind, hwire, hpos⟩ := hsame
      unfold Op.cacheKey tagOf
      rw [hkey, hfamily, htier, hkind, hwire, hpos, hnone, hempty]
      rfl
    have hroles : x.block.role = y.block.role := congrArg BlockRef.role (h x hx y hy hkey)
    rw [hnone, hempty] at hroles
    cases hroles
  · intro h x hx y hy hkey
    obtain ⟨hsame, hgetD⟩ := same_of_cacheKey hkeys hx hy hkey
    refine ref_eq_of_same hsame ?_
    have hback : y.Same x := by
      obtain ⟨hkey, hfamily, htier, hkind, hwire, hpos⟩ := hsame
      exact ⟨hkey.symm, hfamily.symm, htier.symm, hkind.symm, hwire.symm, hpos.symm⟩
    cases hrx : x.block.role with
    | none =>
      cases hry : y.block.role with
      | none => rfl
      | some r =>
        rw [hrx, hry] at hgetD
        exact absurd ⟨hrx, hry.trans (congrArg some hgetD.symm)⟩ (h x hx y hy hsame)
    | some r =>
      cases hry : y.block.role with
      | none =>
        rw [hrx, hry] at hgetD
        exact absurd ⟨hry, hrx.trans (congrArg some hgetD)⟩ (h y hy x hx hback)
      | some r' =>
        rw [hrx, hry] at hgetD
        exact congrArg some hgetD

end

/-! ### Two messages with the same text -/

def textMessage (role : Option String) : Payload :=
  .dict ((role.map fun r => ("role", .str r)).toList ++ [("content", .str "hi")])

def textJobs (roles : List (Option String)) : List Job :=
  roles.map fun role => ⟨[1], .fingerprint, "claude-4.7+", ⟨[], .null, [textMessage role]⟩⟩

/-- What the host computes of the text under the key `[1]`, as a block without a role and as one of a user. -/
def textHost : Host where
  hmac _ data :=
    if data = tagOf "messages" none ++ wire (textBlock "hi") then
      "7db92e2d615fad9e22526ea73b99f2a6ff0faba7ea0562f91ea14bb5672d6365"
    else if data = tagOf "messages" none ++ sortedWire (textBlock "hi") then
      "864d014c025b74bf4bf7e4f85b3ec440430f1f318075a7323311a5869b60f596"
    else if data = tagOf "messages" (some "user") ++ wire (textBlock "hi") then
      "2db67da7077a1359809b2c193d2a5d388969cd9205e199de9145dabf92a44295"
    else "238c16c7b43e77be65adbca4998ae78e1ffcb31045a8e0e2295ece0eac5baf07"
  keyId _ := "k_47ba89628a33"
  loads data := if data = wire (textBlock "hi") then textBlock "hi" else .null
  finditer _ _ := []
  b64decode _ := none

theorem textRoles_transparent : (∀ maxBytes, Transparent textHost maxBytes (textJobs [none, some "user", none])) ∧
    ∀ maxBytes cache, Memo.Reach CacheKey.size maxBytes cache → Accounted maxBytes cache :=
  (cache_transparent_iff (by decide)).mpr (by unfold Op.Same; decide)

theorem emptyRole_confused : ¬Transparent textHost 1000 (textJobs [none, some ""]) := by
  unfold Transparent
  decide +kernel

end TokenBill.Fingerprint
