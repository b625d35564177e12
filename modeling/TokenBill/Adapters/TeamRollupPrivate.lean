import TokenBill.Adapters.TeamRollupSums

/-!
# When a team rollup hides small teams

Every group that is emitted should cover `k` people, where records that share a reference, up to
case, are of one person. The rollup counts identities, of which a person has several who is reported
with and without an id: it keeps the promise exactly when each group it counts `k` identities in has
`k` people (`rollup_iff`). What it counts is never lost (`Conserved`).
-/

namespace TokenBill.Admin

open General Kanon List

/-! ### People -/

def foldedRefs (u : Unicode) (r : PersonRecord) : List String := (r.actor.elim [] (·.refs u)).map u.casefold

/-- Two records of a file that share a folded reference. -/
def ShareRef (u : Unicode) (file : List PersonRecord) (a b : List String) : Prop :=
  (∃ r ∈ file, foldedRefs u r = a) ∧ (∃ r ∈ file, foldedRefs u r = b) ∧ ∃ ref ∈ a, ref ∈ b

/-- Two lists of folded references are of one person: records of the file that share references link them. -/
def SamePerson (u : Unicode) (file : List PersonRecord) : List String → List String → Prop :=
  Relation.ReflTransGen (ShareRef u file)

/-- Some entries are of at least `k` people. -/
def AtLeast (u : Unicode) (file : List PersonRecord) (k : ℕ) (entries : List Entry) : Prop :=
  ∃ es : List Entry, k ≤ es.length ∧ (∀ e ∈ es, e ∈ entries) ∧
    es.Pairwise fun a b => ¬ SamePerson u file (a.refs.map u.casefold) (b.refs.map u.casefold)

/-! ### The promise -/

/-- An emitted group covers a date and team: its own, or a team that is not emitted itself. -/
def covers (emitted : List Emitted) (g : Emitted) (key : GroupKey) : Bool :=
  decide (g.day = key.day) && if g.team = otherTeam then
    emitted.all fun g' => decide (g'.day = key.day → g'.team = key.team → g'.team = otherTeam)
  else decide (g.team = key.team)

def published (emitted : List Emitted) (key : GroupKey) : Bool := emitted.any fun g => covers emitted g key

def allEmitted (results : List DayResult) : List Emitted := results.flatMap (·.emitted)

/-- What is emitted adds up to what was accepted of the groups that were not withheld. -/
structure Conserved (accepted : List Entry) (results : List DayResult) : Prop where
  sums : ((allEmitted results).map Emitted.sums).sum =
    ((accepted.filter fun e => published (allEmitted results) e.key).map Entry.sums).sum
  withheld : (results.map (·.dropped)).sum =
    (((accepted.map Entry.key).dedup).filter fun key => !published (allEmitted results) key).length

/-- No emitted group covers fewer than `k` people. -/
def Private (u : Unicode) (file : List PersonRecord) (k : ℕ) (accepted : List Entry)
    (results : List DayResult) : Prop :=
  ∀ g ∈ allEmitted results,
    AtLeast u file k (accepted.filter fun e => covers (allEmitted results) g e.key)

/-! ### The condition -/

def entriesAt (accepted : List Entry) (key : GroupKey) : List Entry := accepted.filter fun e => decide (e.key = key)

def identities (accepted : List Entry) (key : GroupKey) : List String :=
  ((entriesAt accepted key).map (·.identity)).dedup

/-- A team of fewer than `k` identities, or the "(other)" team. -/
def isSmall (k : ℕ) (accepted : List Entry) (key : GroupKey) : Bool :=
  decide ((identities accepted key).length < k ∨ key.team = otherTeam)

def smallEntries (k : ℕ) (accepted : List Entry) (day : ℕ) : List Entry :=
  accepted.filter fun e => decide (e.day = day) && isSmall k accepted e.key

/-- The identities of the small teams of a date, counted in each team. -/
def smallCount (k : ℕ) (accepted : List Entry) (day : ℕ) : ℕ :=
  ((((smallEntries k accepted day).map Entry.key).dedup).map fun key => (identities accepted key).length).sum

/-- Every group that has `k` identities has `k` people: each team, and the small teams of a date
together where their sums are in range. -/
structure Counted (u : Unicode) (file : List PersonRecord) (k : ℕ) (accepted : List Entry) : Prop where
  big : ∀ key : GroupKey, key.team ≠ otherTeam → k ≤ (identities accepted key).length →
    AtLeast u file k (entriesAt accepted key)
  small : ∀ day, k ≤ smallCount k accepted day → Fits ((smallEntries k accepted day).map Entry.sums).sum →
    AtLeast u file k (smallEntries k accepted day)

/-! ### Merging -/

theorem foldlM_labels {α : Type} (combine : α → α → Except Error α) (rows big : List (Row α))
    (hn : ((big ++ rows).map (·.1)).Nodup) : rows.foldlM (addBig combine) big = .ok (big ++ rows) := by
  induction rows generalizing big with
  | nil =>
    rw [append_nil]
    rfl
  | cons r rows ih =>
    have hn' : ((big ++ [r] ++ rows).map (·.1)).Nodup := by
      rw [append_assoc]
      exact hn
    have hnot : r.1 ∉ big.map (·.1) := by
      rw [map_append, nodup_append'] at hn
      exact fun h => hn.2.2 h mem_cons_self
    have hnone : big.lookup r.1 = none := by
      rw [lookup_eq_none_iff]
      exact fun e he => bne_iff_ne.mpr fun hk => hnot (mem_map.mpr ⟨e, he, hk.symm⟩)
    have happend : ∀ l : List (Row α), r.1 ∉ l.map (·.1) → upsert (·.1) r l = l ++ [r] := by
      intro l
      induction l with
      | nil => exact fun _ => rfl
      | cons x l ihl =>
        intro hl
        rw [map_cons, mem_cons, not_or] at hl
        rw [upsert, if_neg (fun h => hl.1 h.symm), ihl hl.2, cons_append]
    have hstep : addBig combine big r = .ok (big ++ [r]) := by
      unfold addBig
      rw [hnone]
      exact congrArg Except.ok (happend big hnot)
    rw [foldlM_cons, hstep]
    exact (ih _ hn').trans (by rw [append_assoc]; rfl)

/-- `merge_small_groups` of distinct labels. -/
theorem mergeSmallGroups_eq {α : Type} (combine : α → α → Except Error α) {k : ℕ} (hk : 0 < k) (label : String)
    (rows : List (Row α)) (hn : (rows.map (·.1)).Nodup) :
    mergeSmallGroups combine k label rows =
      let big := (rows.filter (isBigRow k label)).insertionSort fun a b => a.1 ≤ b.1
      let small := rows.filter fun r => !isBigRow k label r
      let total := (small.map (·.2.1)).sum
      if k ≤ total then
        (fun payload => (big ++ payload.toList.map fun p => (label, total, p), 0)) <$>
          combineAll combine (small.map (·.2.2))
      else .ok (big, small.length) := by
  have hbig := foldlM_labels combine (rows.filter (isBigRow k label)) []
    (hn.sublist (filter_sublist.map fun r : Row α => r.1))
  unfold mergeSmallGroups
  rw [if_neg (by omega), hbig, nil_append]
  rfl

/-- The groups of `k` users. -/
def bigRows (k : ℕ) (rows : List (Row Payload)) : List (Row Payload) := rows.filter (isBigRow k otherTeam)

def smallRows (k : ℕ) (rows : List (Row Payload)) : List (Row Payload) :=
  rows.filter fun r => !isBigRow k otherTeam r

def smallTotal (k : ℕ) (rows : List (Row Payload)) : ℕ := ((smallRows k rows).map (·.2.1)).sum

def smallSums (k : ℕ) (rows : List (Row Payload)) : Sums := ((smallRows k rows).map (·.2.2.sums)).sum

/-- What happens to the groups of a date: those of `k` users stay; the others are dropped, as they are
too few or out of range, or become one. -/
inductive MergedDay (k : ℕ) (rows merged : List (Row Payload)) (dropped : ℕ) : Prop where
  | withheld (hp : merged.Perm (bigRows k rows)) (hd : dropped = (smallRows k rows).length)
      (hs : ¬ (k ≤ smallTotal k rows ∧ Fits (smallSums k rows)))
  | other (p : Payload) (hp : merged.Perm (bigRows k rows ++ [(otherTeam, smallTotal k rows, p)]))
      (hd : dropped = 0) (hs : k ≤ smallTotal k rows ∧ Fits (smallSums k rows))
      (hsums : p.sums = smallSums k rows) (hhas : p.has = ((smallRows k rows).map (·.2.2.has)).sum)

theorem bigRows_bigRows (k : ℕ) (rows : List (Row Payload)) : bigRows k (bigRows k rows) = bigRows k rows := by
  unfold bigRows
  rw [filter_filter]
  simp

theorem smallRows_bigRows (k : ℕ) (rows : List (Row Payload)) : smallRows k (bigRows k rows) = [] := by
  unfold bigRows smallRows
  rw [filter_filter]
  simp

theorem length_small (k : ℕ) (rows : List (Row Payload)) :
    rows.length - (bigRows k rows).length = (smallRows k rows).length := by
  have hlen := length_eq_length_filter_add (l := rows) (isBigRow k otherTeam)
  unfold bigRows smallRows
  omega

variable {rows : List (Row Payload)}

theorem not_other_of_big {k : ℕ} {r : Row Payload} (h : r ∈ bigRows k rows) : r.1 ≠ otherTeam := by
  have hbig := (mem_filter.mp h).2
  simp only [isBigRow, decide_eq_true_eq] at hbig
  exact hbig.2

/-- The merged row is out of range where the outcome counts of the small groups are. -/
theorem any_other_iff (k n : ℕ) (rows : List (Row Payload)) (ps : List Payload) :
    ((bigRows k rows).insertionSort (fun a b => a.1 ≤ b.1) ++ ps.map fun p => (otherTeam, n, p)).any
        (fun r => decide (r.1 = otherTeam ∧ ∃ i, maxTokens < r.2.2.outcome i)) =
      ps.any fun p => decide (∃ i, maxTokens < p.outcome i) := by
  have hnone : ((bigRows k rows).insertionSort fun a b => a.1 ≤ b.1).any
      (fun r => decide (r.1 = otherTeam ∧ ∃ i, maxTokens < r.2.2.outcome i)) = false := by
    rw [any_eq_false]
    intro r hr
    rw [decide_eq_true_eq]
    exact fun h => not_other_of_big ((mem_insertionSort _).mp hr) h.1
  rw [any_append, hnone, Bool.false_or, any_map]
  simp [Function.comp_def]

/-- Without the small groups the others stay. -/
theorem dropSmall_spec {opts : Options} {day : ℕ} {merged : List (Row Payload)} {dropped : ℕ}
    {q : List (String × String)} (hk : 0 < opts.kAnonymity) (hn : (rows.map (·.1)).Nodup)
    (h : dropSmall opts day rows = .ok (merged, dropped, q)) :
    merged.Perm (bigRows opts.kAnonymity rows) ∧ dropped = (smallRows opts.kAnonymity rows).length := by
  obtain ⟨quarantined, -, h⟩ := bind_eq_ok.mp h
  have hsmall : (bigRows opts.kAnonymity rows).filter (fun r => !isBigRow opts.kAnonymity otherTeam r) = [] :=
    smallRows_bigRows opts.kAnonymity rows
  have hmerge := mergeSmallGroups_eq combinePayload hk otherTeam (bigRows opts.kAnonymity rows)
    (hn.sublist (filter_sublist.map fun r : Row Payload => r.1))
  have hzero : ¬ opts.kAnonymity ≤ 0 := by omega
  simp only [hsmall, map_nil, sum_nil, if_neg hzero] at hmerge
  have hbig : rows.filter (isBigRow opts.kAnonymity otherTeam) = bigRows opts.kAnonymity rows := rfl
  simp only [hbig, hmerge, Except.ok.injEq, Prod.mk.injEq] at h
  obtain ⟨rfl, rfl, -⟩ := h
  refine ⟨?_, length_small _ _⟩
  rw [show (bigRows opts.kAnonymity rows).filter (isBigRow opts.kAnonymity otherTeam) =
    bigRows opts.kAnonymity rows from bigRows_bigRows _ _]
  exact perm_insertionSort _ _

theorem mergeDay_spec {opts : Options} {day : ℕ} {merged : List (Row Payload)} {dropped : ℕ}
    {q : List (String × String)} (hn : (rows.map (·.1)).Nodup)
    (h : mergeDay opts day rows = .ok (merged, dropped, q)) :
    0 < opts.kAnonymity ∧ MergedDay opts.kAnonymity rows merged dropped := by
  rcases Nat.eq_zero_or_pos opts.kAnonymity with hk | hk
  · unfold mergeDay mergeSmallGroups at h
    rw [hk] at h
    cases h
  refine ⟨hk, ?_⟩
  have hsort : ((bigRows opts.kAnonymity rows).insertionSort fun a b => a.1 ≤ b.1).Perm
      (bigRows opts.kAnonymity rows) := perm_insertionSort _ _
  have hdrop : dropSmall opts day rows = .ok (merged, dropped, q) → ¬ Fits (smallSums opts.kAnonymity rows) →
      MergedDay opts.kAnonymity rows merged dropped := by
    intro h hfits
    obtain ⟨hp, hd⟩ := dropSmall_spec hk hn h
    exact .withheld hp hd fun hs => hfits hs.2
  have hmerge : mergeSmallGroups combinePayload opts.kAnonymity otherTeam rows =
      if opts.kAnonymity ≤ smallTotal opts.kAnonymity rows then
        (fun payload : Option Payload => ((bigRows opts.kAnonymity rows).insertionSort (fun a b => a.1 ≤ b.1) ++
          payload.toList.map fun p => (otherTeam, smallTotal opts.kAnonymity rows, p), 0)) <$>
            combineAll combinePayload ((smallRows opts.kAnonymity rows).map (·.2.2))
      else .ok ((bigRows opts.kAnonymity rows).insertionSort (fun a b => a.1 ≤ b.1),
        (smallRows opts.kAnonymity rows).length) :=
    mergeSmallGroups_eq combinePayload hk otherTeam rows hn
  unfold mergeDay at h
  by_cases htotal : opts.kAnonymity ≤ smallTotal opts.kAnonymity rows
  · rw [if_pos htotal] at hmerge
    obtain ⟨p, ps, hps⟩ : ∃ p ps, (smallRows opts.kAnonymity rows).map (·.2.2) = p :: ps := by
      cases hsmall : smallRows opts.kAnonymity rows with
      | nil =>
        unfold smallTotal at htotal
        rw [hsmall] at htotal
        exact absurd htotal (by simp; omega)
      | cons r rs => exact ⟨_, _, rfl⟩
    have hsums : smallSums opts.kAnonymity rows = ((p :: ps).map Payload.sums).sum := by
      rw [← hps, map_map]
      rfl
    have hhas : ((smallRows opts.kAnonymity rows).map (·.2.2.has)).sum = ((p :: ps).map (·.has)).sum := by
      rw [← hps, map_map]
      rfl
    rw [hps] at hmerge
    rcases combineAll_cases p ps with ⟨c, hc, hcs, hch, hle⟩ | ⟨msg, he, hfits⟩
    · rw [hc] at hmerge
      have hmerge : mergeSmallGroups combinePayload opts.kAnonymity otherTeam rows =
          .ok ((bigRows opts.kAnonymity rows).insertionSort (fun a b => a.1 ≤ b.1) ++
            [c].map fun p => (otherTeam, smallTotal opts.kAnonymity rows, p), 0) := hmerge
      rw [hmerge] at h
      dsimp only at h
      rw [any_other_iff] at h
      by_cases hout : ∃ i, maxTokens < c.outcome i
      · rw [if_pos (by simpa using hout)] at h
        obtain ⟨i, hi⟩ := hout
        refine hdrop h fun hfits => absurd (hfits.2 i) (not_le.mpr ?_)
        rw [hsums, ← hcs]
        exact hi
      · rw [if_neg (by simpa using hout)] at h
        obtain ⟨rfl, rfl, -⟩ := h
        refine .other c (hsort.append_right _) rfl ⟨htotal, ?_, fun i => ?_⟩ (hcs.trans hsums.symm)
          (hch.trans hhas.symm)
        · rw [hsums]
          exact hle
        · rw [hsums, ← hcs]
          exact not_lt.mp fun hi => hout ⟨i, hi⟩
    · rw [he] at hmerge
      rw [hmerge] at h
      exact hdrop h (hsums ▸ hfits)
  · rw [if_neg htotal] at hmerge
    have hany := any_other_iff opts.kAnonymity 0 rows []
    rw [map_nil, append_nil, any_nil] at hany
    rw [hmerge] at h
    dsimp only at h
    rw [hany, if_neg Bool.false_ne_true] at h
    obtain ⟨rfl, rfl, -⟩ := h
    exact .withheld hsort rfl fun hs => htotal hs.1

/-! ### The rows of a date -/

/-- The teams of a date, as `flush` sorts them. -/
def dayKeys (days : Days) (day : ℕ) : List GroupKey :=
  ((days.filter fun e => decide (e.1.day = day)).insertionSort fun a b => a.1.team ≤ b.1.team).map (·.1)

def rowAt (days : Days) (accepted : List Entry) (key : GroupKey) : Row Payload :=
  (key.team, (identities accepted key).length, (held days key).payload)

theorem dayKeys_perm (days : Days) (day : ℕ) :
    (dayKeys days day).Perm ((days.map (·.1)).filter fun key => decide (key.day = day)) := by
  rw [filter_map]
  exact (perm_insertionSort _ _).map _

theorem isBigRow_rowAt (k : ℕ) (days : Days) (accepted : List Entry) (key : GroupKey) :
    isBigRow k otherTeam (rowAt days accepted key) = !isSmall k accepted key := by
  unfold isBigRow isSmall
  rw [← decide_not]
  exact decide_eq_decide.mpr (by rw [not_or, not_lt]; rfl)

section day

variable {days : Days} {accepted : List Entry} {day k : ℕ} (ht : Tracks days accepted)
include ht

theorem users_length (key : GroupKey) : (held days key).users.length = (identities accepted key).length := by
  refine List.Perm.length_eq ((perm_ext_iff_of_nodup (ht.users key) (nodup_dedup _)).mpr fun x => ?_)
  rw [ht.identities, mem_dedup, mem_map]
  simp only [entriesAt, mem_filter, decide_eq_true_eq, and_assoc]

theorem dayRows_eq (day : ℕ) : dayRows days day = (dayKeys days day).map (rowAt days accepted) := by
  unfold dayRows dayKeys
  rw [map_map]
  refine map_congr_left fun e he => ?_
  have hin : e ∈ days := (mem_filter.mp ((mem_insertionSort _).mp he)).1
  have hheld : held days e.1 = e.2 := by
    unfold held
    rw [lookup_of_mem ht.nodup hin]
    rfl
  simp only [Function.comp_apply, rowAt, ← users_length ht, hheld]

theorem mem_dayKeys {key : GroupKey} : key ∈ dayKeys days day ↔ key.day = day ∧ ∃ e ∈ accepted, e.key = key := by
  rw [← ht.keys]
  unfold dayKeys
  simp only [mem_map, mem_insertionSort, mem_filter, decide_eq_true_eq]
  constructor
  · rintro ⟨e, ⟨he, rfl⟩, rfl⟩
    exact ⟨rfl, e, he, rfl⟩
  · rintro ⟨rfl, e, he, rfl⟩
    exact ⟨e, ⟨he, rfl⟩, rfl⟩

theorem dayKeys_nodup (day : ℕ) : (dayKeys days day).Nodup :=
  (dayKeys_perm days day).nodup_iff.mpr (ht.nodup.filter _)

theorem teams_nodup (day : ℕ) : ((dayRows days day).map (·.1)).Nodup := by
  rw [dayRows_eq ht, map_map]
  refine List.Nodup.map_on (fun a ha b hb hab => ?_) (dayKeys_nodup ht day)
  obtain ⟨ha, -⟩ := (mem_dayKeys ht).mp ha
  obtain ⟨hb, -⟩ := (mem_dayKeys ht).mp hb
  cases a
  cases b
  simp only [GroupKey.mk.injEq]
  exact ⟨ha.trans hb.symm, hab⟩

theorem bigRows_eq (day : ℕ) : bigRows k (dayRows days day) =
    ((dayKeys days day).filter fun key => !isSmall k accepted key).map (rowAt days accepted) := by
  unfold bigRows
  rw [dayRows_eq ht, filter_map]
  exact congrArg _ (filter_congr fun key _ => isBigRow_rowAt k days accepted key)

theorem smallRows_eq (day : ℕ) : smallRows k (dayRows days day) =
    ((dayKeys days day).filter (isSmall k accepted)).map (rowAt days accepted) := by
  unfold smallRows
  rw [dayRows_eq ht, filter_map]
  refine congrArg _ (filter_congr fun key _ => ?_)
  rw [Function.comp_apply, isBigRow_rowAt, Bool.not_not]

theorem small_keys_perm (day : ℕ) : ((dayKeys days day).filter (isSmall k accepted)).Perm
    ((smallEntries k accepted day).map Entry.key).dedup := by
  refine (perm_ext_iff_of_nodup ((dayKeys_nodup ht day).filter _) (nodup_dedup _)).mpr fun key => ?_
  rw [mem_filter, mem_dayKeys ht, mem_dedup, mem_map]
  simp only [smallEntries, mem_filter, Bool.and_eq_true, decide_eq_true_eq]
  constructor
  · rintro ⟨⟨hday, e, he, rfl⟩, hsmall⟩
    exact ⟨e, ⟨he, hday, hsmall⟩, rfl⟩
  · rintro ⟨e, ⟨he, hday, hsmall⟩, rfl⟩
    exact ⟨⟨hday, e, he, rfl⟩, hsmall⟩

theorem smallTotal_eq (day : ℕ) : smallTotal k (dayRows days day) = smallCount k accepted day := by
  unfold smallTotal smallCount
  rw [smallRows_eq ht, map_map]
  exact ((small_keys_perm ht day).map _).sum_eq

/-- What some groups hold together is the sum of their entries. -/
theorem held_sums {keys : List GroupKey} (hn : keys.Nodup) :
    (keys.map fun key => (held days key).sums).sum =
      ((accepted.filter fun e => decide (e.key ∈ keys)).map Entry.sums).sum := by
  rw [sum_of_keys Entry.key Entry.sums accepted hn]
  exact congrArg _ (map_congr_left fun key _ => ht.sums key)

theorem smallSums_eq (day : ℕ) :
    smallSums k (dayRows days day) = ((smallEntries k accepted day).map Entry.sums).sum := by
  have hkeys := held_sums ht ((dayKeys_nodup ht day).filter (isSmall k accepted))
  unfold smallSums
  rw [smallRows_eq ht, map_map]
  refine hkeys.trans (congrArg (fun l : List Entry => (l.map Entry.sums).sum) (filter_congr fun e he => ?_))
  rw [Bool.eq_iff_iff, decide_eq_true_eq, mem_filter, mem_dayKeys ht, Bool.and_eq_true, decide_eq_true_eq]
  constructor
  · rintro ⟨⟨hday, -⟩, hsmall⟩
    exact ⟨hday, hsmall⟩
  · rintro ⟨hday, hsmall⟩
    exact ⟨⟨hday, e, he, rfl⟩, hsmall⟩

end day

/-! ### What a date emits -/

theorem emittedOf_sums {day : ℕ} {r : Row Payload} (h : r.2.2.has = 0 → r.2.2.outcome = 0) :
    (emittedOf day r).sums = r.2.2.sums := by
  unfold emittedOf Emitted.sums Payload.sums
  split
  · rename_i hzero
    rw [h hzero]
    rfl
  · rfl

theorem outcome_of_has {g : Group} (h : g.payload.has = 0) : g.payload.outcome = 0 := by
  unfold Group.payload at h ⊢
  cases ho : g.outcome with
  | none => rfl
  | some o => simp [ho] at h

/-- What a date emits, and what it drops. -/
structure DaySpec (k : ℕ) (days : Days) (accepted : List Entry) (day : ℕ) (res : DayResult) : Prop where
  pos : 0 < k
  ofDay : ∀ g ∈ res.emitted, g.day = day
  own : ∀ team, team ≠ otherTeam → ((∃ g ∈ res.emitted, g.team = team) ↔
    ⟨day, team⟩ ∈ dayKeys days day ∧ isSmall k accepted ⟨day, team⟩ = false)
  other : (∃ g ∈ res.emitted, g.team = otherTeam) ↔
    k ≤ smallCount k accepted day ∧ Fits ((smallEntries k accepted day).map Entry.sums).sum
  whole : (∃ g ∈ res.emitted, g.team = otherTeam) →
    (res.emitted.map Emitted.sums).sum = ((dayKeys days day).map fun key => (held days key).sums).sum ∧
      res.dropped = 0
  part : (¬ ∃ g ∈ res.emitted, g.team = otherTeam) →
    (res.emitted.map Emitted.sums).sum =
        (((dayKeys days day).filter fun key => !isSmall k accepted key).map fun key => (held days key).sums).sum ∧
      res.dropped = ((dayKeys days day).filter (isSmall k accepted)).length

section flush

variable {opts : Options} {days : Days} {accepted : List Entry} {results : List DayResult}

theorem own_row_iff (ht : Tracks days accepted) {k day : ℕ} {team : String} (ho : team ≠ otherTeam) :
    (∃ r ∈ bigRows k (dayRows days day), r.1 = team) ↔
      ⟨day, team⟩ ∈ dayKeys days day ∧ isSmall k accepted ⟨day, team⟩ = false := by
  rw [bigRows_eq ht]
  simp only [mem_map, mem_filter, Bool.not_eq_true', exists_exists_and_eq_and]
  constructor
  · rintro ⟨key, ⟨hkey, hsmall⟩, rfl⟩
    obtain ⟨rfl, -⟩ := (mem_dayKeys ht).mp hkey
    exact ⟨hkey, hsmall⟩
  · rintro ⟨hkey, hsmall⟩
    exact ⟨_, ⟨hkey, hsmall⟩, rfl⟩

theorem big_emitted_sums (ht : Tracks days accepted) (k day : ℕ) :
    ((bigRows k (dayRows days day)).map fun r => (emittedOf day r).sums).sum =
      (((dayKeys days day).filter fun key => !isSmall k accepted key).map fun key => (held days key).sums).sum := by
  rw [bigRows_eq ht, map_map]
  exact congrArg _ (map_congr_left fun key _ => emittedOf_sums outcome_of_has)

theorem smallSums_keys (ht : Tracks days accepted) (k day : ℕ) : smallSums k (dayRows days day) =
    (((dayKeys days day).filter (isSmall k accepted)).map fun key => (held days key).sums).sum := by
  unfold smallSums
  rw [smallRows_eq ht, map_map]
  rfl

/-- The merged row has outcome counts only if a group has. -/
theorem outcome_of_small (ht : Tracks days accepted) {k day : ℕ} {p : Payload}
    (hsums : p.sums = smallSums k (dayRows days day))
    (hhas : p.has = ((smallRows k (dayRows days day)).map (·.2.2.has)).sum) (hzero : p.has = 0) : p.outcome = 0 := by
  have hnone : ∀ r ∈ smallRows k (dayRows days day), r.2.2.outcome = 0 := by
    intro r hr
    have hr0 : r.2.2.has = 0 :=
      List.sum_eq_zero_iff_forall_eq_nat.mp (hhas.symm.trans hzero) _ (mem_map_of_mem hr)
    rw [smallRows_eq ht] at hr
    obtain ⟨key, -, rfl⟩ := mem_map.mp hr
    exact outcome_of_has hr0
  have hsnd : p.outcome = ((smallRows k (dayRows days day)).map (·.2.2.outcome)).sum := by
    have hmap := map_list_sum (AddMonoidHom.snd (String → CellSums) Outcome)
      ((smallRows k (dayRows days day)).map (·.2.2.sums))
    rw [map_map] at hmap
    exact (congrArg Prod.snd hsums).trans hmap
  rw [hsnd, map_congr_left hnone]
  simp

theorem flushDay_spec (ht : Tracks days accepted) {day : ℕ} {res : DayResult}
    (h : flushDay opts days day = .ok res) : DaySpec opts.kAnonymity days accepted day res := by
  obtain ⟨⟨merged, dropped, q⟩, hmerge, h⟩ := bind_eq_ok.mp h
  obtain rfl := pure_eq_ok.mp h
  obtain ⟨hk, hspec⟩ := mergeDay_spec (teams_nodup ht day) hmerge
  have hday : ∀ g ∈ merged.map (emittedOf day), g.day = day := by
    intro g hg
    obtain ⟨r, -, rfl⟩ := mem_map.mp hg
    rfl
  have hteam : ∀ team, (∃ g ∈ merged.map (emittedOf day), g.team = team) ↔ ∃ r ∈ merged, r.1 = team := by
    intro team
    simp only [mem_map, exists_exists_and_eq_and]
    rfl
  have hbig : ¬ ∃ r ∈ bigRows opts.kAnonymity (dayRows days day), r.1 = otherTeam := by
    rintro ⟨r, hr, ho⟩
    exact not_other_of_big hr ho
  have hparts : (((dayKeys days day).filter fun key => !isSmall opts.kAnonymity accepted key).map
      fun key => (held days key).sums).sum + smallSums opts.kAnonymity (dayRows days day) =
        ((dayKeys days day).map fun key => (held days key).sums).sum := by
    rw [smallSums_keys ht, ← sum_append, ← map_append]
    refine List.Perm.sum_eq (List.Perm.map _ (perm_append_comm.trans ?_))
    exact filter_append_perm _ _
  have hfits := smallSums_eq (k := opts.kAnonymity) ht day
  have htotal := smallTotal_eq (k := opts.kAnonymity) ht day
  cases hspec with
  | withheld hp hd hs =>
    have hmem : ∀ team, (∃ r ∈ merged, r.1 = team) ↔
        ∃ r ∈ bigRows opts.kAnonymity (dayRows days day), r.1 = team :=
      fun team => exists_congr fun r => and_congr_left' hp.mem_iff
    refine ⟨hk, hday, fun team ho => ?_, ?_, fun h => ?_, fun _ => ⟨?_, ?_⟩⟩
    · rw [hteam, hmem, own_row_iff ht ho]
    · rw [hteam, hmem, ← htotal, ← hfits]
      exact ⟨fun h => absurd h hbig, fun h => absurd h hs⟩
    · rw [hteam, hmem] at h
      exact absurd h hbig
    · rw [map_map, (hp.map _).sum_eq]
      exact big_emitted_sums ht _ _
    · rw [hd, smallRows_eq ht, length_map]
  | other p hp hd hs hsums hhas =>
    have hmem : ∀ team, (∃ r ∈ merged, r.1 = team) ↔
        (∃ r ∈ bigRows opts.kAnonymity (dayRows days day), r.1 = team) ∨ otherTeam = team := by
      intro team
      simp only [hp.mem_iff, mem_append, mem_singleton, or_and_right, exists_or, exists_eq_left]
    have hin : ∃ r ∈ merged, r.1 = otherTeam := (hmem otherTeam).mpr (.inr rfl)
    refine ⟨hk, hday, fun team ho => ?_, ?_, fun _ => ⟨?_, hd⟩, fun h => ?_⟩
    · rw [hteam, hmem, own_row_iff ht ho]
      exact or_iff_left fun h => ho h.symm
    · rw [hteam, ← htotal, ← hfits]
      exact ⟨fun _ => hs, fun _ => hin⟩
    · rw [map_map, (hp.map _).sum_eq, map_append, sum_append, ← hparts,
        ← big_emitted_sums ht, map_cons, map_nil, sum_cons, sum_nil, add_zero, ← hsums]
      exact congrArg _ (emittedOf_sums (outcome_of_small ht hsums hhas))
    · exact absurd ((hteam _).mpr hin) h

/-! ### All dates -/

def dayList (days : Days) : List ℕ := (days.map (·.1.day)).dedup.insertionSort (· ≤ ·)

theorem mem_dayList {days : Days} {day : ℕ} : day ∈ dayList days ↔ ∃ key ∈ days.map (·.1), key.day = day := by
  unfold dayList
  rw [mem_insertionSort, mem_dedup, mem_map]
  simp only [mem_map, exists_exists_and_eq_and]

theorem dayList_nodup (days : Days) : (dayList days).Nodup :=
  (perm_insertionSort _ _).nodup_iff.mpr (nodup_dedup _)

theorem flush_days (ht : Tracks days accepted) (h : flush opts days = .ok results) :
    List.Forall₂ (DaySpec opts.kAnonymity days accepted) (dayList days) results :=
  (mapM_eq_ok.mp h).imp fun _ _ h => flushDay_spec ht h

variable {g : Emitted} {key : GroupKey}

/-- What is emitted for a date is what its flush emits. -/
theorem mem_allEmitted {k : ℕ} (h : List.Forall₂ (DaySpec k days accepted) (dayList days) results) :
    g ∈ allEmitted results ↔ ∃ res ∈ results, DaySpec k days accepted g.day res ∧ g ∈ res.emitted := by
  unfold allEmitted
  rw [mem_flatMap]
  constructor
  · rintro ⟨res, hres, hg⟩
    obtain ⟨day, -, hspec⟩ := exists_of_mem_right h hres
    rw [hspec.ofDay g hg]
    exact ⟨res, hres, hspec, hg⟩
  · rintro ⟨res, hres, -, hg⟩
    exact ⟨res, hres, hg⟩

theorem own_emitted_iff {k : ℕ} (h : List.Forall₂ (DaySpec k days accepted) (dayList days) results)
    (ht : Tracks days accepted) (hkey : ∃ e ∈ accepted, e.key = key) (ho : key.team ≠ otherTeam) :
    (∃ g ∈ allEmitted results, g.day = key.day ∧ g.team = key.team) ↔ isSmall k accepted key = false := by
  have hday : key.day ∈ dayList days := mem_dayList.mpr ⟨key, (ht.keys key).mpr hkey, rfl⟩
  obtain ⟨res, hres, hspec⟩ := exists_of_mem_left h hday
  constructor
  · rintro ⟨g, hg, hgday, hteam⟩
    obtain ⟨res', -, hspec', hin⟩ := (mem_allEmitted h).mp hg
    rw [hgday] at hspec'
    exact ((hspec'.own key.team ho).mp ⟨g, hin, hteam⟩).2
  · intro hsmall
    obtain ⟨g, hin, hteam⟩ := (hspec.own key.team ho).mpr ⟨(mem_dayKeys ht).mpr ⟨rfl, hkey⟩, hsmall⟩
    exact ⟨g, mem_flatMap.mpr ⟨res, hres, hin⟩, hspec.ofDay g hin, hteam⟩

theorem other_covers_iff {k : ℕ} (h : List.Forall₂ (DaySpec k days accepted) (dayList days) results)
    (ht : Tracks days accepted) (hkey : ∃ e ∈ accepted, e.key = key) :
    ((allEmitted results).all fun g' => decide (g'.day = key.day → g'.team = key.team → g'.team = otherTeam)) =
      isSmall k accepted key := by
  rw [Bool.eq_iff_iff, all_eq_true]
  simp only [decide_eq_true_eq]
  by_cases ho : key.team = otherTeam
  · have hsmall : isSmall k accepted key = true := by
      unfold isSmall
      rw [decide_eq_true_eq]
      exact .inr ho
    exact ⟨fun _ => hsmall, fun _ g _ _ hteam => hteam.trans ho⟩
  · rw [← Bool.not_eq_false, ← own_emitted_iff h ht hkey ho, not_exists]
    refine forall_congr' fun g => ?_
    constructor
    · rintro hall ⟨hg, hday, hteam⟩
      exact ho (hteam.symm.trans (hall hg hday hteam))
    · intro hnone hg hday hteam
      exact absurd ⟨hg, hday, hteam⟩ hnone

theorem covers_other {k : ℕ} (h : List.Forall₂ (DaySpec k days accepted) (dayList days) results)
    (ht : Tracks days accepted) (ho : g.team = otherTeam) :
    (accepted.filter fun e => covers (allEmitted results) g e.key) = smallEntries k accepted g.day := by
  refine filter_congr fun e he => ?_
  unfold covers
  rw [if_pos ho, other_covers_iff h ht ⟨e, he, rfl⟩]
  exact congrArg (· && _) (decide_eq_decide.mpr eq_comm)

theorem covers_own (ho : g.team ≠ otherTeam) :
    (accepted.filter fun e => covers (allEmitted results) g e.key) = entriesAt accepted ⟨g.day, g.team⟩ := by
  refine filter_congr fun e _ => ?_
  unfold covers
  rw [if_neg ho, ← Bool.decide_and]
  refine decide_eq_decide.mpr ?_
  rw [Entry.key, GroupKey.mk.injEq]
  exact and_congr eq_comm eq_comm

theorem team_of_big {k : ℕ} (hsmall : isSmall k accepted key = false) :
    k ≤ (identities accepted key).length ∧ key.team ≠ otherTeam := by
  unfold isSmall at hsmall
  rw [decide_eq_false_iff_not, not_or, not_lt] at hsmall
  exact hsmall

theorem atLeast_zero (u : Unicode) (file : List PersonRecord) (entries : List Entry) : AtLeast u file 0 entries :=
  ⟨[], Nat.zero_le _, fun _ h => absurd h not_mem_nil, .nil⟩

theorem private_iff {u : Unicode} {file : List PersonRecord} {k : ℕ}
    (h : List.Forall₂ (DaySpec k days accepted) (dayList days) results) (ht : Tracks days accepted) :
    Private u file k accepted results ↔ Counted u file k accepted := by
  constructor
  · refine fun hp => ⟨fun key ho hk => ?_, fun day hk hfits => ?_⟩
    · rcases Nat.eq_zero_or_pos k with rfl | hpos
      · exact atLeast_zero _ _ _
      have hkey : ∃ e ∈ accepted, e.key = key := by
        obtain ⟨x, hx⟩ := exists_mem_of_length_pos (lt_of_lt_of_le hpos hk)
        obtain ⟨e, he, -⟩ := mem_map.mp (mem_dedup.mp hx)
        exact ⟨e, (mem_filter.mp he).1, of_decide_eq_true (mem_filter.mp he).2⟩
      have hsmall : isSmall k accepted key = false := by
        unfold isSmall
        rw [decide_eq_false_iff_not, not_or, not_lt]
        exact ⟨hk, ho⟩
      obtain ⟨g, hg, hday, hteam⟩ := (own_emitted_iff h ht hkey ho).mpr hsmall
      have hcovered := hp g hg
      rw [covers_own (by rw [hteam]; exact ho), hday, hteam] at hcovered
      exact hcovered
    · rcases Nat.eq_zero_or_pos k with rfl | hpos
      · exact atLeast_zero _ _ _
      have hentry : ∃ e ∈ accepted, e.day = day := by
        cases hsmall : smallEntries k accepted day with
        | nil =>
          unfold smallCount at hk
          rw [hsmall] at hk
          exact absurd hk (not_le.mpr hpos)
        | cons e es =>
          have he : e ∈ smallEntries k accepted day := hsmall ▸ mem_cons_self
          obtain ⟨he, hday⟩ := mem_filter.mp he
          rw [Bool.and_eq_true, decide_eq_true_eq] at hday
          exact ⟨e, he, hday.1⟩
      obtain ⟨e, he, rfl⟩ := hentry
      obtain ⟨res, hres, hspec⟩ :=
        exists_of_mem_left h (mem_dayList.mpr ⟨e.key, (ht.keys _).mpr ⟨e, he, rfl⟩, rfl⟩)
      obtain ⟨g, hin, ho⟩ := hspec.other.mpr ⟨hk, hfits⟩
      have hcovered := hp g (mem_flatMap.mpr ⟨res, hres, hin⟩)
      rw [covers_other h ht ho, hspec.ofDay g hin] at hcovered
      exact hcovered
  · intro hc g hg
    obtain ⟨res, -, hspec, hin⟩ := (mem_allEmitted h).mp hg
    by_cases ho : g.team = otherTeam
    · rw [covers_other h ht ho]
      obtain ⟨hk, hfits⟩ := hspec.other.mp ⟨g, hin, ho⟩
      exact hc.small g.day hk hfits
    · rw [covers_own ho]
      exact hc.big _ ho (team_of_big ((hspec.own g.team ho).mp ⟨g, hin, rfl⟩).2).1

/-! ### Nothing is lost -/

theorem published_iff {k : ℕ} (h : List.Forall₂ (DaySpec k days accepted) (dayList days) results)
    (ht : Tracks days accepted) (hkey : ∃ e ∈ accepted, e.key = key) :
    published (allEmitted results) key = true ↔ isSmall k accepted key = false ∨
      ∃ g ∈ allEmitted results, g.day = key.day ∧ g.team = otherTeam := by
  unfold published
  rw [any_eq_true]
  constructor
  · rintro ⟨g, hg, hc⟩
    unfold covers at hc
    rw [Bool.and_eq_true, decide_eq_true_eq] at hc
    by_cases ho : g.team = otherTeam
    · exact .inr ⟨g, hg, hc.1, ho⟩
    · rw [if_neg ho, decide_eq_true_eq] at hc
      exact .inl ((own_emitted_iff h ht hkey (hc.2 ▸ ho)).mp ⟨g, hg, hc⟩)
  · intro hor
    by_cases hsmall : isSmall k accepted key = false
    · have ho := (team_of_big hsmall).2
      obtain ⟨g, hg, hday, hteam⟩ := (own_emitted_iff h ht hkey ho).mpr hsmall
      refine ⟨g, hg, ?_⟩
      unfold covers
      rw [if_neg (hteam ▸ ho), Bool.and_eq_true, decide_eq_true_eq, decide_eq_true_eq]
      exact ⟨hday, hteam⟩
    · obtain ⟨g, hg, hday, hteam⟩ := hor.resolve_left hsmall
      refine ⟨g, hg, ?_⟩
      unfold covers
      rw [if_pos hteam, other_covers_iff h ht hkey, Bool.and_eq_true, decide_eq_true_eq]
      exact ⟨hday, by simpa using hsmall⟩

/-- What a date emits is what its published groups hold, and it drops the others. -/
theorem day_conserved {k day : ℕ} {res : DayResult} (h : List.Forall₂ (DaySpec k days accepted) (dayList days) results)
    (ht : Tracks days accepted) (hres : res ∈ results) (hspec : DaySpec k days accepted day res) :
    (res.emitted.map Emitted.sums).sum =
        (((dayKeys days day).filter (published (allEmitted results))).map fun key => (held days key).sums).sum ∧
      res.dropped = ((dayKeys days day).filter fun key => !published (allEmitted results) key).length := by
  have hpub : ∀ key ∈ dayKeys days day, published (allEmitted results) key = true ↔
      isSmall k accepted key = false ∨ ∃ g ∈ res.emitted, g.team = otherTeam := by
    intro key hkey
    obtain ⟨rfl, hentry⟩ := (mem_dayKeys ht).mp hkey
    rw [published_iff h ht hentry]
    refine or_congr_right ⟨?_, ?_⟩
    · rintro ⟨g, hg, hday, ho⟩
      obtain ⟨res', -, hspec', hin⟩ := (mem_allEmitted h).mp hg
      rw [hday] at hspec'
      exact hspec.other.mpr (hspec'.other.mp ⟨g, hin, ho⟩)
    · rintro ⟨g, hin, ho⟩
      exact ⟨g, mem_flatMap.mpr ⟨res, hres, hin⟩, hspec.ofDay g hin, ho⟩
  by_cases hother : ∃ g ∈ res.emitted, g.team = otherTeam
  · obtain ⟨hsum, hdrop⟩ := hspec.whole hother
    have hall : ∀ key ∈ dayKeys days day, published (allEmitted results) key = true :=
      fun key hkey => (hpub key hkey).mpr (.inr hother)
    refine ⟨by rw [hsum, filter_eq_self.mpr hall], ?_⟩
    rw [hdrop, filter_eq_nil_iff.mpr fun key hkey => by rw [hall key hkey]; simp]
    rfl
  · obtain ⟨hsum, hdrop⟩ := hspec.part hother
    have hsame : ∀ key ∈ dayKeys days day, published (allEmitted results) key = !isSmall k accepted key := by
      intro key hkey
      rw [Bool.eq_iff_iff, hpub key hkey, Bool.not_eq_true']
      exact or_iff_left hother
    refine ⟨by rw [hsum, filter_congr hsame], ?_⟩
    have hsmall : ∀ key ∈ dayKeys days day, isSmall k accepted key = !published (allEmitted results) key :=
      fun key hkey => by rw [hsame key hkey, Bool.not_not]
    rw [hdrop, filter_congr hsmall]

theorem dayKeys_flatten (days : Days) :
    ((dayList days).flatMap (dayKeys days)).Perm (days.map (·.1)) := by
  have hfibres := flatten_fibres_perm GroupKey.day (l := days.map (·.1)) (dayList_nodup days)
    fun key hkey => mem_dayList.mpr ⟨key, hkey, rfl⟩
  rw [← flatMap_def] at hfibres
  exact (List.Perm.flatMap_left _ fun day _ => dayKeys_perm days day).trans hfibres

/-- The groups of all dates that pass a test. -/
theorem filter_dayKeys (p : GroupKey → Bool) (days : Days) :
    ((dayList days).flatMap fun day => (dayKeys days day).filter p).Perm ((days.map (·.1)).filter p) := by
  rw [← filter_flatMap]
  exact (dayKeys_flatten days).filter p

theorem conserved {k : ℕ} (h : List.Forall₂ (DaySpec k days accepted) (dayList days) results)
    (ht : Tracks days accepted) : Conserved accepted results := by
  have hdays : List.Forall₂ (fun day res => (res.emitted.map Emitted.sums).sum =
        (((dayKeys days day).filter (published (allEmitted results))).map fun key => (held days key).sums).sum ∧
      res.dropped = ((dayKeys days day).filter fun key => !published (allEmitted results) key).length)
      (dayList days) results :=
    forall₂_imp_of_mem h fun day _ res hres hspec => day_conserved h ht hres hspec
  have hpub := filter_dayKeys (published (allEmitted results)) days
  constructor
  · have hemitted : ((allEmitted results).map Emitted.sums).sum =
        (results.map fun res => (res.emitted.map Emitted.sums).sum).sum := by
      unfold allEmitted
      rw [map_flatMap, flatMap_def, sum_flatten, map_map]
      rfl
    have hheld : ((dayList days).map fun day =>
          (((dayKeys days day).filter (published (allEmitted results))).map fun key => (held days key).sums).sum).sum =
        (((days.map (·.1)).filter (published (allEmitted results))).map fun key => (held days key).sums).sum := by
      rw [← (hpub.map _).sum_eq, map_flatMap, flatMap_def, sum_flatten, map_map]
      rfl
    rw [hemitted, ← map_eq_of_forall₂ (hdays.imp fun _ _ h => h.1.symm), hheld, held_sums ht (ht.nodup.filter _)]
    refine congrArg (fun l : List Entry => (l.map Entry.sums).sum) (filter_congr fun e he => ?_)
    rw [Bool.eq_iff_iff, decide_eq_true_eq, mem_filter]
    exact and_iff_right ((ht.keys e.key).mpr ⟨e, he, rfl⟩)
  · have hlen : ((dayList days).map fun day =>
          ((dayKeys days day).filter fun key => !published (allEmitted results) key).length).sum =
        ((days.map (·.1)).filter fun key => !published (allEmitted results) key).length := by
      rw [← (filter_dayKeys (fun key => !published (allEmitted results) key) days).length_eq,
        length_flatMap]
    rw [← map_eq_of_forall₂ (hdays.imp fun _ _ h => h.2.symm), hlen]
    refine List.Perm.length_eq (List.Perm.filter _ ?_)
    refine (perm_ext_iff_of_nodup ht.nodup (nodup_dedup _)).mpr fun key => ?_
    rw [ht.keys, mem_dedup, mem_map]

/-! ### The theorem -/

/-- A rollup loses nothing, and it hides every small team exactly when each group it counts `k`
identities in has `k` people. -/
theorem rollup_iff (opts : Options) {u : Unicode} {file : List PersonRecord} {s : Read}
    (hread : readAll u opts file = .ok s) (hflush : flush opts s.days = .ok results) :
    (Private u file opts.kAnonymity s.accepted results ∧ Conserved s.accepted results) ↔
      Counted u file opts.kAnonymity s.accepted := by
  have ht := readAll_tracks hread
  have hdays := flush_days ht hflush
  rw [private_iff hdays ht]
  exact and_iff_left (conserved hdays ht)

end flush

/-- What `str` does with lower-case text without blanks. -/
def plain : Unicode := ⟨id, id⟩

/-- The options of a read with the team "core" of `ann@x.io` and `bob@x.io`, and `k` of two. -/
def coreOptions : Options := { teamMap := [("ann@x.io", "core"), ("bob@x.io", "core")], kAnonymity := 2 }

def tenTokens : Cells :=
  ⟨[("[[\"channel\",\"anthropic_api\"]]", { usage := ⟨{ output := 10 }, by decide⟩ })], by decide⟩

def personRecord (locator email : String) (userId : Option String) : PersonRecord :=
  { locator, actor := some { emailAddress := some email, userId }, reading := .ok ⟨0, none, tenTokens⟩ }

def personEntry (identity : String) (refs : List String) : Entry := ⟨0, "core", identity, refs, none, tenTokens⟩

def coreGroup (users : List String) : GroupKey × Group :=
  (⟨0, "core"⟩, { users, cells := [("[[\"channel\",\"anthropic_api\"]]", { usage := ⟨{ output := 20 }, by decide⟩ })] })

def coreDay : DayResult :=
  { emitted := [⟨0, "core", 2, none, (coreGroup []).2.cells⟩], dropped := 0, usersDropped := 0, quarantined := [] }

theorem rollup_iff_two :
    (Private plain [personRecord "record:0" "ann@x.io" (some "u-1"), personRecord "record:1" "bob@x.io" none] 2
        [personEntry "u-1" ["ann@x.io", "u-1"], personEntry "bob@x.io" ["bob@x.io"]] [coreDay] ∧
      Conserved [personEntry "u-1" ["ann@x.io", "u-1"], personEntry "bob@x.io" ["bob@x.io"]] [coreDay]) ↔
    Counted plain [personRecord "record:0" "ann@x.io" (some "u-1"), personRecord "record:1" "bob@x.io" none] 2
      [personEntry "u-1" ["ann@x.io", "u-1"], personEntry "bob@x.io" ["bob@x.io"]] :=
  rollup_iff coreOptions (s := ⟨[coreGroup ["u-1", "bob@x.io"]], _, []⟩)
    (toOption_eq_some.mp (by decide)) (toOption_eq_some.mp (by decide))

/-- One person reported with and without an id is counted twice. -/
theorem rollup_counts_twice : ∃ file s results, readAll plain coreOptions file = .ok s ∧
    flush coreOptions s.days = .ok results ∧
    ¬ (Private plain file coreOptions.kAnonymity s.accepted results ∧ Conserved s.accepted results) := by
  refine ⟨[personRecord "record:0" "ann@x.io" (some "u-1"), personRecord "record:1" "ann@x.io" none],
    ⟨[coreGroup ["u-1", "ann@x.io"]],
      [personEntry "u-1" ["ann@x.io", "u-1"], personEntry "ann@x.io" ["ann@x.io"]], []⟩, [coreDay],
    toOption_eq_some.mp (by decide), toOption_eq_some.mp (by decide), fun h => ?_⟩
  obtain ⟨es, hlen, hin, hpair⟩ := h.1 _ mem_cons_self
  -- both entries have the reference `ann@x.io`
  have hrefs : ∀ e ∈ es, e.refs = ["ann@x.io", "u-1"] ∨ e.refs = ["ann@x.io"] := by
    intro e he
    have hmem := (mem_filter.mp (hin e he)).1
    simp only [mem_cons, not_mem_nil, or_false] at hmem
    rcases hmem with rfl | rfl
    · exact .inl rfl
    · exact .inr rfl
  cases es with
  | nil => exact absurd hlen (by decide)
  | cons a es =>
    cases es with
    | nil => exact absurd hlen (by simp [coreOptions])
    | cons b es =>
      have hnot := rel_of_pairwise_cons hpair mem_cons_self
      refine hnot (Relation.ReflTransGen.single ⟨?_, ?_, "ann@x.io", ?_, ?_⟩)
      · rcases hrefs a mem_cons_self with ha | ha
        · exact ⟨_, mem_cons_self, by rw [ha]; rfl⟩
        · exact ⟨_, mem_cons_of_mem _ mem_cons_self, by rw [ha]; rfl⟩
      · rcases hrefs b (mem_cons_of_mem _ mem_cons_self) with hb | hb
        · exact ⟨_, mem_cons_self, by rw [hb]; rfl⟩
        · exact ⟨_, mem_cons_of_mem _ mem_cons_self, by rw [hb]; rfl⟩
      · rcases hrefs a mem_cons_self with ha | ha <;> rw [ha] <;> decide
      · rcases hrefs b (mem_cons_of_mem _ mem_cons_self) with hb | hb <;> rw [hb] <;> decide

end TokenBill.Admin
