import TokenBill.Sim.CacheReplay

/-!
# What the replay of an optimal cache charges

An entry keeps its history through a run: who created it last, who pays for it, and when it was used last. So
whoever is read has been paid for, and whatever is paid for is read.
-/

namespace TokenBill.Simulator

open List

variable {host : Host} {call : Call} {best : Option Entry} {entries : List Entry} {e : Entry} {key : Key} {pos : Nat}

/-! ### What a call reads -/

theorem bestEntry_spec (h : bestEntry host call entries = some e) :
    e ∈ entries ∧ e.model = call.model ∧ e.text.length ≤ call.text.length ∧ alive host e call = true ∧
      meetsMinimum host call.model e.text = true ∧ e.text <+: call.text := by
  have hmem := mem_of_find?_eq_some h
  have hreadable := find?_some h
  simp only [readable, Bool.and_eq_true, decide_eq_true_eq, isPrefixOf_iff_prefix] at hreadable
  obtain ⟨⟨⟨⟨hmodel, hlen⟩, halive⟩, hmin⟩, hpre⟩ := hreadable
  exact ⟨mem_insertionSort _ |>.mp hmem, hmodel, hlen, halive, hmin, hpre⟩

theorem length_le_of_bestEntry (h : bestEntry host call entries = some e) {e' : Entry} (hmem : e' ∈ entries)
    (hread : readable host call e' = true) : e'.text.length ≤ e.text.length := by
  obtain ⟨-, before, after, hsplit, hbefore⟩ := find?_eq_some_iff_append.mp h
  have hsorted := pairwise_insertionSort (fun e e' : Entry => e'.text.length ≤ e.text.length) entries
  rw [hsplit, pairwise_append, pairwise_cons] at hsorted
  have hmem' : e' ∈ before ++ e :: after := by
    rw [← hsplit]
    exact (mem_insertionSort _).mpr hmem
  rcases mem_append.mp hmem' with hb | hb
  · have := hbefore e' hb
    simp [hread] at this
  · rcases mem_cons.mp hb with rfl | ha
    · exact le_refl _
    · exact hsorted.2.1.1 e' ha

theorem exists_bestEntry {e' : Entry} (hmem : e' ∈ entries) (hread : readable host call e' = true) :
    ∃ e, bestEntry host call entries = some e :=
  Option.isSome_iff_exists.mp <| find?_isSome.mpr ⟨e', (mem_insertionSort _).mpr hmem, hread⟩

theorem bestEntry_own (hcache : cacheable host call = true) (hmem : e ∈ entries) (hkey : e.key = call.key)
    (halive : alive host e call = true) :
    ∃ e', bestEntry host call entries = some e' ∧ e'.key = call.key := by
  have htext : e.text = call.text := congrArg Prod.snd hkey
  have hmodel : e.model = call.model := congrArg Prod.fst hkey
  have hmin : meetsMinimum host call.model call.text = true := (Bool.and_eq_true_iff.mp hcache).2
  have hread : readable host call e = true := by
    simp [readable, hmodel, htext, halive, hmin]
  obtain ⟨e', he'⟩ := exists_bestEntry hmem hread
  obtain ⟨-, hmodel', hle, -, -, hpre⟩ := bestEntry_spec he'
  have hge : call.text.length ≤ e'.text.length := htext ▸ length_le_of_bestEntry he' hmem hread
  exact ⟨e', he', Prod.ext hmodel' (hpre.eq_of_length (by omega))⟩

/-! ### The split of the input -/

theorem matchedChars_le (h : ∀ e, best = some e → e.text.length ≤ call.text.length) :
    matchedChars best ≤ call.text.length := by
  cases best with
  | none => exact Nat.zero_le _
  | some e => exact h e rfl

theorem readTokens_nonneg : 0 ≤ readTokens call best := by
  unfold readTokens
  split
  · exact le_refl _
  · rename_i hchars
    refine le_divHalfEven (by omega) ?_
    rw [Int.zero_mul]
    positivity

theorem readTokens_le (h : matchedChars best ≤ call.text.length) :
    readTokens call best ≤ call.usage.totalInput := by
  unfold readTokens
  split
  · exact Int.natCast_nonneg _
  · rename_i hchars
    calc divHalfEven (call.usage.totalInput * matchedChars best) call.text.length
        ≤ divHalfEven (call.usage.totalInput * call.text.length) call.text.length :=
          divHalfEven_mono (by omega) (by gcongr)
      _ = call.usage.totalInput := divHalfEven_mul (by omega)

theorem remainderTokens_own (hchars : 0 < call.text.length) (h : matchedChars best = call.text.length) :
    remainderTokens call best = 0 := by
  unfold remainderTokens readTokens
  rw [if_neg (by omega), h, divHalfEven_mul (by omega), Int.sub_self]

/-! ### What one call does to the entries -/

/-- Whether a call uses an entry: it reads it, or it stores its own text under its key. -/
def Uses (host : Host) (call : Call) (best : Option Entry) (key : Key) : Prop :=
  (∃ b ∈ best, b.key = key) ∨ (cacheable host call = true ∧ call.key = key)

instance : Decidable (Uses host call best key) := inferInstanceAs (Decidable (_ ∨ _))

/-- Whether a call becomes the last writer of an entry that is there. -/
def Rewrites (host : Host) (call : Call) (best : Option Entry) (key : Key) : Prop :=
  (cacheable host call = true ∧ call.key = key) ∧ 0 < remainderTokens call best

instance : Decidable (Rewrites host call best key) := inferInstanceAs (Decidable (_ ∧ _))

/-- What a call does to an entry that is there. -/
def update (host : Host) (call : Call) (pos : Nat) (best : Option Entry) (e : Entry) : Entry :=
  { e with
    aliveTs := if Uses host call best e.key then call.ts else e.aliveTs
    lastWriter := if Rewrites host call best e.key then pos else e.lastWriter }

def Adds (host : Host) (call : Call) (best : Option Entry) (entries : List Entry) : Prop :=
  cacheable host call = true ∧ call.key ∉ entries.map Entry.key ∧ matchedChars best < call.text.length

instance : Decidable (Adds host call best entries) := inferInstanceAs (Decidable (_ ∧ _))

def entriesAfter (host : Host) (call : Call) (pos : Nat) (best : Option Entry) (entries : List Entry) : List Entry :=
  entries.map (update host call pos best) ++
    if Adds host call best entries then [⟨call.model, call.text, call.ts, pos⟩] else []

def writerAfter (host : Host) (call : Call) (pos : Nat) (best : Option Entry) (entries : List Entry) : Option Nat :=
  if Adds host call best entries ∨ (call.key ∈ entries.map Entry.key ∧ Rewrites host call best call.key) then some pos
  else none

theorem refresh_eq : refresh call best entries =
    entries.map fun e => { e with aliveTs := if ∃ b ∈ best, b.key = e.key then call.ts else e.aliveTs } := by
  cases best with
  | none => simp [refresh]
  | some b =>
    refine map_congr_left fun e _ => ?_
    by_cases hkey : e.key = b.key
    · simp [hkey]
    · simp [hkey, Ne.symm hkey]

theorem find_key_none : (entries.find? fun e => decide (e.key = key)) = none ↔ key ∉ entries.map Entry.key := by
  simp only [find?_eq_none, mem_map, decide_eq_true_eq, not_exists, not_and]

theorem key_refresh (call : Call) (best : Option Entry) :
    (refresh call best entries).map Entry.key = entries.map Entry.key := by
  rw [refresh_eq, map_map]
  rfl

/-- Without a write, a call only refreshes what it read. -/
theorem refresh_eq_update (h : cacheable host call = true → call.key ∉ entries.map Entry.key) :
    refresh call best entries = entries.map (update host call pos best) := by
  rw [refresh_eq]
  refine map_congr_left fun e hmem => ?_
  have hown : ¬ (cacheable host call = true ∧ call.key = e.key) := fun ⟨hc, hk⟩ => h hc (hk ▸ mem_map_of_mem hmem)
  simp only [update, Uses, Rewrites, hown, or_false, false_and, if_false]

theorem store_eq (hc : cacheable host call = true) :
    store call pos best (refresh call best entries) =
      (entriesAfter host call pos best entries, writerAfter host call pos best entries) := by
  unfold store entriesAfter writerAfter
  cases hfind : (refresh call best entries).find? fun e => decide (e.key = call.key) with
  | none =>
    have hfresh : call.key ∉ entries.map Entry.key := by
      rw [← key_refresh call best]
      exact find_key_none.mp hfind
    have hrefresh : refresh call best entries = entries.map (update host call pos best) :=
      refresh_eq_update fun _ => hfresh
    by_cases hlt : matchedChars best < call.text.length
    · simp [Adds, hc, hfresh, hlt, hrefresh]
    · simp [Adds, hc, hfresh, hlt, hrefresh]
  | some found =>
    have hthere : call.key ∈ entries.map Entry.key := by
      by_contra hnot
      rw [← key_refresh call best] at hnot
      rw [find_key_none.mpr hnot] at hfind
      cases hfind
    have hadds : ¬ Adds host call best entries := fun h => h.2.1 hthere
    have htouched : touch call.key call.ts (refresh call best entries) = entries.map fun e =>
        { e with aliveTs := if Uses host call best e.key then call.ts else e.aliveTs } := by
      rw [refresh_eq, touch, map_map]
      refine map_congr_left fun e _ => ?_
      by_cases hown : call.key = (e.model, e.text)
      · simp [Uses, Entry.key, hown, hc]
      · have hother : (e.model, e.text) ≠ call.key := Ne.symm hown
        simp [Uses, Entry.key, hown, hother]
    by_cases hpos : 0 < remainderTokens call best
    · simp only [htouched, hpos, if_true, hadds, if_false, append_nil, hthere, Rewrites, hc, and_true]
      simp only [setWriter, map_map]
      refine Prod.ext (map_congr_left fun e _ => ?_) (by simp)
      by_cases hown : call.key = (e.model, e.text)
      · simp [update, Uses, Rewrites, Entry.key, hown, hc, hpos]
      · have hother : (e.model, e.text) ≠ call.key := Ne.symm hown
        simp [update, Uses, Rewrites, Entry.key, hown, hother]
    · simp [htouched, hpos, hadds, Rewrites, hc, update]

theorem replayCall_eq (s : State) (call : Call) :
    replayCall host s call =
      { entries := entriesAfter host call s.billing.length (bestEntry host call s.entries) s.entries
        billing := s.billing ++
          [⟨readTokens call (bestEntry host call s.entries), remainderTokens call (bestEntry host call s.entries),
            call.usage.outputTokens, cacheable host call,
            writerAfter host call s.billing.length (bestEntry host call s.entries) s.entries⟩]
        productive := markProductive (bestEntry host call s.entries) s.productive } := by
  unfold replayCall
  by_cases hc : cacheable host call = true
  · simp only [hc, if_true, store_eq hc]
  · have hadds : ¬ Adds host call (bestEntry host call s.entries) s.entries := fun h => hc h.1
    have hrew : ∀ key, ¬ Rewrites host call (bestEntry host call s.entries) key := fun _ h => hc h.1.1
    have hrefresh : refresh call (bestEntry host call s.entries) s.entries =
        s.entries.map (update host call s.billing.length (bestEntry host call s.entries)) :=
      refresh_eq_update fun h => absurd h hc
    simp [hc, entriesAfter, writerAfter, hadds, hrew, hrefresh]

/-! ### Runs -/

def run (host : Host) (calls : ℕ → Call) : ℕ → State
  | 0 => State.init
  | n + 1 => replayCall host (run host calls n) (calls n)

variable (host) (calls : ℕ → Call)

def bestAt (n : ℕ) : Option Entry := bestEntry host (calls n) (run host calls n).entries

/-- The tokens of a call of a sequence that the cache does not cover. -/
def remainderAt (n : ℕ) : Int := remainderTokens (calls n) (bestAt host calls n)

/-- A call creates an entry: it stores its text where no entry of its key is alive. -/
def Creates (n : ℕ) (key : Key) : Prop :=
  cacheable host (calls n) = true ∧ (calls n).key = key ∧
    ∀ e ∈ (run host calls n).entries, e.key = key → alive host e (calls n) = false

/-- A call uses an entry: it reads it or stores its text under its key. -/
def UsesAt (n : ℕ) (key : Key) : Prop := Uses host (calls n) (bestAt host calls n) key

def writerAt (n : ℕ) : Option Nat :=
  writerAfter host (calls n) n (bestAt host calls n) (run host calls n).entries

/-- The row of a call in `billing`. -/
def billingAt (n : ℕ) : Billing :=
  ⟨readTokens (calls n) (bestAt host calls n), remainderAt host calls n, (calls n).usage.outputTokens,
    cacheable host (calls n), writerAt host calls n⟩

variable {host calls}

theorem billing_run (n : ℕ) : (run host calls n).billing = (List.range n).map (billingAt host calls) := by
  induction n with
  | zero => rfl
  | succ n ih =>
    have hlen : (run host calls n).billing.length = n := by simp [ih]
    simp only [run, replayCall_eq, range_succ, map_append, map_singleton, ← ih]
    rw [hlen]
    rfl

theorem entries_succ (n : ℕ) : (run host calls (n + 1)).entries =
    entriesAfter host (calls n) n (bestAt host calls n) (run host calls n).entries := by
  have hlen : (run host calls n).billing.length = n := by simp [billing_run]
  simp only [run, replayCall_eq, hlen]
  rfl

theorem mem_productive (n : ℕ) (pos : ℕ) :
    pos ∈ (run host calls n).productive ↔ ∃ k < n, ∃ e ∈ bestAt host calls k, e.lastWriter = pos := by
  induction n with
  | zero => simp [run, State.init]
  | succ n ih =>
    have hstep : pos ∈ (run host calls (n + 1)).productive ↔
        (∃ e ∈ bestAt host calls n, e.lastWriter = pos) ∨ pos ∈ (run host calls n).productive := by
      show pos ∈ markProductive (bestAt host calls n) _ ↔ _
      cases bestAt host calls n with
      | none => simp [markProductive]
      | some e => simp [markProductive, eq_comm]
    rw [hstep, ih]
    simp only [Nat.lt_succ_iff_lt_or_eq, or_and_right, exists_or, exists_eq_left]
    exact or_comm

variable {n len : ℕ}

theorem mem_entries_succ : e ∈ (run host calls (n + 1)).entries ↔
    (∃ e₀ ∈ (run host calls n).entries, update host (calls n) n (bestAt host calls n) e₀ = e) ∨
      (Adds host (calls n) (bestAt host calls n) (run host calls n).entries ∧
        e = ⟨(calls n).model, (calls n).text, (calls n).ts, n⟩) := by
  rw [entries_succ, entriesAfter, mem_append, mem_map]
  split <;> simp_all

/-- What is known of an entry before a call. -/
structure Traced (host : Host) (calls : ℕ → Call) (n : ℕ) (e : Entry) : Prop where
  /-- Its last creator, whose remainder its last writer pays. -/
  created : ∃ w < n, Creates host calls w e.key ∧ (∀ k, w < k → k < n → ¬ Creates host calls k e.key) ∧
    (remainderAt host calls w = 0 ∨ e.lastWriter = w)
  /-- Its last writer created it, and who has created it since had nothing to write. -/
  written : e.lastWriter < n ∧ Creates host calls e.lastWriter e.key ∧
    writerAt host calls e.lastWriter = some e.lastWriter ∧
    ∀ k, e.lastWriter < k → k < n → Creates host calls k e.key → remainderAt host calls k = 0
  /-- Its last use. -/
  used : ∃ u < n, UsesAt host calls u e.key ∧ (∀ k, u < k → k < n → ¬ UsesAt host calls k e.key) ∧
    e.aliveTs = (calls u).ts

theorem remainderAt_nonneg (n : ℕ) : 0 ≤ remainderAt host calls n := by
  have hle : matchedChars (bestAt host calls n) ≤ (calls n).text.length :=
    matchedChars_le fun e he => (bestEntry_spec he).2.2.1
  have := readTokens_le hle
  unfold remainderAt remainderTokens
  omega

theorem remainderAt_alive (hc : cacheable host (calls n) = true) (hmem : e ∈ (run host calls n).entries)
    (hkey : e.key = (calls n).key) (halive : alive host e (calls n) = true) : remainderAt host calls n = 0 := by
  obtain ⟨b, hb, hbkey⟩ := bestEntry_own hc hmem hkey halive
  have hpos : 0 < (calls n).text.length := by simpa using (Bool.and_eq_true_iff.mp hc).1
  have hbest : bestAt host calls n = some b := hb
  refine remainderTokens_own hpos ?_
  rw [hbest]
  exact congrArg List.length (congrArg Prod.snd hbkey)

theorem creates_of_rewrites (h : Rewrites host (calls n) (bestAt host calls n) key) : Creates host calls n key := by
  obtain ⟨⟨hc, hown⟩, hpos⟩ := h
  refine ⟨hc, hown, fun e hmem hkey => ?_⟩
  by_contra halive
  have hzero := remainderAt_alive hc hmem (hkey.trans hown.symm) (by simpa using halive)
  unfold remainderAt at hzero
  omega

theorem remainderAt_of_creates (h : Creates host calls n key)
    (hnot : ¬ Rewrites host (calls n) (bestAt host calls n) key) : remainderAt host calls n = 0 := by
  have hnonpos : ¬ 0 < remainderTokens (calls n) (bestAt host calls n) := fun hpos => hnot ⟨⟨h.1, h.2.1⟩, hpos⟩
  have := @remainderAt_nonneg host calls n
  unfold remainderAt at this ⊢
  omega

theorem Traced.update (hmem : e ∈ (run host calls n).entries) (h : Traced host calls n e) :
    Traced host calls (n + 1) (update host (calls n) n (bestAt host calls n) e) := by
  set e' := Simulator.update host (calls n) n (bestAt host calls n) e with he'
  have hkey : e'.key = e.key := rfl
  have hwriter : e'.lastWriter = if Rewrites host (calls n) (bestAt host calls n) e.key then n else e.lastWriter := rfl
  have halive : e'.aliveTs = if Uses host (calls n) (bestAt host calls n) e.key then (calls n).ts else e.aliveTs := rfl
  constructor
  case created =>
    rw [hkey]
    by_cases hcreates : Creates host calls n e.key
    · refine ⟨n, Nat.lt_succ_self n, hcreates, by omega, ?_⟩
      by_cases hrew : Rewrites host (calls n) (bestAt host calls n) e.key
      · exact Or.inr (by rw [hwriter, if_pos hrew])
      · exact Or.inl (remainderAt_of_creates hcreates hrew)
    · obtain ⟨w, hw, hcw, hlast, hpays⟩ := h.created
      have hrew : ¬ Rewrites host (calls n) (bestAt host calls n) e.key := fun h => hcreates (creates_of_rewrites h)
      refine ⟨w, by omega, hcw, fun k hk hkn => ?_, by rwa [hwriter, if_neg hrew]⟩
      rcases Nat.lt_succ_iff_lt_or_eq.mp hkn with hkn | rfl
      · exact hlast k hk hkn
      · exact hcreates
  case written =>
    rw [hkey]
    by_cases hrew : Rewrites host (calls n) (bestAt host calls n) e.key
    · rw [hwriter, if_pos hrew]
      refine ⟨Nat.lt_succ_self n, creates_of_rewrites hrew, ?_, by omega⟩
      have hown : (calls n).key = e.key := hrew.1.2
      exact if_pos (Or.inr ⟨hown ▸ mem_map_of_mem hmem, hown ▸ hrew⟩)
    · rw [hwriter, if_neg hrew]
      obtain ⟨hlt, hcreates, hat, hlater⟩ := h.written
      refine ⟨by omega, hcreates, hat, fun k hk hkn hck => ?_⟩
      rcases Nat.lt_succ_iff_lt_or_eq.mp hkn with hkn | rfl
      · exact hlater k hk hkn hck
      · exact remainderAt_of_creates hck hrew
  case used =>
    rw [hkey]
    by_cases huses : Uses host (calls n) (bestAt host calls n) e.key
    · exact ⟨n, Nat.lt_succ_self n, huses, by omega, by rw [halive, if_pos huses]⟩
    · obtain ⟨u, hu, hused, hlast, hts⟩ := h.used
      refine ⟨u, by omega, hused, fun k hk hkn => ?_, by rw [halive, if_neg huses, hts]⟩
      rcases Nat.lt_succ_iff_lt_or_eq.mp hkn with hkn | rfl
      · exact hlast k hk hkn
      · exact huses

theorem Traced.added (h : Adds host (calls n) (bestAt host calls n) (run host calls n).entries) :
    Traced host calls (n + 1) ⟨(calls n).model, (calls n).text, (calls n).ts, n⟩ := by
  have hcreates : Creates host calls n (calls n).key :=
    ⟨h.1, rfl, fun e hmem hkey => absurd (hkey ▸ mem_map_of_mem hmem) h.2.1⟩
  exact {
    created := ⟨n, Nat.lt_succ_self n, hcreates, by omega, Or.inr rfl⟩
    written := ⟨Nat.lt_succ_self n, hcreates, if_pos (Or.inl h), fun k (hk : n < k) hkn => by omega⟩
    used := ⟨n, Nat.lt_succ_self n, Or.inr ⟨h.1, rfl⟩, by omega, rfl⟩ }

theorem traced (n : ℕ) : ∀ e ∈ (run host calls n).entries, Traced host calls n e := by
  induction n with
  | zero => exact fun e h => absurd h not_mem_nil
  | succ n ih =>
    intro e hmem
    rcases mem_entries_succ.mp hmem with ⟨e₀, hmem₀, rfl⟩ | ⟨hadds, rfl⟩
    · exact (ih e₀ hmem₀).update hmem₀
    · exact Traced.added hadds

def splitAt (host : Host) (calls : ℕ → Call) (len n : ℕ) : Split :=
  charge (run host calls len).productive (billingAt host calls n)

/-! ### The charges -/

/-- The entry that a call reads was created, or created again after it last expired, by an earlier call that pays
the premium for all it had to write. -/
def PaidFor (host : Host) (calls : ℕ → Call) (splits : List Split) (n : ℕ) (key : Key) : Prop :=
  ∃ w < n, Creates host calls w key ∧ (∀ k, w < k → k < n → ¬ Creates host calls k key) ∧
    ∃ split ∈ splits[w]?, split.uncached = 0

/-- A later call reads the entry within the time to live of its last use, and no one else pays for it until then. -/
def ReadLater (host : Host) (calls : ℕ → Call) (len n : ℕ) (key : Key) : Prop :=
  ∃ r < len, n < r ∧ (∃ e ∈ bestAt host calls r, e.key = key) ∧
    (∃ u < r, UsesAt host calls u key ∧ (∀ k, u < k → k < r → ¬ UsesAt host calls k key) ∧
      host.sub (calls r).ts (calls u).ts ≤ cacheTtlSeconds) ∧
    ∀ k, n < k → k < r → Creates host calls k key → remainderAt host calls k = 0

theorem writerAt_eq_some {pos : ℕ} (h : writerAt host calls n = some pos) : pos = n := by
  unfold writerAt writerAfter at h
  split at h
  · exact (Option.some.inj h).symm
  · cases h

theorem cacheable_of_writerAt {pos : ℕ} (h : writerAt host calls n = some pos) : cacheable host (calls n) = true := by
  unfold writerAt writerAfter at h
  split at h
  · rename_i hwrites
    rcases hwrites with hadds | ⟨-, hrew⟩
    · exact hadds.1
    · exact hrew.1.1
  · cases h

theorem splitAt_sum :
    0 ≤ (splitAt host calls len n).uncached ∧ 0 ≤ (splitAt host calls len n).cacheWrite ∧
      0 ≤ (splitAt host calls len n).cacheRead ∧
      (splitAt host calls len n).uncached + (splitAt host calls len n).cacheWrite +
        (splitAt host calls len n).cacheRead = (calls n).usage.totalInput := by
  have hread : 0 ≤ readTokens (calls n) (bestAt host calls n) := readTokens_nonneg
  have hrem := @remainderAt_nonneg host calls n
  have hsum : remainderAt host calls n + readTokens (calls n) (bestAt host calls n) = (calls n).usage.totalInput := by
    unfold remainderAt remainderTokens
    omega
  unfold splitAt charge billingAt
  split
  · exact ⟨le_refl _, hrem, hread, by simpa using hsum⟩
  · exact ⟨hrem, le_refl _, hread, by simpa using hsum⟩

theorem cacheRead_splitAt : (splitAt host calls len n).cacheRead = readTokens (calls n) (bestAt host calls n) := by
  unfold splitAt charge
  split <;> rfl

/-- Who wrote an entry that a call reads pays the premium for all of its remainder. -/
theorem splitAt_of_read {r w : ℕ} (hr : r < len) (hread : e ∈ bestAt host calls r)
    (hpays : remainderAt host calls w = 0 ∨ e.lastWriter = w) (hwriter : writerAt host calls e.lastWriter = some e.lastWriter) :
    (splitAt host calls len w).uncached = 0 := by
  unfold splitAt charge
  split
  · rfl
  · rename_i hnot
    rcases hpays with hzero | rfl
    · exact hzero
    · refine absurd ⟨cacheable_of_writerAt hwriter, e.lastWriter, hwriter, ?_⟩ hnot
      exact (mem_productive len _).mpr ⟨r, hr, e, hread, rfl⟩

theorem paidFor_of_read {splits : List Split} (hn : n < len)
    (hsplits : ∀ w < len, splits[w]? = some (splitAt host calls len w)) (hread : e ∈ bestAt host calls n) :
    PaidFor host calls splits n e.key := by
  have htraced := traced n e (bestEntry_spec hread).1
  obtain ⟨w, hw, hcreates, hlast, hpays⟩ := htraced.created
  refine ⟨w, hw, hcreates, hlast, _, hsplits w (by omega), ?_⟩
  exact splitAt_of_read hn hread hpays htraced.written.2.2.1

theorem readLater_of_write (h : 0 < (splitAt host calls len n).cacheWrite) :
    Creates host calls n (calls n).key ∧ ReadLater host calls len n (calls n).key := by
  have hwrites : writerAt host calls n = some n ∧ n ∈ (run host calls len).productive := by
    unfold splitAt charge at h
    split at h
    · rename_i hcharged
      obtain ⟨-, pos, hwriter, hproductive⟩ := hcharged
      have heq : pos = n := writerAt_eq_some hwriter
      rw [heq] at hwriter hproductive
      exact ⟨hwriter, hproductive⟩
    · exact absurd h (lt_irrefl 0)
  obtain ⟨r, hr, e, hread, rfl⟩ := (mem_productive len n).mp hwrites.2
  have hspec := bestEntry_spec hread
  have htraced := traced r e hspec.1
  obtain ⟨hlt, hcreates, -, hlater⟩ := htraced.written
  have hkey : (calls e.lastWriter).key = e.key := hcreates.2.1
  rw [hkey]
  refine ⟨hcreates, r, hr, hlt, ⟨e, hread, rfl⟩, ?_, hlater⟩
  obtain ⟨u, hu, hused, hlast, hts⟩ := htraced.used
  refine ⟨u, hu, hused, hlast, ?_⟩
  rw [← hts]
  exact of_decide_eq_true hspec.2.2.2.1

/-! ### The replay of a list of calls -/

def callAt (calls : List Call) (n : ℕ) : Call := calls.getD n ⟨0, 0, "", [], ⟨0, 0, 0, 0⟩⟩

/-- The states of a sequence are those of the matching pass. -/
theorem run_callAt (calls : List Call) (hn : n ≤ calls.length) :
    run host (callAt calls) n = matching host (calls.take n) := by
  induction n with
  | zero => rfl
  | succ n ih =>
    have hget : callAt calls n = calls[n] := by simp [callAt, getD_eq_getElem?_getD, getElem?_eq_getElem hn]
    rw [run, ih (by omega), hget, take_add_one, getElem?_eq_getElem hn, Option.toList_some]
    unfold matching
    rw [foldl_append]
    rfl

theorem length_replayOrder (calls : List Call) : (replayOrder calls).length = calls.length :=
  length_insertionSort _ _

theorem replay_eq (host : Host) (calls : List Call) :
    replay host calls =
      (List.range calls.length).map (splitAt host (callAt (replayOrder calls)) calls.length) := by
  have hrun : run host _ _ = _ := run_callAt (replayOrder calls) (le_refl _)
  rw [take_length, length_replayOrder] at hrun
  unfold replay
  simp only [← hrun, billing_run, map_map]
  rfl

/-- The write accounting of the replay is sound: every split adds up to the billed input, whoever is read has been
paid for, and whatever is paid for is read. -/
theorem replay_sound (host : Host) (calls : List Call) :
    (replay host calls).length = calls.length ∧
    ∀ n, ∀ split ∈ (replay host calls)[n]?, ∃ call ∈ (replayOrder calls)[n]?,
      (0 ≤ split.uncached ∧ 0 ≤ split.cacheWrite ∧ 0 ≤ split.cacheRead ∧
        split.uncached + split.cacheWrite + split.cacheRead = (call.usage.totalInput : Int)) ∧
      (split.cacheRead = readTokens call (bestEntry host call (matching host ((replayOrder calls).take n)).entries) ∧
        ∀ e ∈ bestEntry host call (matching host ((replayOrder calls).take n)).entries,
        e.model = call.model ∧ e.text <+: call.text ∧
          PaidFor host (callAt (replayOrder calls)) (replay host calls) n e.key) ∧
      (0 < split.cacheWrite → Creates host (callAt (replayOrder calls)) n call.key ∧
        ReadLater host (callAt (replayOrder calls)) calls.length n call.key) := by
  have hsplits : ∀ w < calls.length,
      (replay host calls)[w]? = some (splitAt host (callAt (replayOrder calls)) calls.length w) := by
    intro w hw
    rw [replay_eq, getElem?_map, getElem?_range hw]
    rfl
  refine ⟨by simp [replay_eq], fun n split hsplit => ?_⟩
  have hn : n < calls.length := by
    obtain ⟨hlt, -⟩ := List.getElem?_eq_some_iff.mp hsplit
    simpa [replay_eq] using hlt
  have hlen : n < (replayOrder calls).length := by rwa [length_replayOrder]
  have hcall : (replayOrder calls)[n]? = some (callAt (replayOrder calls) n) := by
    simp [callAt, getD_eq_getElem?_getD, getElem?_eq_getElem hlen]
  rw [hsplits n hn] at hsplit
  obtain rfl := Option.some.inj hsplit
  rw [← run_callAt _ hlen.le]
  refine ⟨_, hcall, splitAt_sum, ⟨cacheRead_splitAt, fun e he => ?_⟩, readLater_of_write⟩
  have hspec := bestEntry_spec he
  exact ⟨hspec.2.1, hspec.2.2.2.2.2, paidFor_of_read hn hsplits he⟩

end TokenBill.Simulator
