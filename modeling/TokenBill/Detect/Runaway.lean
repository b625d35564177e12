import TokenBill.Core.Money
import TokenBill.General.GroupSums
import TokenBill.General.SlidingSums
import Mathlib.Data.Prod.Lex
import Mathlib.Data.String.Basic
import Mathlib.Order.Lattice.Nat

/-!
# Runaway sessions

`detect/tail.py`: the requests of a cohort by session, the maximum spend of a session within a rolling hour, and the
sessions whose maximum is above a multiple of the 99th percentile of the maxima of the other sessions.
-/

namespace TokenBill.Tail

open General List

/-! ### Percentiles -/

/-- `round_fraction`. -/
def roundFraction (value : ℚ) : Int := divHalfEven value.num value.den

/-- `max(1, -(-p * n // 100))`. -/
def rankOf (p n : Nat) : Nat := max 1 (-(-((p : Int) * n) / 100)).toNat

/-- `nearest_rank` of a list that is not empty. -/
def nearestRank (values : List Nat) (p : Nat) : Nat :=
  let ordered := values.insertionSort (· ≤ ·)
  ordered.getD (min (rankOf p ordered.length) ordered.length - 1) 0

/-- `bisect_left`. -/
def bisectLeft (ordered : List Nat) (value : Nat) : Nat := (ordered.takeWhile fun v => decide (v < value)).length

/-- `_p99_without` of an ordered list of at least two values. -/
def p99Without (ordered : List Nat) (value : Nat) : Nat :=
  let rank := rankOf 99 (ordered.length - 1)
  if rank - 1 < bisectLeft ordered value then ordered.getD (rank - 1) 0 else ordered.getD rank 0

/-! ### Sessions -/

/-- `HOUR_MS`. -/
def hourMs : Int := 3600000

/-- `MIN_COHORT_SESSIONS`. -/
def minCohortSessions : Nat := 20

/-- A request of a lane with the point of its price, nothing where it cannot be priced. -/
structure Request where
  startMs : Int
  point : Option Nat

/-- A lane of a cohort. -/
structure Lane where
  sessionKey : String
  requests : List Request

/-- The start of a request and its spend. -/
abbrev Item : Type := Int × Nat

def Request.item (r : Request) : Item := (r.startMs, r.point.getD 0)

/-- `items` of `SessionStats` by session. -/
abbrev Sessions : Type := List (String × List Item)

/-- `sessions.setdefault(lane.session_key, ...)`, with the requests of the lane. -/
def addLane (sessions : Sessions) (lane : Lane) : Sessions :=
  upsert (·.1) (lane.sessionKey, (sessions.lookup lane.sessionKey).getD [] ++ lane.requests.map Request.item) sessions

/-- `_sessions`. -/
def sessionsOf (lanes : List Lane) : Sessions := lanes.foldl addLane []

/-- `sorted(self.items)`. -/
def sortedItems (items : List Item) : List Item := items.insertionSort fun a b => toLex a ≤ toLex b

/-- `peak_hour`. -/
def peakHour (items : List Item) : Nat := heaviestWindow Prod.fst Prod.snd hourMs (sortedItems items)

/-- The limit of a session: `max(min_hourly, round_fraction(multiple * p99))`. -/
def limitOf (minHourly : Int) (multiple : ℚ) (ordered : List Nat) (peak : Nat) : Int :=
  max minHourly (roundFraction (multiple * p99Without ordered peak))

/-- The runaway sessions of a cohort, in the order of their keys. -/
def runaway (minHourly : Int) (multiple : ℚ) (lanes : List Lane) : List String :=
  let peaks := (sessionsOf lanes).map fun s => (s.1, peakHour s.2)
  let ordered := (peaks.map (·.2)).insertionSort (· ≤ ·)
  if minCohortSessions ≤ peaks.length then
    ((peaks.insertionSort fun a b => a.1 ≤ b.1).filter fun s =>
      decide (limitOf minHourly multiple ordered s.2 < s.2)).map (·.1)
  else []

end TokenBill.Tail

/-!
## The runaway decision equals its definition

The cells of a cohort hold the requests of each session; two pointers find the most that a session spends in an hour,
and the sorted maxima without one of them are those of the other sessions. So a session is selected where the definition
says so, in whatever order lanes and requests come.
-/

namespace TokenBill.Tail

open General List

variable {lanes lanes' : List Lane} {minHourly : Int} {multiple : ℚ}

/-! ### The definition -/

def itemsOf (lanes : List Lane) (key : String) : List Item :=
  (lanes.filter fun lane => decide (lane.sessionKey = key)).flatMap fun lane => lane.requests.map Request.item

def sessionKeys (lanes : List Lane) : List String := (lanes.map (·.sessionKey)).dedup

/-- The spend of the requests of a session that start in `[t, t + 1 hour)`. -/
def spendWithin (lanes : List Lane) (key : String) (t : Int) : ℕ :=
  windowSum Prod.fst Prod.snd hourMs (itemsOf lanes key) t

noncomputable def worstHour (lanes : List Lane) (key : String) : ℕ := sSup (Set.range (spendWithin lanes key))

/-- A session of a cohort of 20 spends more within an hour than the others let it. -/
def IsRunaway (minHourly : Int) (multiple : ℚ) (lanes : List Lane) (key : String) : Prop :=
  minCohortSessions ≤ (sessionKeys lanes).length ∧ key ∈ sessionKeys lanes ∧
    max minHourly (roundFraction (multiple * nearestRank (((sessionKeys lanes).erase key).map (worstHour lanes)) 99)) <
      worstHour lanes key

/-- The same lanes in another order, with their requests in another order. -/
def SameLanes (lanes lanes' : List Lane) : Prop :=
  ∃ between, lanes.Perm between ∧
    List.Forall₂ (fun a b : Lane => a.sessionKey = b.sessionKey ∧ a.requests.Perm b.requests) between lanes'

/-! ### Peaks -/

/-- The two pointers find the most that is spent within an hour. -/
theorem peakHour_isGreatest (items : List Item) :
    IsGreatest (Set.range (windowSum Prod.fst Prod.snd hourMs items)) (peakHour items) := by
  have hperm : (sortedItems items).Perm items := perm_insertionSort _ _
  have hsorted : (sortedItems items).Pairwise fun a b => a.1 ≤ b.1 :=
    (pairwise_insertionSort (fun a b : Item => toLex a ≤ toLex b) items).imp fun {a b} hab =>
      (Prod.Lex.le_iff.mp hab).elim le_of_lt fun heq => le_of_eq heq.1
  have hsame : windowSum Prod.fst Prod.snd hourMs items = windowSum Prod.fst Prod.snd hourMs (sortedItems items) :=
    funext fun t => windowSum_perm hperm.symm t
  rw [hsame]
  exact heaviestWindow_isGreatest (by decide) hsorted

theorem worstHour_eq (lanes : List Lane) (key : String) : worstHour lanes key = peakHour (itemsOf lanes key) :=
  (peakHour_isGreatest (itemsOf lanes key)).csSup_eq

theorem peakHour_perm {items items' : List Item} (h : items.Perm items') : peakHour items = peakHour items' := by
  have hsame : windowSum Prod.fst Prod.snd hourMs items = windowSum Prod.fst Prod.snd hourMs items' :=
    funext fun t => windowSum_perm h t
  have hitems := peakHour_isGreatest items
  rw [hsame] at hitems
  exact hitems.unique (peakHour_isGreatest items')

/-! ### Sessions -/

theorem sessionsOf_summarizes (lanes : List Lane) :
    Summarizes Lane.sessionKey (fun l s => s = l.flatMap fun lane => lane.requests.map Request.item)
      (sessionsOf lanes) lanes := by
  induction lanes using List.reverseRecOn with
  | nil => exact Summarizes.nil
  | append_singleton lanes lane ih =>
    have hstep : sessionsOf (lanes ++ [lane]) = addLane (sessionsOf lanes) lane := by
      unfold sessionsOf
      rw [foldl_append]
      rfl
    rw [hstep]
    refine ih.add ?_
    rw [flatMap_append, flatMap_singleton]
    congr 1
    cases hcell : (sessionsOf lanes).lookup lane.sessionKey with
    | none =>
      rw [ih.fibre_of_none hcell]
      rfl
    | some items => exact ih.sums_of_some hcell

theorem mem_sessionsOf {key : String} {items : List Item} :
    (key, items) ∈ sessionsOf lanes ↔ key ∈ sessionKeys lanes ∧ items = itemsOf lanes key := by
  have hs := sessionsOf_summarizes lanes
  have hkey : key ∈ (sessionsOf lanes).map (·.1) ↔ key ∈ sessionKeys lanes := by
    rw [hs.keys]
    unfold sessionKeys
    rw [mem_dedup, mem_map]
  constructor
  · intro hmem
    exact ⟨hkey.mp (mem_map_of_mem hmem), hs.cells hmem⟩
  · rintro ⟨hmem, rfl⟩
    obtain ⟨e, he, hk⟩ := mem_map.mp (hkey.mpr hmem)
    have hcell := hs.cells (k := e.1) (s := e.2) he
    rw [hk] at hcell
    have heq : e = (key, itemsOf lanes key) := Prod.ext hk hcell
    exact heq ▸ he

theorem sessionsOf_keys_perm (lanes : List Lane) : ((sessionsOf lanes).map (·.1)).Perm (sessionKeys lanes) := by
  refine (perm_ext_iff_of_nodup (sessionsOf_summarizes lanes).nodup (nodup_dedup _)).mpr fun key => ?_
  rw [(sessionsOf_summarizes lanes).keys, mem_dedup, mem_map]

def peaksOf (lanes : List Lane) : List (String × Nat) := (sessionsOf lanes).map fun s => (s.1, peakHour s.2)

theorem peaksOf_eq (lanes : List Lane) :
    peaksOf lanes = ((sessionsOf lanes).map (·.1)).map fun key => (key, worstHour lanes key) := by
  rw [map_map]
  refine map_congr_left fun s hs => ?_
  have hcell := (mem_sessionsOf.mp (show (s.1, s.2) ∈ sessionsOf lanes from hs)).2
  change (s.1, peakHour s.2) = (s.1, worstHour lanes s.1)
  rw [worstHour_eq, ← hcell]

theorem peaksOf_perm (lanes : List Lane) :
    (peaksOf lanes).Perm ((sessionKeys lanes).map fun key => (key, worstHour lanes key)) := by
  rw [peaksOf_eq]
  exact (sessionsOf_keys_perm lanes).map _

/-! ### The percentile of the others -/

theorem getD_erase_sorted {l : List Nat} (h : l.Pairwise (· ≤ ·)) {v : Nat} (hv : v ∈ l) (i : Nat) :
    (l.erase v).getD i 0 = if i < bisectLeft l v then l.getD i 0 else l.getD (i + 1) 0 := by
  induction l generalizing i with
  | nil => cases hv
  | cons a l ih =>
    obtain ⟨ha, hl⟩ := pairwise_cons.mp h
    by_cases hav : a = v
    · subst hav
      have hzero : bisectLeft (a :: l) a = 0 := by
        unfold bisectLeft
        rw [takeWhile_cons_of_neg (by simp)]
        rfl
      rw [hzero, if_neg (Nat.not_lt_zero i), erase_cons_head, getD_cons_succ]
    · have hmem : v ∈ l := (mem_cons.mp hv).resolve_left fun h => hav h.symm
      have hlt : a < v := lt_of_le_of_ne (ha v hmem) hav
      have hsucc : bisectLeft (a :: l) v = bisectLeft l v + 1 := by
        unfold bisectLeft
        rw [takeWhile_cons_of_pos (by simpa using hlt), length_cons]
      rw [hsucc, erase_cons_tail (by simpa using hav)]
      cases i with
      | zero => rw [if_pos (Nat.succ_pos _), getD_cons_zero, getD_cons_zero]
      | succ i =>
        rw [getD_cons_succ, getD_cons_succ, getD_cons_succ, ih hl hmem]
        exact if_congr (by omega) rfl rfl

theorem rankOf_le {n : Nat} (hn : 0 < n) : rankOf 99 n ≤ n ∧ 0 < rankOf 99 n := by
  unfold rankOf
  omega

/-- Leaving a peak out of the sorted ones gives the percentile of the others. -/
theorem p99Without_eq {values : List Nat} {v : Nat} (hv : v ∈ values) (hn : 1 < values.length) :
    p99Without (values.insertionSort (· ≤ ·)) v = nearestRank (values.erase v) 99 := by
  have hperm : (values.insertionSort (· ≤ ·)).Perm values := perm_insertionSort _ _
  have hsorted : (values.insertionSort (· ≤ ·)).Pairwise (· ≤ ·) := pairwise_insertionSort _ _
  have hothers : (values.erase v).insertionSort (· ≤ ·) = (values.insertionSort (· ≤ ·)).erase v :=
    ((perm_insertionSort _ _).trans (hperm.symm.erase v)).eq_of_pairwise' (pairwise_insertionSort _ _)
      (hsorted.sublist erase_sublist)
  have hlen : ((values.insertionSort (· ≤ ·)).erase v).length = values.length - 1 := by
    rw [length_erase_of_mem (hperm.mem_iff.mpr hv), length_insertionSort]
  unfold p99Without nearestRank
  dsimp only
  obtain ⟨hle, hpos⟩ := rankOf_le (n := values.length - 1) (by omega)
  rw [hothers, hlen, length_insertionSort, Nat.min_eq_left hle,
    getD_erase_sorted hsorted (hperm.mem_iff.mpr hv), Nat.sub_add_cancel hpos]

theorem nearestRank_perm {xs ys : List Nat} (h : xs.Perm ys) (p : Nat) : nearestRank xs p = nearestRank ys p := by
  have hsort : xs.insertionSort (· ≤ ·) = ys.insertionSort (· ≤ ·) :=
    sorted_eq (fun a _ b _ hab hba => le_antisymm hab hba) h
  unfold nearestRank
  rw [hsort]

/-! ### The decision -/

theorem mem_runaway {key : String} : key ∈ runaway minHourly multiple lanes ↔ IsRunaway minHourly multiple lanes key := by
  have hperm := peaksOf_perm lanes
  have hlen : (peaksOf lanes).length = (sessionKeys lanes).length := by
    rw [hperm.length_eq, length_map]
  have hvalues : ((peaksOf lanes).map (·.2)).Perm ((sessionKeys lanes).map (worstHour lanes)) := by
    have := hperm.map (·.2)
    rwa [map_map] at this
  have hsort : ((peaksOf lanes).map (·.2)).insertionSort (· ≤ ·) =
      ((sessionKeys lanes).map (worstHour lanes)).insertionSort (· ≤ ·) :=
    sorted_eq (fun a _ b _ hab hba => le_antisymm hab hba) hvalues
  have hrun : runaway minHourly multiple lanes = if minCohortSessions ≤ (peaksOf lanes).length then
      (((peaksOf lanes).insertionSort fun a b => a.1 ≤ b.1).filter fun s =>
        decide (limitOf minHourly multiple (((peaksOf lanes).map (·.2)).insertionSort (· ≤ ·)) s.2 < s.2)).map (·.1)
      else [] := rfl
  rw [hrun, hlen, hsort]
  unfold IsRunaway
  by_cases hmany : minCohortSessions ≤ (sessionKeys lanes).length
  · rw [if_pos hmany, and_iff_right hmany, mem_map]
    -- the limit of a session that is in the cohort
    have hlimit : ∀ key ∈ sessionKeys lanes,
        limitOf minHourly multiple (((sessionKeys lanes).map (worstHour lanes)).insertionSort (· ≤ ·))
            (worstHour lanes key) =
          max minHourly (roundFraction (multiple *
            nearestRank (((sessionKeys lanes).erase key).map (worstHour lanes)) 99)) := by
      intro key hkey
      have hothers : (((sessionKeys lanes).map (worstHour lanes)).erase (worstHour lanes key)).Perm
          (((sessionKeys lanes).erase key).map (worstHour lanes)) := by
        have hfirst := ((perm_cons_erase hkey).map (worstHour lanes)).erase (worstHour lanes key)
        rwa [map_cons, erase_cons_head] at hfirst
      have hp99 := p99Without_eq (mem_map_of_mem (f := worstHour lanes) hkey) (by
        rw [length_map]
        exact lt_of_lt_of_le (by decide) hmany)
      unfold limitOf
      rw [hp99, nearestRank_perm hothers]
    have hmem : ∀ s : String × Nat, s ∈ (peaksOf lanes).insertionSort (fun a b => a.1 ≤ b.1) ↔
        s.1 ∈ sessionKeys lanes ∧ s.2 = worstHour lanes s.1 := by
      intro s
      rw [(perm_insertionSort _ _).mem_iff, hperm.mem_iff, mem_map]
      constructor
      · rintro ⟨key, hkey, rfl⟩
        exact ⟨hkey, rfl⟩
      · rintro ⟨hkey, hs⟩
        exact ⟨s.1, hkey, Prod.ext rfl hs.symm⟩
    constructor
    · rintro ⟨s, hs, rfl⟩
      obtain ⟨hs, hover⟩ := mem_filter.mp hs
      obtain ⟨hkey, hpeak⟩ := (hmem s).mp hs
      have hover := of_decide_eq_true hover
      rw [hpeak, hlimit s.1 hkey] at hover
      exact ⟨hkey, hover⟩
    · rintro ⟨hkey, hover⟩
      refine ⟨(key, worstHour lanes key), mem_filter.mpr ⟨(hmem _).mpr ⟨hkey, rfl⟩, decide_eq_true ?_⟩, rfl⟩
      rwa [hlimit key hkey]
  · rw [if_neg hmany]
    exact iff_of_false not_mem_nil fun h => hmany h.1

theorem runaway_sorted (minHourly : Int) (multiple : ℚ) (lanes : List Lane) :
    (runaway minHourly multiple lanes).Nodup ∧ (runaway minHourly multiple lanes).Pairwise (· ≤ ·) := by
  have hrun : runaway minHourly multiple lanes = if minCohortSessions ≤ (peaksOf lanes).length then
      (((peaksOf lanes).insertionSort fun a b => a.1 ≤ b.1).filter fun s =>
        decide (limitOf minHourly multiple (((peaksOf lanes).map (·.2)).insertionSort (· ≤ ·)) s.2 < s.2)).map (·.1)
      else [] := rfl
  have hnodup : ((peaksOf lanes).map (·.1)).Nodup := by
    rw [peaksOf_eq, map_map]
    change ((((sessionsOf lanes).map (·.1)).map fun key => key)).Nodup
    rw [map_id']
    exact (sessionsOf_summarizes lanes).nodup
  rw [hrun]
  split
  · constructor
    · have hsorted : (((peaksOf lanes).insertionSort fun a b => a.1 ≤ b.1).map (·.1)).Nodup :=
        (((perm_insertionSort _ _).map _).nodup_iff).mpr hnodup
      exact hsorted.sublist (filter_sublist.map _)
    · refine pairwise_map.mpr (List.Pairwise.filter _ ?_)
      exact pairwise_insertionSort (fun a b : String × Nat => a.1 ≤ b.1) (peaksOf lanes)
  · exact ⟨nodup_nil, List.Pairwise.nil⟩

/-! ### The order of lanes and requests -/

theorem itemsOf_requests
    (h : List.Forall₂ (fun a b : Lane => a.sessionKey = b.sessionKey ∧ a.requests.Perm b.requests) lanes lanes')
    (key : String) : (itemsOf lanes key).Perm (itemsOf lanes' key) := by
  induction h with
  | nil => exact List.Perm.refl _
  | @cons a b as bs hab _ ih =>
    unfold itemsOf at ih ⊢
    by_cases hkey : a.sessionKey = key
    · rw [filter_cons_of_pos (by simpa using hkey), filter_cons_of_pos (by simpa [← hab.1] using hkey),
        flatMap_cons, flatMap_cons]
      exact (hab.2.map _).append ih
    · rw [filter_cons_of_neg (by simpa using hkey), filter_cons_of_neg (by simpa [← hab.1] using hkey)]
      exact ih

theorem itemsOf_perm (h : SameLanes lanes lanes') (key : String) : (itemsOf lanes key).Perm (itemsOf lanes' key) := by
  obtain ⟨between, hperm, hall⟩ := h
  exact ((hperm.filter _).flatMap_right _).trans (itemsOf_requests hall key)

theorem sessionKeys_perm (h : SameLanes lanes lanes') : (sessionKeys lanes).Perm (sessionKeys lanes') := by
  obtain ⟨between, hperm, hall⟩ := h
  have hkeys : between.map (·.sessionKey) = lanes'.map (·.sessionKey) :=
    map_eq_of_forall₂ (hall.imp fun a b hab => hab.1)
  unfold sessionKeys
  rw [← hkeys]
  exact (hperm.map _).dedup

theorem isRunaway_congr (h : SameLanes lanes lanes') (key : String) :
    IsRunaway minHourly multiple lanes key ↔ IsRunaway minHourly multiple lanes' key := by
  have hworst : worstHour lanes = worstHour lanes' := by
    funext key
    rw [worstHour_eq, worstHour_eq, peakHour_perm (itemsOf_perm h key)]
  have hkeys := sessionKeys_perm h
  unfold IsRunaway
  rw [hkeys.length_eq, hkeys.mem_iff, hworst, nearestRank_perm ((hkeys.erase key).map _)]

/-- The runaway decision equals its definition: of a cohort of 20 sessions exactly those are selected, once each, whose
maximum spend within an hour is above the limit that the others set, and in whatever order lanes and requests come. -/
theorem runaway_exact (minHourly : Int) (multiple : ℚ) (lanes : List Lane) :
    (∀ key, IsGreatest (Set.range (spendWithin lanes key)) (worstHour lanes key)) ∧
    (runaway minHourly multiple lanes).Nodup ∧
    (∀ key, key ∈ runaway minHourly multiple lanes ↔ IsRunaway minHourly multiple lanes key) ∧
    ∀ lanes', SameLanes lanes lanes' → runaway minHourly multiple lanes' = runaway minHourly multiple lanes := by
  refine ⟨fun key => ?_, (runaway_sorted _ _ _).1, fun key => mem_runaway, fun lanes' h => ?_⟩
  · rw [worstHour_eq]
    exact peakHour_isGreatest _
  · have hperm : (runaway minHourly multiple lanes').Perm (runaway minHourly multiple lanes) := by
      refine (perm_ext_iff_of_nodup (runaway_sorted _ _ _).1 (runaway_sorted _ _ _).1).mpr fun key => ?_
      rw [mem_runaway, mem_runaway, isRunaway_congr h]
    exact hperm.eq_of_pairwise' (runaway_sorted _ _ _).2 (runaway_sorted _ _ _).2

end TokenBill.Tail
