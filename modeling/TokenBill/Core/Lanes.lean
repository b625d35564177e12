import TokenBill.Core.Encode
import TokenBill.General.Tally
import Mathlib.Data.List.Dedup
import Mathlib.Data.Prod.Lex
import Mathlib.Data.String.Basic

/-!
# Lane assembly

`group_lanes` of `core/lanes.py`: loose requests and events are grouped by their lanes, beside those that the shells of
the sessions carry. A request id counts once in a lane, and an event as often as it is loose or in the shell, whichever
is more; so the lanes, given as shells, are assembled again as they are.
-/

namespace TokenBill.Lanes

open General List

variable {κ : Type} [LinearOrder κ] (attrsKey : List (String × AttrValue) → κ)

/-! ### One lane -/

/-- `_ttl_observed`. -/
def ttlObserved (requests : List Request) : String :=
  let infs := requests.flatMap (·.billableInferences)
  let saw5m := infs.any fun inf => decide (0 < inf.usage.cacheWrite5m)
  let saw1h := infs.any fun inf => decide (0 < inf.usage.cacheWrite1h)
  if saw5m && saw1h then "mixed" else if saw1h then "1h" else if saw5m then "5m" else "unknown"

/-- `_request_sort_key`. -/
def requestKey (r : Request) : Nat ×ₗ Nat ×ₗ String := toLex (r.tsStartMs, toLex (r.seq, r.requestId))

/-- `_event_sort_key`, given the order of the texts of attributes. -/
def eventKey (ev : LaneEvent) : Nat ×ₗ String ×ₗ κ := toLex (ev.tsMs, toLex (ev.kind.value, attrsKey ev.attrs))

/-- The events of a shell that are not loose: `remaining` counts those that are. -/
def beyond : List LaneEvent → List LaneEvent → List LaneEvent
  | _, [] => []
  | remaining, ev :: evs => if ev ∈ remaining then beyond (remaining.erase ev) evs else ev :: beyond remaining evs

/-- `shells[key]`: the first lane of that key over all sessions. -/
def shellOf (sessions : List Session) (key : String) : Option Lane :=
  (sessions.flatMap (·.lanes)).find? fun lane => decide (lane.laneKey = key)

/-- The requests of a lane, loose and then in its shell. -/
def candidates (requests : List Request) (shell : Option Lane) (key : String) : List Request :=
  requests.filter (fun r => decide (r.laneKey = key)) ++ shell.elim [] (·.requests)

/-- The events of a lane. -/
def eventsOf (events : List LaneEvent) (shell : Option Lane) (key : String) : List LaneEvent :=
  let loose := events.filter fun ev => decide (ev.laneKey = key)
  loose ++ beyond loose (shell.elim [] (·.events))

variable (requests : List Request) (events : List LaneEvent) (sessions : List Session)

/-- The lane of a key, whose constructor puts requests and events in order. -/
def laneOf (key : String) : Lane :=
  let shell := shellOf sessions key
  let reqs := firstOfKey (·.requestId) (candidates requests shell key)
  { laneKey := key
    sessionKey := match shell with
      | some shell => shell.sessionKey
      | none => ((reqs.map (·.sessionKey)).min?).getD ""
    kind := shell.elim .unknown (·.kind)
    parentLaneKey := shell.bind (·.parentLaneKey)
    cacheScopeKey := shell.elim "unknown" (·.cacheScopeKey)
    requests := sortedBy requestKey reqs
    events := sortedBy (eventKey attrsKey) (eventsOf events shell key)
    ttlObserved := ttlObserved reqs
    laneExact := shell.elim true (·.laneExact) }

/-- The keys of all lanes: those of loose records and those of shells. -/
def keysOf : List String :=
  (requests.map (·.laneKey) ++ events.map (·.laneKey) ++ (sessions.flatMap (·.lanes)).map (·.laneKey)).dedup

/-- The key that the lanes are sorted by. -/
def laneSortKey (lane : Lane) : String ×ₗ String := toLex (lane.sessionKey, lane.laneKey)

/-- `group_lanes`. -/
def groupLanes : List Lane :=
  sortedBy laneSortKey ((keysOf requests events sessions).map (laneOf attrsKey requests events sessions))

/-! ### What a lane holds -/

/-- Requests and events of a shell are of its lane: what `Lane.__post_init__` checks. -/
abbrev Consistent (sessions : List Session) : Prop :=
  ∀ lane ∈ sessions.flatMap (·.lanes),
    (∀ r ∈ lane.requests, r.laneKey = lane.laneKey) ∧ ∀ ev ∈ lane.events, ev.laneKey = lane.laneKey

variable {requests events sessions} {attrsKey}

theorem count_beyond (remaining evs : List LaneEvent) (ev : LaneEvent) :
    (beyond remaining evs).count ev = evs.count ev - remaining.count ev := by
  induction evs generalizing remaining with
  | nil => simp [beyond]
  | cons e evs ih =>
    unfold beyond
    split
    · rename_i hmem
      rw [ih, count_erase, count_cons]
      by_cases he : e = ev
      · have hpos := count_pos_iff.mpr (he ▸ hmem)
        simp only [he, beq_self_eq_true, if_true]
        omega
      · simp [he]
    · rename_i hmem
      rw [count_cons, count_cons, ih]
      by_cases he : e = ev
      · have hzero := count_eq_zero.mpr (he ▸ hmem)
        simp only [he, beq_self_eq_true, if_true]
        omega
      · simp [he]

theorem mem_shell {α : Type} {part : Lane → List α} {key : String} {x : α}
    (h : x ∈ (shellOf sessions key).elim [] part) :
    ∃ lane ∈ sessions.flatMap (·.lanes), lane.laneKey = key ∧ x ∈ part lane := by
  cases hshell : shellOf sessions key with
  | none =>
    rw [hshell] at h
    cases h
  | some lane =>
    rw [hshell] at h
    exact ⟨lane, mem_of_find?_eq_some hshell, by simpa using find?_some hshell, h⟩

theorem laneKey_candidates (hshells : Consistent sessions) {key : String} {r : Request}
    (hr : r ∈ candidates requests (shellOf sessions key) key) : r.laneKey = key := by
  rcases mem_append.mp hr with hr | hr
  · exact of_decide_eq_true (mem_filter.mp hr).2
  · obtain ⟨lane, hlane, rfl, hmem⟩ := mem_shell hr
    exact (hshells lane hlane).1 r hmem

theorem mem_eventsOf {key : String} {ev : LaneEvent} (hev : ev ∈ eventsOf events (shellOf sessions key) key) :
    ev ∈ events ∧ ev.laneKey = key ∨ ∃ lane ∈ sessions.flatMap (·.lanes), lane.laneKey = key ∧ ev ∈ lane.events := by
  rcases mem_append.mp hev with hev | hev
  · exact .inl ⟨(mem_filter.mp hev).1, of_decide_eq_true (mem_filter.mp hev).2⟩
  · have hpos := count_pos_iff.mpr hev
    rw [count_beyond] at hpos
    have hmem : ev ∈ (shellOf sessions key).elim [] (·.events) := count_pos_iff.mp (by omega)
    exact .inr (mem_shell hmem)

theorem laneKey_eventsOf (hshells : Consistent sessions) {key : String} {ev : LaneEvent}
    (hev : ev ∈ eventsOf events (shellOf sessions key) key) : ev.laneKey = key := by
  obtain ⟨-, hkey⟩ | ⟨lane, hlane, rfl, hmem⟩ := mem_eventsOf hev
  · exact hkey
  · exact (hshells lane hlane).2 ev hmem

theorem count_eventsOf (shell : Option Lane) {key : String} {ev : LaneEvent} (hkey : ev.laneKey = key) :
    (eventsOf events shell key).count ev = max (events.count ev) ((shell.elim [] (·.events)).count ev) := by
  have hloose : (events.filter fun e => decide (e.laneKey = key)).count ev = events.count ev :=
    count_filter (decide_eq_true hkey)
  unfold eventsOf
  dsimp only
  rw [count_append, count_beyond, hloose]
  omega

theorem mem_keysOf {key : String} : key ∈ keysOf requests events sessions ↔
    key ∈ requests.map (·.laneKey) ∨ key ∈ events.map (·.laneKey) ∨ key ∈ (sessions.flatMap (·.lanes)).map (·.laneKey) := by
  rw [keysOf, mem_dedup, mem_append, mem_append, or_assoc]

theorem mem_groupLanes {lane : Lane} : lane ∈ groupLanes attrsKey requests events sessions ↔
    ∃ key ∈ keysOf requests events sessions, laneOf attrsKey requests events sessions key = lane :=
  (sortedBy_perm _ _).mem_iff.trans mem_map

theorem laneKeys_groupLanes : ((groupLanes attrsKey requests events sessions).map (·.laneKey)).Perm
    (keysOf requests events sessions) := by
  refine ((sortedBy_perm _ _).map _).trans ?_
  rw [map_map]
  exact Perm.of_eq (map_id _)

/-- Every lane of a key that occurs is there once, in order, and holds the first request of each id, loose before those
of its shell, and each event as often as it is loose or in the shell. -/
theorem groupLanes_complete (hshells : Consistent sessions) :
    ((groupLanes attrsKey requests events sessions).map (·.laneKey)).Nodup ∧
    (groupLanes attrsKey requests events sessions).Pairwise (fun a b => laneSortKey a ≤ laneSortKey b) ∧
    (∀ key, key ∈ (groupLanes attrsKey requests events sessions).map (·.laneKey) ↔
      key ∈ requests.map (·.laneKey) ∨ key ∈ events.map (·.laneKey) ∨ key ∈ (sessions.flatMap (·.lanes)).map (·.laneKey)) ∧
    ∀ lane ∈ groupLanes attrsKey requests events sessions,
      (∀ r ∈ lane.requests, r.laneKey = lane.laneKey) ∧ (∀ ev ∈ lane.events, ev.laneKey = lane.laneKey) ∧
      lane.requests.Pairwise (fun a b => requestKey a ≤ requestKey b) ∧
      lane.events.Pairwise (fun a b => eventKey attrsKey a ≤ eventKey attrsKey b) ∧
      (lane.requests.map (·.requestId)).Nodup ∧
      (∀ r, r ∈ lane.requests ↔ (candidates requests (shellOf sessions lane.laneKey) lane.laneKey).find?
        (fun q => decide (q.requestId = r.requestId)) = some r) ∧
      ∀ ev, ev.laneKey = lane.laneKey → lane.events.count ev =
        max (events.count ev) (((shellOf sessions lane.laneKey).elim [] (·.events)).count ev) := by
  refine ⟨laneKeys_groupLanes.nodup_iff.mpr (nodup_dedup _), pairwise_sortedBy _ _,
    fun key => laneKeys_groupLanes.mem_iff.trans mem_keysOf, fun lane hlane => ?_⟩
  obtain ⟨key, -, rfl⟩ := mem_groupLanes.mp hlane
  refine ⟨fun r hr => ?_, fun ev hev => ?_, pairwise_sortedBy _ _, pairwise_sortedBy _ _, ?_, fun r => ?_,
    fun ev hev => ?_⟩
  · exact laneKey_candidates hshells ((firstOfKey_sublist _ _).subset ((sortedBy_perm _ _).mem_iff.mp hr))
  · exact laneKey_eventsOf hshells ((sortedBy_perm _ _).mem_iff.mp hev)
  · exact ((sortedBy_perm _ _).map _).nodup_iff.mpr (nodup_firstOfKey _ _)
  · exact (sortedBy_perm _ _).mem_iff.trans (mem_firstOfKey_iff _)
  · exact ((sortedBy_perm _ _).count_eq ev).trans (count_eventsOf _ hev)

def laneRequest (requestId : String) (tsStartMs : Nat) : Request where
  requestId := requestId
  sessionKey := "s"
  laneKey := "l"
  seq := 0
  attribution := {}
  params := { modelRequested := "m" }
  attempts := [.plain ("at_" ++ requestId) 0 tsStartMs []]
  attempts_ne := cons_ne_nil _ _

def sessionOf (lanes : List Lane) : Session := ⟨"s", "otlp", {}, lanes, 0, 0⟩

/-- A shell with a later request and an event that is loose too. -/
def laneShell : Session :=
  sessionOf [⟨"l", "s", .main, none, "c", [laneRequest "a" 7, laneRequest "b" 5], [⟨"l", 6, .clear, []⟩], "unknown", true⟩]

theorem laneShell_consistent : Consistent [laneShell] := by decide

/-- A loose request comes before the one of its id in the shell. -/
theorem groupLanes_complete_shell : ((groupLanes (fun attrs => attrs.length) [laneRequest "a" 6]
    [⟨"l", 6, .clear, []⟩] [laneShell]).map (·.laneKey)).Nodup :=
  (groupLanes_complete laneShell_consistent).1

/-! ### The lanes as shells -/

theorem candidates_again (lane : Lane) {key : String} {loose : List Request}
    (hreqs : lane.requests.Perm (firstOfKey (·.requestId) (candidates requests (shellOf sessions key) key)))
    (hloose : loose = requests ∨ loose = []) :
    (firstOfKey (·.requestId) (candidates loose (some lane) key)).Perm
      (firstOfKey (·.requestId) (candidates requests (shellOf sessions key) key)) := by
  refine (perm_ext_iff_of_nodup (nodup_firstOfKey _ _).of_map (nodup_firstOfKey _ _).of_map).mpr fun r => ?_
  have hlane : lane.requests.find? (fun q => decide (q.requestId = r.requestId)) = some r ↔
      (candidates requests (shellOf sessions key) key).find? (fun q => decide (q.requestId = r.requestId)) = some r := by
    rw [← mem_iff_find? ((hreqs.map _).nodup_iff.mpr (nodup_firstOfKey _ _)), hreqs.mem_iff, mem_firstOfKey_iff]
  rw [mem_firstOfKey_iff, mem_firstOfKey_iff]
  rcases hloose with rfl | rfl
  · unfold candidates at hlane ⊢
    dsimp only [Option.elim] at hlane ⊢
    rw [find?_append] at hlane ⊢
    rw [find?_append]
    cases hfound : (loose.filter fun q => decide (q.laneKey = key)).find? fun q => decide (q.requestId = r.requestId) with
    | none => simpa [hfound] using hlane
    | some q => simp
  · exact hlane

theorem events_again (lane : Lane) {key : String} {loose : List LaneEvent} (hshells : Consistent sessions)
    (hevents : lane.events.Perm (eventsOf events (shellOf sessions key) key)) (hloose : loose = events ∨ loose = []) :
    (eventsOf loose (some lane) key).Perm (eventsOf events (shellOf sessions key) key) := by
  refine perm_iff_count.mpr fun ev => ?_
  by_cases hkey : ev.laneKey = key
  · rw [count_eventsOf _ hkey]
    dsimp only [Option.elim]
    rw [hevents.count_eq, count_eventsOf _ hkey]
    rcases hloose with rfl | rfl
    · omega
    · rw [count_nil]
      omega
  · have hout : ev ∉ eventsOf events (shellOf sessions key) key := fun h => hkey (laneKey_eventsOf hshells h)
    have hloose : (loose.filter fun e => decide (e.laneKey = key)).count ev = 0 :=
      count_eq_zero.mpr fun h => hkey (of_decide_eq_true (mem_filter.mp h).2)
    rw [count_eq_zero.mpr hout, eventsOf, count_append, count_beyond]
    dsimp only [Option.elim]
    rw [hevents.count_eq, count_eq_zero.mpr hout, hloose]

theorem ttlObserved_perm {xs ys : List Request} (h : xs.Perm ys) : ttlObserved xs = ttlObserved ys := by
  have hinfs := h.flatMap_right (·.billableInferences)
  unfold ttlObserved
  dsimp only
  rw [hinfs.any_eq, hinfs.any_eq]

theorem LaneEventKind.value_injective : Function.Injective LaneEventKind.value := by
  intro a b h
  cases a <;> cases b <;> first | rfl | exact absurd h (by decide)

theorem laneOf_again {again : List Session} {requests' : List Request} {events' : List LaneEvent} {key : String}
    (hshells : Consistent sessions)
    (hattrs : ∀ a ∈ eventsOf events (shellOf sessions key) key, ∀ b ∈ eventsOf events (shellOf sessions key) key,
      attrsKey a.attrs = attrsKey b.attrs → a.attrs = b.attrs)
    (hagain : shellOf again key = some (laneOf attrsKey requests events sessions key))
    (hrequests : requests' = requests ∨ requests' = []) (hevents : events' = events ∨ events' = []) :
    laneOf attrsKey requests' events' again key = laneOf attrsKey requests events sessions key := by
  have hreqs := candidates_again (laneOf attrsKey requests events sessions key) (sortedBy_perm _ _) hrequests
  have hevs := events_again (laneOf attrsKey requests events sessions key) hshells (sortedBy_perm _ _) hevents
  have hreqsSorted := sortedBy_eq (f := requestKey) (fun a ha b hb hkey => by
    simp only [requestKey, toLex_inj, Prod.mk.injEq] at hkey
    exact inj_on_of_nodup_map (nodup_firstOfKey _ _) ha hb hkey.2.2) hreqs
  have hevsSorted := sortedBy_eq (f := eventKey attrsKey) (fun a ha b hb hkey => by
    have ha := hevs.mem_iff.mp ha
    have hb := hevs.mem_iff.mp hb
    simp only [eventKey, toLex_inj, Prod.mk.injEq] at hkey
    have hlane := (laneKey_eventsOf hshells ha).trans (laneKey_eventsOf hshells hb).symm
    have hkind := LaneEventKind.value_injective hkey.2.1
    have hattr := hattrs a ha b hb hkey.2.2
    cases a
    cases b
    simp_all) hevs
  conv_lhs => rw [laneOf, hagain]
  dsimp only
  rw [hreqsSorted, hevsSorted, ttlObserved_perm hreqs]
  rfl

/-- Lanes given as shells, whether with their loose records or without, are assembled again as they are. -/
theorem groupLanes_again {again : List Session} {requests' : List Request} {events' : List LaneEvent}
    (hshells : Consistent sessions)
    (hattrs : ∀ a ∈ events ++ (sessions.flatMap (·.lanes)).flatMap (·.events),
      ∀ b ∈ events ++ (sessions.flatMap (·.lanes)).flatMap (·.events), attrsKey a.attrs = attrsKey b.attrs → a.attrs = b.attrs)
    (hagain : (again.flatMap (·.lanes)).Perm (groupLanes attrsKey requests events sessions))
    (hrequests : requests' = requests ∨ requests' = []) (hevents : events' = events ∨ events' = []) :
    groupLanes attrsKey requests' events' again = groupLanes attrsKey requests events sessions := by
  have hin : ∀ key, ∀ ev ∈ eventsOf events (shellOf sessions key) key,
      ev ∈ events ++ (sessions.flatMap (·.lanes)).flatMap (·.events) := by
    intro key ev hev
    obtain ⟨hev, -⟩ | ⟨lane, hlane, -, hev⟩ := mem_eventsOf hev
    · exact mem_append_left _ hev
    · exact mem_append_right _ (mem_flatMap.mpr ⟨lane, hlane, hev⟩)
  have hkeysAgain : ((again.flatMap (·.lanes)).map (·.laneKey)).Perm (keysOf requests events sessions) :=
    (hagain.map _).trans laneKeys_groupLanes
  have hkeys : (keysOf requests' events' again).Perm (keysOf requests events sessions) := by
    refine (perm_ext_iff_of_nodup (nodup_dedup _) (nodup_dedup _)).mpr fun key => mem_keysOf.trans ?_
    rw [hkeysAgain.mem_iff]
    refine ⟨?_, fun h => .inr (.inr h)⟩
    rintro (h | h | h)
    · rcases hrequests with rfl | rfl
      · exact mem_keysOf.mpr (.inl h)
      · cases h
    · rcases hevents with rfl | rfl
      · exact mem_keysOf.mpr (.inr (.inl h))
      · cases h
    · exact h
  have hlane : ∀ key ∈ keysOf requests' events' again,
      laneOf attrsKey requests' events' again key = laneOf attrsKey requests events sessions key := by
    intro key hkey
    refine laneOf_again hshells (fun a ha b hb => hattrs a (hin key a ha) b (hin key b hb)) ?_ hrequests hevents
    exact (mem_iff_find? (hkeysAgain.nodup_iff.mpr (nodup_dedup _))).mp
      (hagain.mem_iff.mpr (mem_groupLanes.mpr ⟨key, hkeys.mem_iff.mp hkey, rfl⟩))
  rw [groupLanes, groupLanes, map_congr_left hlane]
  refine sortedBy_eq (fun a ha b hb hkey => ?_) (hkeys.map _)
  obtain ⟨k, -, rfl⟩ := mem_map.mp ha
  obtain ⟨k', -, rfl⟩ := mem_map.mp hb
  simp only [laneSortKey, toLex_inj, Prod.mk.injEq] at hkey
  exact congrArg _ hkey.2

theorem groupLanes_again_shell :
    let lanes := groupLanes (fun attrs => attrs.length) [laneRequest "a" 6] [⟨"l", 6, .clear, []⟩] [laneShell]
    groupLanes (fun attrs => attrs.length) [] [] [sessionOf lanes] = lanes :=
  groupLanes_again laneShell_consistent (by decide) (Perm.of_eq (append_nil _)) (.inr rfl) (.inr rfl)

end TokenBill.Lanes
