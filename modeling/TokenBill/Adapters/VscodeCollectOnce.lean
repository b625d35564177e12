import TokenBill.Adapters.VscodeCollect
import Mathlib.Data.List.MinMax

/-!
# Every span is collected once

Histories of one span database: spans are inserted, the oldest are pruned, and collector runs read
what is there, some of which abort. A span that a completed run saw is in one extract, or was dropped
as a duplicate or because it is too long (`history_collected`). This holds in every history in which
no run takes the database for recreated while it holds spans that were read, and the spans to remember
are no more than the cursor has room for.
-/

namespace TokenBill.Vscode

open General List

/-! ### Histories -/

/-- A database and what the collector did with it. -/
structure World where
  db : List Span := []
  /-- All spans that were ever inserted. -/
  inserted : List Span := []
  cursor : Option Cursor := none
  extracts : List (List Span) := []
  dropped : List Span := []
  oversize : List Span := []
  /-- The spans with well-typed ids that a completed run saw. -/
  seen : List Span := []

def World.processed (w : World) : List Span := w.extracts.flatten ++ w.dropped ++ w.oversize

def World.loaded (w : World) : Option Cursor := w.cursor.bind fun c => Cursor.fromJson c.toJson

/-- A collector run. -/
def World.run (h : Hashes) (w : World) (aborts : Bool) : World :=
  let out := collectDb h w.db w.loaded aborts
  if out.aborted then { w with cursor := out.cursor }
  else { w with
    cursor := out.cursor
    extracts := w.extracts ++ [out.extract]
    dropped := w.dropped ++ out.dropped
    oversize := w.oversize ++ out.oversize
    seen := w.seen ++ w.db.filter (·.mark?.isSome) }

/-- The spans a run has to remember if it reads everything: those inside the late window of the latest. -/
def remembered (h : Hashes) (db : List Span) (cur : Option Cursor) : List Mark :=
  let start := startCursor h db cur
  let marks := (start.bind (·.mark)).toList ++ db.filterMap (·.mark?)
  ((start.elim [] (·.recent)) ++ db.filterMap (·.mark?)).dedup.filter fun p =>
    decide (∀ q ∈ marks, (ofLex q).1 - lateWindowMs ≤ (ofLex p).1)

/-- A run that does not start over on spans that were read, and has room for what it has to remember. -/
structure Safe (h : Hashes) (w : World) : Prop where
  fresh : (readDb h w.db w.loaded).restarted = true → ∀ s ∈ w.db, s ∉ w.processed
  room : (remembered h w.db w.loaded).length ≤ maxRecentIds

/-- The histories in which every run starts in an allowed state. -/
inductive History (h : Hashes) (allowed : World → Prop) : World → Prop where
  | init : History h allowed {}
  /-- A span of a new id, that starts less than the late window before the latest span that was read. -/
  | insert {w : World} (hw : History h allowed w) (s : Span) (hid : s.spanId ∉ w.inserted.map (·.spanId))
      (hlate : ∀ start, s.startTimeMs = .int start → ∀ t ∈ w.processed, ∀ p, t.mark? = some p →
        (ofLex p).1 - start < lateWindowMs) :
      History h allowed { w with db := w.db ++ [s], inserted := w.inserted ++ [s] }
  /-- The oldest spans are pruned. -/
  | prune {w : World} (hw : History h allowed w) (db : List Span) (hdb : db.Sublist w.db)
      (hold : ∀ r ∈ w.db, r ∉ db → ∀ s ∈ db, r.startTimeMs.key ≤ s.startTimeMs.key) :
      History h allowed { w with db }
  | run {w : World} (hw : History h allowed w) (aborts : Bool) (hrun : allowed w) :
      History h allowed (w.run h aborts)

/-! ### The state file -/

/-- A cursor whose remembered spans are in order, and no more than there is room for. -/
def Cursor.Saved (c : Cursor) : Prop := lastRecent c.recent = c.recent

variable {l : List Mark} {p : Mark} {db : List Span} {s : Span} {w : World} {h : Hashes}

theorem mem_of_mem_lastRecent (h : p ∈ lastRecent l) : p ∈ l :=
  mem_dedup.mp ((mem_insertionSort _).mp (mem_of_mem_drop h))

theorem mem_lastRecent (hroom : l.dedup.length ≤ maxRecentIds) (h : p ∈ l) : p ∈ lastRecent l := by
  unfold lastRecent
  have hnone : (l.dedup.insertionSort (· ≤ ·)).length - maxRecentIds = 0 := by
    rw [length_insertionSort]
    omega
  dsimp only
  rw [hnone, drop_zero, mem_insertionSort, mem_dedup]
  exact h

theorem lastRecent_eq (hsorted : l.Pairwise (· ≤ ·)) (hnodup : l.Nodup)
    (hlen : l.length ≤ maxRecentIds) : lastRecent l = l := by
  unfold lastRecent
  dsimp only
  rw [hnodup.dedup, hsorted.insertionSort_eq, Nat.sub_eq_zero_of_le hlen, drop_zero]

theorem lastRecent_lastRecent (l : List Mark) : lastRecent (lastRecent l) = lastRecent l := by
  refine lastRecent_eq ?_ ?_ ?_
  · exact (pairwise_insertionSort _ l.dedup).sublist (drop_sublist _ _)
  · exact ((perm_insertionSort _ l.dedup).nodup_iff.mpr (nodup_dedup l)).sublist (drop_sublist _ _)
  · unfold lastRecent
    rw [length_drop]
    omega

theorem fromJson_toJson {c : Cursor} (hc : c.Saved) : Cursor.fromJson c.toJson = some c := by
  have hpair : ∀ m : Option (ℤ × String),
      pairOf (Json.ofInt? (m.map (·.1))) (Json.ofStr? (m.map (·.2))) = some m := by
    intro m
    cases m <;> rfl
  have hrecent : ∀ l : List Mark, (l.map fun p => Json.arr [.int (ofLex p).1, .str (ofLex p).2]).mapM recentOf =
      some l := by
    intro l
    induction l with
    | nil => rfl
    | cons p l ih =>
      rw [map_cons, mapM_cons, ih]
      rfl
  have hmark : pairOf (Json.ofInt? (c.mark.map fun m => (ofLex m).1)) (Json.ofStr? (c.mark.map fun m => (ofLex m).2)) =
      some (c.mark.map ofLex) := by
    cases c.mark <;> rfl
  have hhead := hpair c.head
  unfold Cursor.toJson Cursor.fromJson
  simp only [lookup_cons, String.reduceBEq, Option.getD_some, hmark, hhead, hrecent]
  have hself : (c.mark.map ofLex).map toLex = c.mark := by
    cases c.mark <;> rfl
  show some (Cursor.mk ((c.mark.map ofLex).map toLex) c.head (lastRecent c.recent)) = some c
  rw [hself, show lastRecent c.recent = c.recent from hc]

/-! ### Marks -/

theorem fst_le {q : Mark} (h : p ≤ q) : (ofLex p).1 ≤ (ofLex q).1 := by
  rcases Prod.Lex.le_iff.mp h with h | h
  · exact h.le
  · exact h.1.le

theorem foldl_max (ps : List Mark) (p : Mark) :
    (∀ q ∈ p :: ps, q ≤ ps.foldl max p) ∧ ps.foldl max p ∈ p :: ps := by
  induction ps generalizing p with
  | nil => exact ⟨fun q hq => (mem_singleton.mp hq).le, mem_singleton.mpr rfl⟩
  | cons a ps ih =>
    obtain ⟨hle, hmem⟩ := ih (max p a)
    rw [foldl_cons]
    refine ⟨fun q hq => ?_, ?_⟩
    · rcases mem_cons.mp hq with rfl | hq
      · exact (le_max_left _ _).trans (hle _ mem_cons_self)
      · rcases mem_cons.mp hq with rfl | hq
        · exact (le_max_right _ _).trans (hle _ mem_cons_self)
        · exact hle q (mem_cons_of_mem _ hq)
    · rcases mem_cons.mp hmem with h | h
      · rcases max_choice p a with hm | hm
        · rw [h, hm]
          exact mem_cons_self
        · rw [h, hm]
          exact mem_cons_of_mem _ mem_cons_self
      · exact mem_cons_of_mem _ (mem_cons_of_mem _ h)

/-- The mark after some spans is the largest of theirs and the one before. -/
structure Advanced (cur next : Cursor) (processed : List Mark) (mark : Mark) : Prop where
  mark_eq : next.mark = some mark
  top : ∀ q ∈ processed, q ≤ mark
  before : ∀ m, cur.mark = some m → m ≤ mark
  source : mark ∈ processed ∨ cur.mark = some mark
  recent : next.recent = lastRecent ((cur.recent ++ processed).filter fun p =>
    decide ((ofLex mark).1 - lateWindowMs ≤ (ofLex p).1))

theorem advance_spec (cur : Cursor) {processed : List Mark} (h : processed ≠ []) :
    ∃ mark, Advanced cur (advance cur processed) processed mark := by
  cases processed with
  | nil => exact absurd rfl h
  | cons p ps =>
    obtain ⟨hle, hmem⟩ := foldl_max ps p
    cases hm : cur.mark with
    | none =>
      refine ⟨ps.foldl max p, ⟨?_, hle, fun m h => ?_, .inl hmem, ?_⟩⟩
      · simp [advance, hm]
      · rw [hm] at h
        cases h
      · simp [advance, hm]
    | some m =>
      refine ⟨max (ps.foldl max p) m, ⟨?_, fun q hq => (hle q hq).trans (le_max_left _ _), fun m' h => ?_, ?_, ?_⟩⟩
      · simp [advance, hm]
      · rw [hm] at h
        exact Option.some.inj h ▸ le_max_right _ _
      · rcases max_choice (ps.foldl max p) m with h | h
        · exact .inl (by rw [h]; exact hmem)
        · exact .inr (by rw [h, hm])
      · simp [advance, hm]

/-! ### What a run reads -/

theorem sqlOrder_perm (db : List Span) : (sqlOrder db).Perm db := perm_insertionSort _ db

theorem selectRows_subperm (db : List Span) (lo : Option ℤ) : (selectRows db lo).Subperm db :=
  (sqlOrder_perm _).subperm.trans filter_sublist.subperm

theorem mem_of_mem_selectRows {lo : Option ℤ} (hs : s ∈ selectRows db lo) :
    s ∈ db := (mem_filter.mp ((sqlOrder_perm _).mem_iff.mp hs)).1

theorem typed_of_mark (h : s.mark? = some p) :
    s.spanId = .text (ofLex p).2 ∧ s.startTimeMs = .int (ofLex p).1 ∧ ∃ t, s.traceId = .text t := by
  unfold Span.mark? at h
  split at h
  · rename_i hid hstart htrace
    obtain rfl := Option.some.inj h
    exact ⟨hid, hstart, _, htrace⟩
  · cases h

theorem key_int_le {a b : ℤ} (h : a ≤ b) : (SqlValue.int a).key ≤ (SqlValue.int b).key := by
  refine Prod.Lex.toLex_le_toLex.mpr (.inr ⟨rfl, Prod.Lex.toLex_le_toLex.mpr ?_⟩)
  rcases h.lt_or_eq with h | h
  · exact .inl (show (a : ℚ) < b by exact_mod_cast h)
  · exact .inr ⟨by rw [h], le_rfl⟩

/-- A span with well-typed ids is selected if it starts late enough. -/
theorem mem_selectRows {lo : Option ℤ} (hs : s ∈ db)
    (hp : s.mark? = some p) (hlo : ∀ l, lo = some l → l ≤ (ofLex p).1) : s ∈ selectRows db lo := by
  obtain ⟨-, hstart, t, htrace⟩ := typed_of_mark hp
  have hfrom : startsFrom lo s = true := by
    unfold startsFrom
    cases lo with
    | none => rfl
    | some l =>
      rw [Option.all_some, decide_eq_true_eq, hstart]
      exact ⟨by simp, key_int_le (hlo l rfl)⟩
  refine (sqlOrder_perm _).mem_iff.mpr (mem_filter.mpr ⟨hs, decide_eq_true ⟨?_, ?_⟩⟩)
  · rw [htrace]
    simp
  · exact mem_map.mpr ⟨s, mem_filter.mpr ⟨hs, hfrom⟩, rfl⟩

/-- What a run that is not aborted does: it splits the new spans and moves the cursor on. -/
structure Completed (h : Hashes) (db : List Span) (cur : Option Cursor) (out : DbRun) : Prop where
  aborted : out.aborted = false
  parts : (out.extract ++ out.dropped ++ out.oversize).Perm (newSpans h db cur)
  dropped : ∀ s ∈ out.dropped, s.isChat = true ∧ s.isNative = false ∧
    ∃ r ∈ db, r.isChat = true ∧ r.isNative = true ∧ r.group = s.group
  oversize : ∀ s ∈ out.oversize, s.isWritable = false
  cursor : ∃ processed : List Span, processed.Perm (newSpans h db cur) ∧
    out.cursor = some (nextCursor h db cur (processed.filterMap (·.mark?)))

theorem collectDb_cases (h : Hashes) (db : List Span) (cur : Option Cursor) (aborts : Bool) :
    ((collectDb h db cur aborts).aborted = true ∧ (collectDb h db cur aborts).cursor = cur) ∨
      Completed h db cur (collectDb h db cur aborts) := by
  have hsplit := filter_append_perm (isSynthesized (readDb h db cur).rows) (newSpans h db cur)
  unfold collectDb
  dsimp only
  split
  · exact .inl ⟨rfl, rfl⟩
  · refine .inr ⟨rfl, ?_, ?_, ?_, _, perm_append_comm.trans hsplit, rfl⟩
    · have hkept := filter_append_perm Span.isWritable
        ((newSpans h db cur).filter fun s => !isSynthesized (readDb h db cur).rows s)
      rw [append_assoc]
      refine (perm_append_comm_assoc _ _ _).trans ?_
      exact (List.Perm.append_left _ hkept).trans hsplit
    · intro s hs
      have hsyn := (mem_filter.mp hs).2
      unfold isSynthesized at hsyn
      simp only [Bool.and_eq_true, Bool.not_eq_true', any_eq_true, decide_eq_true_eq] at hsyn
      obtain ⟨⟨hchat, hnative⟩, r, hr, ⟨hrchat, hrnative⟩, hgroup⟩ := hsyn
      exact ⟨hchat, hnative, r, mem_of_mem_selectRows hr, hrchat, hrnative, hgroup⟩
    · intro s hs
      simpa using (mem_filter.mp hs).2

/-! ### The invariant -/

/-- What a cursor knows of the spans that were read. -/
structure CursorOk (w : World) (c : Cursor) : Prop where
  saved : c.Saved
  markRead : ∀ m, c.mark = some m → ∃ t ∈ w.processed, t.mark? = some m
  recentRead : ∀ p ∈ c.recent, ∃ t ∈ w.processed, t.mark? = some p
  /-- Without a mark no span that is there was read. -/
  unmarked : c.mark = none → ∀ s ∈ w.db, s ∉ w.processed
  /-- A span that was read is not after the mark, and remembered inside the late window. -/
  old : ∀ m, c.mark = some m → ∀ s ∈ w.db, s ∈ w.processed → ∀ p, s.mark? = some p →
    p ≤ m ∧ ((ofLex m).1 - lateWindowMs ≤ (ofLex p).1 → p ∈ c.recent)
  /-- A span that was not read starts inside the late window or later. -/
  late : ∀ m, c.mark = some m → ∀ s ∈ w.db, s ∉ w.processed → ∀ p, s.mark? = some p →
    (ofLex m).1 - lateWindowMs ≤ (ofLex p).1

/-- The invariant of a history. -/
structure Inv (w : World) : Prop where
  ids : (w.inserted.map (·.spanId)).Nodup
  db : w.db.Sublist w.inserted
  read : ∀ s ∈ w.processed, s ∈ w.inserted
  once : (w.processed.map (·.spanId)).Nodup
  seen : ∀ s ∈ w.seen, s ∈ w.processed
  dropped : ∀ s ∈ w.dropped, s.isChat = true ∧ s.isNative = false ∧
    ∃ r ∈ w.inserted, r.isChat = true ∧ r.isNative = true ∧ r.group = s.group
  oversize : ∀ s ∈ w.oversize, s.isWritable = false
  unread : w.cursor = none → w.processed = []
  cursor : ∀ c, w.cursor = some c → CursorOk w c

theorem Inv.same (hw : Inv w) {t : Span} (hs : s ∈ w.inserted) (ht : t ∈ w.inserted)
    (hid : s.spanId = t.spanId) : s = t := inj_on_of_nodup_map hw.ids hs ht hid

theorem Inv.loaded (hw : Inv w) : w.loaded = w.cursor := by
  unfold World.loaded
  cases hc : w.cursor with
  | none => rfl
  | some c => exact fromJson_toJson (hw.cursor c hc).saved

/-- A span that was read and is still there is known to the cursor a safe run goes on from. -/
theorem Inv.start (hw : Inv w) (hsafe : Safe h w) (hs : s ∈ w.db)
    (hread : s ∈ w.processed) : ∃ c m, w.cursor = some c ∧ c.mark = some m ∧
      (readDb h w.db w.cursor).restarted = false := by
  have hrestart : (readDb h w.db w.cursor).restarted = false := by
    by_contra hr
    rw [Bool.not_eq_false] at hr
    rw [← hw.loaded] at hr
    exact hsafe.fresh hr s hs hread
  cases hc : w.cursor with
  | none =>
    rw [hw.unread hc] at hread
    cases hread
  | some c =>
    cases hm : c.mark with
    | none => exact absurd hread ((hw.cursor c hc).unmarked hm s hs)
    | some m => exact ⟨c, m, rfl, hm, hc ▸ hrestart⟩

/-- A safe run reads exactly the well-typed spans that were not read. -/
theorem Inv.mem_newSpans (hw : Inv w) (hsafe : Safe h w) :
    s ∈ newSpans h w.db w.cursor ↔ s ∈ w.db ∧ s ∉ w.processed ∧ s.mark?.isSome := by
  unfold newSpans
  rw [mem_filter]
  constructor
  · rintro ⟨hrow, hnew⟩
    have hdb : s ∈ w.db := mem_of_mem_selectRows hrow
    unfold isNew at hnew
    cases hp : s.mark? with
    | none =>
      rw [hp] at hnew
      cases hnew
    | some p =>
      refine ⟨hdb, fun hread => ?_, rfl⟩
      obtain ⟨c, m, hc, hm, hrestart⟩ := hw.start hsafe hdb hread
      obtain ⟨hle, hrecent⟩ := (hw.cursor c hc).old m hm s hdb hread p hp
      have hlo : (readDb h w.db w.cursor).lo = some ((ofLex m).1 - lateWindowMs) := by
        show (if (readDb h w.db w.cursor).restarted then none else _) = _
        rw [hrestart, hc, Option.bind_some, hm]
        rfl
      have hstart : startCursor h w.db w.cursor = some c := by
        unfold startCursor
        rw [hrestart, hc]
        rfl
      rw [hp, hlo, hstart] at hnew
      simp only [Option.elim_some, Option.bind_some, hm, Option.all_some, Bool.and_eq_true, Bool.or_eq_true,
        decide_eq_true_eq] at hnew
      obtain ⟨hfloor, hafter | hunknown⟩ := hnew
      · exact absurd hle (not_le.mpr hafter)
      · exact of_decide_eq_true hunknown (mem_map_of_mem (hrecent hfloor))
  · rintro ⟨hdb, hunread, htyped⟩
    obtain ⟨p, hp⟩ := Option.isSome_iff_exists.mp htyped
    have hfloor : ∀ l, (readDb h w.db w.cursor).lo = some l → l ≤ (ofLex p).1 := by
      intro l hl
      change (if (readDb h w.db w.cursor).restarted then none else _) = some l at hl
      split at hl
      · cases hl
      · obtain ⟨m, hm, rfl⟩ := Option.map_eq_some_iff.mp hl
        obtain ⟨c, hc, hcm⟩ := Option.bind_eq_some_iff.mp hm
        exact (hw.cursor c hc).late m hcm s hdb hunread p hp
    refine ⟨mem_selectRows hdb hp hfloor, ?_⟩
    unfold isNew
    rw [hp, Option.elim_some, Bool.and_eq_true]
    refine ⟨?_, ?_⟩
    · cases hlo : (readDb h w.db w.cursor).lo with
      | none => rfl
      | some l => exact decide_eq_true (hfloor l hlo)
    · have hunknown : (ofLex p).2 ∉
          ((startCursor h w.db w.cursor).elim [] (·.recent)).map fun p => (ofLex p).2 := by
        intro hmem
        obtain ⟨q, hq, hqp⟩ := mem_map.mp hmem
        unfold startCursor at hq
        split at hq
        · cases hq
        · cases hc : w.cursor with
          | none =>
            rw [hc] at hq
            cases hq
          | some c =>
            rw [hc] at hq
            obtain ⟨t, ht, htq⟩ := (hw.cursor c hc).recentRead q hq
            have hid : s.spanId = t.spanId := by rw [(typed_of_mark hp).1, (typed_of_mark htq).1, hqp]
            exact hunread (hw.same (hw.db.subset hdb) (hw.read t ht) hid ▸ ht)
      rw [decide_eq_true hunknown, Bool.or_true]

theorem Inv.newSpans_nodup (hw : Inv w) (h : Hashes) : ((newSpans h w.db w.cursor).map (·.spanId)).Nodup := by
  have hsub : (newSpans h w.db w.cursor).Subperm w.db :=
    filter_sublist.subperm.trans (selectRows_subperm w.db _)
  obtain ⟨l, hperm, hl⟩ := hsub
  exact (hperm.map _).nodup_iff.mp (hw.ids.sublist ((hl.trans hw.db).map _))

/-! ### Steps -/

theorem inv_init : Inv {} where
  ids := nodup_nil
  db := List.Sublist.slnil
  read _ hs := nomatch hs
  once := nodup_nil
  seen _ hs := nomatch hs
  dropped _ hs := nomatch hs
  oversize _ hs := nomatch hs
  unread _ := rfl
  cursor _ hc := nomatch hc

theorem insert_inv (hw : Inv w) (hid : s.spanId ∉ w.inserted.map (·.spanId))
    (hlate : ∀ start, s.startTimeMs = .int start → ∀ t ∈ w.processed, ∀ p, t.mark? = some p →
      (ofLex p).1 - start < lateWindowMs) : Inv { w with db := w.db ++ [s], inserted := w.inserted ++ [s] } := by
  have hunread : s ∉ w.processed := fun hs => hid (mem_map_of_mem (hw.read s hs))
  refine ⟨?_, hw.db.append (List.Sublist.refl _), fun t ht => mem_append_left _ (hw.read t ht), hw.once, hw.seen,
    fun t ht => ?_, hw.oversize, hw.unread, fun c hc => ?_⟩
  · rw [map_append, nodup_append']
    refine ⟨hw.ids, nodup_singleton _, fun i hi hs => hid ?_⟩
    rw [← show i = s.spanId from mem_singleton.mp hs]
    exact hi
  · obtain ⟨hchat, hnative, r, hr, hrest⟩ := hw.dropped t ht
    exact ⟨hchat, hnative, r, mem_append_left _ hr, hrest⟩
  · have hok := hw.cursor c hc
    have hread : ∀ t ∈ w.db ++ [s], t ∈ w.processed → t ∈ w.db := by
      intro t ht htread
      rcases mem_append.mp ht with ht | ht
      · exact ht
      · exact absurd (mem_singleton.mp ht ▸ htread) hunread
    refine ⟨hok.saved, hok.markRead, hok.recentRead, fun hm t ht htread => ?_, fun m hm t ht htread => ?_,
      fun m hm t ht htunread p hp => ?_⟩
    · exact hok.unmarked hm t (hread t ht htread) htread
    · exact hok.old m hm t (hread t ht htread) htread
    · rcases mem_append.mp ht with ht | ht
      · exact hok.late m hm t ht htunread p hp
      · obtain rfl := mem_singleton.mp ht
        obtain ⟨r, hr, hrm⟩ := hok.markRead m hm
        have := hlate _ (typed_of_mark hp).2.1 r hr m hrm
        omega

theorem prune_inv (hw : Inv w) (hdb : db.Sublist w.db) : Inv { w with db } where
  ids := hw.ids
  db := hdb.trans hw.db
  read := hw.read
  once := hw.once
  seen := hw.seen
  dropped := hw.dropped
  oversize := hw.oversize
  unread := hw.unread
  cursor c hc :=
    have hok := hw.cursor c hc
    ⟨hok.saved, hok.markRead, hok.recentRead, fun hm s hs => hok.unmarked hm s (hdb.subset hs),
      fun m hm s hs => hok.old m hm s (hdb.subset hs), fun m hm s hs => hok.late m hm s (hdb.subset hs)⟩

theorem Inv.startOk (hw : Inv w) (hsafe : Safe h w) : CursorOk w ((startCursor h w.db w.cursor).getD {}) := by
  have hempty : (∀ s ∈ w.db, s ∉ w.processed) → CursorOk w {} := fun hunread =>
    { saved := lastRecent_eq .nil .nil (by decide)
      markRead := fun _ hm => nomatch hm
      recentRead := fun _ hp => nomatch hp
      unmarked := fun _ => hunread
      old := fun _ hm => nomatch hm
      late := fun _ hm => nomatch hm }
  unfold startCursor
  split
  case isTrue hrestart => exact hempty (hsafe.fresh (hw.loaded ▸ hrestart))
  case isFalse =>
    cases hc : w.cursor with
    | none =>
      refine hempty fun s _ hs => ?_
      rw [hw.unread hc] at hs
      cases hs
    | some c => exact hw.cursor c hc

/-- With room for the spans of the late window none of them is forgotten. -/
theorem Inv.room (hw : Inv w) (hsafe : Safe h w) {marks : List Mark} {mark : Mark}
    (hmarks : ∀ p ∈ marks, ∃ s ∈ newSpans h w.db w.cursor, s.mark? = some p)
    (htop : ∀ s ∈ newSpans h w.db w.cursor, ∀ p, s.mark? = some p → p ≤ mark)
    (hbefore : ∀ m, ((startCursor h w.db w.cursor).getD {}).mark = some m → m ≤ mark) :
    ((((startCursor h w.db w.cursor).getD {}).recent ++ marks).filter fun p =>
      decide ((ofLex mark).1 - lateWindowMs ≤ (ofLex p).1)).dedup.length ≤ maxRecentIds := by
  have hok := hw.startOk hsafe
  refine le_trans (List.Subperm.length_le ?_) (hw.loaded ▸ hsafe.room)
  refine subperm_of_subset (nodup_dedup _) fun p hp => ?_
  obtain ⟨hp, hfloor⟩ := mem_filter.mp (mem_dedup.mp hp)
  rw [decide_eq_true_eq] at hfloor
  have hmark : ∀ q ∈ ((startCursor h w.db w.cursor).bind (·.mark)).toList ++ w.db.filterMap (·.mark?), q ≤ mark := by
    intro q hq
    rcases mem_append.mp hq with hq | hq
    · refine hbefore q ?_
      obtain ⟨c, hc, hm⟩ := Option.bind_eq_some_iff.mp (Option.mem_toList.mp hq)
      rw [hc, Option.getD_some, hm]
    · obtain ⟨s, hs, hsq⟩ := mem_filterMap.mp hq
      by_cases hread : s ∈ w.processed
      · cases hm : ((startCursor h w.db w.cursor).getD {}).mark with
        | none => exact absurd hread (hok.unmarked hm s hs)
        | some m => exact ((hok.old m hm s hs hread q hsq).1).trans (hbefore m hm)
      · exact htop s ((hw.mem_newSpans hsafe).mpr ⟨hs, hread, by rw [hsq]; rfl⟩) q hsq
  refine mem_filter.mpr ⟨mem_dedup.mpr ?_, decide_eq_true fun q hq => ?_⟩
  · rcases mem_append.mp hp with hp | hp
    · refine mem_append_left _ ?_
      cases hc : startCursor h w.db w.cursor with
      | none =>
        rw [hc] at hp
        cases hp
      | some c =>
        rw [hc] at hp
        exact hp
    · obtain ⟨s, hs, hsp⟩ := hmarks p hp
      exact mem_append_right _ (mem_filterMap.mpr ⟨s, ((hw.mem_newSpans hsafe).mp hs).1, hsp⟩)
  · have := fst_le (hmark q hq)
    omega

/-- The cursor of a completed run knows what was read before and what the run read. -/
theorem Inv.nextOk {w' : World} (hw : Inv w) (hsafe : Safe h w) (hdb : w'.db = w.db)
    (hread : w'.processed.Perm (w.processed ++ newSpans h w.db w.cursor)) {processed : List Span}
    (hprocessed : processed.Perm (newSpans h w.db w.cursor)) :
    CursorOk w' (nextCursor h w.db w.cursor (processed.filterMap (·.mark?))) := by
  have hstart := hw.startOk hsafe
  have hmem : ∀ s, s ∈ w'.processed ↔ s ∈ w.processed ∨ s ∈ newSpans h w.db w.cursor := fun s => by
    rw [hread.mem_iff, mem_append]
  have hmarks : ∀ p, p ∈ processed.filterMap (·.mark?) ↔ ∃ s ∈ newSpans h w.db w.cursor, s.mark? = some p :=
    fun p => by simp only [mem_filterMap, hprocessed.mem_iff]
  -- The head of the cursor says nothing of what was read.
  suffices hnext : CursorOk w' (advance ((startCursor h w.db w.cursor).getD {}) (processed.filterMap (·.mark?))) by
    unfold nextCursor
    split
    · exact hnext
    · exact ⟨hnext.saved, hnext.markRead, hnext.recentRead, hnext.unmarked, hnext.old, hnext.late⟩
  have hall : ∀ s ∈ w'.db, s ∉ w'.processed → s.mark? = none := by
    intro s hs hunread
    rw [hmem, not_or, hw.mem_newSpans hsafe] at hunread
    by_contra htyped
    exact hunread.2 ⟨hdb ▸ hs, hunread.1, Option.ne_none_iff_isSome.mp htyped⟩
  have hlate : ∀ (m : Mark), ∀ s ∈ w'.db, s ∉ w'.processed → ∀ p, s.mark? = some p →
      (ofLex m).1 - lateWindowMs ≤ (ofLex p).1 := by
    intro m s hs hunread p hp
    rw [hall s hs hunread] at hp
    cases hp
  by_cases hnone : processed.filterMap (·.mark?) = []
  · have hnew : newSpans h w.db w.cursor = [] := by
      rw [eq_nil_iff_forall_not_mem]
      intro s hs
      obtain ⟨p, hp⟩ := Option.isSome_iff_exists.mp ((hw.mem_newSpans hsafe).mp hs).2.2
      have := (hmarks p).mpr ⟨s, hs, hp⟩
      rw [hnone] at this
      cases this
    have hback : ∀ s, s ∈ w'.processed ↔ s ∈ w.processed := fun s => by rw [hmem, hnew]; simp
    rw [hnone]
    refine ⟨hstart.saved, fun m hm => ?_, fun p hp => ?_, fun hm s hs => ?_, fun m hm s hs hsread => ?_,
      fun m _ => hlate m⟩
    · simpa only [hback] using hstart.markRead m hm
    · simpa only [hback] using hstart.recentRead p hp
    · rw [hback]
      exact hstart.unmarked hm s (hdb ▸ hs)
    · exact hstart.old m hm s (hdb ▸ hs) ((hback s).mp hsread)
  · obtain ⟨mark, hadv⟩ := advance_spec ((startCursor h w.db w.cursor).getD {}) hnone
    have htop : ∀ s ∈ newSpans h w.db w.cursor, ∀ p, s.mark? = some p → p ≤ mark := fun s hs p hp =>
      hadv.top p ((hmarks p).mpr ⟨s, hs, hp⟩)
    have hroom := hw.room hsafe (fun p hp => (hmarks p).mp hp) htop hadv.before
    refine ⟨?_, fun m hm => ?_, fun p hp => ?_, fun hm => ?_, fun m hm s hs hsread p hp => ?_, fun m _ => hlate m⟩
    · show lastRecent _ = _
      rw [hadv.recent, lastRecent_lastRecent]
    · obtain rfl := Option.some.inj (hadv.mark_eq.symm.trans hm)
      rcases hadv.source with hm | hm
      · obtain ⟨s, hs, hsm⟩ := (hmarks mark).mp hm
        exact ⟨s, (hmem s).mpr (.inr hs), hsm⟩
      · obtain ⟨t, ht, htm⟩ := hstart.markRead mark hm
        exact ⟨t, (hmem t).mpr (.inl ht), htm⟩
    · rw [hadv.recent] at hp
      rcases mem_append.mp (mem_filter.mp (mem_of_mem_lastRecent hp)).1 with hp | hp
      · obtain ⟨t, ht, htp⟩ := hstart.recentRead p hp
        exact ⟨t, (hmem t).mpr (.inl ht), htp⟩
      · obtain ⟨s, hs, hsp⟩ := (hmarks p).mp hp
        exact ⟨s, (hmem s).mpr (.inr hs), hsp⟩
    · rw [hadv.mark_eq] at hm
      cases hm
    · obtain rfl := Option.some.inj (hadv.mark_eq.symm.trans hm)
      rw [hdb] at hs
      rw [hadv.recent]
      rcases (hmem s).mp hsread with hsread | hsnew
      · cases hm : ((startCursor h w.db w.cursor).getD {}).mark with
        | none => exact absurd hsread (hstart.unmarked hm s hs)
        | some m =>
          obtain ⟨hle, hrecent⟩ := hstart.old m hm s hs hsread p hp
          have hbefore := hadv.before m hm
          refine ⟨hle.trans hbefore, fun hfloor => mem_lastRecent hroom ?_⟩
          have := fst_le hbefore
          exact mem_filter.mpr ⟨mem_append_left _ (hrecent (by omega)), decide_eq_true hfloor⟩
      · refine ⟨htop s hsnew p hp, fun hfloor => mem_lastRecent hroom ?_⟩
        exact mem_filter.mpr ⟨mem_append_right _ ((hmarks p).mpr ⟨s, hsnew, hp⟩), decide_eq_true hfloor⟩

theorem run_inv (hw : Inv w) (hsafe : Safe h w) (aborts : Bool) : Inv (w.run h aborts) := by
  unfold World.run
  rw [hw.loaded]
  rcases collectDb_cases h w.db w.cursor aborts with ⟨haborted, hcursor⟩ | hdone
  · rw [if_pos haborted, hcursor]
    exact hw
  · rw [if_neg (by rw [hdone.aborted]; decide)]
    obtain ⟨processed, hprocessed, hcursor⟩ := hdone.cursor
    have hread : World.processed { w with
        cursor := (collectDb h w.db w.cursor aborts).cursor
        extracts := w.extracts ++ [(collectDb h w.db w.cursor aborts).extract]
        dropped := w.dropped ++ (collectDb h w.db w.cursor aborts).dropped
        oversize := w.oversize ++ (collectDb h w.db w.cursor aborts).oversize
        seen := w.seen ++ w.db.filter (·.mark?.isSome) } |>.Perm (w.processed ++ newSpans h w.db w.cursor) := by
      refine List.Perm.trans ?_ (List.Perm.append_left _ hdone.parts)
      refine perm_iff_count.mpr fun s => ?_
      simp only [World.processed, flatten_append, flatten_singleton, count_append]
      omega
    have hmem := fun s => (hread.mem_iff (a := s)).trans mem_append
    refine ⟨hw.ids, hw.db, fun s hs => ?_, ?_, fun s hs => ?_, fun s hs => ?_, fun s hs => ?_, fun hc => ?_,
      fun c hc => ?_⟩
    · rcases (hmem s).mp hs with hs | hs
      · exact hw.read s hs
      · exact hw.db.subset ((hw.mem_newSpans hsafe).mp hs).1
    · rw [(hread.map _).nodup_iff, map_append, nodup_append']
      refine ⟨hw.once, hw.newSpans_nodup h, fun i hi hnew => ?_⟩
      obtain ⟨t, ht, rfl⟩ := mem_map.mp hi
      obtain ⟨s, hs, hid⟩ := mem_map.mp hnew
      obtain ⟨hdb, hunread, -⟩ := (hw.mem_newSpans hsafe).mp hs
      exact hunread (hw.same (hw.db.subset hdb) (hw.read t ht) hid ▸ ht)
    · refine (hmem s).mpr ?_
      rcases mem_append.mp hs with hs | hs
      · exact .inl (hw.seen s hs)
      · obtain ⟨hdb, htyped⟩ := mem_filter.mp hs
        by_cases hs : s ∈ w.processed
        · exact .inl hs
        · exact .inr ((hw.mem_newSpans hsafe).mpr ⟨hdb, hs, htyped⟩)
    · rcases mem_append.mp hs with hs | hs
      · exact hw.dropped s hs
      · obtain ⟨hchat, hnative, r, hr, hrest⟩ := hdone.dropped s hs
        exact ⟨hchat, hnative, r, hw.db.subset hr, hrest⟩
    · rcases mem_append.mp hs with hs | hs
      · exact hw.oversize s hs
      · exact hdone.oversize s hs
    · rw [hcursor] at hc
      cases hc
    · obtain rfl := Option.some.inj (hcursor.symm.trans hc)
      refine hw.nextOk hsafe ?_ hread hprocessed
      rfl

theorem history_inv (hw : History h (Safe h) w) : Inv w := by
  induction hw with
  | init => exact inv_init
  | insert _ s hid hlate ih => exact insert_inv ih hid hlate
  | prune _ db hdb _ ih => exact prune_inv ih hdb
  | run _ aborts hsafe ih => exact run_inv ih hsafe aborts

/-! ### Collected once -/

/-- In a history of safe runs no span is read twice, every well-typed span that a completed run saw is in an
extract, or was dropped as a duplicate of a native span or because a text of it is too long, and an aborted run
leaves the cursor. -/
theorem history_collected {h : Hashes} {w : World} (hw : History h (Safe h) w) :
    (w.processed.map (·.spanId)).Nodup ∧
    (∀ s ∈ w.seen, s ∈ w.extracts.flatten ∨ s ∈ w.dropped ∨ s ∈ w.oversize) ∧
    (∀ s ∈ w.dropped, s.isChat = true ∧ s.isNative = false ∧
      ∃ r ∈ w.inserted, r.isChat = true ∧ r.isNative = true ∧ r.group = s.group) ∧
    (∀ s ∈ w.oversize, s.isWritable = false) ∧
    ∀ aborts, (collectDb h w.db w.loaded aborts).aborted = true → (w.run h aborts).cursor = w.cursor := by
  have hinv := history_inv hw
  refine ⟨hinv.once, fun s hs => ?_, hinv.dropped, hinv.oversize, fun aborts haborted => ?_⟩
  · simpa [World.processed, or_assoc] using hinv.seen s hs
  · unfold World.run
    dsimp only
    rw [if_pos haborted]
    rcases collectDb_cases h w.db w.loaded aborts with ⟨-, hcursor⟩ | hdone
    · rw [hcursor, hinv.loaded]
    · rw [hdone.aborted] at haborted
      cases haborted

def spanAt (start : ℤ) (id : String) : Span :=
  { spanId := .text id, traceId := .text "t", startTimeMs := .int start }

/-- The digests of the heads "h" and "b". -/
def headDigests : Hashes where
  sha256 text :=
    if text = "10\x1fh" then "29db60247c87a4626938ec71052fa7e6be44e93da5c0439313094471981e6938"
    else if text = "60\x1fb" then "fb70a1cbda872655bd6b3e104bfb61dd2293bca7501c4ebcf2c1837f8a86fbc4"
    else if text = "55\x1fc" then "3326a654027f8377d67af8e045a94c7a9a0d6b2a9984d5a7c611e417e8523382"
    else text
  hmac _ text := text
  keyId text := text

def World.insert (w : World) (s : Span) : World := { w with db := w.db ++ [s], inserted := w.inserted ++ [s] }

theorem History.insertAt {allowed : World → Prop} (hw : History h allowed w) (start : ℤ)
    (id : String) (hid : SqlValue.text id ∉ w.inserted.map (·.spanId))
    (hlate : ∀ p ∈ w.processed.filterMap (·.mark?), (ofLex p).1 - start < lateWindowMs) :
    History h allowed (w.insert (spanAt start id)) := by
  refine .insert hw _ hid fun a ha t ht p hp => ?_
  obtain rfl : start = a := SqlValue.int.inj ha
  exact hlate p (mem_filterMap.mpr ⟨t, ht, hp⟩)

def lateWorld : World :=
  (((((({} : World).insert (spanAt 100 "a")).run headDigests false).insert (spanAt 60 "b")).run headDigests
    true).run headDigests false)

theorem history_collected_late :
    (lateWorld.processed.map (·.spanId)).Nodup ∧
    (∀ s ∈ lateWorld.seen, s ∈ lateWorld.extracts.flatten ∨ s ∈ lateWorld.dropped ∨ s ∈ lateWorld.oversize) ∧
    (∀ s ∈ lateWorld.dropped, s.isChat = true ∧ s.isNative = false ∧
      ∃ r ∈ lateWorld.inserted, r.isChat = true ∧ r.isNative = true ∧ r.group = s.group) ∧
    (∀ s ∈ lateWorld.oversize, s.isWritable = false) ∧
    ∀ aborts, (collectDb headDigests lateWorld.db lateWorld.loaded aborts).aborted = true →
      (lateWorld.run headDigests aborts).cursor = lateWorld.cursor := by
  refine history_collected (.run (.run (.insertAt (.run (.insertAt .init 100 "a" ?_ ?_) false ?_) 60 "b" ?_ ?_)
    true ?_) false ?_)
  · decide
  · decide
  · exact ⟨by decide, by decide⟩
  · decide
  · decide
  · exact ⟨by decide, by decide⟩
  · exact ⟨by decide, by decide⟩

def longWorld : World := (({} : World).insert (spanAt 100 (String.ofList (List.replicate 257 'a')))).run headDigests false

/-- Two spans are read and pruned, then a late span is read, and one that starts before it is inserted: the
database is taken for recreated, and the late span is read again. -/
def restartWorld : World :=
  let first := ((({} : World).insert (spanAt 10 "h")).insert (spanAt 100 "a")).run headDigests false
  let second := (World.insert { first with db := [] } (spanAt 60 "b")).run headDigests false
  (second.insert (spanAt 55 "c")).run headDigests false

/-- A span that is too long is in no extract and no duplicate, and a late span can be in two extracts. -/
theorem not_collected_once :
    (∃ w, History headDigests (fun _ => True) w ∧ ∃ s ∈ w.seen, s ∉ w.extracts.flatten ∧ s ∉ w.dropped) ∧
    ∃ w, History headDigests (fun _ => True) w ∧ ¬ (w.extracts.flatten.map (·.spanId)).Nodup := by
  refine ⟨⟨longWorld, ?_, by decide +kernel⟩, ⟨restartWorld, ?_, by decide⟩⟩
  · exact .run (.insertAt .init _ _ (by decide) (by decide)) _ trivial
  · refine .run (.insertAt (.run (.insertAt (.prune (.run (.insertAt (.insertAt .init 10 "h" ?_ ?_) 100 "a" ?_ ?_)
      false trivial) [] ?_ ?_) 60 "b" ?_ ?_) false trivial) 55 "c" ?_ ?_) false trivial
    all_goals decide

end TokenBill.Vscode
