import TokenBill.Store.Outlive

/-!
# A retention run twice

A retention rewrites member documents one after the other, and the rewritten key of a
row may not be that of another row of its request: members that differ only in their
principal collide. A second retention at the same time finds nobody to forget and
nothing to delete, but it refreshes the dates whose requests the first one deleted.
-/

namespace TokenBill.Store

open General List

variable {h : Hashes}

/-! ### Rewritten member rows -/

/-- The primary key of `merge_members`. -/
def MemberRow.pk (m : MemberRow) : String × String := (m.requestId, m.memberKey)

/-- Whether `_rewrite_docs` rewrites a row. -/
def rewrites (cut : Nat) (m : MemberRow) : Bool := oldMember cut m && m.doc.attribution.principal.isSome

/-- A row after `_rewrite_docs`. -/
def rewriteMember (h : Hashes) (cut : Nat) (m : MemberRow) : MemberRow :=
  if rewrites cut m then m.nullPrincipal h else m

/-- Two rows, the first before the second in the table, whose keys stay apart while they are
rewritten one after the other. -/
def Apart (h : Hashes) (cut : Nat) (x y : MemberRow) : Prop :=
  (rewrites cut y = true → (rewriteMember h cut x).pk ≠ (rewriteMember h cut y).pk) ∧
    (rewrites cut x = true → (rewriteMember h cut x).pk ≠ y.pk)

variable {cut now : Nat} {rows members members' : List MemberRow} {c : Cuts} {db db' db'' : Db} {w : Work}

theorem rewriteDocs_eq_ok {done out : List MemberRow} :
    rewriteDocs h (oldMember cut) done rows = .ok out ↔
      (∀ x ∈ done, ∀ y ∈ rows, rewrites cut y = true → x.pk ≠ (rewriteMember h cut y).pk) ∧
        rows.Pairwise (Apart h cut) ∧ out = done ++ rows.map (rewriteMember h cut) := by
  induction rows generalizing done with
  | nil =>
    rw [rewriteDocs, pure_eq_ok, map_nil, append_nil]
    exact ⟨fun he => ⟨fun _ _ _ hy => (nomatch hy), .nil, he.symm⟩, fun hall => hall.2.2.symm⟩
  | cons m rest ih =>
    have hstep : ∀ new : MemberRow, new = rewriteMember h cut m →
        (rewriteDocs h (oldMember cut) (done ++ [new]) rest = .ok out ↔
          (∀ x ∈ done, ∀ y ∈ rest, rewrites cut y = true → x.pk ≠ (rewriteMember h cut y).pk) ∧
          (∀ y ∈ rest, rewrites cut y = true →
            (rewriteMember h cut m).pk ≠ (rewriteMember h cut y).pk) ∧
          rest.Pairwise (Apart h cut) ∧ out = done ++ (m :: rest).map (rewriteMember h cut)) := by
      rintro new rfl
      rw [ih, forall_mem_append, forall_mem_singleton, and_assoc, map_cons,
        append_assoc, singleton_append]
    have hif : (oldMember cut m && m.doc.attribution.principal.isSome) = rewrites cut m := rfl
    unfold rewriteDocs
    rw [pairwise_cons, hif]
    by_cases hm : rewrites cut m = true
    · have hnew : m.nullPrincipal h = rewriteMember h cut m := by rw [rewriteMember, if_pos hm]
      rw [if_pos hm]
      dsimp only
      rw [hnew]
      split
      · rename_i hany
        obtain ⟨x, hx, he⟩ := any_eq_true.mp hany
        have he : x.pk = (rewriteMember h cut m).pk := Prod.ext_iff.mpr (of_decide_eq_true he)
        refine iff_of_false (by simp) fun hall => ?_
        rcases mem_append.mp hx with hx | hx
        · exact hall.1 x hx m mem_cons_self hm he
        · exact (hall.2.1.1 x hx).2 hm he.symm
      · rename_i hany
        have hfree : ∀ x ∈ done ++ rest, x.pk ≠ (rewriteMember h cut m).pk := fun x hx he =>
          hany (any_eq_true.mpr ⟨x, hx, decide_eq_true (Prod.ext_iff.mp he)⟩)
        rw [hstep _ rfl]
        constructor
        · rintro ⟨h1, h2, h3, h4⟩
          refine ⟨fun x hx y hy hr => ?_, ⟨fun y hy => ⟨h2 y hy, fun _ => ?_⟩, h3⟩, h4⟩
          · rcases mem_cons.mp hy with rfl | hy
            · exact hfree x (mem_append_left _ hx)
            · exact h1 x hx y hy hr
          · exact (hfree y (mem_append_right _ hy)).symm
        · rintro ⟨h1, ⟨h2, h3⟩, h4⟩
          exact ⟨fun x hx y hy hr => h1 x hx y (mem_cons_of_mem _ hy) hr,
            fun y hy => (h2 y hy).1, h3, h4⟩
    · have hnew : m = rewriteMember h cut m := by rw [rewriteMember, if_neg hm]
      rw [if_neg hm, hstep m hnew]
      constructor
      · rintro ⟨h1, h2, h3, h4⟩
        refine ⟨fun x hx y hy hr => ?_, ⟨fun y hy => ⟨h2 y hy, fun hr => absurd hr hm⟩, h3⟩, h4⟩
        rcases mem_cons.mp hy with rfl | hy
        · exact absurd hr hm
        · exact h1 x hx y hy hr
      · rintro ⟨h1, ⟨h2, h3⟩, h4⟩
        exact ⟨fun x hx y hy hr => h1 x hx y (mem_cons_of_mem _ hy) hr,
          fun y hy => (h2 y hy).1, h3, h4⟩

theorem nodup_rewritten (hp : rows.Pairwise (Apart h cut)) (hn : (rows.map MemberRow.pk).Nodup) :
    ((rows.map (rewriteMember h cut)).map MemberRow.pk).Nodup := by
  have hn := pairwise_map.mp hn
  refine pairwise_map.mpr (pairwise_map.mpr ((hp.and hn).imp ?_))
  rintro x y ⟨⟨h1, h2⟩, h3⟩
  by_cases hy : rewrites cut y = true
  · exact h1 hy
  · have hy' : rewriteMember h cut y = y := by rw [rewriteMember, if_neg hy]
    rw [hy']
    by_cases hx : rewrites cut x = true
    · exact h2 hx
    · rw [rewriteMember, if_neg hx]
      exact h3

/-! ### The second run -/

/-- A retention returns where the rewriting of documents does. -/
theorem applyRetention_ok {days : RetentionDays} (hc : cuts now days = .ok c)
    (hm : rewriteDocs h (oldMember c.identity) [] db.mergeMembers = .ok members) :
    ∃ db', applyRetention h db now days = .ok db' := by
  refine ⟨_, bind_eq_ok.mpr ⟨c, hc, bind_eq_ok.mpr ⟨_, bind_eq_ok.mpr ⟨members, hm, rfl⟩, rfl⟩⟩⟩

/-- The same rows in every table of data (the dates to recompute and the audit of the runs are
aside). -/
structure SameData (db db' : Db) : Prop where
  retainedBefore : db'.info.identityRetainedBefore = db.info.identityRetainedBefore
  sources : db'.sources = db.sources
  sessions : db'.sessions = db.sessions
  lanes : db'.lanes = db.lanes
  requests : db'.requests = db.requests
  mergeMembers : db'.mergeMembers = db.mergeMembers
  messageIndex : db'.messageIndex = db.messageIndex
  requestIndex : db'.requestIndex = db.requestIndex
  events : db'.events = db.events
  aggregates : db'.aggregates = db.aggregates
  costLines : db'.costLines = db.costLines
  outcomes : db'.outcomes = db.outcomes
  dailyRollup : db'.dailyRollup = db.dailyRollup
  clusterDay : db'.clusterDay = db.clusterDay
  findings : db'.findings = db.findings

theorem nullRequest_nullRequest (cut : Nat) (r : RequestRow) :
    nullRequest cut (nullRequest cut r) = nullRequest cut r := by
  have hd := date_nullRequest cut r
  by_cases hr : r.dateUtc < cut
  · have hr' := hr
    rw [← hd] at hr'
    rw [nullRequest, if_pos hr', nullRequest, if_pos hr]
    simp [Request.nullPrincipal]
  · have he : nullRequest cut r = r := by rw [nullRequest, if_neg hr]
    rw [he, he]

theorem nullCostLine_nullCostLine (cut : Nat) (l : CostLine) :
    nullCostLine cut (nullCostLine cut l) = nullCostLine cut l := by
  unfold nullCostLine
  by_cases hl : l.dateUtc < cut <;> simp [hl]

/-- A map that does nothing twice, on a table that is a filtered image. -/
theorem map_filter_map {α : Type} {f : α → α} {p : α → Bool} (hf : ∀ a, f (f a) = f a)
    (hp : ∀ a, p (f a) = p a) (l : List α) :
    (((l.filter p).map f).filter p).map f = (l.filter p).map f := by
  have hkeep : ((l.filter p).map f).filter p = (l.filter p).map f := by
    refine filter_eq_self.mpr fun a ha => ?_
    obtain ⟨b, hb, rfl⟩ := mem_map.mp ha
    rw [hp]
    exact (mem_filter.mp hb).2
  rw [hkeep, map_map]
  exact map_congr_left fun a _ => hf a

theorem rewrites_rewriteMember (cut : Nat) (m : MemberRow) :
    rewrites cut (rewriteMember h cut m) = false := by
  unfold rewriteMember
  split
  · rfl
  · rename_i hm
    simpa using hm

theorem rewriteDocs_idle (hr : ∀ m ∈ rows, rewrites cut m = false) :
    rewriteDocs h (oldMember cut) [] rows = .ok rows := by
  have hsame : rows.map (rewriteMember h cut) = rows := by
    refine (map_congr_left fun m hm => ?_).trans (map_id rows)
    rw [rewriteMember, if_neg (by simp [hr m hm]), id]
  refine rewriteDocs_eq_ok.mpr ⟨by simp, ?_, by rw [hsame, nil_append]⟩
  refine pairwise_of_forall_mem_list fun x hx y hy => ⟨fun h => ?_, fun h => ?_⟩
  · rw [hr y hy] at h
    cases h
  · rw [hr x hx] at h
    cases h

/-- Whether a date has no rollup row once a retention with this identity cut has refreshed it: none in
the tables, or no billable inference where the retention refreshes it. -/
def NoneRefreshed (db : Db) (cut d : Nat) : Prop :=
  if d ∈ retainedDates db cut then
    ∀ r ∈ db.requests, r.dateUtc = d → r.inferences.any billable = false
  else db.dailyOf d = [] ∧ db.clusterOf d = []

theorem refreshedFirst_eq_nil {d : Nat} :
    ((refreshedFirst db cut).dailyOf d = [] ∧ (refreshedFirst db cut).clusterOf d = []) ↔
      NoneRefreshed db cut d := by
  unfold NoneRefreshed refreshedFirst
  rw [dailyOf_refreshDates, clusterOf_refreshDates]
  simp only [mem_sortedDates]
  split
  · rw [← dayView_eq_nil]
    constructor
    · intro h
      have hd := h.1
      split at hd
      · exact dailyRows_eq_nil.mp (map_eq_nil_iff.mp hd)
      · exact dailyRows_eq_nil.mp hd
    · intro hv
      rw [dailyRows_nil hv, clusterRows_nil hv]
      simp
  · rfl

/-- The rows of a rollup table after a refresh of dates without requests. -/
theorem refreshTable_idle {κ ν : Type} [DecidableEq κ] {dateUtc : κ → Nat}
    {fresh : Nat → List (RollupRow κ ν)} {retained : Option Nat} {wanted : List Nat}
    (hf : ∀ d ∈ wanted, fresh d = []) (old : List (RollupRow κ ν)) :
    refreshTable dateUtc fresh retained wanted old =
      old.filter fun r => decide (dateUtc r.key ∉ wanted) := by
  have hnone : (wanted.flatMap fun d =>
      if retained.any (d < ·) then (fresh d).map (keepUsers old) else fresh d) = [] := by
    rw [flatMap_eq_nil_iff]
    intro d hd
    rw [hf d hd, map_nil, ite_self]
  rw [refreshTable, hnone, append_nil]

theorem filter_date_eq_self {κ ν : Type} {dateUtc : κ → Nat} {wanted : List Nat}
    {rows : List (RollupRow κ ν)} :
    (rows.filter fun r => decide (dateUtc r.key ∉ wanted)) = rows ↔
      ∀ d ∈ wanted, (rows.filter fun r => decide (dateUtc r.key = d)) = [] := by
  rw [filter_eq_self]
  constructor
  · intro h d hd
    rw [filter_eq_nil_iff]
    rintro r hr he
    rw [decide_eq_true_eq] at he
    have := h r hr
    rw [decide_eq_true_eq, he] at this
    exact this hd
  · intro h r hr
    rw [decide_eq_true_eq]
    intro hd
    have := filter_eq_nil_iff.mp (h _ hd) r hr
    simp at this

theorem mem_retainedDates_again (hr : Retained db c members db') {d : Nat} : d ∈ retainedDates db' c.identity ↔
      d < c.identity ∧ ∃ r ∈ db.requests, r.dateUtc < c.request ∧ r.dateUtc = d := by
  have hnamed : ∀ r ∈ db'.requests, (decide (r.dateUtc < c.identity) && r.principal.isSome) = false := by
    rw [hr.requests]
    intro r hmem
    obtain ⟨r', -, rfl⟩ := mem_map.mp hmem
    rw [date_nullRequest]
    unfold nullRequest
    split
    · simp [RequestRow.principal, Request.nullPrincipal]
    · rename_i hlt
      simp [hlt]
  have hold : ∀ d ∈ db.info.rollupsDirty, d < c.identity → d ∈ retainedDates db c.identity :=
    fun d hd hlt => mem_append_right _ (mem_filter.mpr ⟨hd, by simpa using hlt⟩)
  unfold retainedDates
  rw [filter_eq_nil_iff.mpr fun r hmem => by simp [hnamed r hmem], map_nil, nil_append,
    mem_filter, hr.dirty, decide_eq_true_eq]
  constructor
  · rintro ⟨⟨hd, hnot⟩ | hdel, hlt⟩
    · exact absurd (hold d hd hlt) hnot
    · exact ⟨hlt, hdel⟩
  · rintro ⟨hlt, hdel⟩
    exact ⟨.inr hdel, hlt⟩

/-- The rollup rows of a date after a retention. -/
theorem Retained.rollupsOf (hr : Retained db c members db') (d : Nat) :
    db'.dailyOf d = (if c.rollup ≤ d then (refreshedFirst db c.identity).dailyOf d else []) ∧
      db'.clusterOf d = if c.rollup ≤ d then (refreshedFirst db c.identity).clusterOf d else [] := by
  unfold Db.dailyOf Db.clusterOf
  rw [hr.daily, hr.cluster, filter_filter, filter_filter]
  by_cases hd : c.rollup ≤ d
  · rw [if_pos hd, if_pos hd]
    constructor <;>
    · refine filter_congr fun r _ => ?_
      by_cases he : r.key.dateUtc = d <;> simp [he, hd]
  · rw [if_neg hd, if_neg hd, filter_eq_nil_iff, filter_eq_nil_iff]
    constructor <;>
    · intro r _
      by_cases he : r.key.dateUtc = d <;> simp [he, hd]

/-- The rollup tables after a second retention: without the dates it refreshes. -/
theorem rollups_again (hr : Retained db c members db') (hr' : Retained db' c members' db'') :
    db''.dailyRollup = db'.dailyRollup.filter
        (fun r => decide (r.key.dateUtc ∉ sortedDates (retainedDates db' c.identity))) ∧
      db''.clusterDay = db'.clusterDay.filter
        fun r => decide (r.key.dateUtc ∉ sortedDates (retainedDates db' c.identity)) := by
  have hempty : ∀ d ∈ sortedDates (sortedDates (retainedDates db' c.identity)),
      dayView db' d = [] := by
    intro d hd
    rw [mem_sortedDates, mem_sortedDates, mem_retainedDates_again hr] at hd
    obtain ⟨-, r, -, hlt, rfl⟩ := hd
    refine dayView_eq_nil.mpr fun r' hmem he => ?_
    rw [hr.requests] at hmem
    obtain ⟨r'', hmem', rfl⟩ := mem_map.mp hmem
    have hge := (mem_filter.mp hmem').2
    rw [decide_eq_true_eq] at hge
    rw [date_nullRequest] at he
    omega
  have hall : ∀ {κ ν : Type} (dateUtc : κ → Nat) (old : List (RollupRow κ ν)) (q : Nat → Bool),
      (((old.filter fun r => decide (c.rollup ≤ dateUtc r.key)).filter fun r => q (dateUtc r.key)).filter
        fun r => decide (c.rollup ≤ dateUtc r.key)) =
      (old.filter fun r => decide (c.rollup ≤ dateUtc r.key)).filter fun r => q (dateUtc r.key) :=
    fun dateUtc old q => filter_eq_self.mpr fun r hmem =>
      (mem_filter.mp (mem_of_mem_filter hmem)).2
  have hdaily : (refreshedFirst db' c.identity).dailyRollup = db'.dailyRollup.filter
      fun r => decide (r.key.dateUtc ∉ sortedDates (retainedDates db' c.identity)) := by
    refine (refreshTable_idle (fun d hd => dailyRows_nil (hempty d hd)) db'.dailyRollup).trans ?_
    exact filter_congr fun r _ => decide_eq_decide.mpr (not_congr mem_sortedDates)
  have hcluster : (refreshedFirst db' c.identity).clusterDay = db'.clusterDay.filter
      fun r => decide (r.key.dateUtc ∉ sortedDates (retainedDates db' c.identity)) := by
    refine (refreshTable_idle (fun d hd => clusterRows_nil (hempty d hd)) db'.clusterDay).trans ?_
    exact filter_congr fun r _ => decide_eq_decide.mpr (not_congr mem_sortedDates)
  rw [hr'.daily, hr'.cluster, hdaily, hcluster, hr.daily, hr.cluster]
  exact ⟨hall DailyKey.dateUtc _ fun d => decide (d ∉ sortedDates (retainedDates db' c.identity)),
    hall ClusterKey.dateUtc _ fun d => decide (d ∉ sortedDates (retainedDates db' c.identity))⟩

/-- The tables but the rollups are those of the first run. -/
theorem tables_again (hm : rewriteDocs h (oldMember c.identity) [] db.mergeMembers = .ok members)
    (hr : Retained db c members db') (hm' : rewriteDocs h (oldMember c.identity) [] db'.mergeMembers = .ok members')
    (hr' : Retained db' c members' db'')
    (hd : db''.dailyRollup = db'.dailyRollup) (hcl : db''.clusterDay = db'.clusterDay) : SameData db' db'' := by
  have hkept : ∀ r ∈ db'.requests, c.request ≤ r.dateUtc := by
    rw [hr.requests]
    intro r hmem
    obtain ⟨r', hmem', rfl⟩ := mem_map.mp hmem
    rw [date_nullRequest]
    simpa using (mem_filter.mp hmem').2
  have hids : deletedIds db' (fun r => decide (r.dateUtc < c.request)) = [] := by
    rw [deletedIds, map_eq_nil_iff, filter_eq_nil_iff]
    intro r hmem
    have := hkept r hmem
    rw [decide_eq_true_eq]
    omega
  have hidle : rewriteDocs h (oldMember c.identity) [] db'.mergeMembers = .ok db'.mergeMembers := by
    refine rewriteDocs_idle fun m hmem => ?_
    rw [hr.mergeMembers] at hmem
    have hmem := mem_of_mem_filter hmem
    rw [(rewriteDocs_eq_ok.mp hm).2.2, nil_append] at hmem
    obtain ⟨m', -, rfl⟩ := mem_map.mp hmem
    exact rewrites_rewriteMember c.identity m'
  obtain rfl : db'.mergeMembers = members' := Except.ok.inj (hidle.symm.trans hm')
  have hdate : ∀ l, decide (c.request ≤ (nullCostLine c.identity l).dateUtc) =
      decide (c.request ≤ l.dateUtc) := fun l => by
    unfold nullCostLine
    split <;> rfl
  have hlines : ∀ lines : List CostLine,
      ((lines.map (nullCostLine c.identity)).filter fun l => decide (c.request ≤ l.dateUtc)) =
        (lines.filter fun l => decide (c.request ≤ l.dateUtc)).map (nullCostLine c.identity) :=
    fun lines => by
      rw [filter_map]
      exact congrArg _ (filter_congr fun l _ => hdate l)
  have hagain : ∀ {α : Type} (p : α → Bool) (l : List α), (l.filter p).filter p = l.filter p :=
    fun p l => filter_eq_self.mpr fun _ ha => (mem_filter.mp ha).2
  constructor
  · rw [hr'.retainedBefore, hr.retainedBefore, Option.getD_some, max_assoc, max_self]
  · exact hr'.sources
  · exact hr'.sessions
  · exact hr'.lanes hkept
  · rw [hr'.requests, hr.requests]
    exact map_filter_map (nullRequest_nullRequest c.identity) (fun r => by rw [date_nullRequest]) _
  · rw [hr'.mergeMembers, hids]
    exact filter_eq_self.mpr fun _ _ => by simp
  · rw [hr'.messageIndex, hids]
    exact filter_eq_self.mpr fun _ _ => by simp
  · rw [hr'.requestIndex, hids]
    exact filter_eq_self.mpr fun _ _ => by simp
  · rw [hr'.events, hr.events, hagain]
  · rw [hr'.aggregates, hr.aggregates, hagain]
  · rw [hr'.costLines, hr.costLines, hlines, hlines]
    exact map_filter_map (nullCostLine_nullCostLine c.identity) hdate _
  · rw [hr'.outcomes, hr.outcomes, hagain]
  · exact hd
  · exact hcl
  · exact hr'.findings

/-- A second retention changes no data exactly when no date it refreshes has rollup rows. -/
theorem sameData_iff (hm : rewriteDocs h (oldMember c.identity) [] db.mergeMembers = .ok members)
    (hr : Retained db c members db') (hm' : rewriteDocs h (oldMember c.identity) [] db'.mergeMembers = .ok members')
    (hr' : Retained db' c members' db'') :
    SameData db' db'' ↔ ∀ r ∈ db.requests, c.rollup ≤ r.dateUtc → r.dateUtc < c.request →
      r.dateUtc < c.identity → NoneRefreshed db c.identity r.dateUtc := by
  obtain ⟨hdaily, hcluster⟩ := rollups_again hr hr'
  have hrows : (db''.dailyRollup = db'.dailyRollup ∧ db''.clusterDay = db'.clusterDay) ↔
      ∀ d ∈ sortedDates (retainedDates db' c.identity), db'.dailyOf d = [] ∧ db'.clusterOf d = [] := by
    rw [hdaily, hcluster, filter_date_eq_self, filter_date_eq_self]
    exact ⟨fun h d hd => ⟨h.1 d hd, h.2 d hd⟩, fun h => ⟨fun d hd => (h d hd).1, fun d hd => (h d hd).2⟩⟩
  have hsame : SameData db' db'' ↔
      (db''.dailyRollup = db'.dailyRollup ∧ db''.clusterDay = db'.clusterDay) :=
    ⟨fun h => ⟨h.dailyRollup, h.clusterDay⟩, fun h => tables_again hm hr hm' hr' h.1 h.2⟩
  rw [hsame, hrows]
  simp only [mem_sortedDates, mem_retainedDates_again hr]
  constructor
  · intro h r hmem hroll hreq hident
    have hd := h r.dateUtc ⟨hident, r, hmem, hreq, rfl⟩
    rw [(hr.rollupsOf _).1, (hr.rollupsOf _).2, if_pos hroll, if_pos hroll] at hd
    exact refreshedFirst_eq_nil.mp hd
  · rintro h d ⟨hident, r, hmem, hreq, rfl⟩
    rw [(hr.rollupsOf _).1, (hr.rollupsOf _).2]
    by_cases hroll : c.rollup ≤ r.dateUtc
    · rw [if_pos hroll, if_pos hroll]
      exact refreshedFirst_eq_nil.mpr (h r hmem hroll hreq hident)
    · rw [if_neg hroll, if_neg hroll]
      exact ⟨rfl, rfl⟩

/-! ### Total and idempotent -/

/-- A retention returns, keeps one member row for each rewritten document of the requests it keeps,
and changes nothing when it runs again. -/
def Repeatable (h : Hashes) (db : Db) (now : Nat) (days : RetentionDays) : Prop :=
  ∃ c db', cuts now days = .ok c ∧ applyRetention h db now days = .ok db' ∧
    db'.mergeMembers = (db.mergeMembers.map (rewriteMember h c.identity)).filter
      (fun m => decide (m.requestId ∉ deletedIds db fun r => decide (r.dateUtc < c.request))) ∧
    ((db.mergeMembers.map MemberRow.pk).Nodup → (db'.mergeMembers.map MemberRow.pk).Nodup) ∧
    ∃ db'', applyRetention h db' now days = .ok db'' ∧ SameData db' db''

/-- A retention is total and idempotent exactly when the rewritten keys of member rows stay apart and
no date whose requests it deletes before the identity cut keeps rollup rows. -/
theorem retention_repeatable_iff {db : Db} {now : Nat} {days : RetentionDays} :
    Repeatable h db now days ↔ ∃ c, cuts now days = .ok c ∧
      db.mergeMembers.Pairwise (Apart h c.identity) ∧
      ∀ r ∈ db.requests, c.rollup ≤ r.dateUtc → r.dateUtc < c.request → r.dateUtc < c.identity →
        NoneRefreshed db c.identity r.dateUtc := by
  constructor
  · rintro ⟨c, db', hc, hrun, -, -, db'', hrun', hsame⟩
    obtain ⟨c1, members, hc1, hm, hr⟩ := applyRetention_spec hrun
    obtain ⟨c2, members', hc2, hm', hr'⟩ := applyRetention_spec hrun'
    obtain rfl : c = c1 := Except.ok.inj (hc.symm.trans hc1)
    obtain rfl : c = c2 := Except.ok.inj (hc.symm.trans hc2)
    exact ⟨c, hc, (rewriteDocs_eq_ok.mp hm).2.1, (sameData_iff hm hr hm' hr').mp hsame⟩
  · rintro ⟨c, hc, hapart, hrollups⟩
    have hm : rewriteDocs h (oldMember c.identity) [] db.mergeMembers =
        .ok (db.mergeMembers.map (rewriteMember h c.identity)) :=
      rewriteDocs_eq_ok.mpr ⟨by simp, hapart, by rw [nil_append]⟩
    obtain ⟨db', hrun⟩ := applyRetention_ok hc hm
    obtain ⟨c1, members, hc1, hm1, hr⟩ := applyRetention_spec hrun
    obtain rfl : c = c1 := Except.ok.inj (hc.symm.trans hc1)
    obtain rfl : _ = members := Except.ok.inj (hm.symm.trans hm1)
    have hidle : rewriteDocs h (oldMember c.identity) [] db'.mergeMembers = .ok db'.mergeMembers := by
      refine rewriteDocs_idle fun m hmem => ?_
      rw [hr.mergeMembers] at hmem
      obtain ⟨m', -, rfl⟩ := mem_map.mp (mem_of_mem_filter hmem)
      exact rewrites_rewriteMember c.identity m'
    obtain ⟨db'', hrun'⟩ := applyRetention_ok hc hidle
    obtain ⟨c2, members', hc2, hm', hr'⟩ := applyRetention_spec hrun'
    obtain rfl : c = c2 := Except.ok.inj (hc.symm.trans hc2)
    refine ⟨c, db', hc, hrun, hr.mergeMembers, fun hn => ?_, db'', hrun',
      (sameData_iff hm hr hm' hr').mpr hrollups⟩
    rw [hr.mergeMembers]
    exact (nodup_rewritten hapart hn).sublist (filter_sublist.map _)

def twoPrincipals : IngestResult where
  requests := [sampleRequest "r" (some (.p "1")), sampleRequest "r" (some (.p "2"))]
  source := sampleSource "a"

def sampleContribution (p : Principal) : Contribution :=
  .of (sampleRequest "r" (some p)) "otlp" "a"

theorem sample_keys : (sampleContribution (.p "2")).key sampleConfig.hashes ≠
    (sampleContribution (.p "1")).key sampleConfig.hashes := by
  intro hk
  have hc : (sampleContribution (.p "2")).canon = (sampleContribution (.p "1")).canon :=
    String.append_right_inj _ |>.mp hk
  have := canonical_principal_inj (r := sampleRequest "r" none) hc
  revert this
  decide

theorem insertionSort_pair {α : Type} (r : α → α → Prop) [DecidableRel r] (a b : α) :
    [a, b].insertionSort r = if r a b then [a, b] else [b, a] := rfl

theorem sample_merged : ∃ a b, [a, b].Perm [sampleContribution (.p "1"), sampleContribution (.p "2")] ∧
    mergeContributions sampleConfig.hashes [sampleContribution (.p "1"), sampleContribution (.p "2")] [] =
      [mergeMany sampleConfig.hashes a [b]] := by
  have hfirst : firstOfKey (Contribution.key sampleConfig.hashes)
      [sampleContribution (.p "1"), sampleContribution (.p "2")] =
      [sampleContribution (.p "1"), sampleContribution (.p "2")] := by
    simp [firstOfKey, sample_keys]
  by_cases hle : itemLe (sampleContribution (.p "1")) (sampleContribution (.p "2"))
  · refine ⟨_, _, .refl _, ?_⟩
    unfold mergeContributions
    rw [hfirst]
    rw [insertionSort_pair, if_pos hle]
    rfl
  · refine ⟨_, _, .swap _ _ _, ?_⟩
    unfold mergeContributions
    rw [hfirst]
    rw [insertionSort_pair, if_neg hle]
    rfl

/-- A merged group written to a ledger without requests. -/
theorem writeGroup_first {mg : MergedGroup} (hr : w.db.requests = [])
    (ha : (attemptIds mg.request).Nodup) (hi : (inferenceIds mg.request).Nodup) :
    ∃ w', w.writeGroup h none mg none = .ok w' ∧ w'.db.mergeMembers = w.db.mergeMembers ++
      if 1 < mg.members.length then mg.members.map (memberRow h mg.request.requestId) else [] := by
  have hrow : ∃ w', w.writeRows [groupRow mg (priceColumns none)] = .ok w' := by
    refine ⟨_, if_pos ?_⟩
    simp [freshIds, hr, groupRow, ha, hi]
  obtain ⟨w', hw'⟩ := hrow
  refine ⟨_, bind_eq_ok.mpr ⟨w', hw', rfl⟩, ?_⟩
  rw [Work.writeRows_cases hw']

/-- Contributions that reach no stored group are merged among themselves. -/
theorem remerge_new (w : Work) (pricer : Option Pricer) {incoming : List Contribution}
    (hne : incoming ≠ []) : ∃ mismatches, w.remerge h pricer [] [] incoming =
      ({ w with mismatches } : Work).writeGroups h pricer []
        (mergeContributions h incoming (w.db.collidedAmong incoming)) := by
  have hfresh : (incoming.filter fun c => decide (c.key h ∉ ([] : List String))) = incoming := by simp
  have hdelete : w.deleteGroups [] [] = w := by simp [Work.deleteGroups]
  unfold Work.remerge
  simp only [map_nil, flatten_nil, nil_append, hfresh, hdelete]
  rw [if_neg (by simp [hne])]
  exact ⟨_, rfl⟩

theorem sample_comps :
    (chunkNodes (fun _ => none) ⟨[], []⟩ [sampleContribution (.p "1"), sampleContribution (.p "2")]).comps
      [sampleContribution (.p "1"), sampleContribution (.p "2")] =
        [([], [sampleContribution (.p "1"), sampleContribution (.p "2")])] := by
  decide

/-- The chunk of the sample contributions, in an empty ledger. -/
theorem sample_chunk (hr : w.db.requests = []) (hm : w.db.mergeMembers = [])
    (hhints : w.db.requestIndex = []) (hmsg : w.db.messageIndex = []) :
    ∃ a b w', [a, b].Perm [sampleContribution (.p "1"), sampleContribution (.p "2")] ∧
      w.mergeChunk sampleConfig.hashes none [sampleContribution (.p "1"), sampleContribution (.p "2")] =
        .ok w' ∧
      w'.db.mergeMembers =
        [memberRow sampleConfig.hashes "r" a, memberRow sampleConfig.hashes "r" b] := by
  obtain ⟨a, b, hperm, hmerged⟩ := sample_merged
  set c1 := sampleContribution (.p "1")
  set c2 := sampleContribution (.p "2")
  have hcollided : ∀ cs, w.db.collidedAmong cs = [] := fun cs => by
    rw [Db.collidedAmong, hhints]
    rfl
  have hdet : w.detectCollisions [c1, c2] = (w, ⟨[], []⟩) := by
    have hids : idsOf (fun c => c.hintPairs.map (·.1)) [c1, c2] = [] := rfl
    rw [Work.detectCollisions, hids, hcollided]
    rfl
  have hcomps : (chunkNodes (w.db.reach [] []) ⟨[], []⟩ [c1, c2]).comps [c1, c2] = [([], [c1, c2])] := by
    have hreach : w.db.reach [] [] = fun _ => none := by
      funext key
      cases key <;> simp [Db.reach, hm, hr, hmsg]
    rw [hreach]
    exact sample_comps
  -- the group is written to a ledger without requests
  obtain ⟨n, hremerge⟩ := remerge_new (h := sampleConfig.hashes) w none
    (cons_ne_nil c1 [c2])
  rw [hcollided, hmerged] at hremerge
  have hg : mergeGroup sampleConfig.hashes [a, b] = some (mergeMany sampleConfig.hashes a [b]) := rfl
  set mg := mergeMany sampleConfig.hashes a [b]
  have hwin : mg.winner = c1 ∨ mg.winner = c2 := by
    simpa using hperm.mem_iff.mp (mergeGroup_winner hg)
  have hattempts : (attemptIds mg.request).Nodup := by
    rw [attemptIds, mergeGroup_attempts hg fun _ _ => rfl]
    rcases hwin with he | he <;> rw [he] <;> decide
  have hinferences : (inferenceIds mg.request).Nodup := by
    rw [inferenceIds, flatMap_def, mergeGroup_attempts hg fun _ _ => rfl]
    rcases hwin with he | he <;> rw [he] <;> decide
  obtain ⟨w', hw', hrows⟩ := writeGroup_first (h := sampleConfig.hashes)
    (w := { w with mismatches := n }) hr hattempts hinferences
  have hchunk : w.mergeChunk sampleConfig.hashes none [c1, c2] = .ok w' := by
    unfold Work.mergeChunk
    rw [hdet, hhints]
    dsimp only
    rw [hcomps]
    simp only [foldlM_cons, foldlM_nil, bind_pure, fastOf, Option.isSome_none, hremerge,
      Work.writeGroups, lookup_nil, hw', filterMap_cons, filterMap_nil]
    rfl
  have hmembers := (mergeGroup_members hg).trans hperm
  have hid : mg.request.requestId = "r" := by
    have hmem : ∀ c ∈ [a, b], c = c1 ∨ c = c2 := fun c hc => by simpa using hperm.mem_iff.mp hc
    rcases hmem a (by simp) with rfl | rfl <;> rcases hmem b (by simp) with rfl | rfl <;> decide
  obtain ⟨x, y, hxy⟩ := length_eq_two.mp hmembers.length_eq
  rw [hxy] at hmembers
  rw [hm, hid, hxy] at hrows
  exact ⟨x, y, w', hmembers, hchunk, hrows⟩


/-- An ingest of one chunk, up to the tables the merge engine does not write. -/
theorem ingestWork_of_chunk {cfg : Config} {s : SqliteStore} {result : IngestResult}
    {pricer : Option Pricer} {adopting : Bool} {cleaned : Cleaned} {w' : Work} {contribs : List Contribution}
    (hw : (((if adopting then ({ db := s.db, committed := s.db, mem := s.mem } : Work).adoptFrom now
        result.source else { db := s.db, committed := s.db, mem := s.mem }).setNameKey cfg s.db.info
        result.source).shells cleaned.shells).sessions result.sessions = w)
    (hcontribs : chunks batchRows (cleaned.requests.map fun r =>
      Contribution.of r result.source.adapter result.source.sourceId) = [contribs])
    (hchunk : w.mergeChunk cfg.hashes pricer contribs = .ok w') :
    ∃ w'', ingestWork cfg now s result pricer adopting cleaned = .ok w'' ∧
      w''.db.mergeMembers = w'.db.mergeMembers := by
  unfold ingestWork
  dsimp only
  rw [hw, hcontribs]
  refine ⟨_, bind_eq_ok.mpr ⟨w', bind_eq_ok.mpr ⟨w', hchunk, rfl⟩, rfl⟩, ?_⟩
  obtain ⟨lanes, hl⟩ := refreshLanes_frame ((w'.events cfg.hashes cleaned.events).providerRecords
    cleaned.aggregates cleaned.costLines result.outcomes).db w'.touchedLanes
  have hm := congrArg Db.mergeMembers hl
  exact hm

/-- A store after an ingest whose parts return. -/
theorem ingest_of_work {cfg : Config} {s : SqliteStore} {result : IngestResult}
    {pricer : Option Pricer} {adopting : Bool} {cleaned : Cleaned} (hnew : ingested s.db result.source = false)
    (hadopt : adoption cfg s.db.info result.source = .ok adopting)
    (hclean : clean cfg (namesOk cfg s.db.info result.source adopting)
      (principalsOk s.db.info result.source adopting) result = .ok cleaned)
    (hwork : ingestWork cfg now s result (pricer.or cfg.pricer) adopting cleaned = .ok w) :
    (ingest cfg now s result pricer).1 = ⟨w.db, w.mem⟩ := by
  have hbind : ∀ {α β : Type} (a : α) (f : α → Except Error β), (Except.ok a >>= f) = f a :=
    fun _ _ => rfl
  unfold ingest
  rw [if_neg (by rw [hnew]; decide)]
  dsimp only
  rw [hadopt, hbind, hclean, hbind]
  dsimp only [pure, Except.pure]
  rw [hwork]

theorem run_ingest (cfg : Config) (s : SqliteStore) (now : Nat) (result : IngestResult)
    (pricer : Option Pricer) :
    run cfg s [.ingest now result pricer] = (ingest cfg now s result pricer).1 := rfl

/-- The member rows of a request reported under two principals. -/
theorem sample_members : ∃ a b,
    [a, b].Perm [sampleContribution (.p "1"), sampleContribution (.p "2")] ∧
    (run sampleConfig sampleStore [.ingest 0 twoPrincipals none]).db.mergeMembers =
      [memberRow sampleConfig.hashes "r" a, memberRow sampleConfig.hashes "r" b] := by
  obtain ⟨a, b, w', hperm, hchunk, hrows⟩ := sample_chunk
    (w := { db := sampleStore.db, committed := sampleStore.db, mem := sampleStore.mem }) rfl rfl rfl rfl
  refine ⟨a, b, hperm, ?_⟩
  let cleaned : Cleaned :=
    { requests := twoPrincipals.requests, costLines := [], aggregates := [], events := [], shells := []
      counts := CleanCounts.total [{}, {}] }
  have hadopt : adoption sampleConfig sampleStore.db.info twoPrincipals.source = .ok false := rfl
  have hclean : clean sampleConfig (namesOk sampleConfig sampleStore.db.info twoPrincipals.source false)
      (principalsOk sampleStore.db.info twoPrincipals.source false) twoPrincipals = .ok cleaned := rfl
  have hcontribs : chunks batchRows (cleaned.requests.map fun r => Contribution.of r
      twoPrincipals.source.adapter twoPrincipals.source.sourceId) =
      [[sampleContribution (.p "1"), sampleContribution (.p "2")]] := rfl
  have hnew : ingested sampleStore.db twoPrincipals.source = false := rfl
  obtain ⟨w'', hwork, hm⟩ : ∃ w'', ingestWork sampleConfig 0 sampleStore twoPrincipals
      ((none : Option Pricer).or sampleConfig.pricer) false cleaned = .ok w'' ∧
      w''.db.mergeMembers = w'.db.mergeMembers := ingestWork_of_chunk rfl hcontribs hchunk
  rw [run_ingest, ingest_of_work hnew hadopt hclean hwork]
  exact hm.trans hrows

/-- The members of a merged request that differ only in their principal collide once they are
forgotten: no later retention returns. -/
theorem retention_collides : ¬ ∀ (cfg : Config) (ops : List Op) (now : Nat) (days : RetentionDays),
    (cuts now days).isOk → Repeatable cfg.hashes (run cfg (.create cfg none) ops).db now days := by
  intro hall
  obtain ⟨c, db', hc, hrun, -⟩ :=
    hall sampleConfig [.ingest 0 twoPrincipals none] (100 * dayMs) {} (by decide)
  have hcuts : cuts (100 * dayMs) {} = .ok ⟨10, 0, 10, 0⟩ := by decide
  obtain rfl : (⟨10, 0, 10, 0⟩ : Cuts) = c := Except.ok.inj (hcuts.symm.trans hc)
  obtain ⟨c', members, hc', hm, -⟩ := applyRetention_spec hrun
  obtain rfl : (⟨10, 0, 10, 0⟩ : Cuts) = c' := Except.ok.inj (hcuts.symm.trans hc')
  have hapart := (rewriteDocs_eq_ok.mp hm).2.1
  obtain ⟨a, b, hperm, hrows⟩ := sample_members
  have hstore : SqliteStore.create sampleConfig none = sampleStore := rfl
  rw [hstore, hrows] at hapart
  have hab := (pairwise_cons.mp hapart).1 _ (mem_singleton_self _)
  have hmem : ∀ c ∈ [a, b], c = sampleContribution (.p "1") ∨ c = sampleContribution (.p "2") :=
    fun c hc => by simpa using hperm.mem_iff.mp hc
  have hold : ∀ c ∈ [a, b], rewrites 10 (memberRow sampleConfig.hashes "r" c) = true ∧
      Request.nullPrincipal c.request = sampleRequest "r" none ∧ c.adapter = "otlp" := fun c hc => by
    rcases hmem c hc with rfl | rfl <;> decide
  obtain ⟨hra, hda, haa⟩ := hold a (by simp)
  obtain ⟨hrb, hdb, hab'⟩ := hold b (by simp)
  refine hab.1 hrb ?_
  rw [rewriteMember, rewriteMember, if_pos hra, if_pos hrb]
  unfold MemberRow.pk MemberRow.nullPrincipal memberRow
  dsimp only
  rw [hda, hdb, haa, hab']

end TokenBill.Store
