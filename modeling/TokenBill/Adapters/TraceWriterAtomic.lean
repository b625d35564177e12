import TokenBill.Adapters.TraceWriter

/-!
# A write that fails

A record is read before anything of it is kept, so a record that is refused leaves the reader and the writer as they
are. A session writes itself before its lanes, and a request the definitions of its new blocks before itself: when a
later record of such a call is refused, the earlier ones stay. What is written is never taken back, so the writer is as
it was before a call that fails just when the call had not written anything.
-/

namespace TokenBill.TraceV2

open General Codec Kept

section

variable (host : Host)

/-! ### The reader -/

theorem atomic_blocks (d : Members) : Atomic (blocks host d) := by
  apply atomic_get_bind
  intro r
  apply Atomic.ofExcept_bind
  intro _
  apply Atomic.ofExcept_bind
  intro defs
  exact fun _ _ h => by cases h

theorem atomic_request (d : Members) : Atomic (request host d) := by
  apply atomic_get_bind
  intro r
  apply Atomic.ofExcept_bind
  intro got
  exact fun _ _ h => by cases h

theorem atomic_decode (d : Members) : Atomic (decode host d) := by
  apply atomic_get_bind
  intro r
  apply Atomic.ofExcept_bind
  intro kind
  split
  case h_3 => exact atomic_blocks host d
  case h_4 => exact atomic_request host d
  all_goals exact atomic_ofExcept _

/-! ### The writer -/

def accepts (w : Writer) (record : Members) : Bool := ((decode host record).exec w.reader).1.isOk

variable {record : Members} {w : Writer} {r fp : RecordVal} {c : Call} {f : Unit → Write Unit} {e : WriteError}

theorem line_accepted (h : accepts host w record) :
    ((line host record).exec w).1 = .ok () ∧
      w.out <+: ((line host record).exec w).2.out ∧ w.out ≠ ((line host record).exec w).2.out := by
  unfold accepts exec at h
  cases hrun : decode host record w.reader with
  | mk got reader =>
    rw [hrun] at h
    cases got with
    | ok _ =>
      have hline : line host record w = (.ok (), { w with
          out := w.out ++ Json.render (.obj record) ++ ['\n'], reader, count := w.count + 1 }) := by
        simp only [line, exec, hrun]
      refine ⟨congrArg Prod.fst hline, ?_, ?_⟩ <;> simp only [exec, hline, List.append_assoc]
      · exact List.prefix_append _ _
      · simp
    | error _ => cases h

/-- A record that the reader refuses leaves the writer as it is. -/
theorem line_refused (h : accepts host w record = false) :
    (∃ e, ((line host record).exec w).1 = .error e) ∧ ((line host record).exec w).2 = w := by
  have hkept := atomic_decode host record w.reader
  unfold accepts exec at h
  unfold exec at hkept
  cases hrun : decode host record w.reader with
  | mk got reader =>
    rw [hrun] at h hkept
    cases got with
    | ok _ => cases h
    | error e =>
      have hreader : reader = w.reader := hkept e rfl
      rw [hreader] at hrun
      cases e <;> simp only [line, exec, hrun, Except.error.injEq, exists_eq', and_self]

theorem atomic_line (record : Members) : Atomic (line host record) := by
  intro w e he
  cases h : accepts host w record with
  | true => rw [(line_accepted host h).1] at he; cases he
  | false => exact (line_refused host h).2

/-! ### Calls of one record -/

theorem atomic_lane (l : RecordVal) : Atomic (Writer.lane host l) := Atomic.ofExcept_bind (atomic_line host)

theorem atomic_event (e : RecordVal) : Atomic (Writer.event host e) := Atomic.ofExcept_bind (atomic_line host)

theorem atomic_plain (kind : String) (v : RecordVal) : Atomic (Writer.plain host kind v) :=
  Atomic.ofExcept_bind (atomic_line host)

theorem atomic_note (n : RecordVal) : Atomic (Writer.note host n) := Atomic.ofExcept_bind (atomic_line host)

theorem atomic_content (h text : String) : Atomic (Writer.content host h text) := by
  apply atomic_get_bind
  intro w
  dsimp only
  split
  · exact atomic_ofExcept _
  · exact atomic_line host _

/-! ### What is written is never taken back -/

def Extends (w w' : Writer) : Prop := w.out <+: w'.out

theorem extends_refl (w : Writer) : Extends w w := List.prefix_rfl

theorem extends_trans (w w' w'' : Writer) : Extends w w' → Extends w' w'' → Extends w w'' := List.IsPrefix.trans

theorem advances_line (record : Members) : Advances Extends (line host record) := by
  intro w
  cases h : accepts host w record with
  | true => exact (line_accepted host h).2.1
  | false =>
    rw [(line_refused host h).2]
    exact extends_refl w

theorem advances_ofExcept_line (v : Except WriteError Members) :
    Advances Extends (Kept.ofExcept v >>= line host) :=
  (advances_ofExcept extends_refl v).bind extends_trans (advances_line host)

theorem advances_lanes (lanes : List RecordVal) : Advances Extends (lanes.forM (Writer.lane host)) :=
  advances_forM extends_refl extends_trans (fun l => advances_ofExcept_line host (laneRecord l)) lanes

/-- What a request does after its blocks are defined. -/
def finish (r fp : RecordVal) : Write Unit := do
  let delta ← Kept.ofExcept (deltaOf (← MonadState.get) r fp)
  let record ← Kept.ofExcept (requestRecord host r delta)
  line host record
  keepLast r fp

theorem atomic_finish (r fp : RecordVal) : Atomic (finish host r fp) := by
  apply atomic_get_bind
  intro w
  apply Atomic.ofExcept_bind
  intro delta
  apply Atomic.ofExcept_bind
  intro record
  exact (atomic_line host record).bind_modify _

theorem advances_finish (r fp : RecordVal) : Advances Extends (finish host r fp) := by
  apply advances_get_bind
  intro w
  refine (advances_ofExcept extends_refl _).bind extends_trans fun delta => ?_
  refine (advances_ofExcept extends_refl _).bind extends_trans fun record => ?_
  refine (advances_line host record).bind extends_trans fun _ => ?_
  exact fun w => extends_refl _

theorem request_plain (h : written w.reader.header r = none) :
    (Writer.request host r).exec w = (Kept.ofExcept (requestRecord host r .null) >>= line host).exec w := by
  unfold Writer.request
  rw [exec_get_bind, h]

/-- A request whose fingerprint is written: its blocks are defined before anything else is checked. -/
theorem request_written (h : written w.reader.header r = some fp) :
    (Writer.request host r).exec w =
      (Kept.ofExcept (freshBlocks w fp) >>= fun f => define host fp f >>= fun _ => finish host r fp).exec w := by
  unfold Writer.request Writer.fp finish
  rw [exec_get_bind, h]
  simp only [bind_assoc]
  rfl

theorem request_fresh {f : Fresh} (h : written w.reader.header r = some fp)
    (hf : freshBlocks w fp = .ok f) (hfresh : f.fresh ≠ []) :
    (Writer.request host r).exec w = (line host (blocksRecord fp f) >>= fun _ =>
      (modify fun w => { w with emitted := defined w.emitted f }) >>= fun _ => finish host r fp).exec w := by
  rw [request_written host h, hf]
  show (define host fp f >>= fun _ => finish host r fp).exec w = _
  unfold define
  rw [if_neg hfresh, bind_assoc]

theorem request_known {f : Fresh} (h : written w.reader.header r = some fp)
    (hf : freshBlocks w fp = .ok f) (hfresh : f.fresh = []) :
    (Writer.request host r).exec w = (finish host r fp).exec w := by
  rw [request_written host h, hf]
  show (define host fp f >>= fun _ => finish host r fp).exec w = _
  unfold define
  rw [if_pos hfresh, pure_bind]

/-! ### Calls -/

/-- What a call writes before what it writes last: a session itself, and the fresh blocks of a request. -/
def Writer.preamble (w : Writer) : Call → Option Members
  | .session s => (sessionRecord s).toOption
  | .request r => do
    let fp ← written w.reader.header r
    let f ← (freshBlocks w fp).toOption
    if f.fresh = [] then none else some (blocksRecord fp f)
  | _ => none

/-- What a call writes first, of more than one record, is refused. -/
def Clean (w : Writer) (c : Call) : Prop := ∀ record, w.preamble c = some record → accepts host w record = false

/-- A call that raises. -/
def raises (w : Writer) (c : Call) : Prop := ∃ e, ((c.run host).exec w).1 = .error e

/-- Whether a call raises a `ContractViolation`. -/
def violates (w : Writer) (c : Call) : Bool :=
  match ((c.run host).exec w).1 with
  | .error (.violation _) => true
  | _ => false

theorem violates_iff (w : Writer) (c : Call) :
    violates host w c ↔ ∃ text, ((c.run host).exec w).1 = .error (.violation text) := by
  unfold violates
  cases hrun : ((c.run host).exec w).1 with
  | ok _ => simp
  | error e => cases e <;> simp

theorem raises_of_violates (h : violates host w c) : raises host w c := by
  obtain ⟨text, he⟩ := (violates_iff host w c).mp h
  exact ⟨_, he⟩

/-- What writes a record first, and then more, adds to the text when the record is accepted. -/
theorem refused_of_out_eq
    (hf : ∀ u, Advances Extends (f u)) (hsame : ((line host record >>= f).exec w).2.out = w.out) :
    accepts host w record = false := by
  by_contra hacc
  obtain ⟨hok, hmore₀, hne⟩ := line_accepted host (eq_true_of_ne_false hacc)
  rw [exec_bind_ok hok] at hsame
  have hmore : ((line host record).exec w).2.out <+: _ := hf () ((line host record).exec w).2
  rw [hsame] at hmore
  exact hne (hmore₀.eq_of_length_le hmore.length_le)

theorem untouched_of_refused (h : accepts host w record = false) : ((line host record >>= f).exec w).2 = w := by
  obtain ⟨⟨e, he⟩, hw⟩ := line_refused host h
  rw [exec_bind_error he, hw]

/-- What a request without blocks to be defined writes first is all that it writes. -/
theorem preamble_request {f : Fresh} (h : written w.reader.header r = some fp) (hf : freshBlocks w fp = .ok f) :
    w.preamble (.request r) = if f.fresh = [] then none else some (blocksRecord fp f) := by
  simp only [Writer.preamble, h, hf, Except.toOption, Option.bind_eq_bind, Option.bind_some]

theorem clean_of_preamble_none (h : w.preamble c = none) : Clean host w c :=
  fun record hr => by rw [h] at hr; cases hr

theorem clean_iff_refused (h : w.preamble c = some record) : Clean host w c ↔ accepts host w record = false :=
  ⟨fun hclean => hclean record h, fun hrefused _ hr => Option.some.inj (h.symm.trans hr) ▸ hrefused⟩

/-- A call that leaves the text as it is when it fails is clean, and a clean one leaves the writer as it is. -/
def UntouchedIfClean (w : Writer) (c : Call) : Prop :=
  ((w.after host c).out = w.out → Clean host w c) ∧ (Clean host w c → w.after host c = w)

theorem untouchedIfClean_of_none (h : w.preamble c = none) (hw : w.after host c = w) : UntouchedIfClean host w c :=
  ⟨fun _ => clean_of_preamble_none host h, fun _ => hw⟩

/-- A call that writes another record before its last one. -/
theorem untouchedIfClean_of_some
    (h : w.preamble c = some record) (hrun : w.after host c = ((line host record >>= f).exec w).2)
    (hf : ∀ u, Advances Extends (f u)) : UntouchedIfClean host w c := by
  unfold UntouchedIfClean
  rw [clean_iff_refused host h, hrun]
  exact ⟨refused_of_out_eq host hf, untouched_of_refused host⟩

theorem session_untouched (w : Writer) (s : RecordVal) : UntouchedIfClean host w (.session s) := by
  cases hrecord : sessionRecord s with
  | error e =>
    apply untouchedIfClean_of_none host (by simp [Writer.preamble, hrecord, Except.toOption])
    show ((Writer.session host s).exec w).2 = w
    unfold Writer.session
    rw [hrecord]
    rfl
  | ok record =>
    have hpreamble : w.preamble (.session s) = some record := by simp [Writer.preamble, hrecord, Except.toOption]
    apply untouchedIfClean_of_some host hpreamble _ fun _ => advances_lanes host (getField s "lanes").items
    show ((Writer.session host s).exec w).2 = _
    unfold Writer.session
    rw [hrecord]
    rfl

theorem request_untouched (h : raises host w (.request r)) : UntouchedIfClean host w (.request r) := by
  obtain ⟨e, he⟩ := h
  replace he : ((Writer.request host r).exec w).1 = .error e := he
  have hafter : w.after host (.request r) = ((Writer.request host r).exec w).2 := rfl
  cases hfp : written w.reader.header r with
  | none =>
    apply untouchedIfClean_of_none host (by simp [Writer.preamble, hfp])
    rw [request_plain host hfp] at hafter he
    rw [hafter]
    exact Atomic.ofExcept_bind (atomic_line host) w e he
  | some fp =>
    cases hf : freshBlocks w fp with
    | error e' =>
      apply untouchedIfClean_of_none host (by simp [Writer.preamble, hfp, hf, Except.toOption])
      rw [hafter, request_written host hfp, hf]
      rfl
    | ok f =>
      have hpreamble := preamble_request hfp hf
      by_cases hfresh : f.fresh = []
      · rw [if_pos hfresh] at hpreamble
        apply untouchedIfClean_of_none host hpreamble
        rw [request_known host hfp hf hfresh] at hafter he
        rw [hafter]
        exact atomic_finish host r fp w e he
      · rw [if_neg hfresh] at hpreamble
        rw [request_fresh host hfp hf hfresh] at hafter
        apply untouchedIfClean_of_some host hpreamble hafter
        intro _
        exact Advances.bind extends_trans (fun w => extends_refl w) fun _ => advances_finish host r fp

theorem untouchedIfClean_of_raises (h : raises host w c) : UntouchedIfClean host w c := by
  obtain ⟨e, he⟩ := h
  cases c with
  | session s => exact session_untouched host w s
  | request r => exact request_untouched host ⟨e, he⟩
  | lane l => exact untouchedIfClean_of_none host rfl (atomic_lane host l w e he)
  | event v => exact untouchedIfClean_of_none host rfl (atomic_event host v w e he)
  | aggregate a => exact untouchedIfClean_of_none host rfl (atomic_plain host "aggregate" a w e he)
  | costLine c => exact untouchedIfClean_of_none host rfl (atomic_plain host "cost_line" c w e he)
  | outcome o => exact untouchedIfClean_of_none host rfl (atomic_plain host "outcome" o w e he)
  | note n => exact untouchedIfClean_of_none host rfl (atomic_note host n w e he)
  | content k t => exact untouchedIfClean_of_none host rfl (atomic_content host k t w e he)

/-! ### What a call that fails leaves -/

theorem lanes_fail {lanes : List RecordVal} (h : ((lanes.forM (Writer.lane host)).exec w).1 = .error e) :
    ∃ before l later, lanes = before ++ l :: later ∧
      ((lanes.forM (Writer.lane host)).exec w).2 = w.afterAll host (before.map .lane) ∧
      ((Writer.lane host l).exec (w.afterAll host (before.map .lane))).1 = .error e := by
  induction lanes generalizing w with
  | nil => cases h
  | cons l lanes ih =>
    have hforM : (l :: lanes).forM (Writer.lane host) =
        Writer.lane host l >>= fun _ => lanes.forM (Writer.lane host) := rfl
    rw [hforM] at h ⊢
    cases hl : ((Writer.lane host l).exec w).1 with
    | error e' =>
      rw [exec_bind_error hl] at h ⊢
      exact ⟨[], l, lanes, rfl, atomic_lane host l w e' hl, hl.trans h⟩
    | ok _ =>
      rw [exec_bind_ok hl] at h ⊢
      obtain ⟨before, l', later, hsplit, hleft, hfail⟩ := ih h
      exact ⟨l :: before, l', later, by rw [hsplit]; rfl, hleft, hfail⟩

/-- A session that fails after its record leaves the record, and the lanes before the one that is refused. -/
theorem session_fails {s : RecordVal}
    (h : ((Writer.session host s).exec w).1 = .error e) (hrecord : sessionRecord s = .ok record)
    (haccepts : accepts host w record) :
    ∃ before l later, (getField s "lanes").items = before ++ l :: later ∧
      w.after host (.session s) = ((line host record).exec w).2.afterAll host (before.map .lane) ∧
      ((Writer.lane host l).exec (((line host record).exec w).2.afterAll host (before.map .lane))).1 = .error e := by
  have hrun : (Writer.session host s).exec w =
      ((getField s "lanes").items.forM (Writer.lane host)).exec ((line host record).exec w).2 := by
    unfold Writer.session
    rw [hrecord]
    exact exec_bind_ok (line_accepted host haccepts).1
  rw [hrun] at h
  obtain ⟨before, l, later, hsplit, hleft, hfail⟩ := lanes_fail host h
  refine ⟨before, l, later, hsplit, ?_, hfail⟩
  show ((Writer.session host s).exec w).2 = _
  rw [hrun, hleft]

theorem request_fails {f : Fresh}
    (h : ((Writer.request host r).exec w).1 = .error e) (hfp : written w.reader.header r = some fp)
    (hf : freshBlocks w fp = .ok f) : w.after host (.request r) = ((define host fp f).exec w).2 := by
  have hrun : (Writer.request host r).exec w = (define host fp f >>= fun _ => finish host r fp).exec w := by
    rw [request_written host hfp, hf]
    rfl
  show ((Writer.request host r).exec w).2 = _
  rw [hrun] at h ⊢
  cases hdefine : ((define host fp f).exec w).1 with
  | error e' => rw [exec_bind_error hdefine]
  | ok _ =>
    rw [exec_bind_ok hdefine] at h ⊢
    exact atomic_finish host r fp _ e h

/-! ### Runs -/

/-- The calls of a run less those that raise a `ContractViolation`. -/
def Writer.without (w : Writer) : List Call → List Call
  | [] => []
  | c :: calls => if violates host w c then w.without calls else c :: (w.after host c).without calls

/-- In a run, every call that raises a `ContractViolation` is clean. -/
def CleanRun (w : Writer) : List Call → Prop
  | [] => True
  | c :: calls => (violates host w c → Clean host w c) ∧ CleanRun (w.after host c) calls

theorem CleanRun.afterAll_without {calls : List Call} (h : CleanRun host w calls) :
    w.afterAll host (w.without host calls) = w.afterAll host calls := by
  induction calls generalizing w with
  | nil => rfl
  | cons c calls ih =>
    obtain ⟨hclean, hrun⟩ := h
    unfold Writer.without
    split
    case isTrue hv =>
      have hw := (untouchedIfClean_of_raises host (raises_of_violates host hv)).2 (hclean hv)
      rw [hw] at hrun
      rw [ih hrun]
      show _ = (w.after host c).afterAll host calls
      rw [hw]
    case isFalse => exact ih hrun

end

/-- What a call that raises leaves of a writer. -/
structure Leaves (host : Host) (w : Writer) (c : Call) : Prop where
  /-- The writer as it is, when what the call writes before its last record is refused. -/
  untouched : Clean host w c → w.after host c = w
  /-- Otherwise more text. -/
  touched : ¬Clean host w c → (w.after host c).out ≠ w.out
  /-- Of a session that is written, its record and the lanes before the one that is refused. -/
  session : ∀ s record, c = .session s → sessionRecord s = .ok record → accepts host w record →
    ∃ before l later, (getField s "lanes").items = before ++ l :: later ∧
      w.after host c = ((line host record).exec w).2.afterAll host (before.map .lane) ∧
      violates host (((line host record).exec w).2.afterAll host (before.map .lane)) (.lane l)
  /-- Of a request, its blocks where they are to be defined. -/
  request : ∀ r fp f, c = .request r → written w.reader.header r = some fp → freshBlocks w fp = .ok f →
    w.after host c = ((define host fp f).exec w).2

theorem leaves_of_violates {host : Host} {w : Writer} {c : Call} (h : violates host w c) : Leaves host w c where
  untouched := (untouchedIfClean_of_raises host (raises_of_violates host h)).2
  touched hclean hsame := hclean ((untouchedIfClean_of_raises host (raises_of_violates host h)).1 hsame)
  session := by
    rintro s record rfl hrecord haccepts
    obtain ⟨text, he⟩ := (violates_iff host w (.session s)).mp h
    obtain ⟨before, l, later, hsplit, hleft, hfail⟩ := session_fails host he hrecord haccepts
    exact ⟨before, l, later, hsplit, hleft, (violates_iff host _ (.lane l)).mpr ⟨text, hfail⟩⟩
  request := by
    rintro r fp f rfl hfp hf
    obtain ⟨text, he⟩ := (violates_iff host w (.request r)).mp h
    exact request_fails host he hfp hf

def ofDefaults (c : RecordType) (given : List RecordVal) : RecordVal :=
  .record c (given ++ (c.fields.drop given.length).map fun f => f.default.getD .none)

def kindHost : Host where
  construct _ _ := none
  jsonDepth := 100

def sampleHeader : TraceHeader where
  traceId := "t"
  profile := "fingerprint"
  identityMode := "install"
  fpKeyId := some "k"
  attribution := ofDefaults .attribution []

def sampleSession (laneKey : String) : RecordVal :=
  .record .session
    [.str "s1", .str "claude_code", ofDefaults .attribution [],
      .tuple [ofDefaults .lane [.str laneKey, .str "s1", .member .laneKind (.text "main"), .none, .str "unknown", .tuple []]],
      .int 0, .int 1]

def sampleWriter : Writer where
  out := Json.render (.obj ((headerRecord sampleHeader).toOption.getD [])) ++ ['\n']
  reader := { header := sampleHeader }
  count := 1

theorem new_sampleHeader : Writer.new sampleHeader = .ok sampleWriter := by
  have hrecord : headerRecord sampleHeader = .ok ((headerRecord sampleHeader).toOption.getD []) := rfl
  unfold Writer.new
  rw [hrecord]
  rfl

end TokenBill.TraceV2
