import TokenBill.Core.Conventions
import Mathlib.Algebra.Order.BigOperators.Group.List
import Mathlib.Tactic.ApplyFun

/-!
# Server tool counts

A response with iterations keeps a server tool counter if an element reports it or none reports either
counter. The test is made for both counters at once, so what only the top level reports of one counter is
lost when an element reports the other.
-/

namespace TokenBill.Conventions

open General PyJson List

/-! ### Lists of inferences -/

theorem length_kindsOf (elements : List Element) : (kindsOf elements).length = elements.length := by
  induction elements with
  | nil => rfl
  | cons e rest ih => rw [kindsOf, length_cons, ih, length_cons]

variable {kinds : List InferenceKind} {usages : List UsageBuckets} {top : UsageBuckets}

theorem usages_inferencesOf (r : Response) {elements : List Element}
    (hkinds : kinds.length = elements.length) (husages : usages.length = elements.length) :
    (r.inferencesOf elements kinds usages).1.map (·.usage) = usages := by
  have hlen : usages.length ≤ (elements.zip kinds).length := by
    rw [length_zip, hkinds, husages, min_self]
  unfold Response.inferencesOf
  rw [map_map]
  show (((elements.zip kinds).zip usages).zipIdx.map fun p => p.1.2) = usages
  have hsnd : (((elements.zip kinds).zip usages).zipIdx.map fun p => p.1.2) =
      (((elements.zip kinds).zip usages).zipIdx.map Prod.fst).map Prod.snd := by
    rw [map_map]
    rfl
  rw [hsnd, zipIdx_map_fst, map_snd_zip hlen]

theorem mem_zipIdx_lt {p : InferenceKind × Nat} (h : p ∈ kinds.zipIdx) : p.2 < kinds.length := by
  have := snd_lt_of_mem_zipIdx h
  omega

theorem servingIndex_lt (h : kinds ≠ []) : servingIndex kinds < kinds.length := by
  have hpos := length_pos_iff.mpr h
  unfold servingIndex
  cases hlast : (kinds.zipIdx.filter fun p => decide (p.1 = .message ∨ p.1 = .fallback)).getLast? with
  | none =>
    show kinds.length - 1 < kinds.length
    omega
  | some p => exact mem_zipIdx_lt (mem_of_mem_filter (mem_of_getLast? hlast))

/-! ### The counts of the top level -/

theorem le_of_mem_bucketCounts (u : UsageBuckets) {b : String × Nat} (hb : b ∈ u.bucketCounts) : b.2 ≤ maxTokens := by
  have hvalid := u.valid
  unfold UsageCounts.check at hvalid
  split at hvalid
  · cases hvalid
  · rename_i hfind
    have h := find?_eq_none.mp hfind b hb
    simpa using h

theorem check_withTools (top u : UsageBuckets) :
    ({ u.toUsageCounts with
        webSearchRequests := top.webSearchRequests, webFetchRequests := top.webFetchRequests : UsageCounts }).check =
      none := by
  set v : UsageCounts := { u.toUsageCounts with
    webSearchRequests := top.webSearchRequests, webFetchRequests := top.webFetchRequests } with hv
  have hnone : ∀ w : UsageBuckets, (w.bucketCounts.find? fun b => decide (maxTokens < b.2)) = none := by
    intro w
    refine find?_eq_none.mpr fun b hb => ?_
    have h := le_of_mem_bucketCounts w hb
    simpa using h
  have hfind : (v.bucketCounts.find? fun b => decide (maxTokens < b.2)) = none := by
    have hu := find?_eq_none.mp (hnone u)
    have htop := find?_eq_none.mp (hnone top)
    refine find?_eq_none.mpr fun b hb => ?_
    simp only [UsageCounts.bucketCounts, hv, mem_cons, not_mem_nil, or_false] at hb hu htop
    rcases hb with rfl | rfl | rfl | rfl | rfl | rfl | rfl | rfl | rfl
    · exact hu _ (by simp)
    · exact hu _ (by simp)
    · exact hu _ (by simp)
    · exact hu _ (by simp)
    · exact hu _ (by simp)
    · exact hu _ (by simp)
    · exact hu _ (by simp)
    · exact htop _ (by simp)
    · exact htop _ (by simp)
  have hvalid := u.valid
  unfold UsageCounts.check at hvalid ⊢
  rw [hnone u] at hvalid
  rw [hfind]
  exact hvalid

def served (top u : UsageBuckets) : UsageBuckets := ⟨_, check_withTools top u⟩

theorem withServerTools_eq (top u : UsageBuckets) : withServerTools top u = .ok (served top u) :=
  UsageCounts.build_eq_ok.mpr rfl

/-! ### The counters of a response -/

/-- The counter of a tool, for the two tools. -/
inductive Tool
  | search
  | fetch

def Tool.of : Tool → UsageCounts → Nat
  | .search, u => u.webSearchRequests
  | .fetch, u => u.webFetchRequests

def Tool.total (tool : Tool) (usages : List UsageBuckets) : Nat := (usages.map fun u => tool.of u.toUsageCounts).sum

def Tool.Reports (tool : Tool) (usages : List UsageBuckets) : Prop := ∃ u ∈ usages, tool.of u.toUsageCounts ≠ 0

instance (tool : Tool) (usages : List UsageBuckets) : Decidable (tool.Reports usages) :=
  inferInstanceAs (Decidable (∃ u ∈ usages, tool.of u.toUsageCounts ≠ 0))

variable {tool : Tool}

theorem Tool.total_eq_zero : tool.total usages = 0 ↔ ¬tool.Reports usages := by
  unfold total Reports
  rw [sum_eq_zero_iff]
  simp


theorem Tool.of_served (tool : Tool) (top u : UsageBuckets) :
    tool.of (served top u).toUsageCounts = tool.of top.toUsageCounts := by
  cases tool <;> rfl

theorem any_tools :
    (usages.any fun u => decide (u.webSearchRequests ≠ 0 ∨ u.webFetchRequests ≠ 0)) = true ↔
      Tool.search.Reports usages ∨ Tool.fetch.Reports usages := by
  simp only [any_eq_true, decide_eq_true_eq, Tool.Reports, Tool.of]
  constructor
  · rintro ⟨u, hu, h | h⟩
    · exact .inl ⟨u, hu, h⟩
    · exact .inr ⟨u, hu, h⟩
  · rintro (⟨u, hu, h⟩ | ⟨u, hu, h⟩)
    · exact ⟨u, hu, .inl h⟩
    · exact ⟨u, hu, .inr h⟩

theorem sum_zipIdx_single {α : Type} (c serving : Nat) (l : List α) (k : Nat) (hk : k ≤ serving)
    (hlt : serving < k + l.length) : ((l.zipIdx k).map fun p => if p.2 = serving then c else 0).sum = c := by
  induction l generalizing k with
  | nil => exact absurd hlt (by simpa using hk)
  | cons a l ih =>
    rw [zipIdx_cons, map_cons, sum_cons]
    rw [length_cons] at hlt
    by_cases h : k = serving
    · have hrest : ((l.zipIdx (k + 1)).map fun p => if p.2 = serving then c else 0).sum = 0 := by
        refine sum_eq_zero fun x hx => ?_
        obtain ⟨p, hp, rfl⟩ := mem_map.mp hx
        have := le_snd_of_mem_zipIdx hp
        rw [if_neg (by omega)]
      rw [if_pos h, hrest, Nat.add_zero]
    · rw [if_neg h, ih (k + 1) (by omega) (by omega), Nat.zero_add]

/-- The counters after the top level's went to the serving inference. -/
theorem total_attach {serving : Nat} {usages' : List UsageBuckets}
    (hserving : serving < usages.length) (h : attachServerTools top serving usages = .ok usages') :
    usages'.length = usages.length ∧ ∀ tool : Tool, tool.total usages' =
      if Tool.search.Reports usages ∨ Tool.fetch.Reports usages then tool.total usages else tool.of top.toUsageCounts := by
  unfold attachServerTools at h
  by_cases hany : Tool.search.Reports usages ∨ Tool.fetch.Reports usages
  · rw [any_tools.mpr hany] at h
    obtain rfl := Except.ok.inj h
    refine ⟨rfl, fun tool => ?_⟩
    rw [if_pos hany]
  · have hfalse : (usages.any fun u => decide (u.webSearchRequests ≠ 0 ∨ u.webFetchRequests ≠ 0)) = false :=
      Bool.eq_false_iff.mpr fun htrue => hany (any_tools.mp htrue)
    have hzero : ∀ (tool : Tool), ∀ u ∈ usages, tool.of u.toUsageCounts = 0 := by
      intro tool u hu
      by_contra hne
      cases tool with
      | search => exact hany (.inl ⟨u, hu, hne⟩)
      | fetch => exact hany (.inr ⟨u, hu, hne⟩)
    rw [hfalse, Bool.not_false, Bool.true_and] at h
    by_cases htop : top.webSearchRequests ≠ 0 ∨ top.webFetchRequests ≠ 0
    · rw [if_pos (decide_eq_true htop)] at h
      have hmap : (usages.zipIdx.mapM fun p => if p.2 = serving then withServerTools top p.1 else .ok p.1) =
          .ok (usages.zipIdx.map fun p => if p.2 = serving then served top p.1 else p.1) := by
        refine Eq.trans (congrArg (fun f => List.mapM f usages.zipIdx) (funext fun p => ?_)) mapM_pure
        by_cases hp : p.2 = serving
        · rw [if_pos hp, if_pos hp]
          exact withServerTools_eq top p.1
        · rw [if_neg hp, if_neg hp]
          rfl
      rw [hmap] at h
      obtain rfl := Except.ok.inj h
      refine ⟨by rw [length_map, length_zipIdx], fun tool => ?_⟩
      rw [if_neg hany, Tool.total, map_map]
      calc (usages.zipIdx.map ((fun u : UsageBuckets => tool.of u.toUsageCounts) ∘
              fun p => if p.2 = serving then served top p.1 else p.1)).sum
          = (usages.zipIdx.map fun p => if p.2 = serving then tool.of top.toUsageCounts else 0).sum := by
            refine congrArg List.sum (map_congr_left fun p hp => ?_)
            show tool.of (if p.2 = serving then served top p.1 else p.1).toUsageCounts = _
            by_cases hp' : p.2 = serving
            · rw [if_pos hp', if_pos hp', Tool.of_served]
            · rw [if_neg hp', if_neg hp', hzero tool p.1 (fst_mem_of_mem_zipIdx hp)]
        _ = tool.of top.toUsageCounts := sum_zipIdx_single _ _ _ _ (Nat.zero_le _) (by omega)
    · rw [if_neg (by simpa using htop)] at h
      obtain rfl := Except.ok.inj h
      refine ⟨rfl, fun tool => ?_⟩
      rw [if_neg hany]
      have hnone : tool.total usages = 0 := by
        rw [Tool.total_eq_zero]
        rintro ⟨u, hu, hne⟩
        exact hne (hzero tool u hu)
      rw [hnone]
      obtain ⟨hsearch, hfetch⟩ := not_or.mp htop
      cases tool with
      | search => exact (not_not.mp hsearch).symm
      | fetch => exact (not_not.mp hfetch).symm

/-! ### Responses -/

/-- What the top level and the iterations of a usage object report. -/
def reported : PyJson String → Except Error (UsageBuckets × List UsageBuckets)
  | .dict raw => do
    let (top, _) ← normalizeUsage raw
    let items ← iterationsOf raw
    let read ← items.mapM elementOf
    .ok (top, read.map fun e => e.1.usage)
  | _ => .error (badUsage "usage")

/-- The requests of a tool that a response made: what its iterations report, or the top level's where none does. -/
def Tool.made (tool : Tool) (top : UsageBuckets) (iterations : List UsageBuckets) : Nat :=
  if tool.Reports iterations then tool.total iterations else tool.of top.toUsageCounts

/-- Inferences have the requests of a tool that the response made. -/
def Tool.Kept (tool : Tool) (top : UsageBuckets) (iterations : List UsageBuckets) (inferences : List Inference) : Prop :=
  (inferences.map fun i => tool.of i.usage.toUsageCounts).sum = tool.made top iterations

instance (tool : Tool) (top : UsageBuckets) (iterations : List UsageBuckets) (inferences : List Inference) :
    Decidable (tool.Kept top iterations inferences) :=
  inferInstanceAs (Decidable (_ = _))

/-- Only the top level reports a tool, and iterations report the other one. -/
def OnlyTopReports (tool other : Tool) (top : UsageBuckets) (iterations : List UsageBuckets) : Prop :=
  tool.of top.toUsageCounts ≠ 0 ∧ ¬tool.Reports iterations ∧ other.Reports iterations

/-- The counters of the inferences of elements. -/
theorem total_fromElements {r : Response} {items : List (PyJson String)}
    {inferences : List Inference} {notes : List String} (hitems : items ≠ [])
    (h : r.fromElements top items = .ok (inferences, notes)) :
    ∃ read, items.mapM elementOf = .ok read ∧ ∀ tool : Tool,
      (inferences.map fun i => tool.of i.usage.toUsageCounts).sum =
        if Tool.search.Reports (read.map fun e => e.1.usage) ∨ Tool.fetch.Reports (read.map fun e => e.1.usage) then
          tool.total (read.map fun e => e.1.usage) else tool.of top.toUsageCounts := by
  obtain ⟨read, hread, h⟩ := bind_eq_ok.mp h
  obtain ⟨usages, husages, h⟩ := bind_eq_ok.mp h
  have hinferences : (r.inferencesOf (read.map Prod.fst) (kindsOf (read.map Prod.fst)) usages).1 = inferences :=
    (Prod.mk.inj (Except.ok.inj h)).1
  have hlen : read.length = items.length := (mapM_eq_ok.mp hread).length_eq.symm
  have hne : kindsOf (read.map Prod.fst) ≠ [] := by
    rw [← length_pos_iff, length_kindsOf, length_map, hlen]
    exact length_pos_iff.mpr hitems
  have hserving : servingIndex (kindsOf (read.map Prod.fst)) < ((read.map Prod.fst).map (·.usage)).length := by
    have hlt := servingIndex_lt hne
    rwa [length_kindsOf, ← length_map (f := fun e : Element => e.usage)] at hlt
  obtain ⟨hlength, htotal⟩ := total_attach hserving husages
  refine ⟨read, hread, fun tool => ?_⟩
  have hmap : ∀ l : List Inference, (l.map fun i => tool.of i.usage.toUsageCounts).sum = tool.total (l.map (·.usage)) := by
    intro l
    rw [Tool.total, map_map]
    rfl
  rw [hmap, ← hinferences, usages_inferencesOf r (length_kindsOf _) (by rw [hlength, length_map]), htotal tool, map_map]
  rfl

theorem Tool.total_of_not_reports (h : ¬tool.Reports usages) : tool.total usages = 0 :=
  Tool.total_eq_zero.mpr h

/-- A counter that is taken from the iterations if any of the two is reported there. -/
theorem kept_iff {other : Tool} {iterations : List UsageBuckets} {total : Nat}
    (h : total = if tool.Reports iterations ∨ other.Reports iterations then tool.total iterations
      else tool.of top.toUsageCounts) :
    total = tool.made top iterations ↔ ¬OnlyTopReports tool other top iterations := by
  unfold Tool.made OnlyTopReports
  rw [h]
  by_cases htool : tool.Reports iterations
  · rw [if_pos (.inl htool), if_pos htool]
    exact iff_of_true rfl fun honly => honly.2.1 htool
  · by_cases hother : other.Reports iterations
    · rw [if_pos (.inr hother), if_neg htool, Tool.total_of_not_reports htool]
      constructor
      · intro hzero honly
        exact honly.1 hzero.symm
      · intro honly
        by_contra hne
        exact honly ⟨fun hzero => hne hzero.symm, htool, hother⟩
    · rw [if_neg (not_or.mpr ⟨htool, hother⟩), if_neg htool]
      exact iff_of_true rfl fun honly => hother honly.2.2

/-- The server tool counters of a response are kept exactly if iterations that report one of them do not hide the
other one of the top level. -/
theorem serverTools_kept_iff (r : Response) {raw : PyJson String} {inferences : List Inference} {notes : List String}
    (h : r.anthropicInferences raw = .ok (inferences, notes)) :
    ∃ top iterations, reported raw = .ok (top, iterations) ∧
      ((Tool.search.Kept top iterations inferences ∧ Tool.fetch.Kept top iterations inferences) ↔
        ¬OnlyTopReports .search .fetch top iterations ∧ ¬OnlyTopReports .fetch .search top iterations) := by
  cases raw with
  | dict raw =>
    obtain ⟨⟨top, topNotes⟩, htop, h⟩ := bind_eq_ok.mp h
    obtain ⟨items, hitems, h⟩ := bind_eq_ok.mp h
    by_cases hempty : items = []
    · rw [if_pos hempty] at h
      have hinferences := (Prod.mk.inj (Except.ok.inj h)).1
      refine ⟨top, [], ?_, ?_⟩
      · subst hempty
        show (normalizeUsage raw >>= _) = _
        rw [htop]
        show (iterationsOf raw >>= _) = _
        rw [hitems]
        rfl
      · have hnone : ∀ tool : Tool, ¬tool.Reports [] := by
          rintro tool ⟨u, hu, -⟩
          cases hu
        rw [← hinferences]
        refine iff_of_true ⟨?_, ?_⟩ ⟨fun honly => hnone _ honly.2.2, fun honly => hnone _ honly.2.2⟩
        · rfl
        · rfl
    · rw [if_neg hempty] at h
      obtain ⟨read, hread, htotal⟩ := total_fromElements hempty h
      refine ⟨top, read.map fun e => e.1.usage, ?_, ?_⟩
      · show (normalizeUsage raw >>= _) = _
        rw [htop]
        show (iterationsOf raw >>= _) = _
        rw [hitems]
        show (items.mapM elementOf >>= _) = _
        rw [hread]
        rfl
      · have hfetch := (htotal .fetch).trans (if_congr or_comm rfl rfl)
        exact and_congr (kept_iff (htotal .search)) (kept_iff hfetch)
  | _ => cases h

def searchesAndFetch : PyJson String := .dict
  [("server_tool_use", .dict [("web_search_requests", .int 3)]),
   ("iterations", .list [.dict
     [("type", .str "message"), ("server_tool_use", .dict [("web_fetch_requests", .int 1)])]])]

def plainResponse : Response where
  hashes := ⟨fun s => s, fun _ s => s, fun s => s⟩
  normalizeModel := fun s => s
  messageModel := "m"
  ctx := { provider := "anthropic", channel := "api", model := "m", modelRaw := "m" }
  idPrefix := "req"

/-- The three searches are lost. -/
theorem searches_lost : ∃ inferences notes top iterations,
    plainResponse.anthropicInferences searchesAndFetch = .ok (inferences, notes) ∧
      reported searchesAndFetch = .ok (top, iterations) ∧ ¬Tool.search.Kept top iterations inferences := by
  have hmade : (plainResponse.anthropicInferences searchesAndFetch).toOption.map
      (fun p => (p.1.map fun i => Tool.search.of i.usage.toUsageCounts).sum) = some 0 := by decide
  have hreported : (reported searchesAndFetch).toOption.map (fun p => Tool.search.made p.1 p.2) = some 3 := by
    decide
  cases hinferences : plainResponse.anthropicInferences searchesAndFetch with
  | error e =>
    rw [hinferences] at hmade
    cases hmade
  | ok p =>
    cases htop : reported searchesAndFetch with
    | error e =>
      rw [htop] at hreported
      cases hreported
    | ok q =>
      rw [hinferences] at hmade
      rw [htop] at hreported
      refine ⟨p.1, p.2, q.1, q.2, rfl, rfl, fun hkept => ?_⟩
      have h : (0 : Nat) = 3 := by
        rw [← Option.some.inj hmade, ← Option.some.inj hreported]
        exact hkept
      cases h

/-- Iterations that report a fetch hide the searches of the top level. -/
theorem searchesAndFetch_kept : ∃ inferences notes,
    plainResponse.anthropicInferences searchesAndFetch = .ok (inferences, notes) ∧
      ∃ top iterations, reported searchesAndFetch = .ok (top, iterations) ∧
        ((Tool.search.Kept top iterations inferences ∧ Tool.fetch.Kept top iterations inferences) ↔
          ¬OnlyTopReports .search .fetch top iterations ∧ ¬OnlyTopReports .fetch .search top iterations) := by
  have hok : (plainResponse.anthropicInferences searchesAndFetch).toOption.isSome = true := by decide
  cases h : plainResponse.anthropicInferences searchesAndFetch with
  | error e =>
    rw [h] at hok
    cases hok
  | ok p => exact ⟨p.1, p.2, rfl, serverTools_kept_iff plainResponse h⟩

end TokenBill.Conventions
