import TokenBill.Adapters.OtelSpans
import Mathlib.Data.List.Induction

/-!
# Which spans are drafted

A walk from a model-call span follows the last export of each span, and so many links. So a model-call span is nested
when such a walk meets it, and then it has a model-call span below it; the converse, that every span with one below it
is met, is a condition on the file, as is that no span which is not nested was exported twice.
-/

namespace TokenBill.Otel

open General List

/-! ### What the reader keeps -/

section

variable {spans : List Rec}

def isCall (c : Convention) (r : Rec) : Bool := decide (convention r.decoded = some c)

theorem spans_eq (spans : List Rec) : Reader.spans spans =
    ⟨spans.filter (isCall .genai), spans.filter (isCall .openInference), spans.foldl indexed []⟩ := by
  have hrun : ∀ (spans : List Rec) (reader : Reader), spans.foldl Reader.span reader =
      ⟨reader.genaiSpans ++ spans.filter (isCall .genai), reader.oiSpans ++ spans.filter (isCall .openInference),
        spans.foldl indexed reader.spanIndex⟩ := by
    intro spans
    induction spans with
    | nil => intro reader; simp
    | cons r spans ih =>
      intro reader
      rw [foldl_cons, ih]
      unfold Reader.span
      cases hc : convention r.decoded with
      | none => simp [isCall, hc]
      | some c => cases c <;> simp [isCall, hc]
  rw [Reader.spans, hrun]
  simp

def lastParent (spans : List Rec) (key : Key) : Option String :=
  ((spans.filter fun r => decide (r.key = some key)).getLast?).bind (·.parent)

def up (spans : List Rec) (trace : String) : Nat → String → Option String
  | 0, span => some span
  | links + 1, span => (lastParent spans (trace, span)).bind (up spans trace links)

theorem parentIn_foldl_indexed (spans : List Rec) (key : Key) :
    parentIn (spans.foldl indexed []) key = lastParent spans key := by
  induction spans using List.reverseRecOn with
  | nil => rfl
  | append_singleton spans r ih =>
    rw [foldl_append, foldl_cons, foldl_nil]
    generalize spans.foldl indexed [] = index at ih
    unfold lastParent parentIn at *
    rw [filter_append]
    unfold indexed
    cases hr : r.key with
    | none => simp [hr, ih]
    | some key' =>
      rw [find?_upsert]
      by_cases hkey : key' = key
      · rw [if_pos hkey]
        simp [hr, hkey]
      · rw [if_neg hkey, ih]
        simp [hr, hkey]

end

/-! ### Walks -/

/-- What a walk meets: the model-call spans at most so many links up. -/
theorem mem_climb {spans : List Rec} {model : List Key} {trace : String} {hops : Nat} {parent : Option String}
    {key : Key} : key ∈ climb model (spans.foldl indexed []) trace hops parent ↔
      key ∈ model ∧ key.1 = trace ∧ ∃ p, parent = some p ∧ ∃ links < hops, up spans trace links p = some key.2 := by
  induction hops generalizing parent with
  | zero => simp [climb]
  | succ hops ih =>
    cases parent with
    | none => simp [climb]
    | some p =>
      have hrest : key ∈ climb model (spans.foldl indexed []) trace hops
            (parentIn (spans.foldl indexed []) (trace, p)) ↔
          key ∈ model ∧ key.1 = trace ∧ ∃ links < hops,
            (lastParent spans (trace, p)).bind (up spans trace links) = some key.2 := by
        rw [ih, parentIn_foldl_indexed]
        cases lastParent spans (trace, p) with
        | none => simp
        | some q => simp
      have hlinks : (∃ links < hops + 1, up spans trace links p = some key.2) ↔
          p = key.2 ∨ ∃ links < hops, (lastParent spans (trace, p)).bind (up spans trace links) = some key.2 := by
        constructor
        · rintro ⟨_ | links, hlt, hup⟩
          · exact .inl (Option.some.inj hup)
          · exact .inr ⟨links, by omega, hup⟩
        · rintro (hp | ⟨links, hlt, hup⟩)
          · exact ⟨0, by omega, congrArg some hp⟩
          · exact ⟨links + 1, by omega, hup⟩
      have hkey : key = (trace, p) ↔ key.1 = trace ∧ p = key.2 := by
        rw [Prod.ext_iff]
        exact and_congr Iff.rfl eq_comm
      unfold climb
      simp only [Option.some.injEq, exists_eq_left', hlinks]
      split
      case isTrue hmodel =>
        rw [mem_cons, hrest, hkey]
        constructor
        · rintro (⟨htrace, hp⟩ | ⟨hmem, htrace, hup⟩)
          · exact ⟨hkey.mpr ⟨htrace, hp⟩ ▸ hmodel, htrace, .inl hp⟩
          · exact ⟨hmem, htrace, .inr hup⟩
        · rintro ⟨hmem, htrace, hp | hup⟩
          · exact .inl ⟨htrace, hp⟩
          · exact .inr ⟨hmem, htrace, hup⟩
      case isFalse hmodel =>
        rw [hrest]
        constructor
        · exact fun ⟨hmem, htrace, hup⟩ => ⟨hmem, htrace, .inr hup⟩
        · rintro ⟨hmem, htrace, hp | hup⟩
          · exact absurd (hkey.mpr ⟨htrace, hp⟩ ▸ hmem) hmodel
          · exact ⟨hmem, htrace, hup⟩

/-! ### Descendants -/

section

variable (spans : List Rec)

def ModelCall (r : Rec) : Prop := r ∈ spans ∧ (convention r.decoded).isSome

def ParentLink (trace span parent : String) : Prop :=
  ∃ r ∈ spans, r.key = some (trace, span) ∧ r.parent = some parent

/-- A model-call span of the same trace is below a span: its parent is the span, or links of parents lead from its
parent to the span. -/
def HasModelDescendant (r : Rec) : Prop :=
  ∃ trace span, r.key = some (trace, span) ∧ ∃ d, ModelCall spans d ∧ d.trace = some trace ∧
    ∃ parent, d.parent = some parent ∧ Relation.ReflTransGen (ParentLink spans trace) parent span

/-- A model-call span with a span id is below a span, by fewer links than the loop has hops, of the last exports. -/
def MeetsWalk (r : Rec) : Prop :=
  ∃ trace span, r.key = some (trace, span) ∧ ∃ d, ModelCall spans d ∧ d.trace = some trace ∧ d.span.isSome ∧
    ∃ parent, d.parent = some parent ∧ ∃ links < maxHops, up spans trace links parent = some span

/-- One span, exported twice. -/
def SameSpan (r r' : Rec) : Prop := r.key.isSome ∧ r.key = r'.key

end

section

variable {spans : List Rec} {r : Rec}

theorem parentLink_of_lastParent {trace span parent : String} (h : lastParent spans (trace, span) = some parent) :
    ParentLink spans trace span parent := by
  obtain ⟨last, hlast, hparent⟩ := Option.bind_eq_some_iff.mp h
  obtain ⟨hmem, hkey⟩ := mem_filter.mp (mem_of_getLast? hlast)
  exact ⟨last, hmem, of_decide_eq_true hkey, hparent⟩

theorem reflTransGen_of_up {trace : String} {links : Nat} {p q : String} (h : up spans trace links p = some q) :
    Relation.ReflTransGen (ParentLink spans trace) p q := by
  induction links generalizing p with
  | zero => exact Option.some.inj h ▸ Relation.ReflTransGen.refl
  | succ links ih =>
    obtain ⟨parent, hparent, hup⟩ := Option.bind_eq_some_iff.mp h
    exact Relation.ReflTransGen.head (parentLink_of_lastParent hparent) (ih hup)

theorem MeetsWalk.hasModelDescendant (h : MeetsWalk spans r) : HasModelDescendant spans r := by
  obtain ⟨trace, span, hkey, d, hd, htrace, -, parent, hparent, links, -, hup⟩ := h
  exact ⟨trace, span, hkey, d, hd, htrace, parent, hparent, reflTransGen_of_up hup⟩

theorem mem_modelSpans : r ∈ (Reader.spans spans).modelSpans ↔ ModelCall spans r := by
  rw [spans_eq]
  unfold Reader.modelSpans ModelCall isCall
  rw [mem_append, mem_filter, mem_filter, ← and_or_left]
  cases convention r.decoded with
  | none => simp
  | some c => cases c <;> simp

theorem key_eq_some {key : Key} : r.key = some key ↔ r.trace = some key.1 ∧ r.span = some key.2 := by
  obtain ⟨trace, span⟩ := key
  unfold Rec.key
  cases r.trace <;> cases r.span <;> simp

theorem nestedIn_iff (hr : ModelCall spans r) :
    nestedIn (Reader.spans spans).nestedModelSpans r = true ↔ MeetsWalk spans r := by
  unfold nestedIn MeetsWalk
  rw [Option.any_eq_true]
  simp only [decide_eq_true_eq]
  constructor
  · rintro ⟨⟨trace, span⟩, hkey, hnested⟩
    obtain ⟨d, hd, hclimb⟩ := mem_flatMap.mp hnested
    obtain ⟨hd, hdkey⟩ := mem_filter.mp hd
    obtain ⟨⟨t, s⟩, hdkey⟩ := Option.isSome_iff_exists.mp hdkey
    obtain ⟨htrace, hspan⟩ := key_eq_some.mp hdkey
    rw [spans_eq, mem_climb, htrace] at hclimb
    obtain ⟨-, rfl, p, hparent, links, hlt, hup⟩ := hclimb
    exact ⟨trace, span, hkey, d, mem_modelSpans.mp hd, htrace, by rw [hspan]; rfl, p, hparent, links, hlt, hup⟩
  · rintro ⟨trace, span, hkey, d, hd, htrace, hspan, parent, hparent, links, hlt, hup⟩
    refine ⟨(trace, span), hkey, mem_flatMap.mpr ⟨d, mem_filter.mpr ⟨mem_modelSpans.mpr hd, ?_⟩, ?_⟩⟩
    · obtain ⟨s, hs⟩ := Option.isSome_iff_exists.mp hspan
      have hsome : d.key = some (trace, s) := key_eq_some.mpr ⟨htrace, hs⟩
      rw [hsome]
      rfl
    · have hmodel : (trace, span) ∈ (Reader.spans spans).model :=
        mem_filterMap.mpr ⟨r, mem_modelSpans.mpr hr, hkey⟩
      rw [htrace]
      rw [spans_eq] at hmodel ⊢
      exact mem_climb.mpr ⟨hmodel, rfl, parent, hparent, links, hlt, hup⟩

end

/-! ### Drafts -/

section

variable {D : Type} (draft : Rec → Option D) (spans : List Rec)

def drafted : List Rec := ((Reader.spans spans).drafts draft).map (·.1)

/-- The model-call spans that become drafts are those without a model-call span below them, of those that have what a
draft needs, and no span becomes two. -/
def CountedOnce : Prop :=
  (∀ r, ModelCall spans r → (draft r).isSome → (r ∈ drafted draft spans ↔ ¬HasModelDescendant spans r)) ∧
    (drafted draft spans).Pairwise fun r r' => ¬SameSpan r r'

/-- Every model-call span with one below it is met by a walk, and of the others none is exported twice. -/
def WithinReach : Prop :=
  (∀ r, ModelCall spans r → (draft r).isSome → HasModelDescendant spans r → MeetsWalk spans r) ∧
    (Reader.spans spans).modelSpans.Pairwise fun r r' => (draft r).isSome → (draft r').isSome →
      ¬HasModelDescendant spans r → ¬SameSpan r r'

end

section

variable {D : Type} {draft : Rec → Option D} {spans : List Rec}

def kept (draft : Rec → Option D) (spans : List Rec) (r : Rec) : Bool :=
  (draft r).isSome && !nestedIn (Reader.spans spans).nestedModelSpans r

theorem map_assembleSpans (recs : List Rec) (nested : List Key) :
    (assembleSpans draft recs nested).map (·.1) =
      (recs.insertionSort fun a b => toLex a.order ≤ toLex b.order).filter fun r =>
        (draft r).isSome && !nestedIn nested r := by
  unfold assembleSpans
  generalize recs.insertionSort (fun a b => toLex a.order ≤ toLex b.order) = sorted
  induction sorted with
  | nil => rfl
  | cons r sorted ih =>
    cases hn : nestedIn nested r <;> cases hd : draft r <;> simp [hn, hd, ih]

theorem drafted_perm (draft : Rec → Option D) (spans : List Rec) :
    (drafted draft spans).Perm ((Reader.spans spans).modelSpans.filter (kept draft spans)) := by
  unfold drafted Reader.drafts Reader.modelSpans
  rw [map_append, map_assembleSpans, map_assembleSpans, filter_append]
  exact ((perm_insertionSort _ _).filter _).append ((perm_insertionSort _ _).filter _)

theorem kept_iff {r : Rec} (hr : ModelCall spans r) :
    kept draft spans r = true ↔ (draft r).isSome ∧ ¬MeetsWalk spans r := by
  unfold kept
  rw [Bool.and_eq_true, Bool.not_eq_true', ← Bool.not_eq_true, nestedIn_iff hr]

theorem mem_drafted {r : Rec} (hr : ModelCall spans r) :
    r ∈ drafted draft spans ↔ (draft r).isSome ∧ ¬MeetsWalk spans r := by
  rw [(drafted_perm draft spans).mem_iff, mem_filter, mem_modelSpans, and_iff_right hr, kept_iff hr]

theorem SameSpan.symm {r r' : Rec} (h : SameSpan r r') : SameSpan r' r := ⟨h.2 ▸ h.1, h.2.symm⟩

/-- What is below a span is below its other exports. -/
theorem SameSpan.hasModelDescendant {r r' : Rec} (h : SameSpan r r') (hr : HasModelDescendant spans r) :
    HasModelDescendant spans r' := by
  obtain ⟨trace, span, hkey, hrest⟩ := hr
  exact ⟨trace, span, h.2 ▸ hkey, hrest⟩

theorem pairwise_drafted : (drafted draft spans).Pairwise (fun r r' => ¬SameSpan r r') ↔
    (Reader.spans spans).modelSpans.Pairwise fun r r' =>
      kept draft spans r = true → kept draft spans r' = true → ¬SameSpan r r' := by
  rw [(drafted_perm draft spans).pairwise_iff fun {r r'} h hsame => h hsame.symm, pairwise_filter]

end

def chatSpan (span parent : String) : Span where
  name := "chat"
  traceId := .str "5b8efff798038103d269b633813fc60c"
  spanId := .str span
  parentSpanId := .str parent
  attrs := [("gen_ai.operation.name", .str "chat")]

def exportedTwice : List Rec :=
  [recOf (1, 1) (chatSpan "eee19b7ec3c1b174" ""), recOf (2, 1) (chatSpan "eee19b7ec3c1b174" "")]

end TokenBill.Otel
