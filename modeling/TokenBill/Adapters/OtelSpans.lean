import TokenBill.General.Tables
import TokenBill.Core.Json
import Mathlib.Data.Prod.Lex

/-!
# Nested model spans

`adapters/otel.py`: how the spans of a file are decoded, which of the GenAI and OpenInference spans have a model-call
span below them, and which become drafts. What a span has for its draft is a parameter.
-/

namespace TokenBill.Otel

open General

def isHexDigit (c : Char) : Bool := c.isDigit || decide ('a' ≤ c ∧ c ≤ 'f') || decide ('A' ≤ c ∧ c ≤ 'F')

/-- `_hex`. -/
def hex : Json → Option String
  | .str s => if 1 ≤ s.length ∧ s.length ≤ 64 ∧ s.toList.all isHexDigit then some s.toLower else none
  | _ => none

/-- What a span of a file has for its draft, beside its ids: its attributes and its times. -/
structure Span where
  name : String
  (traceId spanId parentSpanId : Json)
  attrs : List (String × Json)

/-- An attribute of a span, `null` where there is none. -/
def Span.attr (span : Span) (key : String) : Json := (span.attrs.lookup key).getD .null

/-- `member`. -/
def member (value : Json) (allowed : List String) : Bool :=
  match value with
  | .str s => decide (s ∈ allowed)
  | _ => false

/-- `_GENAI_OPERATIONS`. -/
def genaiOperations : List String := ["chat", "generate_content", "text_completion"]

/-- `_GENAI_AGENT_OPERATIONS`. -/
def genaiAgentOperations : List String := ["invoke_agent", "create_agent"]

/-- `_LLM_SPAN` and `_TOOL_SPAN`. -/
def claudeCodeSpans : List String := ["claude_code.llm_request", "claude_code.tool"]

/-- `_Rec`, of a span: its position in the file, its ids, and what it was decoded from. -/
structure Rec where
  order : Nat × Nat
  (trace span parent : Option String)
  decoded : Span

/-- A trace id and a span id. -/
abbrev Key : Type := String × String

local instance keysLawful : LawfulBEq (String × String) := inferInstance

/-- The key of a span that has both ids. -/
def Rec.key (r : Rec) : Option Key := do
  let trace ← r.trace
  let span ← r.span
  some (trace, span)

/-- What the reader keeps of spans. -/
structure Reader where
  genaiSpans : List Rec := []
  oiSpans : List Rec := []
  spanIndex : List (Key × Option String × Bool) := []

def recOf (order : Nat × Nat) (span : Span) : Rec where
  order := order
  trace := hex span.traceId
  span := hex span.spanId
  parent := hex span.parentSpanId
  decoded := span

def isAgent (span : Span) : Bool :=
  member (span.attr "openinference.span.kind") ["AGENT"] ||
    member (span.attr "gen_ai.operation.name") genaiAgentOperations

/-- The conventions of model-call spans. -/
inductive Convention where
  | genai
  | openInference
  deriving DecidableEq

/-- The convention of a span, where it is a model-call span: the other branches of `_span` keep it elsewhere. -/
def convention (span : Span) : Option Convention :=
  if span.name ∈ claudeCodeSpans then none
  else
    match span.attr "openinference.span.kind" with
    | .null => if member (span.attr "gen_ai.operation.name") genaiOperations then some .genai else none
    | kind => if member kind ["LLM"] then some .openInference else none

/-- The index of `_span`: a span with both ids is kept under them, whatever was. -/
def indexed (index : List (Key × Option String × Bool)) (r : Rec) : List (Key × Option String × Bool) :=
  match r.key with
  | some key => upsert Prod.fst (key, r.parent, isAgent r.decoded) index
  | none => index

/-- `_span`. -/
def Reader.span (reader : Reader) (r : Rec) : Reader :=
  let reader := { reader with spanIndex := indexed reader.spanIndex r }
  match convention r.decoded with
  | some .genai => { reader with genaiSpans := reader.genaiSpans ++ [r] }
  | some .openInference => { reader with oiSpans := reader.oiSpans ++ [r] }
  | none => reader

def Reader.spans (spans : List Rec) : Reader := spans.foldl Reader.span {}

/-- The parent of a span in the index: neither a span that is not in the file nor one without a parent has one. -/
def parentIn (index : List (Key × Option String × Bool)) (key : Key) : Option String :=
  (index.find? fun e => decide (e.1 = key)).bind (·.2.1)

/-- The loop of `_nested_model_spans` over the parents of a span: the model-call spans that are met, with so many hops
left. -/
def climb (model : List Key) (index : List (Key × Option String × Bool)) (trace : String) :
    Nat → Option String → List Key
  | 0, _ => []
  | _, none => []
  | hops + 1, some parent =>
    let rest := climb model index trace hops (parentIn index (trace, parent))
    if (trace, parent) ∈ model then (trace, parent) :: rest else rest

def maxHops : Nat := 256

/-- The model-call spans: `(*self.genai_spans, *self.oi_spans)`. -/
def Reader.modelSpans (reader : Reader) : List Rec := reader.genaiSpans ++ reader.oiSpans

def Reader.model (reader : Reader) : List Key := reader.modelSpans.filterMap Rec.key

/-- `_nested_model_spans`. -/
def Reader.nestedModelSpans (reader : Reader) : List Key :=
  (reader.modelSpans.filter fun r => r.key.isSome).flatMap fun r =>
    climb reader.model reader.spanIndex (r.trace.getD "") maxHops r.parent

section

variable {D : Type} (draft : Rec → Option D)

def nestedIn (nested : List Key) (r : Rec) : Bool := r.key.any fun key => decide (key ∈ nested)

/-- `_assemble_spans`: the spans that become drafts, with their drafts. -/
def assembleSpans (recs : List Rec) (nested : List Key) : List (Rec × D) :=
  ((recs.insertionSort fun a b => toLex a.order ≤ toLex b.order).filter fun r => !nestedIn nested r).filterMap
    fun r => (draft r).map (r, ·)

def Reader.drafts (reader : Reader) : List (Rec × D) :=
  assembleSpans draft reader.genaiSpans reader.nestedModelSpans ++
    assembleSpans draft reader.oiSpans reader.nestedModelSpans

end

end TokenBill.Otel
