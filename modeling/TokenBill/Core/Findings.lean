import TokenBill.Core.Kanon
import Mathlib.Data.List.Infix

/-!
# Findings and their generated text

The finding record of `core/types.py`, its id (`core/findings.py`) and the text
functions of `core/kanon.py` that a re-scoped finding goes through: the values of
dropped scope dims are scrubbed, and the summary is fitted into 400 characters
without losing its labelling statements. What Python's `re` and `str` know of
Unicode (`\w`, `\s`, lower case) is a parameter.
-/

namespace TokenBill

/-! ### Ids -/

/-- The digests of `core/ids.py`, in hexadecimal. -/
structure Hashes where
  /-- `hashlib.sha256(text).hexdigest()`. -/
  sha256 : String → String
  /-- `hmac_hex(key, value)`. -/
  hmac : String → String → String
  /-- `key_id(key)`. -/
  keyId : String → String

/-- `stable_id(prefix, *parts)`. -/
def Hashes.stableId (h : Hashes) (pre : String) (parts : List String) : String :=
  pre ++ "_" ++ String.ofList ((h.sha256 ("\x1f".intercalate parts)).toList.take 24)

/-! ### Findings -/

/-- A scope: sorted dims with their values. -/
abbrev Scope : Type := List (String × String)

/-- `CATEGORIES`. -/
inductive Category where
  | breaker | lever | premium | failure | attribution | dataQuality | aggregate
  deriving DecidableEq

/-- `LEVER_CLASSES`. -/
inductive LeverClass where
  | rate | cacheTransform | trajectory | behavioral | hygiene | none
  deriving DecidableEq

/-- `CONFIDENCES`. -/
inductive Confidence where
  | high | medium | low
  deriving DecidableEq

/-- `_CONFIDENCE_RANK`. -/
def Confidence.rank : Confidence → Nat
  | low => 0 | medium => 1 | high => 2

/-- The value of an evidence attribute. -/
inductive EvidenceValue where
  | str (s : String) | int (n : Int)
  deriving DecidableEq

/-- `EvidenceItem`. -/
structure EvidenceItem where
  (kind ref : String)
  attrs : List (String × EvidenceValue)
  deriving DecidableEq

/-- `Fix`. -/
structure Fix where
  text : String
  configPatch : Option (List (String × String))
  (target docUrl : Option String)
  gates : List String := []
  deriving DecidableEq

/-- `Finding`. -/
structure Finding where
  (findingId detectorId kind detectorVersion : String)
  category : Category
  leverClass : LeverClass
  audience : Kanon.Audience
  (title summary : String)
  scope : Scope
  (nEvents nLanes nUsers firstSeenMs : Nat)
  costObserved : Figure
  recoverable : Option Figure
  recoverableShapley : Option Figure := .none
  projectedMonthly : Option Figure := .none
  leverIds : List String := []
  evidence : List EvidenceItem := []
  fix : Option Fix := .none
  confidence : Confidence := .medium
  validatedAgainst : Option String := .none
  needsEval : Bool := false
  references : List String := []
  headroom : Option Figure := .none
  deriving DecidableEq

namespace Kanon

def scopeLe (a b : String × String) : Prop := toLex a ≤ toLex b

instance : DecidableRel scopeLe := fun _ _ => inferInstanceAs (Decidable (toLex _ ≤ toLex _))

/-- `sorted(dims)`. -/
def sortScope (dims : Scope) : Scope := dims.insertionSort scopeLe

/-- `core.findings.finding_id`. -/
def findingId (h : Hashes) (detectorId kind : String) (scope : Scope) : String :=
  h.stableId "fd" (detectorId :: kind :: (sortScope scope).map fun d => d.1 ++ "=" ++ d.2)

/-! ### Generated text -/

/-- What `re` and `str` know of the characters. -/
structure Unicode where
  /-- `\w`. -/
  isWord : Char → Bool
  /-- `\s`. -/
  isSpace : Char → Bool
  /-- `str.lower` of one character. -/
  lower : Char → List Char

variable (uni : Unicode)

/-- `SCRUBBED`. -/
def scrubbed : String := "(other)"

/-- `(?![\w\-]|\.\w)`. -/
def tokenEnds : List Char → Bool
  | [] => true
  | c :: rest =>
    !(uni.isWord c || c == '-') &&
      !(c == '.' && match rest with | [] => false | d :: _ => uni.isWord d)

/-- `(?<![\w.\-])`. -/
def tokenStarts : Option Char → Bool
  | none => true
  | some c => !(uni.isWord c || c == '.' || c == '-')

/-- `pattern.sub(SCRUBBED, text)`: `skip` characters of a match are still to be passed, and the
character before the rest is `prev`. -/
def scrubFrom (dropped : List (List Char)) : Nat → Option Char → List Char → List Char
  | _, _, [] => []
  | skip + 1, _, c :: rest => scrubFrom dropped skip (some c) rest
  | 0, prev, c :: rest =>
    if tokenStarts uni prev then
      match dropped.find? fun v =>
          v.isPrefixOf (c :: rest) && tokenEnds uni ((c :: rest).drop v.length) with
      | some v => scrubbed.toList ++ scrubFrom dropped (v.length - 1) (some c) rest
      | none => c :: scrubFrom dropped 0 (some c) rest
    else c :: scrubFrom dropped 0 (some c) rest

/-- The order of the dropped values: the longest first. -/
def droppedLe (a b : String) : Prop :=
  toLex (-(a.length : Int), a) ≤ toLex (-(b.length : Int), b)

instance : DecidableRel droppedLe := fun _ _ => inferInstanceAs (Decidable (toLex _ ≤ toLex _))

/-- The values of the scope dims that re-scoping to `scope` dropped. -/
def droppedValues (children : List Finding) (scope : Scope) : List String :=
  ((children.flatMap (·.scope)).filter fun d =>
    !decide (d ∈ scope) && d.2 != "" && !decide (d.2 ∈ scope.map (·.2))).map (·.2)
    |>.dedup.insertionSort droppedLe

/-- `_scrubber`. -/
def scrubber (children : List Finding) (scope : Scope) (text : String) : String :=
  match droppedValues children scope with
  | [] => text
  | dropped => String.ofList (scrubFrom uni (dropped.map (·.toList)) 0 none text.toList)

/-- `_scrub_evidence`. -/
def scrubEvidence (scrub : String → String) (item : EvidenceItem) : EvidenceItem :=
  { item with attrs := item.attrs.map fun a =>
      (a.1, match a.2 with | .str s => .str (scrub s) | .int n => .int n) }

/-- `_LABEL_MARKERS`. -/
def labelMarkers : List String :=
  ["list-equivalent", "not invoice", "estimated", "upper bound", "unpriced", "provider estimate",
   "no mechanical fix", "if business", "if enterprise", "scenario"]

/-- `_SUMMARY_MAX`. -/
def summaryMax : Nat := 400

/-- `str.strip` at the front. -/
def lstrip (p : Char → Bool) (text : List Char) : List Char := text.dropWhile p

/-- `str.rstrip` of the characters `p`. -/
def rstrip (p : Char → Bool) (text : List Char) : List Char := (text.reverse.dropWhile p).reverse

/-- The split at white space after a sentence end; `cur` is the sentence so far and `skipping`
says that its separator is being passed. -/
def splitSentences : List Char → Bool → List Char → List (List Char)
  | cur, _, [] => [cur]
  | cur, skipping, c :: rest =>
    if skipping && uni.isSpace c then splitSentences cur true rest
    else if uni.isSpace c && cur.getLast?.any (· ∈ ['.', ';', '!', '?']) then
      cur :: splitSentences [] true rest
    else splitSentences (cur ++ [c]) false rest

/-- `_sentences`. -/
def sentences (text : List Char) : List (List Char) :=
  (splitSentences uni [] false (rstrip uni.isSpace (lstrip uni.isSpace text))).filter (· ≠ [])

/-- `text[:text.rindex(" ")]`, for a text with a space. -/
def beforeLastSpace (text : List Char) : List Char :=
  ((text.reverse.dropWhile (· ≠ ' ')).drop 1).reverse

/-- `_cut_words`. -/
def cutWords (text : List Char) (limit : Nat) : List Char :=
  if text.length ≤ limit then text
  else
    let head := text.take (limit - 1)
    let head := if ' ' ∈ head then beforeLastSpace head else head
    rstrip (· ∈ [' ', ',', ';', ':']) head ++ ['…']

/-- `_cut_at_word`. -/
def cutAtWord (text : List Char) (limit : Int) : Option (List Char) :=
  if (text.length : Int) + 2 ≤ limit then some (text ++ [' ', '…'])
  else
    let head := text.take (limit - 1).toNat
    let head :=
      if text[head.length]?.any (· ≠ ' ') then
        if ' ' ∈ head then beforeLastSpace head else []
      else head
    let head := rstrip (· ∈ [' ', ',', ';', ':', '.']) head
    if head = [] then none else some (head ++ ['…'])

/-- `_SHORT_PREFIXES`. -/
def shortPrefixes : List String := ["[re-scoped for k-anonymity] ", "[re-scoped] "]

def joinKept (parts : List (List Char)) (flags : List Bool) : List Char :=
  [' '].intercalate (((parts.zip flags).filter (·.2)).map (·.1))

/-- `text(flags)`: the kept sentences, with an ellipsis where one is left out. -/
def keptText (parts : List (List Char)) (flags : List Bool) : List Char :=
  let body := joinKept parts flags
  if flags.all id then body
  else rstrip uni.isSpace (lstrip uni.isSpace (body ++ [' ', '…']))

/-- The sentences kept whole in order while they fit. -/
def fillSentences (parts : List (List Char)) (budget : Nat) : Nat → List Bool → List Bool
  | 0, chosen => chosen
  | left + 1, chosen =>
    let i := parts.length - (left + 1)
    let trial := chosen.set i true
    if chosen[i]? = some false ∧ (keptText uni parts trial).length ≤ budget then
      fillSentences parts budget left trial
    else fillSentences parts budget left chosen

/-- `_fit_summary` where the whole summary does not fit. -/
def fitSentences (summary : List Char) (budget : Nat) : List Char :=
  let parts := sentences uni summary
  let chosen := parts.map fun part => labelMarkers.any fun m =>
    decide (m.toList <:+: part.flatMap uni.lower)
  if budget < (keptText uni parts chosen).length then
    cutWords (match keptText uni parts chosen with | [] => summary | t => t) budget
  else
    let chosen := fillSentences uni parts budget parts.length chosen
    match chosen.findIdx? (· == false) with
    | none => keptText uni parts chosen
    | some first =>
      let kept := (joinKept parts chosen).length
      let room : Int := budget - kept - if kept = 0 then 0 else 1
      match cutAtWord (parts.getD first []) room with
      | none => keptText uni parts chosen
      | some part => joinKept (parts.set first part) (chosen.set first true)

/-- `_fit_summary`. -/
def fitSummary (pre summary : String) : String :=
  match (pre :: shortPrefixes).find? fun p => decide (p.length + summary.length ≤ summaryMax) with
  | some p => p ++ summary
  | none =>
    let pre := "[re-scoped] "
    pre ++ String.ofList (fitSentences uni summary.toList (summaryMax - pre.length))

end Kanon

end TokenBill
