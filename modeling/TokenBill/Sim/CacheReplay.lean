import TokenBill.Core.Money
import Mathlib.Data.Finset.Insert
import Mathlib.Data.List.Sort

/-!
# The replay of an optimal cache

`tokenbill/simulator.py` replays the calls of a run in time order under the documented cache rules. A call
reads the longest entry of its own model that is a prefix of its text, is within the time to live of its last
use and meets the minimum of the model; what the entry does not cover is written, and whether the premium of
that write is paid is decided after the replay: only when a later call read the entry. Times are the floats of
the trace, their difference and the count of approximate tokens are the host's.
-/

namespace TokenBill.Simulator

def cacheTtlSeconds : ℚ := 300

/-- `Usage`. -/
structure Usage where
  (inputTokens cacheReadInputTokens cacheCreationInputTokens outputTokens : Nat)

/-- `Usage.total_input`. -/
def Usage.totalInput (usage : Usage) : Nat :=
  usage.inputTokens + usage.cacheReadInputTokens + usage.cacheCreationInputTokens

/-- What the replay reads of a call: `text` is its `rendered_text`. -/
structure Call where
  index : Nat
  ts : ℚ
  model : String
  text : List Char
  usage : Usage

/-- The float operations of the replay and the limits of the price table. -/
structure Host where
  /-- The difference of two floats. -/
  sub : ℚ → ℚ → ℚ
  /-- `approx_tokens`, a float quotient. -/
  approxTokens : List Char → ℚ
  /-- `min_cacheable_prefix_tokens` of the price of a model, or of the defaults. -/
  minCacheable : String → ℚ

/-- `_CacheEntry`. -/
structure Entry where
  model : String
  text : List Char
  aliveTs : ℚ
  lastWriter : Nat

/-- One row of `billing`. -/
structure Billing where
  (read remainder : Int)
  output : Nat
  cacheable : Bool
  writerPos : Option Nat

/-- The locals of the matching pass. -/
structure State where
  entries : List Entry
  billing : List Billing
  productive : Finset Nat

def State.init : State := ⟨[], [], ∅⟩

/-- What names an entry: its model and its text. -/
abbrev Key := String × List Char

def Entry.key (e : Entry) : Key := (e.model, e.text)

def Call.key (call : Call) : Key := (call.model, call.text)

section

variable (host : Host)

def meetsMinimum (model : String) (text : List Char) : Bool :=
  decide (host.minCacheable model ≤ host.approxTokens text)

/-- Whether an entry is within the time to live of its last use. -/
def alive (e : Entry) (call : Call) : Bool := decide (host.sub call.ts e.aliveTs ≤ cacheTtlSeconds)

def readable (call : Call) (e : Entry) : Bool :=
  decide (e.model = call.model) && decide (e.text.length ≤ call.text.length) && alive host e call &&
    meetsMinimum host call.model e.text && e.text.isPrefixOf call.text

/-- The entry that a call reads: the first readable one, the longest first. -/
def bestEntry (call : Call) (entries : List Entry) : Option Entry :=
  (entries.insertionSort fun e e' => e'.text.length ≤ e.text.length).find? (readable host call)

def cacheable (call : Call) : Bool := decide (0 < call.text.length) && meetsMinimum host call.model call.text

end

def matchedChars (best : Option Entry) : Nat := (best.map (·.text.length)).getD 0

/-- The tokens that a call reads: the share of its input that the matched characters are. -/
def readTokens (call : Call) (best : Option Entry) : Int :=
  if call.text.length = 0 then 0
  else divHalfEven (call.usage.totalInput * matchedChars best) call.text.length

def remainderTokens (call : Call) (best : Option Entry) : Int := call.usage.totalInput - readTokens call best

/-- Moves the last use of an entry. No two entries have one key. -/
def touch (key : Key) (ts : ℚ) (entries : List Entry) : List Entry :=
  entries.map fun e => if e.key = key then { e with aliveTs := ts } else e

def setWriter (key : Key) (pos : Nat) (entries : List Entry) : List Entry :=
  entries.map fun e => if e.key = key then { e with lastWriter := pos } else e

/-- The entries after a cacheable call has stored its text, and the position of its write. -/
def store (call : Call) (pos : Nat) (best : Option Entry) (entries : List Entry) : List Entry × Option Nat :=
  match entries.find? fun e => decide (e.key = call.key) with
  | some _ =>
    let entries := touch call.key call.ts entries
    if 0 < remainderTokens call best then (setWriter call.key pos entries, some pos) else (entries, none)
  | none =>
    if matchedChars best < call.text.length then
      (entries ++ [⟨call.model, call.text, call.ts, pos⟩], some pos)
    else (entries, none)

/-- The entries once the one that was read has its time refreshed. -/
def refresh (call : Call) (best : Option Entry) (entries : List Entry) : List Entry :=
  match best with
  | some e => touch e.key call.ts entries
  | none => entries

/-- The positions of the writes that paid off, with the writer of the entry that is read. -/
def markProductive (best : Option Entry) (productive : Finset Nat) : Finset Nat :=
  match best with
  | some e => insert e.lastWriter productive
  | none => productive

/-- The matching pass for one call. -/
def replayCall (host : Host) (s : State) (call : Call) : State :=
  let pos := s.billing.length
  let best := bestEntry host call s.entries
  let entries := refresh call best s.entries
  let stored := if cacheable host call then store call pos best entries else (entries, none)
  { entries := stored.1
    billing := s.billing ++
      [⟨readTokens call best, remainderTokens call best, call.usage.outputTokens, cacheable host call, stored.2⟩]
    productive := markProductive best s.productive }

def replayOrder (calls : List Call) : List Call :=
  calls.insertionSort fun a b => a.ts < b.ts ∨ (a.ts = b.ts ∧ a.index ≤ b.index)

def matching (host : Host) (calls : List Call) : State := calls.foldl (replayCall host) State.init

/-- The tokens of one call. -/
structure Split where
  (uncached cacheWrite cacheRead : Int)

/-- The billing pass for one call: the premium is paid for a write that a later call reads. -/
def charge (productive : Finset Nat) (row : Billing) : Split :=
  if row.cacheable = true ∧ ∃ pos ∈ row.writerPos, pos ∈ productive then ⟨0, row.remainder, row.read⟩
  else ⟨row.remainder, 0, row.read⟩

/-- `_replay`: the tokens of each call, in the order of the replay. -/
def replay (host : Host) (calls : List Call) : List Split :=
  let s := matching host (replayOrder calls)
  s.billing.map (charge s.productive)

/-- The token totals of a scenario. -/
structure Tokens where
  (uncached cacheWrite cacheRead totalInput : Int)

/-- `tokens` of the scenario. -/
def tokens (host : Host) (calls : List Call) : Tokens :=
  let splits := replay host calls
  { uncached := (splits.map (·.uncached)).sum
    cacheWrite := (splits.map (·.cacheWrite)).sum
    cacheRead := (splits.map (·.cacheRead)).sum
    totalInput := (splits.map fun s => s.uncached + s.cacheWrite + s.cacheRead).sum }

end TokenBill.Simulator
