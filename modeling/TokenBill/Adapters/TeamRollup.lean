import TokenBill.Core.Encode
import TokenBill.Core.Kanon
import TokenBill.General.Tables
import Mathlib.Data.Fintype.Basic

/-!
# People rolled up to teams

`TeamRollup` of `adapters/anthropic_admin.py` with the actors it counts (`actor_refs`,
`ReadContext.team_of`) and `merge_small_groups` of `core/kanon.py`. A record of a person is added to
its date and team, and only the number of distinct actors is kept. At the end of a read the teams
below `k` actors of a date are merged, or dropped where that is still too few. What Python's `str`
knows of Unicode is a parameter.
-/

namespace TokenBill.Admin

open General

/-! ### Records -/

/-- The errors a read can end with. -/
inductive ReadError where
  /-- An error of `core/errors.py` that other modules raise too. -/
  | core (e : Error)
  /-- `SourceError`: a malformed record in a strict read, by its locator and reason. -/
  | source (locator reason : String)

/-- What `str` knows of Unicode. -/
structure Unicode where
  /-- `str.strip`. -/
  strip : String → String
  /-- `str.casefold`. -/
  casefold : String → String

/-- The fields `_ACTOR_REF_KEYS` of an actor, where they are strings. -/
structure Actor where
  emailAddress : Option String := none
  email : Option String := none
  apiKeyName : Option String := none
  userId : Option String := none
  id : Option String := none

/-- The counts of `cc_outcome`, in its order: sessions, commits, pull requests, lines added, lines
removed, edits accepted, edits rejected. -/
abbrev Outcome : Type := Fin 7 → ℕ

/-- The value of an aggregate cell: its usage and its scaled money. -/
structure Cell where
  usage : UsageBuckets
  cost : Int := 0
  nCost : Nat := 0
  listed : Int := 0
  nList : Nat := 0
  deriving DecidableEq

/-- A dictionary of cells by their key. -/
structure Cells where
  entries : List (String × Cell)
  nodup : (entries.map (·.1)).Nodup
  deriving DecidableEq

/-- What is read of a record besides its actor. -/
structure Reading where
  /-- The days since 1970-01-01. -/
  day : Nat
  outcome : Option Outcome
  cells : Cells

/-- A record of a person. -/
structure PersonRecord where
  locator : String
  /-- The actor, where it is an object. -/
  actor : Option Actor
  /-- The other fields, or the reason they are malformed. -/
  reading : Except String Reading

/-- The options of `IngestOptions` a rollup reads. -/
structure Options where
  sinceMs : Option Nat := none
  untilMs : Option Nat := none
  teamMap : List (String × String) := []
  kAnonymity : Nat := 5
  lenient : Bool := true

/-! ### Actors -/

/-- `OTHER_TEAM`. -/
def otherTeam : String := "(other)"

/-- `UNMAPPED_TEAM`. -/
def unmappedTeam : String := "(unmapped)"

/-- The references of an actor in the order of `_ACTOR_REF_KEYS`, without blanks. -/
def Actor.refs (u : Unicode) (a : Actor) : List String :=
  [a.emailAddress, a.email, a.apiKeyName, a.userId, a.id].reduceOption.filterMap fun v =>
    if u.strip v = "" then none else some (u.strip v)

/-- `actor_refs`: the identity a record counts for, and its references. -/
def actorRefs (u : Unicode) (actor : Option Actor) : Except String (String × List String) :=
  match actor with
  | none => .error "missing:actor"
  | some a =>
    match a.refs u with
    | [] => .error "missing:actor"
    | ref :: refs =>
      let identity := match a.userId with
        | none => ref
        | some v => if u.strip v = "" then ref else u.strip v
      .ok (u.casefold identity, ref :: refs)

/-- `_team_map_folded`: of the keys that fold to one text the last in order counts. -/
def foldedTeamMap (u : Unicode) (teamMap : List (String × String)) : List (String × String) :=
  ((teamMap.insertionSort fun a b => a.1 ≤ b.1).map fun e => (u.casefold e.1, e.2)).reverse

/-- `team_of`. -/
def teamOf (u : Unicode) (teamMap : List (String × String)) (refs : List String) : String :=
  (refs.findSome? fun ref =>
    if ref = "" then none
    else (teamMap.lookup ref).or ((foldedTeamMap u teamMap).lookup (u.casefold ref))).getD unmappedTeam

/-- `in_window` of the start of a day. -/
def Options.inWindow (opts : Options) (day : Nat) : Bool :=
  opts.sinceMs.all (fun since => decide (since ≤ day * 86400000)) &&
    opts.untilMs.all fun till => decide (day * 86400000 < till)

/-! ### Adding -/

/-- What a rollup holds of a date and team. -/
structure Group where
  users : List String := []
  outcome : Option Outcome := none
  cells : List (String × Cell) := []
  deriving DecidableEq

/-- The date and team of a group. -/
structure GroupKey where
  day : Nat
  team : String
  deriving DecidableEq

/-- `TeamRollup._days`. -/
abbrev Days : Type := List (GroupKey × Group)

/-- `_add_cell`. -/
def addCell (a b : Cell) : Except String Cell :=
  match a.usage.add b.usage with
  | .error _ => .error "bad_usage"
  | .ok usage => .ok ⟨usage, a.cost + b.cost, a.nCost + b.nCost, a.listed + b.listed, a.nList + b.nList⟩

/-- The outcome counts of a group with those of a record. -/
def addOutcome (held new : Option Outcome) : Except String (Option Outcome) :=
  match new with
  | none => .ok held
  | some new =>
    let sum := held.elim new (· + new)
    if ∃ i, maxTokens < sum i then .error "bad_usage" else .ok (some sum)

/-- An entry that is added: a record's date, team and identity, and what it counts. -/
structure Entry where
  day : Nat
  (team identity : String)
  refs : List String
  outcome : Option Outcome
  cells : Cells
  deriving DecidableEq

def Entry.key (e : Entry) : GroupKey := ⟨e.day, e.team⟩

/-- What `_days` holds under a key. -/
def held (days : Days) (key : GroupKey) : Group := (days.lookup key).getD {}

/-- `TeamRollup.add`. -/
def add (days : Days) (e : Entry) : Except String Days := do
  let group := held days e.key
  let merged ← e.cells.entries.mapM fun c =>
    match group.cells.lookup c.1 with
    | none => .ok c
    | some prev => (fun cell => (c.1, cell)) <$> addCell prev c.2
  let outcome ← addOutcome group.outcome e.outcome
  pure (upsert (·.1) (e.key,
    { users := if e.identity ∈ group.users then group.users else group.users ++ [e.identity]
      outcome
      cells := merged.foldl (fun cells c => upsert (·.1) c cells) group.cells }) days)

/-! ### Reading -/

/-- The entry of a record. -/
def entryOf (u : Unicode) (opts : Options) (r : PersonRecord) : Except String Entry := do
  let (identity, refs) ← actorRefs u r.actor
  let reading ← r.reading
  pure ⟨reading.day, teamOf u opts.teamMap refs, identity, refs, reading.outcome, reading.cells⟩

/-- The state of a read: the rollup, the entries added to it, and the malformed records. -/
structure Read where
  days : Days := []
  accepted : List Entry := []
  quarantined : List (String × String) := []
  deriving DecidableEq

/-- `ReadContext.quarantine`: the first malformed record ends a strict read. -/
def quarantine (opts : Options) (quarantined : List (String × String)) (locator reason : String) :
    Except ReadError (List (String × String)) :=
  if opts.lenient then .ok (quarantined ++ [(locator, reason)]) else .error (.source locator reason)

/-- One record of a person: quarantined, outside the window, or added. -/
def readRecord (u : Unicode) (opts : Options) (s : Read) (r : PersonRecord) : Except ReadError Read :=
  match entryOf u opts r with
  | .error reason => (fun q => { s with quarantined := q }) <$> quarantine opts s.quarantined r.locator reason
  | .ok e =>
    if opts.inWindow e.day then
      match add s.days e with
      | .error reason => (fun q => { s with quarantined := q }) <$> quarantine opts s.quarantined r.locator reason
      | .ok days => .ok { s with days, accepted := s.accepted ++ [e] }
    else .ok s

def readAll (u : Unicode) (opts : Options) (file : List PersonRecord) : Except ReadError Read :=
  file.foldlM (readRecord u opts) {}

/-! ### Merging small groups -/

/-- A row of `merge_small_groups`: a label, the number of users, and what is added up. -/
abbrev Row (α : Type) : Type := String × Nat × α

def combineAll {α : Type} (combine : α → α → Except Error α) : List α → Except Error (Option α)
  | [] => .ok none
  | p :: ps => some <$> ps.foldlM combine p

/-- A group of `k` users that is not the other row already. -/
def isBigRow {α : Type} (k : Nat) (otherLabel : String) (r : Row α) : Bool :=
  decide (k ≤ r.2.1 ∧ r.1 ≠ otherLabel)

/-- A group of `k` users, added to one of the same label. -/
def addBig {α : Type} (combine : α → α → Except Error α) (big : List (Row α)) (r : Row α) :
    Except Error (List (Row α)) :=
  match big.lookup r.1 with
  | none => .ok (upsert (·.1) r big)
  | some prev => (fun p => upsert (·.1) (r.1, prev.1 + r.2.1, p) big) <$> combine prev.2 r.2.2

/-- `merge_small_groups`: the rows afterwards and the number of dropped groups. -/
def mergeSmallGroups {α : Type} (combine : α → α → Except Error α) (k : Nat) (otherLabel : String)
    (rows : List (Row α)) : Except Error (List (Row α) × Nat) :=
  if k = 0 then .error (.usage "k-anonymity threshold k must be an int >= 1")
  else do
    let big ← (rows.filter (isBigRow k otherLabel)).foldlM (addBig combine) []
    let small := rows.filter fun r => !isBigRow k otherLabel r
    let total := (small.map (·.2.1)).sum
    let out := big.insertionSort fun a b => a.1 ≤ b.1
    -- without a small group the total is below `k`
    if k ≤ total then do
      let payload ← combineAll combine (small.map (·.2.2))
      pure (out ++ payload.toList.map fun p => (otherLabel, total, p), 0)
    else pure (out, small.length)

/-! ### Payloads -/

/-- A payload of `_payload_rows`: how many groups have an outcome, their counts, and their cells. -/
structure Payload where
  has : Nat
  outcome : Outcome
  cells : List (String × Cell)

def Group.payload (g : Group) : Payload := ⟨if g.outcome.isSome then 1 else 0, g.outcome.getD 0, g.cells⟩

/-- `_combine_payload` of two cells. -/
def combineCell (a b : Cell) : Except Error Cell := do
  let usage ← Kanon.addUsage a.usage b.usage
  pure ⟨usage, a.cost + b.cost, a.nCost + b.nCost, a.listed + b.listed, a.nList + b.nList⟩

/-- `_combine_payload` of what two dictionaries hold under a key. -/
def combineKey (a b : List (String × Cell)) (key : String) : Except Error (String × Cell) :=
  match a.lookup key, b.lookup key with
  | some x, some y => (fun cell => (key, cell)) <$> combineCell x y
  | some x, none => .ok (key, x)
  | none, some y => .ok (key, y)
  | none, none => .error (.usage "merge_small_groups: payloads must support addition")

/-- `_combine_payload` of two dictionaries: the keys of both in order. -/
def combineCells (a b : List (String × Cell)) : Except Error (List (String × Cell)) :=
  (((a ++ b).map (·.1)).dedup.insertionSort (· ≤ ·)).mapM (combineKey a b)

/-- `_combine_payload`. -/
def combinePayload (a b : Payload) : Except Error Payload := do
  let cells ← combineCells a.cells b.cells
  pure ⟨a.has + b.has, a.outcome + b.outcome, cells⟩

/-! ### The end of a read -/

/-- A group handed to `emit`. -/
structure Emitted where
  day : Nat
  team : String
  nUsers : Nat
  outcome : Option Outcome
  cells : List (String × Cell)
  deriving DecidableEq

/-- What `flush` does with one date. -/
structure DayResult where
  emitted : List Emitted
  (dropped usersDropped : Nat)
  quarantined : List (String × String)
  deriving DecidableEq

/-- The groups of a date by team, as `flush` sorts them. -/
def dayRows (days : Days) (day : Nat) : List (Row Payload) :=
  ((days.filter fun e => decide (e.1.day = day)).insertionSort fun a b => a.1.team ≤ b.1.team).map fun e =>
    (e.1.team, e.2.users.length, e.2.payload)

/-- The merge of a date where the merged row is out of range: the small groups are dropped. -/
def dropSmall (opts : Options) (day : Nat) (rows : List (Row Payload)) :
    Except ReadError (List (Row Payload) × Nat × List (String × String)) := do
  let quarantined ← quarantine opts [] ("rollup:" ++ isoDate day) "bad_usage"
  let big := rows.filter (isBigRow opts.kAnonymity otherTeam)
  match mergeSmallGroups combinePayload opts.kAnonymity otherTeam big with
  | .error e => .error (.core e)
  | .ok merged => .ok (merged.1, rows.length - big.length, quarantined)

/-- `TeamRollup._merge`. -/
def mergeDay (opts : Options) (day : Nat) (rows : List (Row Payload)) :
    Except ReadError (List (Row Payload) × Nat × List (String × String)) :=
  match mergeSmallGroups combinePayload opts.kAnonymity otherTeam rows with
  | .error (.contract _) => dropSmall opts day rows
  | .error e => .error (.core e)
  | .ok merged =>
    if merged.1.any fun r => decide (r.1 = otherTeam ∧ ∃ i, maxTokens < r.2.2.outcome i) then
      dropSmall opts day rows
    else .ok (merged.1, merged.2, [])

def emittedOf (day : Nat) (r : Row Payload) : Emitted :=
  ⟨day, r.1, r.2.1, if r.2.2.has = 0 then none else some r.2.2.outcome, r.2.2.cells⟩

/-- `flush` of one date. -/
def flushDay (opts : Options) (days : Days) (day : Nat) : Except ReadError DayResult := do
  let rows := dayRows days day
  let (merged, dropped, quarantined) ← mergeDay opts day rows
  let small := rows.filter fun r => decide (r.2.1 < opts.kAnonymity ∨ r.1 = otherTeam)
  pure { emitted := merged.map (emittedOf day), dropped, quarantined
         usersDropped := if dropped = 0 then 0 else (small.map (·.2.1)).sum }

/-- `TeamRollup.flush`: what happens on each date, in order. -/
def flush (opts : Options) (days : Days) : Except ReadError (List DayResult) :=
  ((days.map (·.1.day)).dedup.insertionSort (· ≤ ·)).mapM (flushDay opts days)

end TokenBill.Admin
