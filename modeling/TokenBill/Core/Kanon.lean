import TokenBill.Core.Json
import TokenBill.Core.Labels
import TokenBill.General.Lists
import Mathlib.Data.Nat.Log
import Mathlib.Data.Prod.Lex

/-!
# k-anonymous publication of aggregates

`kanon.publish` of `core/kanon.py`: rows with fewer than `k` users merge inside
their parent group, a merged row still below `k` absorbs the smallest remaining
row of the parent (complementary suppression), and what a group cannot resolve is
resolved one level up; what cannot reach `k` at the top is withheld.

A row carries its dims, a number of users, a number of requests, its usage and its
priced total. The merged row's user count is the largest of its parts.
-/

namespace TokenBill.Kanon

open General

/-! ### Aggregates -/

/-- Row dimensions: names with a value, or none. -/
abbrev Dims : Type := List (String × Option String)

/-- `PricedTotal`. -/
structure PricedTotal where
  exact : Figure
  (estimated allowance : Option Figure)
  (pricedInferences unpricedInferences unpricedTokens : Nat)
  coverage : String
  pool : Option Figure := none
  deriving DecidableEq

/-- `AggRow`. -/
structure AggRow where
  dims : Dims
  (nUsers nRequests : Nat)
  usage : UsageBuckets
  priced : PricedTotal
  deriving DecidableEq

/-- `RawAggregate`: not renderable, it must pass `publish`. -/
structure RawAggregate where
  groupBy : List String
  rows : List AggRow
  window : Int × Int

/-- `PublishedAggregate`. -/
structure PublishedAggregate where
  groupBy : List String
  rows : List AggRow
  window : Int × Int
  (k suppressedRows suppressedUsers : Nat)
  deriving DecidableEq

/-- `AUDIENCES`: the organisation, or one principal's own data. -/
inductive Audience where
  | org | self
  deriving DecidableEq

/-- `PERSON_DIMS`. -/
def personDims : List String := ["principal", "session", "session_key"]

/-- `PERSON_PROXY_DIMS`. -/
def personProxyDims : List String := personDims ++ ["api_key_id", "api_key", "cwd_key"]

/-- `other_label`. -/
def otherLabel (k : Nat) : String := "(other: <" ++ toString k ++ " users)"

/-! ### Value arithmetic for merged rows -/

/-- `n / d` rounded half-even. -/
def divHalfEven (n d : Nat) : Nat :=
  let q := n / d
  let twice := 2 * (n % d)
  if d < twice ∨ (twice = d ∧ q % 2 = 1) then q + 1 else q

def stripZeros : Nat → Nat → Nat × Nat
  | q, 0 => (q, 0)
  | q, places + 1 => if q % 10 = 0 then stripZeros (q / 10) places else (q, places + 1)

/-- `format(value.normalize(), "f")` of `q × 10^(-places)`. -/
def decimalText (q places : Nat) : String :=
  let (q, places) := stripZeros q places
  if places = 0 then toString q
  else
    let digits := (Nat.toDigits 10 q)
    let digits := List.replicate (places + 1 - digits.length) '0' ++ digits
    String.ofList (digits.take (digits.length - places)) ++ "." ++
      String.ofList (digits.drop (digits.length - places))

/-- `ratio(num, den)` as text, for `num ≤ den`: 28 significant digits, half-even. -/
def ratioText (num den : Nat) : String :=
  match (List.range (Nat.log 10 den + 2)).find? fun t => decide (den ≤ num * 10 ^ t) with
  | none => "0"
  | some t => decimalText (divHalfEven (num * 10 ^ (27 + t)) den) (27 + t)

/-- `_add_usage`: two different other-write TTLs keep the shorter one instead of raising. -/
def addUsage (a b : UsageBuckets) : Except Error UsageBuckets :=
  match a.cacheWriteOtherTtlS, b.cacheWriteOtherTtlS with
  | some ta, some tb =>
    if ta ≠ tb then do
      let ttl := min ta tb
      let a ← UsageCounts.build { a.toUsageCounts with cacheWriteOtherTtlS := some ttl }
      let b ← UsageCounts.build { b.toUsageCounts with cacheWriteOtherTtlS := some ttl }
      a.add b
    else a.add b
  | _, _ => a.add b

/-- `_add_opt`. -/
def addOpt (a b : Option Figure) : Except Error (Option Figure) :=
  match a, b with
  | none, b => pure b
  | a, none => pure a
  | some a, some b => some <$> add a b

/-- `_tokens`. -/
def tokens (usage : UsageBuckets) : Nat := usage.totalInput + usage.output

/-- `_coverage`. -/
def coverage (pricedTokens : Int) (allTokens : Nat) : String :=
  if allTokens = 0 then "1" else ratioText pricedTokens.toNat allTokens

/-- `_add_priced`. -/
def addPriced (a b : PricedTotal) (usageA usageB : UsageBuckets) : Except Error PricedTotal := do
  let allTokens := tokens usageA + tokens usageB
  let unpriced := a.unpricedTokens + b.unpricedTokens
  let exact ← add a.exact b.exact
  let estimated ← addOpt a.estimated b.estimated
  let allowance ← addOpt a.allowance b.allowance
  let pool ← addOpt a.pool b.pool
  pure { exact, estimated, allowance, pool
         pricedInferences := a.pricedInferences + b.pricedInferences
         unpricedInferences := a.unpricedInferences + b.unpricedInferences
         unpricedTokens := unpriced
         coverage := coverage (allTokens - unpriced) allTokens }

/-! ### Cells -/

/-- `_Cell`: a row under construction, with the indexes of the raw rows inside it. -/
structure Cell extends AggRow where
  members : List Nat
  deriving DecidableEq

/-- `_merge_dims`: the first cell's dims, a value kept where all cells have it. -/
def mergeDims (first : Dims) (others : List Dims) (label : String) : Dims :=
  first.mapIdx fun i d =>
    (d.1, if others.all (fun o => o[i]? == some d) then d.2 else some label)

/-- The running sums of `_merge_cells`. -/
def mergeValues (usage : UsageBuckets) (priced : PricedTotal) :
    List Cell → Except Error (UsageBuckets × PricedTotal)
  | [] => pure (usage, priced)
  | c :: cells => do
    let priced ← addPriced priced c.priced usage c.usage
    let usage ← addUsage usage c.usage
    mergeValues usage priced cells

/-- `_merge_cells` of a first cell and the others. The user count of the union is bounded
below by the largest part. -/
def mergeCells (c : Cell) (cells : List Cell) (label : String) : Except Error Cell := do
  let (usage, priced) ← mergeValues c.usage c.priced cells
  pure { dims := mergeDims c.dims (cells.map (·.dims)) label
         nUsers := (cells.map (·.nUsers)).foldl max c.nUsers
         nRequests := ((c :: cells).map (·.nRequests)).sum
         usage, priced
         members := ((c :: cells).flatMap (·.members)).insertionSort (· ≤ ·) }

/-- The sort key of one dimension: values first, then missing ones, then the label. -/
def dimKey (label : String) (d : String × Option String) : Nat ×ₗ String ×ₗ String :=
  toLex (if d.2 = some label then 2 else if d.2 = none then 1 else 0, toLex (d.2.getD "", d.1))

/-- `_dims_key`. -/
def dimsKey (dims : Dims) (label : String) : List (Nat ×ₗ String ×ₗ String) :=
  dims.map (dimKey label)

/-- `_value_key`. -/
def valueKey (c : Cell) : Nat ×ₗ Int ×ₗ Nat ×ₗ Nat :=
  toLex (c.nUsers, toLex (c.priced.exact.nano.getD (-1), toLex (c.nRequests, tokens c.usage)))

/-- The order `group = sorted(...)` uses. -/
def dimsLe (label : String) (a b : Cell) : Prop := dimsKey a.dims label ≤ dimsKey b.dims label

instance (label : String) : DecidableRel (dimsLe label) := fun _ _ =>
  inferInstanceAs (Decidable (_ ≤ _))

/-- The order `complement = min(...)` uses. -/
def complementLe (label : String) (a b : Cell) : Bool :=
  decide (toLex (valueKey a, dimsKey a.dims label) ≤ toLex (valueKey b, dimsKey b.dims label))

/-! ### Publishing -/

/-- One parent group of `publish`: the small cells merge, and absorb the smallest big cell
while below `k`. -/
def resolveGroup (k : Nat) (label : String) (cells : List Cell) : Except Error (List Cell) :=
  let group := cells.insertionSort (dimsLe label)
  let big := group.filter fun c => decide (k ≤ c.nUsers)
  match group.filter fun c => decide (c.nUsers < k) with
  | [] => pure group
  | c :: small => do
    let merged ← mergeCells c small label
    if merged.nUsers < k then
      match popMin (complementLe label) big with
      | none => pure [merged]
      | some (complement, big) => do
        let merged ← mergeCells merged [complement] label
        pure (big ++ [merged])
    else pure (big ++ [merged])

/-- `repr` of a string, as the order of the groups reads it (non-ASCII characters are kept). -/
def pyRepr (s : String) : String :=
  let quote := if '\'' ∈ s.toList ∧ '"' ∉ s.toList then '"' else '\''
  let esc : Char → List Char := fun c =>
    if c = '\\' ∨ c = quote then ['\\', c]
    else if c = '\n' then ['\\', 'n'] else if c = '\r' then ['\\', 'r']
    else if c = '\t' then ['\\', 't']
    else if c.toNat < 32 ∨ c.toNat = 127 then
      ['\\', 'x', Json.hexDigit (c.toNat / 16), Json.hexDigit (c.toNat % 16)]
    else [c]
  String.ofList (quote :: s.toList.flatMap esc ++ [quote])

/-- `repr` of a parent key. -/
def reprDims (dims : Dims) : String :=
  let item : String × Option String → String := fun d =>
    "(" ++ pyRepr d.1 ++ ", " ++ (d.2.map pyRepr).getD "None" ++ ")"
  match dims with
  | [d] => "(" ++ item d ++ ",)"
  | dims => "(" ++ ", ".intercalate (dims.map item) ++ ")"

/-- `groups.setdefault(parent(c.dims), []).append(c)` over all cells, the groups in the order
`sorted(groups, key=repr)`. -/
def groupCells (parent : Dims → Dims) (cells : List Cell) : List (List Cell) :=
  let keys := (cells.map fun c => parent c.dims).dedup.insertionSort
    fun a b => reprDims a ≤ reprDims b
  keys.map fun key => cells.filter fun c => decide (parent c.dims = key)

/-- The loop of `publish` over the levels. -/
def resolveLevels (k : Nat) (label : String) : List (Dims → Dims) → List Cell →
    Except Error (List Cell)
  | [], cells => pure cells
  | parent :: levels, cells =>
    if cells.all fun c => decide (k ≤ c.nUsers) then pure cells
    else do
      let next ← (groupCells parent cells).mapM (resolveGroup k label)
      resolveLevels k label levels next.flatten

/-- `_users_unknown_ok`. -/
def usersUnknownOk (groupBy : List String) : Bool := !groupBy.any (· ∈ personProxyDims)

def keptUnknown (groupBy : List String) (r : AggRow) : Bool :=
  usersUnknownOk groupBy && r.nUsers == 0

def rawCells (rows : List AggRow) : List Cell := rows.mapIdx fun i r => ⟨r, [i]⟩

/-- The default `parent_of` at every level: the dims without the last, the last two, … -/
def levelsOf (parentOf : Option (Dims → Dims)) (depth : Nat) : List (Dims → Dims) :=
  match parentOf with
  | some parent => [parent, List.take 0]
  | none => (List.range depth).reverse.map List.take

/-- `publish`. -/
def publish (raw : RawAggregate) (k : Nat) (parentOf : Option (Dims → Dims) := none)
    (audience : Audience := .org) : Except Error PublishedAggregate :=
  if k < 1 then .error (.usage "k-anonymity threshold k must be an int >= 1")
  else if audience = .self then
    pure { groupBy := raw.groupBy, rows := raw.rows, window := raw.window, k
           suppressedRows := 0, suppressedUsers := 0 }
  else do
    let label := otherLabel k
    let kept := (rawCells raw.rows).filter fun c => keptUnknown raw.groupBy c.toAggRow
    let cells := (rawCells raw.rows).filter fun c => !keptUnknown raw.groupBy c.toAggRow
    let depth := if cells = [] then raw.groupBy.length
      else (cells.map (·.dims.length)).foldl max 0
    let cells ← resolveLevels k label (levelsOf parentOf depth) cells
    let published := (cells.filter (fun c => decide (k ≤ c.nUsers)) ++ kept).insertionSort
      (dimsLe label)
    let shown := (published.filter fun c => c.members.length == 1).flatMap (·.members)
    let suppressed := (List.range raw.rows.length).filter (· ∉ shown)
    pure { groupBy := raw.groupBy
           rows := published.map (·.toAggRow)
           window := raw.window, k
           suppressedRows := suppressed.length
           suppressedUsers := (suppressed.map fun i => (raw.rows[i]?.map (·.nUsers)).getD 0).sum }

end TokenBill.Kanon
