import TokenBill.Copilot.RecordStoreRows

/-!
# Counting the people of the Copilot record store

`count_users` of `copilot/record_store.py`: the people of the seats or activity days of a window that
match a clause, and, where the window has none, the people that count rows tell of.
-/

namespace TokenBill.Copilot.Seats

open General

/-! ### Windows -/

/-- The ISO date of a day since 1970-01-01, which may be before it. -/
def isoDay (days : Int) : String :=
  -- days since 0000-03-01, in eras of 400 years and years that end in February
  let z := (days + 719468).toNat
  let era := z / 146097
  let doe := z % 146097
  let yoe := (doe - doe / 1460 + doe / 36524 - doe / 146096) / 365
  let doy := doe - (365 * yoe + yoe / 4 - yoe / 100)
  let mp := (5 * doy + 2) / 153
  let month := if mp < 10 then mp + 3 else mp - 9
  let year := era * 400 + yoe + if month ≤ 2 then 1 else 0
  padded 4 year ++ "-" ++ padded 2 month ++ "-" ++ padded 2 (doy - (153 * mp + 2) / 5 + 1)

/-- `_MIN_MS`. -/
def minMs : Int := -62135596800000

/-- `_MAX_MS`. -/
def maxMs : Int := 253402300799999

/-- `_day_of_ms`. -/
def dayOfMs (ms : Int) : String := isoDay (min (max ms minMs) maxMs / 86400000)

example : [minMs, -1, 0, 1756684800000, maxMs + 1].map dayOfMs =
    ["0001-01-01", "1969-12-31", "1970-01-01", "2025-09-01", "9999-12-31"] := by decide

/-- `_date_range`. -/
def dateRange (lo hi : Int) : Option (String × String) :=
  if hi ≤ lo ∨ hi ≤ minMs ∨ maxMs < lo then none else some (dayOfMs lo, dayOfMs (hi - 1))

/-! ### Clauses -/

/-- `RECORD_WHERE_KEYS`. -/
def recordWhereKeys : List String :=
  ["team", "cost_center", "org", "plan", "bucket", "product", "editor_family", "surface", "date_from", "date_to"]

/-- A clause: the entries of the mapping `where`. -/
abbrev Clause : Type := List (String × String)

/-- `_check_where`. -/
def checkRecordWhere (clause : Clause) : Except Error Unit :=
  let keys := (clause.map (·.1)).insertionSort (· ≤ ·)
  match keys.filter (· ∈ Kanon.personDims), keys.filter (· ∉ recordWhereKeys) with
  | [], [] => .ok ()
  | [], unknown => .error (.usage ("unknown record filter key(s): " ++ ", ".intercalate unknown))
  | person, _ => .error (.privacy ("filtering by " ++ ", ".intercalate person ++ " is not allowed"))

/-- `_dates_ok`. -/
def datesOk (date : String) (clause : Clause) : Bool :=
  ((clause.lookup "date_from").all fun lo => decide (lo ≤ date)) &&
    (clause.lookup "date_to").all fun hi => decide (date ≤ hi)

/-- The columns a clause can name in the table of seats. -/
def licenseColumns (row : LicenseRow) : String → Option (Option String)
  | "team" => some row.team
  | "cost_center" => some row.costCenter
  | "org" => some (some row.org)
  | "plan" => some (some row.plan)
  | "bucket" => some (some row.lastActivityBucket)
  | "product" => some (some row.product)
  | "editor_family" => some row.lastActivitySurface
  | "surface" => some row.lastActivitySurface
  | _ => none

/-- The columns a clause can name in the table of activity days. -/
def activityColumns (row : ActivityRow) : String → Option (Option String)
  | "team" => some row.team
  | "cost_center" => some row.costCenter
  | "product" => some (some row.product)
  | _ => none

/-- One condition of `_filter_sql`. A key without a column selects every row with the empty value, and no row
with another; an absent organisation is stored as an empty one. -/
def matchesEntry (date : String) (columns : String → Option (Option String)) (e : String × String) : Bool :=
  if e.1 = "date_from" then decide (e.2 ≤ date)
  else if e.1 = "date_to" then decide (date ≤ e.2)
  else
    match columns e.1 with
    | none => decide (e.2 = "")
    | some value => if e.2 = "" ∧ e.1 ≠ "org" then value.isNone else decide (value = some e.2)

/-- `_filter_sql`: whether a row matches a clause. -/
def matchesRow (date : String) (columns : String → Option (Option String)) (clause : Clause) : Bool :=
  clause.all (matchesEntry date columns)

/-- `_eq`. -/
def eqOrMissing (actual : Option AttrValue) (wanted : String) : Bool :=
  if wanted = "" then actual = none ∨ actual = some .null else actual = some (.str wanted)

/-- One condition of `_config_match`. -/
def configMatchEntry (c : ConfigSnapshot) (e : String × String) : Bool :=
  if e.1 = "date_from" ∨ e.1 = "date_to" then true
  else if e.1 = "org" then c.entityId == "org:" ++ e.2
  else if e.1 = "cost_center" then c.entityId == "cc:" ++ e.2
  else if e.1 = "product" then e.2 == "github_copilot"
  else if e.1 = "editor_family" ∨ e.1 = "surface" then eqOrMissing (c.attrs.lookup "surface") e.2
  else eqOrMissing (c.attrs.lookup e.1) e.2

/-- `_config_match`. -/
def configMatch (c : ConfigSnapshot) (clause : Clause) : Bool :=
  clause.all (configMatchEntry c) && datesOk (dayOfMs c.snapshotMs) clause

/-! ### Counts -/

/-- The number that up to 18 digits spell. -/
def digitsOf (cs : List Char) : Option Nat :=
  if 1 ≤ cs.length ∧ cs.length ≤ 18 ∧ cs.all Char.isDigit = true then
    some (cs.foldl (fun n c => 10 * n + (c.toNat - '0'.toNat)) 0)
  else none

/-- `_count_of`. -/
def countOfAttr : Option AttrValue → Nat
  | some (.int n) => n.toNat
  | some (.str s) => (digitsOf (stripSpace s.toList)).getD 0
  | _ => 0

def nPeople (c : ConfigSnapshot) : Nat := countOfAttr (c.attrs.lookup "n_people")

/-- `max(..., default=0)`. -/
def maxOf (counts : List Nat) : Nat := counts.foldl max 0

/-- `COUNT(DISTINCT principal)` of each key id, and the largest of them. -/
def countPeople {ρ : Type} (kid principal : ρ → String) (rows : List ρ) : Nat :=
  maxOf ((rows.map kid).dedup.map fun k =>
    ((rows.filter fun r => decide (kid r = k)).map principal).dedup.length)

def datedRows {ρ : Type} (date : ρ → String) (range : String × String) (table : List (String × ρ)) : List ρ :=
  (table.map (·.2)).filter fun r => decide (range.1 ≤ date r ∧ date r ≤ range.2)

/-- `config`: the configurations of a window, by time and natural key. -/
def configRows (t : RecordTables) (lo hi : Int) : Option (List ConfigSnapshot) :=
  if hi ≤ lo then some []
  else
    let lo' := max lo (-(2 ^ 63))
    let hi' := min hi (2 ^ 63 - 1)
    (((t.config.map (·.2)).filter fun r => decide (lo' ≤ r.snapshotMs ∧ r.snapshotMs < hi')).mapM configOf).map
      (·.insertionSort fun c d =>
        (toLex (c.snapshotMs, Handoff.configKey c) : Nat ×ₗ String) ≤ toLex (d.snapshotMs, Handoff.configKey d))

def summaryRows (t : RecordTables) (kind : String) (lo hi : Int) (clause : Clause) : Option (List ConfigSnapshot) :=
  (configRows t lo hi).map (·.filter fun c => decide (c.kind = kind) && configMatch c clause)

def snapshotOf (c : ConfigSnapshot) : String × String := (c.entityId, dayOfMs c.snapshotMs)

/-- The people of the count rows of each entity and day, added up. -/
def perSnapshot (rows : List ConfigSnapshot) : List ((String × String) × Nat) :=
  collect snapshotOf (fun sum c => sum.getD 0 + nPeople c) rows

/-- `_count_from_summaries`. -/
def countFromSummaries (t : RecordTables) (source : String) (clause : Clause) (lo hi : Int) :
    Except Error Nat :=
  if source = "licenses" then
    match summaryRows t "seat_counts" lo hi clause with
    | none => .error (.contract "not a configuration")
    | some rows => .ok (maxOf ((perSnapshot rows).map (·.2)))
  else
    match summaryRows t "activity_counts" lo hi clause with
    | none => .error (.contract "not a configuration")
    | some rows => .ok (maxOf (rows.map nPeople))

/-- Whether the people are counted from the count rows: no row of the source is in the window. -/
def usesSummaries (t : RecordTables) (range : String × String) (source : String) : Bool :=
  if source = "licenses" then (datedRows LicenseRow.snapshotDate range t.licenses).isEmpty
  else (datedRows ActivityRow.dateUtc range t.activity).isEmpty

def matchingLicenses (t : RecordTables) (range : String × String) (clause : Clause) : List LicenseRow :=
  (datedRows LicenseRow.snapshotDate range t.licenses).filter fun r =>
    matchesRow r.snapshotDate (licenseColumns r) clause

def matchingActivity (t : RecordTables) (range : String × String) (clause : Clause) : List ActivityRow :=
  (datedRows ActivityRow.dateUtc range t.activity).filter fun r => matchesRow r.dateUtc (activityColumns r) clause

/-- `count_users`. -/
def countUsers (t : RecordTables) (sinceMs untilMs : Int) (clause : Clause) (source : String) : Except Error Nat := do
  if source ≠ "licenses" ∧ source ≠ "activity" then
    throw (.usage ("unknown record count source " ++ Kanon.pyRepr source ++ " (licenses | activity)"))
  checkRecordWhere clause
  match dateRange sinceMs untilMs with
  | none => pure 0
  | some range =>
    if usesSummaries t range source then countFromSummaries t source clause sinceMs untilMs
    else if source = "licenses" then
      pure (countPeople LicenseRow.principalKeyId LicenseRow.principal (matchingLicenses t range clause))
    else
      pure (countPeople ActivityRow.principalKeyId ActivityRow.principal (matchingActivity t range clause))

end TokenBill.Copilot.Seats
