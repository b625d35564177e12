import TokenBill.Core.DecimalText
import TokenBill.Core.PyJson
import TokenBill.Core.Records
import TokenBill.General.Templates

/-!
# Timestamps

The two readers of ISO 8601 timestamps: `parse_ts_ms` of the Claude Code adapter, with its fast path for the
common form and the days it remembers, and `parse_iso_ms` of the other adapters. What a regular expression
captures is a part of the text; the expressions read from left to right without ever having to go back.
-/

namespace TokenBill.Timestamps

open General

/-! ### What the expressions capture -/

/-- `\d`: a digit of any script. -/
def anyDigit (c : Char) : Bool := (asciiDigit c).isDigit

/-- `int` of a run of digits. -/
def intOf (digits : List Char) : Nat := Decimal.ofDigits (digits.map asciiDigit)

/-- The captures of a timestamp. -/
structure Groups where
  (year month day : List Char)
  hour : Option (List Char) := none
  minute : Option (List Char) := none
  second : Option (List Char) := none
  frac : Option (List Char) := none
  tz : Option (List Char) := none

section Shapes

variable (digit : Char → Bool)

/-- `(\d{4})-(\d{2})-(\d{2})`. -/
def dateShape : Template := [digit, digit, digit, digit, only '-', digit, digit, only '-', digit, digit]

/-- A separator and `(\d{2}):(\d{2})`. -/
def timeShape (sep : Char → Bool) : Template := [sep, digit, digit, only ':', digit, digit]

/-- `:(\d{2})`. -/
def secondShape : Template := [only ':', digit, digit]

/-- `(?:[.,](\d{1,n}))?`: the digits captured, if there is one, and what follows. -/
def takeFraction (most : Nat) : List Char → Option (List Char) × List Char
  | c :: cs =>
    let digits := (cs.takeWhile digit).take most
    if (c = '.' ∨ c = ',') ∧ digits ≠ [] then (some digits, cs.drop digits.length) else (none, c :: cs)
  | [] => (none, [])

/-- `(?::?\d{2})?` after the hours of an offset. -/
def takeOffsetMinutes (cs : List Char) : List Char × List Char :=
  match takeShape [only ':', digit, digit] cs with
  | some r => r
  | none => (takeShape [digit, digit] cs).getD ([], cs)

/-- `(Z|z|[+-]\d{2}(?::?\d{2})?)?`: the zone captured, if there is one, and what follows. -/
def takeZone (cs : List Char) : Option (List Char) × List Char :=
  match takeShape [fun c => c = 'Z' || c = 'z'] cs with
  | some (tz, rest) => (some tz, rest)
  | none =>
    match takeShape [fun c => c = '+' || c = '-', digit, digit] cs with
    | some (hours, rest) =>
      let (minutes, rest) := takeOffsetMinutes digit rest
      (some (hours ++ minutes), rest)
    | none => (none, cs)

end Shapes

/-- The captures of a date. -/
def dateGroups (date : List Char) : Groups where
  year := slice 0 4 date
  month := slice 5 7 date
  day := slice 8 10 date

/-! ### `parse_ts_ms` -/

/-- The first 19 characters of `_TS_RE`. -/
def tsHead (sep : Char → Bool) : Template :=
  dateShape Char.isDigit ++ (timeShape Char.isDigit sep ++ secondShape Char.isDigit)

/-- `_TS_RE.match`. -/
def tsMatch (cs : List Char) : Option Groups :=
  match takeShape (tsHead fun c => c = 'T' || c = ' ') cs with
  | none => none
  | some (head, rest) =>
    let (frac, rest) := takeFraction Char.isDigit 9 rest
    let (tz, rest) := takeZone Char.isDigit rest
    if rest = [] then
      some { dateGroups head with
        hour := some (slice 11 13 head), minute := some (slice 14 16 head), second := some (slice 17 19 head), frac, tz }
    else none

/-- `_DAYS_IN_MONTH`, and a day more in a leap year. -/
def daysInMonth (y m : Int) : Int :=
  ([31, 28, 31, 30, 31, 30, 31, 31, 30, 31, 30, 31].getD (m - 1).toNat 0) +
    if m = 2 ∧ y % 4 = 0 ∧ (y % 100 ≠ 0 ∨ y % 400 = 0) then 1 else 0

/-- `_valid_date`. -/
def validDate (y m d : Int) : Bool := decide (1 ≤ m ∧ m ≤ 12 ∧ 1 ≤ d ∧ d ≤ daysInMonth y m)

/-- `_days_from_civil`. -/
def daysFromCivil (y m d : Int) : Int :=
  let y := y - if m ≤ 2 then 1 else 0
  let era := y / 400
  let yoe := y - era * 400
  let doy := (153 * (m + if 2 < m then -3 else 9) + 2) / 5 + d - 1
  let doe := yoe * 365 + yoe / 4 - yoe / 100 + doy
  era * 146097 + doe - 719468

/-- The days of a date, if it is in the calendar. -/
def civilDays (date : List Char) : Option Int :=
  let g := dateGroups date
  if validDate (intOf g.year) (intOf g.month) (intOf g.day) then
    some (daysFromCivil (intOf g.year) (intOf g.month) (intOf g.day))
  else none

/-- `_DAYS`: the days of some dates. -/
structure DayMemo where
  entries : List (List Char × Int)
  sound : ∀ e ∈ entries, civilDays e.1 = some e.2

def DayMemo.empty : DayMemo := ⟨[], fun _ h => absurd h List.not_mem_nil⟩

/-- A date with its days, unless there are too many. -/
def DayMemo.add (memo : DayMemo) (date : List Char) (days : Int) (h : civilDays date = some days) : DayMemo where
  entries := if memo.entries.length < 100000 then (date, days) :: memo.entries else memo.entries
  sound := fun e he => by
    split at he
    · rcases List.mem_cons.mp he with rfl | he
      · exact h
      · exact memo.sound e he
    · exact memo.sound e he

/-- The days of a date by the memo, and the memo after it. -/
def DayMemo.days (memo : DayMemo) (date : List Char) : Option Int × DayMemo :=
  match memo.entries.lookup date with
  | some days => (some days, memo)
  | none =>
    match h : civilDays date with
    | none => (none, memo)
    | some days => (some days, memo.add date days h)

def inRange (total : Int) : Option Int := if 0 ≤ total ∧ total ≤ maxTokens then some total else none

/-- `_TS_FAST`. -/
def tsFast : Template := tsHead (only 'T') ++ [only '.', Char.isDigit, Char.isDigit, Char.isDigit, only 'Z']

/-- The fast path of `parse_ts_ms`, for a text that `_TS_FAST` matches. -/
def fastTsMs (memo : DayMemo) (cs : List Char) : Option Int × DayMemo :=
  match memo.days (slice 0 10 cs) with
  | (none, memo) => (none, memo)
  | (some days, memo) =>
    let hh := intOf (slice 11 13 cs)
    let mm := intOf (slice 14 16 cs)
    let ss := intOf (slice 17 19 cs)
    let ms := intOf (slice 20 23 cs)
    if 24 ≤ hh ∨ 60 ≤ mm ∨ 61 ≤ ss then (none, memo)
    else (inRange (((days * 24 + hh) * 60 + mm) * 60000 + ss * 1000 + ms), memo)

def millis (frac : List Char) : Nat := intOf ((frac ++ ['0', '0']).take 3)

/-- The minutes of an offset: hours, and minutes where there are digits enough. -/
def offsetMin (hasMinutes : Nat → Bool) (tz : Option (List Char)) : Int :=
  match tz with
  | none => 0
  | some [] => 0
  | some (c :: cs) =>
    if c :: cs = ['Z'] ∨ c :: cs = ['z'] then 0
    else
      let digits := cs.filter (· ≠ ':')
      (if c = '-' then -1 else 1) *
        (intOf (digits.take 2) * 60 + if hasMinutes digits.length then intOf (slice 2 4 digits) else 0)

/-- The path of `parse_ts_ms` through the regular expression. -/
def slowTsMs (cs : List Char) : Option Int :=
  match tsMatch cs with
  | none => none
  | some g =>
    let y : Int := intOf g.year
    let mo : Int := intOf g.month
    let d : Int := intOf g.day
    let hh := intOf (g.hour.getD [])
    let mm := intOf (g.minute.getD [])
    let ss := intOf (g.second.getD [])
    if validDate y mo d ∧ hh < 24 ∧ mm < 60 ∧ ss < 61 then
      let ms := (g.frac.map millis).getD 0
      inRange (((daysFromCivil y mo d * 24 + hh) * 60 + mm - offsetMin (2 < ·) g.tz) * 60000 + ss * 1000 + ms)
    else none

/-- `parse_ts_ms` of a text. -/
def parseTsText (memo : DayMemo) (value : String) : Option Int × DayMemo :=
  let cs := value.toList
  if 19 ≤ cs.length ∧ cs.length ≤ 40 then
    if fits tsFast cs then fastTsMs memo cs else (slowTsMs cs, memo)
  else (none, memo)

/-- `parse_ts_ms`. -/
def parseTsMs (memo : DayMemo) : PyJson String → Option Int × DayMemo
  | .int n => (inRange n, memo)
  | .str value => parseTsText memo value
  | _ => (none, memo)

/-! ### `parse_iso_ms` -/

/-- `(?:[Tt ](\d{2}):(\d{2})(?::(\d{2})(?:[.,](\d{1,12}))?)?)?`: the captures added to those of the date, and
what follows. -/
def isoTime (g : Groups) (cs : List Char) : Groups × List Char :=
  match takeShape (timeShape anyDigit fun c => c = 'T' || c = 't' || c = ' ') cs with
  | none => (g, cs)
  | some (time, rest) =>
    let g := { g with hour := some (slice 1 3 time), minute := some (slice 4 6 time) }
    match takeShape (secondShape anyDigit) rest with
    | none => (g, rest)
    | some (second, rest) =>
      let (frac, rest) := takeFraction anyDigit 12 rest
      ({ g with second := some (slice 1 3 second), frac }, rest)

/-- `_ISO_RE.match`. -/
def isoMatch (cs : List Char) : Option Groups :=
  match takeShape (dateShape anyDigit) (cs.dropWhile isPySpace) with
  | none => none
  | some (date, rest) =>
    let (g, rest) := isoTime (dateGroups date) rest
    let (tz, rest) := takeZone anyDigit (rest.dropWhile isPySpace)
    if rest.dropWhile isPySpace = [] then some { g with tz } else none

/-- `datetime.date(y, m, 1).toordinal() - _EPOCH_ORD`, as `calendar.timegm` counts days before a month. -/
def monthOrdinal (y m : Int) : Int :=
  let before := y - 1
  let days := ([0, 0, 31, 59, 90, 120, 151, 181, 212, 243, 273, 304, 334].getD m.toNat 0 : Int)
  let leap : Int := if 2 < m ∧ y % 4 = 0 ∧ (y % 100 ≠ 0 ∨ y % 400 = 0) then 1 else 0
  before * 365 + before / 4 - before / 100 + before / 400 + days + leap + 1 - 719163

/-- `calendar.timegm`: a day beyond the month is one of the next month. -/
def timegm (y m d hh mm ss : Int) : Int := (((monthOrdinal y m + d - 1) * 24 + hh) * 60 + mm) * 60 + ss

/-- `(m.group(7) or "0")[:3].ljust(3, "0")`. -/
def isoMillis (frac : Option (List Char)) : Nat :=
  let digits := (frac.getD ['0']).take 3
  intOf (digits ++ List.replicate (3 - digits.length) '0')

/-- The range checks of `parse_iso_ms`. -/
def isoChecks (g : Groups) : Bool :=
  decide (1 ≤ intOf g.month ∧ intOf g.month ≤ 12 ∧ 1 ≤ intOf g.day ∧ intOf g.day ≤ 31 ∧
    (g.hour.map intOf).getD 0 ≤ 23 ∧ (g.minute.map intOf).getD 0 ≤ 59 ∧ (g.second.map intOf).getD 0 ≤ 60 ∧
    1970 ≤ intOf g.year)

/-- `parse_iso_ms` of a text. -/
def parseIsoText (value : String) : Option Int :=
  let cs := value.toList
  if 64 < cs.length then none
  else
    match isoMatch cs with
    | none => none
    | some g =>
      if isoChecks g then
        inRange (timegm (intOf g.year) (intOf g.month) (intOf g.day) ((g.hour.map intOf).getD 0)
          ((g.minute.map intOf).getD 0) ((g.second.map intOf).getD 0) * 1000 + isoMillis g.frac -
          offsetMin (4 ≤ ·) g.tz * 60000)
      else none

/-- `parse_iso_ms`. -/
def parseIsoMs : PyJson String → Option Int
  | .str value => parseIsoText value
  | _ => none

end TokenBill.Timestamps
