import TokenBill.Core.DecimalText
import TokenBill.General.Ranks
import TokenBill.Verify.Panel

/-!
# The month-end forecast

`core/pool.py`, `forecast`: the days of a month up to the report lag are observed, every later day
adds a nearest-rank percentile of the observed days of its class, business days or weekend days. A
date is its number of days since 1970-01-01.
-/

namespace TokenBill.Pool

open General

/-- What ends a run: an error of the program, or an exception of the host. -/
inductive Stop where
  | core (e : Error)
  /-- `IndexError`. -/
  | index
  /-- `decimal.Inexact`. -/
  | inexact

/-- `raise UsageError(msg)`. -/
def usage {α : Type} (msg : String) : Except Stop α := .error (.core (.usage msg))

/-! ### Dates -/

/-- `\d` of the host. -/
def isAnyDigit (c : Char) : Bool := (asciiDigit c).isDigit

/-- `_MONTH_RE`. -/
def isMonthText (text : String) : Bool :=
  match text.toList with
  | [y1, y2, y3, y4, '-', m1, m2] =>
    [y1, y2, y3, y4].all isAnyDigit &&
      decide (m1 = '0' ∧ '1' ≤ m2 ∧ m2 ≤ '9' ∨ m1 = '1' ∧ '0' ≤ m2 ∧ m2 ≤ '2')
  | _ => false

/-- `_month_bounds`: the first and the last day of a month. -/
def monthBounds (month what : String) : Except Stop (Int × Int) :=
  if isMonthText month then
    let year := Decimal.ofDigits ((month.toList.take 4).map asciiDigit)
    let mon := Decimal.ofDigits (month.toList.drop 5)
    if year < 1 then usage (what ++ ": year out of range")
    else .ok (Verify.dayNumber year mon 1, Verify.dayNumber year mon (Verify.daysInMonth year mon))
  else usage (what ++ ": expected a YYYY-MM string")

/-- `_DATE_RE`. -/
def isDateText (text : String) : Bool :=
  match text.toList with
  | [y1, y2, y3, y4, '-', m1, m2, '-', d1, d2] => [y1, y2, y3, y4, m1, m2, d1, d2].all isAnyDigit
  | _ => false

/-- `_parse_date`. -/
def parseDate (value what : String) : Except Stop Int :=
  if isDateText value then
    match Verify.parseDate value with
    | some day => .ok day
    | none => usage (what ++ ": not a calendar date")
  else usage (what ++ ": expected a YYYY-MM-DD string")

def firstDate : Int := -719162

/-- `_days_before`. -/
def daysBefore (day days : Int) : Except Stop Int :=
  if day - days < firstDate then usage "today: too early for the report lag" else .ok (day - days)

/-- `_lag`. -/
def checkLag (lagDays : Int) : Except Stop Int :=
  if lagDays < 0 then usage "lag_days: expected a non-negative int" else .ok lagDays

/-- `date.weekday() < 5`: Monday to Friday. -/
def isBusiness (day : Int) : Bool := (day + 3) % 7 < 5

def daysOf (first last : Int) : List Int := (List.range (last - first + 1).toNat).map fun i : Nat => first + i

theorem mem_daysOf {first last day : Int} : day ∈ daysOf first last ↔ first ≤ day ∧ day ≤ last := by
  unfold daysOf
  rw [List.mem_map]
  constructor
  · rintro ⟨i, hi, rfl⟩
    rw [List.mem_range] at hi
    omega
  · rintro ⟨h1, h2⟩
    exact ⟨(day - first).toNat, List.mem_range.mpr (by omega), by omega⟩

theorem nodup_daysOf (first last : Int) : (daysOf first last).Nodup := by
  refine List.Nodup.map (fun i j h => ?_) List.nodup_range
  have : first + (i : Int) = first + j := h
  omega

/-! ### Levels -/

/-- An amount at the low end, the point and the high end. -/
structure Levels where
  (low point high : Int)

instance : Zero Levels := ⟨⟨0, 0, 0⟩⟩

instance : Add Levels := ⟨fun a b => ⟨a.low + b.low, a.point + b.point, a.high + b.high⟩⟩

/-- The point lies between the ends. -/
structure Levels.Ordered (l : Levels) : Prop where
  low_le : l.low ≤ l.point
  le_high : l.point ≤ l.high

theorem Levels.Ordered.add {a b : Levels} (ha : a.Ordered) (hb : b.Ordered) : (a + b).Ordered :=
  ⟨Int.add_le_add ha.low_le hb.low_le, Int.add_le_add ha.le_high hb.le_high⟩

theorem Levels.Ordered.foldl {ls : List Levels} {start : Levels} (h0 : start.Ordered)
    (h : ∀ l ∈ ls, l.Ordered) : (ls.foldl (· + ·) start).Ordered := by
  induction ls generalizing start with
  | nil => exact h0
  | cons l ls ih =>
    exact ih (h0.add (h l List.mem_cons_self)) fun m hm => h m (List.mem_cons_of_mem _ hm)

theorem Levels.low_foldl {ls : List Levels} {start : Levels} (h0 : 0 ≤ start.low) (h : ∀ l ∈ ls, 0 ≤ l.low) :
    0 ≤ (ls.foldl (· + ·) start).low := by
  induction ls generalizing start with
  | nil => exact h0
  | cons l ls ih =>
    exact ih (Int.add_nonneg h0 (h l List.mem_cons_self)) fun m hm => h m (List.mem_cons_of_mem _ hm)

/-! ### Percentiles -/

/-- The position of the percentile of `num` tenths in a series of `n` values. -/
def rankIndex (num n : Nat) : Int := ((num * n + 9) / 10 : Nat) - 1

theorem rankIndex_bounds {num n : Nat} (hnum : 1 ≤ num) (hten : num ≤ 10) (hn : 0 < n) :
    0 ≤ rankIndex num n ∧ rankIndex num n < n := by
  unfold rankIndex
  have h1 : n ≤ num * n := Nat.le_mul_of_pos_left n hnum
  have h2 : num * n ≤ 10 * n := Nat.mul_le_mul_right n hten
  omega

theorem rankIndex_mono {num num' : Nat} (h : num ≤ num') (n : Nat) : rankIndex num n ≤ rankIndex num' n := by
  unfold rankIndex
  have := Nat.mul_le_mul_right n h
  omega

/-- `_rank_value`. -/
def rankValue (values : List Int) (num : Nat) : Except Stop Int :=
  match ranked values (rankIndex num values.length) with
  | some v => .ok v
  | none => .error .index

/-- The percentiles a day adds: p10, p50 and p90. -/
def stats (values : List Int) : Except Stop Levels := do
  return ⟨← rankValue values 1, ← rankValue values 5, ← rankValue values 9⟩

/-- A series with a value has the three percentiles, in order, and each is a value of it. -/
theorem stats_eq {values : List Int} (h : values ≠ []) : ∃ l, stats values = .ok l ∧ l.Ordered ∧ l.low ∈ values := by
  have hpos := List.length_pos_iff.mpr h
  have hvalue : ∀ num, 1 ≤ num → num ≤ 10 → ∃ v, ranked values (rankIndex num values.length) = some v ∧
      v ∈ values ∧ rankValue values num = .ok v := by
    intro num h1 h10
    have hb := rankIndex_bounds h1 h10 hpos
    obtain ⟨v, hv, hmem⟩ := ranked_eq hb.1 hb.2
    exact ⟨v, hv, hmem, by rw [rankValue, hv]⟩
  obtain ⟨a, ha, hmem, hra⟩ := hvalue 1 (by decide) (by decide)
  obtain ⟨b, hb, -, hrb⟩ := hvalue 5 (by decide) (by decide)
  obtain ⟨c, hc, -, hrc⟩ := hvalue 9 (by decide) (by decide)
  have h0 : ∀ num, 1 ≤ num → num ≤ 10 → 0 ≤ rankIndex num values.length := fun num h1 h10 =>
    (rankIndex_bounds h1 h10 hpos).1
  refine ⟨⟨a, b, c⟩, ?_, ⟨?_, ?_⟩, hmem⟩
  · rw [stats, hra, hrb, hrc]
    rfl
  · exact ranked_mono (h0 1 (by decide) (by decide)) (rankIndex_mono (by decide) _) ha hb
  · exact ranked_mono (h0 5 (by decide) (by decide)) (rankIndex_mono (by decide) _) hb hc

/-! ### The forecast -/

/-- The month-end amounts: what is observed, and the levels of the whole month. -/
structure Forecast extends Levels where
  observed : Int

/-- `xs[-n:]`. -/
def lastOf {α : Type} (n : Nat) (xs : List α) : List α := xs.drop (xs.length - n)

/-- `a or b`. -/
def orList {α : Type} (a b : List α) : List α := if a.isEmpty then b else a

def sample (byDay : Int → Int) (observed : List Int) (business : Bool) : List Int :=
  lastOf (if business then 10 else 4) ((observed.filter fun d => isBusiness d = business).map byDay)

/-- `forecast` of a month whose amounts by day are known. -/
def forecastOf (byDay : Int → Int) (first last cutoff : Int) : Except Stop (Option Forecast) :=
  let days := daysOf first last
  let observed := days.filter (· ≤ cutoff)
  if observed = [] then .ok none
  else do
    let total := (observed.map byDay).sum
    let remaining := days.filter (cutoff < ·)
    let business := sample byDay observed true
    let weekend := sample byDay observed false
    let statsB ← stats (orList business weekend)
    let statsW ← stats (orList weekend business)
    let add := (remaining.map fun d => if isBusiness d then statsB else statsW).foldl (· + ·) 0
    return some { observed := total, low := total + add.low, point := total + add.point, high := total + add.high }

/-- The amount of a day: the sum of its rows. -/
def amountOn (rows : List (Int × Int)) (day : Int) : Int := ((rows.filter fun r => r.1 = day).map (·.2)).sum

def readDaily (daily : List (String × Int)) : Except Stop (List (Int × Int)) :=
  daily.mapM fun r => do return (← parseDate r.1 "daily date", r.2)

/-- `forecast`. -/
def forecast (daily : List (String × Int)) (month today : String) (lagDays : Int) :
    Except Stop (Option Forecast) := do
  let (first, last) ← monthBounds month "month"
  let cutoff ← daysBefore (← parseDate today "today") (← checkLag lagDays)
  let rows ← readDaily daily
  forecastOf (amountOn (rows.filter fun r => first ≤ r.1 ∧ r.1 ≤ last)) first last cutoff

end TokenBill.Pool
