import TokenBill.Adapters.Timestamps
import Mathlib.Data.List.Induction
import Mathlib.Data.List.TakeWhile

/-!
# The readers of timestamps compared

A text that the Claude Code adapter's expression matches is matched by that of the other adapters, with the
same captures, and the days of a date of the calendar are counted alike. What is left is the calendar: a day
that a month does not have is refused by one reader and taken for a day of the next month by the other, and
years before 1970 are refused by the other reader whatever the offset.
-/

namespace TokenBill.Timestamps

open General List

/-! ### Days -/

def yearDays (y : Int) : Int := y * 365 + y / 4 - y / 100 + y / 400

def leapDay (y : Int) : Int := if y % 4 = 0 ∧ (y % 100 ≠ 0 ∨ y % 400 = 0) then 1 else 0

theorem yearDays_eq (y : Int) : yearDays y = yearDays (y - 1) + 365 + leapDay y := by
  unfold yearDays leapDay
  split <;> omega

variable {y m d : Int} {c : Char} {cs rest : List Char} {tz frac : Option (List Char)} {g : Groups} {value : String}

theorem yearDays_early (hy : y < 1970) : yearDays (y - 1) + 365 + leapDay y ≤ 719162 := by
  rw [← yearDays_eq]
  unfold yearDays
  omega

theorem leapDay_bounds (y : Int) : 0 ≤ leapDay y ∧ leapDay y ≤ 1 := by
  unfold leapDay
  split <;> decide

theorem eraDays_eq (y : Int) : y / 400 * 146097 +
    ((y - y / 400 * 400) * 365 + (y - y / 400 * 400) / 4 - (y - y / 400 * 400) / 100) = yearDays y := by
  unfold yearDays
  omega

theorem daysFromCivil_eq_yearDays (y m d : Int) : daysFromCivil y m d =
    yearDays (y - if m ≤ 2 then 1 else 0) + ((153 * (m + if 2 < m then -3 else 9) + 2) / 5 + d - 1) - 719468 := by
  rw [← eraDays_eq]
  unfold daysFromCivil
  dsimp only
  omega

def monthDays (m : Int) : Int := [0, 0, 31, 59, 90, 120, 151, 181, 212, 243, 273, 304, 334].getD m.toNat 0

theorem monthOrdinal_eq_yearDays (y m : Int) : monthOrdinal y m =
    yearDays (y - 1) + monthDays m + (if 2 < m then leapDay y else 0) - 719162 := by
  have hleap : (if 2 < m then leapDay y else 0) =
      if 2 < m ∧ y % 4 = 0 ∧ (y % 100 ≠ 0 ∨ y % 400 = 0) then 1 else 0 := by
    unfold leapDay
    split <;> simp_all
  rw [hleap]
  unfold monthOrdinal yearDays monthDays
  dsimp only
  omega

theorem month_cases (h1 : 1 ≤ m) (h12 : m ≤ 12) :
    m = 1 ∨ m = 2 ∨ m = 3 ∨ m = 4 ∨ m = 5 ∨ m = 6 ∨ m = 7 ∨ m = 8 ∨ m = 9 ∨ m = 10 ∨ m = 11 ∨ m = 12 := by
  omega

/-- The days since the epoch, counted by eras and counted by `timegm`. -/
theorem daysFromCivil_eq (h1 : 1 ≤ m) (h12 : m ≤ 12) : daysFromCivil y m d = monthOrdinal y m + d - 1 := by
  have hyear := yearDays_eq y
  rw [daysFromCivil_eq_yearDays, monthOrdinal_eq_yearDays]
  rcases month_cases h1 h12 with rfl | rfl | rfl | rfl | rfl | rfl | rfl | rfl | rfl | rfl | rfl | rfl
  all_goals
    simp [monthDays]
    omega

theorem validDate_iff : validDate y m d = true ↔ 1 ≤ m ∧ m ≤ 12 ∧ 1 ≤ d ∧ d ≤ daysInMonth y m := decide_eq_true_iff

theorem daysInMonth_le (h1 : 1 ≤ m) (h12 : m ≤ 12) : daysInMonth y m ≤ 31 := by
  unfold daysInMonth
  rcases month_cases h1 h12 with rfl | rfl | rfl | rfl | rfl | rfl | rfl | rfl | rfl | rfl | rfl | rfl
  all_goals
    simp
  split <;> omega

/-- January has 31 days, so a day of the month that is missing is in a later one. -/
theorem two_le_of_invalid (h1 : 1 ≤ m) (h12 : m ≤ 12) (hd : 1 ≤ d) (hd' : d ≤ 31)
    (h : validDate y m d = false) : 2 ≤ m := by
  by_contra hm
  obtain rfl : m = 1 := by omega
  have hjan : daysInMonth y 1 = 31 := by simp [daysInMonth]
  rw [validDate_iff.mpr ⟨h1, h12, hd, hjan ▸ hd'⟩] at h
  cases h

theorem monthDays_bounds (h2 : 2 ≤ m) (h12 : m ≤ 12) : 31 ≤ monthDays m ∧ monthDays m ≤ 334 := by
  rcases month_cases (by omega) h12 with rfl | rfl | rfl | rfl | rfl | rfl | rfl | rfl | rfl | rfl | rfl | rfl
  all_goals
    first
    | omega
    | decide

theorem monthOrdinal_bounds (hy : 1970 ≤ y) (hy' : y ≤ 9999) (h2 : 2 ≤ m) (h12 : m ≤ 12) :
    31 ≤ monthOrdinal y m ∧ monthOrdinal y m ≤ 3000000 := by
  have hmonth := monthDays_bounds h2 h12
  have hleap := leapDay_bounds y
  have hyear : 719162 ≤ yearDays (y - 1) ∧ yearDays (y - 1) ≤ 3700000 := by
    unfold yearDays
    omega
  rw [monthOrdinal_eq_yearDays]
  split <;> omega

theorem monthDays_valid (hvalid : validDate y m d = true) :
    monthDays m + (if 2 < m then leapDay y else 0) + d ≤ 365 + leapDay y := by
  obtain ⟨h1, h12, -, hdm⟩ := validDate_iff.mp hvalid
  have hleap := leapDay_bounds y
  have hdays : daysInMonth y m = [31, 28, 31, 30, 31, 30, 31, 31, 30, 31, 30, 31].getD (m - 1).toNat 0 +
      if m = 2 then leapDay y else 0 := by
    unfold daysInMonth leapDay
    split <;> simp_all
  rw [hdays] at hdm
  unfold monthDays
  rcases month_cases h1 h12 with rfl | rfl | rfl | rfl | rfl | rfl | rfl | rfl | rfl | rfl | rfl | rfl
  all_goals
    simp at hdm ⊢
    omega

/-- Days before 1970 are negative. -/
theorem monthOrdinal_neg (hy : y < 1970) (hvalid : validDate y m d = true) : monthOrdinal y m + d - 1 < 0 := by
  have hyear := yearDays_early hy
  have hday := monthDays_valid hvalid
  rw [monthOrdinal_eq_yearDays]
  omega

/-! ### Digits -/

theorem anyDigit_digit (h : c.isDigit) : anyDigit c := by
  unfold anyDigit
  rw [(plain_digit h).2.2]
  exact h

theorem zoneStart_no_digit (h : c = 'Z' ∨ c = 'z' ∨ c = '+' ∨ c = '-') :
    anyDigit c = false ∧ isPySpace c = false ∧ c ≠ '.' ∧ c ≠ ',' := by
  rcases h with rfl | rfl | rfl | rfl
  all_goals decide

theorem asciiDigit_isDigit (h : anyDigit c) : ∃ n < 10, asciiDigit c = n.digitChar := eq_digitChar h

theorem intOf_append_digit (cs : List Char) {n : Nat} (hn : n < 10) (hc : asciiDigit c = n.digitChar) :
    intOf (cs ++ [c]) = 10 * intOf cs + n := by
  unfold intOf Decimal.ofDigits
  rw [map_append, Nat.ofDigitChars_append, map_singleton, hc, Nat.ofDigitChars_cons_digitChar_of_lt_ten hn,
    Nat.ofDigitChars_nil]

theorem intOf_lt {digits : List Char} (h : ∀ c ∈ digits, anyDigit c) : intOf digits < 10 ^ digits.length := by
  induction digits using List.reverseRecOn with
  | nil => decide
  | append_singleton cs c ih =>
    obtain ⟨n, hn, hdigit⟩ := asciiDigit_isDigit (h c (mem_append_right _ (mem_singleton_self c)))
    have hlt := ih fun c hc => h c (mem_append_left _ hc)
    rw [intOf_append_digit cs hn hdigit, length_append, length_singleton, pow_succ]
    omega

/-! ### Zones and fractions -/

theorem wider_digit : Wider Char.isDigit anyDigit := fun _ => anyDigit_digit

theorem wider_self (p : Char → Bool) : Wider p p := fun _ h => h

/-- A zone that ends a text starts it, or the text is empty. -/
theorem zoneStart {digit : Char → Bool} (h : takeZone digit cs = (tz, [])) :
    cs = [] ∨ ∃ c rest, cs = c :: rest ∧ (c = 'Z' ∨ c = 'z' ∨ c = '+' ∨ c = '-') := by
  unfold takeZone at h
  split at h
  · rename_i z rest hz
    obtain ⟨hfits, rfl⟩ := takeShape_eq_some hz
    obtain ⟨c, more, rfl, hc, -⟩ := fits_cons hfits
    simp only [Bool.or_eq_true, decide_eq_true_eq] at hc
    exact .inr ⟨c, more ++ rest, rfl, hc.elim .inl fun h => .inr (.inl h)⟩
  · split at h
    · rename_i hours rest hh
      obtain ⟨hfits, rfl⟩ := takeShape_eq_some hh
      obtain ⟨c, more, rfl, hc, -⟩ := fits_cons hfits
      simp only [Bool.or_eq_true, decide_eq_true_eq] at hc
      exact .inr ⟨c, more ++ rest, rfl, .inr (.inr hc)⟩
    · exact .inl (Prod.mk.inj h).2

/-- The minutes of an offset that end a text are read alike. -/
theorem takeOffsetMinutes_wider {minutes : List Char} (h : takeOffsetMinutes Char.isDigit cs = (minutes, [])) :
    takeOffsetMinutes anyDigit cs = (minutes, []) := by
  unfold takeOffsetMinutes at h ⊢
  cases hcolon : takeShape [only ':', Char.isDigit, Char.isDigit] cs with
  | some r =>
    rw [hcolon] at h
    rw [takeShape_wider (.cons (wider_self _) (.cons wider_digit (.cons wider_digit .nil))) hcolon]
    exact h
  | none =>
    rw [hcolon] at h
    cases hplain : takeShape [Char.isDigit, Char.isDigit] cs with
    | some r =>
      obtain ⟨hfits, hcs⟩ := takeShape_eq_some hplain
      rw [hplain] at h
      have hnone : takeShape [only ':', anyDigit, anyDigit] cs = none := by
        obtain ⟨c, more, hr, hc, -⟩ := fits_cons hfits
        rw [hcs, hr]
        exact takeShape_none _ (decide_eq_false fun heq => by rw [heq] at hc; exact absurd hc (by decide))
      rw [hnone, takeShape_wider (.cons wider_digit (.cons wider_digit .nil)) hplain]
      exact h
    | none =>
      rw [hplain] at h
      obtain ⟨rfl, rfl⟩ := Prod.mk.inj h
      rw [takeShape_nil, takeShape_nil]
      rfl

theorem takeZone_wider (h : takeZone Char.isDigit cs = (tz, [])) : takeZone anyDigit cs = (tz, []) := by
  unfold takeZone at h ⊢
  cases hz : takeShape [fun c => c = 'Z' || c = 'z'] cs with
  | some r =>
    rw [hz] at h
    exact h
  | none =>
    rw [hz] at h
    cases hh : takeShape [fun c => c = '+' || c = '-', Char.isDigit, Char.isDigit] cs with
    | some r =>
      rw [hh] at h
      obtain ⟨htz, hrest⟩ := Prod.mk.inj h
      have hm : takeOffsetMinutes Char.isDigit r.2 = ((takeOffsetMinutes Char.isDigit r.2).1, []) := Prod.ext rfl hrest
      rw [takeShape_wider (.cons (wider_self _) (.cons wider_digit (.cons wider_digit .nil))) hh]
      dsimp only
      rw [takeOffsetMinutes_wider hm]
      exact Prod.ext htz rfl
    | none =>
      rw [hh] at h
      obtain ⟨rfl, rfl⟩ := Prod.mk.inj h
      rw [takeShape_nil]

/-- A fraction before a zone that ends the text is read alike. -/
theorem takeFraction_wider
    (h : takeFraction Char.isDigit 9 cs = (frac, rest)) (hzone : takeZone Char.isDigit rest = (tz, [])) :
    takeFraction anyDigit 12 cs = (frac, rest) := by
  cases cs with
  | nil => exact h
  | cons c cs =>
    unfold takeFraction at h ⊢
    dsimp only at h ⊢
    -- no digit starts what follows, so the digits are those of either class
    have hstart : ∀ {ds : List Char}, cs = ds ++ rest → (∀ d ∈ ds, d.isDigit) → cs.takeWhile anyDigit = ds := by
      intro ds hds hdigits
      rw [hds, takeWhile_append_of_pos fun d hd => anyDigit_digit (hdigits d hd)]
      rcases zoneStart hzone with rfl | ⟨z, more, rfl, hz⟩
      · simp
      · rw [takeWhile_cons_of_neg (by rw [(zoneStart_no_digit hz).1]; exact Bool.false_ne_true), append_nil]
    split at h
    · rename_i hc
      obtain ⟨rfl, hrest⟩ := Prod.mk.inj h
      have hprefix : (cs.takeWhile Char.isDigit).take 9 <+: cs :=
        ( take_prefix _ _).trans ( takeWhile_prefix _)
      have hds : cs = (cs.takeWhile Char.isDigit).take 9 ++ rest := by
        rw [← hrest]
        exact (prefix_iff_eq_append.mp hprefix).symm
      have hsame := hstart hds fun d hd => mem_takeWhile_imp (mem_of_mem_take hd)
      have hlen : ((cs.takeWhile Char.isDigit).take 9).length ≤ 12 :=
        (length_take_le _ _).trans (by decide)
      rw [hsame, take_of_length_le hlen, if_pos hc, hrest]
    · obtain ⟨rfl, rfl⟩ := Prod.mk.inj h
      rcases zoneStart hzone with hnil | ⟨z, more, heq, hz⟩
      · cases hnil
      · obtain ⟨rfl, -⟩ := List.cons.inj heq
        have hno := zoneStart_no_digit hz
        rw [if_neg]
        rintro ⟨hp | hp, -⟩
        · exact hno.2.2.1 hp
        · exact hno.2.2.2 hp

/-! ### The expressions -/

/-- The three parts of the first 19 characters. -/
theorem tsHead_parts {sep : Char → Bool} {head : List Char} (h : fits (tsHead sep) head) :
    ∃ date time second, head = date ++ (time ++ second) ∧ fits (dateShape Char.isDigit) date ∧
      fits (timeShape Char.isDigit sep) time ∧ fits (secondShape Char.isDigit) second := by
  obtain ⟨hdate, hrest⟩ := fits_split h
  obtain ⟨htime, hsecond⟩ := fits_split hrest
  exact ⟨_, _, _, by rw [take_append_drop, take_append_drop], hdate, htime, hsecond⟩

/-- The captures at fixed positions are those of the parts. -/
theorem slices_parts {date time : List Char} (second : List Char) (hdate : date.length = 10) (htime : time.length = 6) :
    dateGroups (date ++ (time ++ second)) = dateGroups date ∧
      slice 11 13 (date ++ (time ++ second)) = slice 1 3 (time) ∧
      slice 14 16 (date ++ (time ++ second)) = slice 4 6 time ∧
      slice 17 19 (date ++ (time ++ second)) = slice 1 3 second := by
  refine ⟨?_, ?_, ?_, ?_⟩
  · unfold dateGroups
    rw [slice_append_left (by omega), slice_append_left (by omega), slice_append_left (by omega)]
  · rw [slice_append_right hdate 1 3, slice_append_left (by omega)]
  · rw [slice_append_right hdate 4 6, slice_append_left (by omega)]
  · rw [slice_append_right hdate 7 9, slice_append_right htime 1 3]

theorem dateShape_wider : List.Forall₂ Wider (dateShape Char.isDigit) (dateShape anyDigit) := by
  repeat' first
    | exact .nil
    | refine .cons wider_digit ?_
    | refine .cons (wider_self _) ?_

theorem secondShape_wider : List.Forall₂ Wider (secondShape Char.isDigit) (secondShape anyDigit) :=
  .cons (wider_self _) (.cons wider_digit (.cons wider_digit .nil))

theorem timeShape_wider {p q : Char → Bool} (h : Wider p q) :
    List.Forall₂ Wider (timeShape Char.isDigit p) (timeShape anyDigit q) :=
  .cons h (.cons wider_digit (.cons wider_digit (.cons (wider_self _) (.cons wider_digit (.cons wider_digit .nil)))))

/-- What `_TS_RE` matches, `_ISO_RE` matches with the same captures. -/
theorem isoMatch_of_tsMatch (h : tsMatch cs = some g) : isoMatch cs = some g := by
  unfold tsMatch at h
  split at h
  · cases h
  rename_i head tail hhead
  obtain ⟨hfits, hcs⟩ := takeShape_eq_some hhead
  obtain ⟨date, time, second, rfl, hdate, htime, hsecond⟩ := tsHead_parts hfits
  generalize hfrac : takeFraction Char.isDigit 9 tail = fr at h
  obtain ⟨frac, rest⟩ := fr
  dsimp only at h
  generalize hzone : takeZone Char.isDigit rest = zr at h
  obtain ⟨tz, last⟩ := zr
  split at h
  · rename_i hlast
    subst hlast
    obtain rfl := Option.some.inj h
    obtain ⟨hg, hhour, hminute, hsec⟩ := slices_parts second (fits_length hdate) (fits_length htime)
    have hseps : Wider (fun c => decide (c = 'T') || decide (c = ' '))
        fun c => decide (c = 'T') || decide (c = 't') || decide (c = ' ') := fun c hc => by
      simp only [Bool.or_eq_true, decide_eq_true_eq] at hc ⊢
      exact hc.elim (fun h => .inl (.inl h)) .inr
    have hspace : cs.dropWhile isPySpace = cs := by
      obtain ⟨c, more, hc, hdigit, -⟩ := fits_cons hdate
      rw [hcs, hc, cons_append, cons_append, dropWhile_cons_of_neg]
      rw [(plain_digit hdigit).1]
      exact Bool.false_ne_true
    have hzoneSpace : rest.dropWhile isPySpace = rest := by
      rcases zoneStart hzone with rfl | ⟨c, more, rfl, hc⟩
      · rfl
      · rw [dropWhile_cons_of_neg]
        rw [(zoneStart_no_digit hc).2.1]
        exact Bool.false_ne_true
    have htimeIso := takeShape_append (fits_wider (timeShape_wider hseps) htime) (second ++ tail)
    have hsecondIso := takeShape_append (fits_wider secondShape_wider hsecond) tail
    have htimeGroups : isoTime (dateGroups date) (time ++ (second ++ tail)) =
        ({ dateGroups date with
            hour := some (slice 1 3 time), minute := some (slice 4 6 time), second := some (slice 1 3 second), frac },
          rest) := by
      unfold isoTime
      rw [htimeIso]
      dsimp only
      rw [hsecondIso]
      dsimp only
      rw [takeFraction_wider hfrac hzone]
    unfold isoMatch
    rw [hspace, hcs, append_assoc, append_assoc, takeShape_append (fits_wider dateShape_wider hdate)]
    dsimp only
    rw [htimeGroups]
    rw [hzoneSpace, takeZone_wider hzone, hg, hhour, hminute, hsec]
    rfl
  · cases h

/-! ### Fields -/

/-- The minutes of an offset: nothing, or two digits that may follow a colon. -/
theorem takeOffsetMinutes_eq {digit : Char → Bool} (cs : List Char) : (takeOffsetMinutes digit cs).1 = [] ∨
    ∃ a b, digit a ∧ digit b ∧
      ((takeOffsetMinutes digit cs).1 = [':', a, b] ∨ (takeOffsetMinutes digit cs).1 = [a, b]) := by
  unfold takeOffsetMinutes
  split
  · rename_i m hm
    obtain ⟨x, more, hx, hcol, hmore⟩ := fits_cons (takeShape_eq_some hm).1
    obtain ⟨a, more, rfl, ha, hmore⟩ := fits_cons hmore
    obtain ⟨b, more, rfl, hb, hmore⟩ := fits_cons hmore
    obtain rfl : more = [] := eq_nil_of_length_eq_zero (fits_length hmore)
    obtain rfl : x = ':' := of_decide_eq_true hcol
    exact .inr ⟨a, b, ha, hb, .inl hx⟩
  · cases hplain : takeShape [digit, digit] cs with
    | none => exact .inl rfl
    | some m =>
      obtain ⟨a, more, hx, ha, hmore⟩ := fits_cons (takeShape_eq_some hplain).1
      obtain ⟨b, more, rfl, hb, hmore⟩ := fits_cons hmore
      obtain rfl : more = [] := eq_nil_of_length_eq_zero (fits_length hmore)
      exact .inr ⟨a, b, ha, hb, .inr hx⟩

section Offsets

variable {digit : Char → Bool} (hcolon : digit ':' = false)
include hcolon

theorem filter_digits {ds : List Char} (h : ∀ c ∈ ds, digit c) : ds.filter (· ≠ ':') = ds :=
  filter_eq_self.mpr fun c hc => decide_eq_true fun heq => by
    have hdigit := h c hc
    rw [heq, hcolon] at hdigit
    cases hdigit

theorem length_offsetMinutes (cs : List Char) : ((takeOffsetMinutes digit cs).1.filter (· ≠ ':')).length = 0 ∨
    ((takeOffsetMinutes digit cs).1.filter (· ≠ ':')).length = 2 := by
  rcases @takeOffsetMinutes_eq digit cs with h | ⟨a, b, ha, hb, h⟩
  · exact .inl (by rw [h]; rfl)
  · refine .inr ?_
    rcases h with h | h <;> rw [h]
    · rw [filter_cons_of_neg (by decide), filter_digits hcolon (by simp [ha, hb])]
      rfl
    · rw [filter_digits hcolon (by simp [ha, hb])]
      rfl

theorem offsetMin_eq {cs rest : List Char} {tz : Option (List Char)} (h : takeZone digit cs = (tz, rest)) :
    offsetMin (2 < ·) tz = offsetMin (4 ≤ ·) tz := by
  unfold takeZone at h
  split at h
  · rename_i z r hz
    obtain ⟨rfl, -⟩ := Prod.mk.inj h
    obtain ⟨c, more, rfl, hc, hmore⟩ := fits_cons (takeShape_eq_some hz).1
    obtain rfl : more = [] := eq_nil_of_length_eq_zero (fits_length hmore)
    simp only [Bool.or_eq_true, decide_eq_true_eq] at hc
    rcases hc with rfl | rfl <;> rfl
  · split at h
    · rename_i hours r hh
      have hminutes := length_offsetMinutes hcolon r
      generalize takeOffsetMinutes digit r = minutes at h hminutes
      obtain ⟨rfl, -⟩ := Prod.mk.inj h
      obtain ⟨c, more, rfl, -, hmore⟩ := fits_cons (takeShape_eq_some hh).1
      obtain ⟨d, more, rfl, hd, hmore⟩ := fits_cons hmore
      obtain ⟨e, more, rfl, he, hmore⟩ := fits_cons hmore
      obtain rfl : more = [] := eq_nil_of_length_eq_zero (fits_length hmore)
      have hlen : ((d :: e :: minutes.1).filter (· ≠ ':')).length = 2 + (minutes.1.filter (· ≠ ':')).length := by
        rw [show d :: e :: minutes.1 = [d, e] ++ minutes.1 from rfl, filter_append,
          filter_digits hcolon (by simp [hd, he]), length_append]
        rfl
      unfold offsetMin
      simp only [cons_append, nil_append]
      rw [hlen]
      rcases hminutes with hm | hm <;> rw [hm] <;> rfl
    · obtain ⟨rfl, -⟩ := Prod.mk.inj h
      rfl

end Offsets

/-- Three digits of a fraction, filled up with zeros either way. -/
theorem millis_eq (h : frac ≠ some []) : (frac.map millis).getD 0 = isoMillis frac := by
  cases frac with
  | none => rfl
  | some f =>
    match f with
    | [] => exact absurd rfl h
    | [a] => rfl
    | [a, b] => rfl
    | a :: b :: c :: rest => rfl

theorem takeFraction_ne_nil {digit : Char → Bool} {most : Nat}
    (h : takeFraction digit most cs = (frac, rest)) : frac ≠ some [] := by
  rintro rfl
  unfold takeFraction at h
  split at h
  · dsimp only at h
    split at h
    · rename_i hc
      exact hc.2 (Option.some.inj (Prod.mk.inj h).1)
    · cases h
  · cases h

/-! ### The instant -/

def Groups.dateExists (g : Groups) : Bool := validDate (intOf g.year) (intOf g.month) (intOf g.day)

def Groups.timeExists (g : Groups) : Bool :=
  decide ((g.hour.map intOf).getD 0 < 24 ∧ (g.minute.map intOf).getD 0 < 60 ∧ (g.second.map intOf).getD 0 < 61)

/-- The milliseconds from the epoch to the time that is named, by the calendar and the offset. -/
def Groups.instant (g : Groups) : Int :=
  timegm (intOf g.year) (intOf g.month) (intOf g.day) ((g.hour.map intOf).getD 0) ((g.minute.map intOf).getD 0)
    ((g.second.map intOf).getD 0) * 1000 + isoMillis g.frac - offsetMin (4 ≤ ·) g.tz * 60000

/-- What `_TS_RE` captures. -/
theorem tsMatch_spec (h : tsMatch cs = some g) :
    g.hour.isSome ∧ g.minute.isSome ∧ g.second.isSome ∧ g.frac ≠ some [] ∧
      offsetMin (2 < ·) g.tz = offsetMin (4 ≤ ·) g.tz := by
  unfold tsMatch at h
  split at h
  · cases h
  dsimp only at h
  split at h
  · obtain rfl := Option.some.inj h
    exact ⟨rfl, rfl, rfl, takeFraction_ne_nil rfl, offsetMin_eq (by decide) rfl⟩
  · cases h

theorem slowTsMs_eq (h : tsMatch cs = some g) :
    slowTsMs cs = if g.dateExists ∧ g.timeExists then inRange g.instant else none := by
  obtain ⟨hhour, hminute, hsecond, hfrac, hoffset⟩ := tsMatch_spec h
  obtain ⟨hour, hhour⟩ := Option.isSome_iff_exists.mp hhour
  obtain ⟨minute, hminute⟩ := Option.isSome_iff_exists.mp hminute
  obtain ⟨second, hsecond⟩ := Option.isSome_iff_exists.mp hsecond
  unfold slowTsMs
  rw [h]
  dsimp only
  have htime : g.timeExists = true ↔ intOf hour < 24 ∧ intOf minute < 60 ∧ intOf second < 61 := by
    unfold Groups.timeExists
    rw [hhour, hminute, hsecond]
    exact decide_eq_true_iff
  rw [hhour, hminute, hsecond, Option.getD_some, Option.getD_some, Option.getD_some, millis_eq hfrac, hoffset]
  unfold Groups.dateExists
  by_cases hvalid : validDate (intOf g.year) (intOf g.month) (intOf g.day) = true
  · obtain ⟨h1, h12, -⟩ := validDate_iff.mp hvalid
    rw [daysFromCivil_eq h1 h12]
    refine if_congr (by rw [htime]) ?_ rfl
    unfold Groups.instant timegm
    rw [hhour, hminute, hsecond, Option.map_some, Option.map_some, Option.map_some, Option.getD_some,
      Option.getD_some, Option.getD_some]
    congr 1
    ring
  · rw [if_neg fun hc => hvalid hc.1, if_neg fun hc => hvalid hc.1]

theorem parseIsoText_eq (h : isoMatch value.toList = some g) :
    parseIsoText value = if value.toList.length ≤ 64 ∧ isoChecks g then inRange g.instant else none := by
  unfold parseIsoText
  dsimp only
  rw [h]
  by_cases hlen : 64 < value.toList.length
  · rw [if_pos hlen, if_neg fun hc => absurd hc.1 (by omega)]
  · rw [if_neg hlen]
    refine if_congr ?_ rfl rfl
    exact ⟨fun hc => ⟨by omega, hc⟩, fun hc => hc.2⟩

/-! ### The fast path -/

theorem days_fst (memo : DayMemo) (date : List Char) : (memo.days date).1 = civilDays date := by
  unfold DayMemo.days
  split
  · rename_i days hlookup
    obtain ⟨l, r, hentries, -⟩ := List.lookup_eq_some_iff.mp hlookup
    exact (memo.sound (date, days) (by rw [hentries]; simp)).symm
  · split
    · rename_i hnone
      exact hnone.symm
    · rename_i days hdays
      exact hdays.symm

/-- A text of the common form through the expression: its parts, with the milliseconds for a fraction. -/
theorem tsMatch_fast (h : fits tsFast cs) :
    tsMatch cs = some { dateGroups (slice 0 10 cs) with
      hour := some (slice 11 13 cs), minute := some (slice 14 16 cs), second := some (slice 17 19 cs)
      frac := some (slice 20 23 cs), tz := some ['Z'] } := by
  obtain ⟨hhead, htail⟩ := fits_split h
  have hlen : (tsHead (only 'T')).length = 19 := rfl
  rw [hlen] at hhead htail
  have hcs : cs.take 19 ++ cs.drop 19 = cs := take_append_drop 19 cs
  generalize cs.take 19 = head at hhead hcs
  generalize cs.drop 19 = tail at htail hcs
  subst hcs
  obtain ⟨p, more, rfl, hp, hmore⟩ := fits_cons htail
  obtain ⟨a, more, rfl, ha, hmore⟩ := fits_cons hmore
  obtain ⟨b, more, rfl, hb, hmore⟩ := fits_cons hmore
  obtain ⟨c, more, rfl, hc, hmore⟩ := fits_cons hmore
  obtain ⟨z, more, rfl, hz, hmore⟩ := fits_cons hmore
  obtain rfl : more = [] := eq_nil_of_length_eq_zero (fits_length hmore)
  obtain rfl : p = '.' := of_decide_eq_true hp
  obtain rfl : z = 'Z' := of_decide_eq_true hz
  have hheadLen : head.length = 19 := fits_length hhead
  have hfrac : takeFraction Char.isDigit 9 ['.', a, b, c, 'Z'] = (some [a, b, c], ['Z']) := by
    have hrun : ['.', a, b, c, 'Z'].tail.takeWhile Char.isDigit = [a, b, c] := by
      simp [ha, hb, hc]
    unfold takeFraction
    dsimp only
    rw [show [a, b, c, 'Z'].takeWhile Char.isDigit = [a, b, c] from hrun]
    rfl
  have hwide : fits (tsHead fun c => c = 'T' || c = ' ') head := by
    refine fits_wider ?_ hhead
    have hsep : Wider (only 'T') fun c => c = 'T' || c = ' ' := fun c hc => by
      simp only [Bool.or_eq_true, decide_eq_true_eq]
      exact .inl (of_decide_eq_true hc)
    repeat' first
      | exact .nil
      | refine .cons (wider_self _) ?_
      | refine .cons hsep ?_
  have hmid : slice 20 23 (head ++ ['.', a, b, c, 'Z']) = [a, b, c] := by
    rw [slice_append_right hheadLen 1 4]
    rfl
  have hdate : dateGroups (slice 0 10 head) = dateGroups head := by
    unfold dateGroups
    unfold slice
    rw [drop_zero, drop_zero, take_take, take_take, take_take]
    rfl
  unfold tsMatch
  rw [takeShape_append hwide]
  dsimp only
  rw [hfrac]
  rw [show takeZone Char.isDigit ['Z'] = (some ['Z'], []) from rfl, hmid, slice_append_left (by omega),
    slice_append_left (by omega), slice_append_left (by omega), slice_append_left (by omega), hdate]
  rfl

theorem fastTsMs_eq (memo : DayMemo) (h : fits tsFast cs) : (fastTsMs memo cs).1 = slowTsMs cs := by
  have hmatch := tsMatch_fast h
  have hmillis : millis (slice 20 23 cs) = intOf (slice 20 23 cs) := by
    have hlen : (slice 20 23 cs).length = 3 := by
      rw [length_slice, fits_length h]
      rfl
    unfold millis
    rw [take_left' hlen]
  have hdays := days_fst memo (slice 0 10 cs)
  unfold fastTsMs slowTsMs
  rw [hmatch]
  dsimp only [Option.getD_some, Option.map_some]
  rw [hmillis]
  generalize memo.days (slice 0 10 cs) = looked at hdays
  obtain ⟨known, memo'⟩ := looked
  unfold civilDays at hdays
  dsimp only at hdays
  split at hdays
  · rename_i hvalid
    subst hdays
    dsimp only
    by_cases htime : 24 ≤ intOf (slice 11 13 cs) ∨ 60 ≤ intOf (slice 14 16 cs) ∨ 61 ≤ intOf (slice 17 19 cs)
    · rw [if_pos htime, if_neg (by omega)]
    · rw [if_neg htime, if_pos ⟨hvalid, by omega⟩]
      rw [show offsetMin (2 < ·) (some ['Z']) = 0 from rfl, Int.sub_zero]
  · rename_i hvalid
    subst hdays
    rw [if_neg fun hc => hvalid hc.1]

/-! ### Lengths -/

theorem length_takeFraction (digit : Char → Bool) (most : Nat) (cs : List Char) :
    cs.length ≤ (takeFraction digit most cs).2.length + (most + 1) := by
  cases cs with
  | nil => exact Nat.zero_le _
  | cons c cs =>
    have hmost := length_take_le most (cs.takeWhile digit)
    unfold takeFraction
    dsimp only
    split
    · rw [length_drop, length_cons]
      omega
    · exact Nat.le_add_right _ _

theorem length_takeOffsetMinutes (digit : Char → Bool) (cs : List Char) :
    cs.length ≤ (takeOffsetMinutes digit cs).2.length + 3 := by
  unfold takeOffsetMinutes
  split
  · rename_i m hm
    rw [takeShape_length hm, Nat.add_comm]
    rfl
  · cases hplain : takeShape [digit, digit] cs with
    | none => exact Nat.le_add_right _ _
    | some m =>
      have hlen := takeShape_length hplain
      simp only [length_cons, length_nil] at hlen
      rw [Option.getD_some]
      omega

theorem length_takeZone (digit : Char → Bool) (cs : List Char) : cs.length ≤ (takeZone digit cs).2.length + 6 := by
  unfold takeZone
  split
  · rename_i z r hz
    have hlen := takeShape_length hz
    simp only [length_cons, length_nil] at hlen ⊢
    omega
  · split
    · rename_i hours r hh
      have hlen := takeShape_length hh
      have hminutes := length_takeOffsetMinutes digit r
      simp only [length_cons, length_nil] at hlen ⊢
      omega
    · exact Nat.le_add_right _ _

/-- A text that the expression matches has the length that `parse_ts_ms` asks for. -/
theorem length_of_tsMatch (h : tsMatch cs = some g) : 19 ≤ cs.length ∧ cs.length ≤ 40 := by
  unfold tsMatch at h
  split at h
  · cases h
  rename_i head tail hhead
  have hlen : cs.length = 19 + tail.length := takeShape_length hhead
  have hfrac := length_takeFraction Char.isDigit 9 tail
  have hzone := length_takeZone Char.isDigit (takeFraction Char.isDigit 9 tail).2
  dsimp only at h
  split at h
  · rename_i hrest
    rw [hrest] at hzone
    simp only [length_nil] at hzone
    omega
  · cases h

/-! ### The readers -/

/-- What `parse_ts_ms` returns for a text that its expression matches. -/
theorem parseTsText_eq (memo : DayMemo) (h : tsMatch value.toList = some g) :
    (parseTsText memo value).1 = if g.dateExists ∧ g.timeExists then inRange g.instant else none := by
  unfold parseTsText
  rw [if_pos (length_of_tsMatch h)]
  split
  · rw [fastTsMs_eq memo ‹_›, slowTsMs_eq h]
  · exact slowTsMs_eq h

/-- `parse_ts_ms` refuses a text that its expression does not match. -/
theorem parseTsText_none (memo : DayMemo) (h : tsMatch value.toList = none) : (parseTsText memo value).1 = none := by
  unfold parseTsText
  dsimp only
  split
  · split
    · rw [fastTsMs_eq memo ‹_›, slowTsMs, h]
    · rw [slowTsMs, h]
  · rfl

/-! ### Bounds -/

theorem mem_takeFraction {digit : Char → Bool} {most : Nat} {f : List Char} (h : (takeFraction digit most cs).1 = some f)
    (hc : c ∈ f) : digit c := by
  cases cs with
  | nil => cases h
  | cons p cs =>
    unfold takeFraction at h
    dsimp only at h
    split at h
    · obtain rfl := Option.some.inj h
      exact mem_takeWhile_imp (mem_of_mem_take hc)
    · cases h

theorem isoTime_spec (date cs : List Char) : (isoTime (dateGroups date) cs).1.year = (dateGroups date).year ∧
    ∀ f, (isoTime (dateGroups date) cs).1.frac = some f → ∀ c ∈ f, anyDigit c := by
  unfold isoTime
  split
  · exact ⟨rfl, fun f hf => by cases hf⟩
  · split
    · exact ⟨rfl, fun f hf => by cases hf⟩
    · exact ⟨rfl, fun f hf c hc => mem_takeFraction hf hc⟩

/-- What `_ISO_RE` captures. -/
theorem isoMatch_spec (h : isoMatch cs = some g) :
    intOf g.year < 10000 ∧ (∀ f, g.frac = some f → ∀ c ∈ f, anyDigit c) ∧
      ∃ rest zone, takeZone anyDigit rest = (g.tz, zone) := by
  unfold isoMatch at h
  split at h
  · cases h
  rename_i date rest hdate
  obtain ⟨hfits, -⟩ := takeShape_eq_some hdate
  obtain ⟨hyear, hfrac⟩ := isoTime_spec date rest
  generalize isoTime (dateGroups date) rest = timed at h hyear hfrac
  dsimp only at h
  split at h
  · obtain rfl := Option.some.inj h
    refine ⟨?_, hfrac, _, _, rfl⟩
    obtain ⟨a, more, rfl, ha, hmore⟩ := fits_cons hfits
    obtain ⟨b, more, rfl, hb, hmore⟩ := fits_cons hmore
    obtain ⟨c, more, rfl, hc, hmore⟩ := fits_cons hmore
    obtain ⟨d, more, rfl, hd, hmore⟩ := fits_cons hmore
    have hdigits : ∀ x ∈ [a, b, c, d], anyDigit x := by simp [ha, hb, hc, hd]
    have hlt : intOf [a, b, c, d] < 10 ^ 4 := intOf_lt hdigits
    rw [hyear]
    exact hlt
  · cases h

theorem isoMillis_lt (h : ∀ f, frac = some f → ∀ c ∈ f, anyDigit c) : isoMillis frac < 1000 := by
  have hdigits : ∀ c ∈ (frac.getD ['0']).take 3, anyDigit c := fun c hc => by
    cases frac with
    | none =>
      obtain rfl := mem_singleton.mp (mem_of_mem_take hc)
      decide
    | some f => exact h f rfl c (mem_of_mem_take hc)
  have hzero : anyDigit '0' := by decide
  have hlen := length_take_le 3 (frac.getD ['0'])
  refine (intOf_lt fun c hc => ?_).trans_le (le_of_eq ?_)
  · rcases mem_append.mp hc with hc | hc
    · exact hdigits c hc
    · rwa [(mem_replicate.mp hc).2]
  · rw [length_append, length_replicate, Nat.add_sub_cancel' hlen]
    rfl

theorem intOf_lt_of_le {digits : List Char} (h : ∀ c ∈ digits, anyDigit c) {n : Nat} (hn : digits.length ≤ n) :
    intOf digits < 10 ^ n :=
  (intOf_lt h).trans_le (Nat.pow_le_pow_right (by decide) hn)

theorem mem_takeOffsetMinutes {digit : Char → Bool} (hc : c ∈ (takeOffsetMinutes digit cs).1) :
    c = ':' ∨ digit c := by
  rcases @takeOffsetMinutes_eq digit cs with h | ⟨a, b, ha, hb, h | h⟩
  · rw [h] at hc
    cases hc
  · rw [h, mem_cons] at hc
    exact hc.imp id fun hc => by rcases mem_pair.mp hc with rfl | rfl <;> assumption
  · rw [h] at hc
    exact .inr (by rcases mem_pair.mp hc with rfl | rfl <;> assumption)

/-- After its first character an offset has digits and colons. -/
theorem mem_takeZone {digit : Char → Bool} {more : List Char} {z : Char}
    (h : takeZone digit cs = (some (z :: more), rest)) (hc : c ∈ more) : c = ':' ∨ digit c := by
  unfold takeZone at h
  split at h
  · rename_i tz r hz
    obtain ⟨x, tail, hx, -, hmore⟩ := fits_cons (takeShape_eq_some hz).1
    obtain rfl : tail = [] := eq_nil_of_length_eq_zero (fits_length hmore)
    rw [hx] at h
    obtain ⟨-, rfl⟩ := List.cons.inj (Option.some.inj (Prod.mk.inj h).1)
    cases hc
  · split at h
    · rename_i hours r hh
      have hminutes : ∀ c ∈ (takeOffsetMinutes digit r).1, c = ':' ∨ digit c := fun c hc => mem_takeOffsetMinutes hc
      generalize takeOffsetMinutes digit r = minutes at h hminutes
      obtain ⟨x, tail, rfl, -, hmore⟩ := fits_cons (takeShape_eq_some hh).1
      obtain ⟨a, tail, rfl, ha, hmore⟩ := fits_cons hmore
      obtain ⟨b, tail, rfl, hb, hmore⟩ := fits_cons hmore
      obtain rfl : tail = [] := eq_nil_of_length_eq_zero (fits_length hmore)
      obtain ⟨-, rfl⟩ := List.cons.inj (Option.some.inj (Prod.mk.inj h).1)
      rcases mem_cons.mp hc with rfl | hc
      · exact .inr ha
      rcases mem_cons.mp hc with rfl | hc
      · exact .inr hb
      · exact hminutes c hc
    · cases h

theorem offsetMin_bounds (hasMinutes : Nat → Bool)
    (h : takeZone anyDigit cs = (tz, rest)) : -6100 ≤ offsetMin hasMinutes tz ∧ offsetMin hasMinutes tz ≤ 6100 := by
  match tz with
  | none => exact ⟨(by decide : (-6100 : Int) ≤ 0), (by decide : (0 : Int) ≤ 6100)⟩
  | some [] => exact ⟨(by decide : (-6100 : Int) ≤ 0), (by decide : (0 : Int) ≤ 6100)⟩
  | some (z :: more) =>
    have hdigits : ∀ c ∈ more.filter (· ≠ ':'), anyDigit c := fun c hc => by
      obtain ⟨hmem, hne⟩ := mem_filter.mp hc
      exact (mem_takeZone h hmem).resolve_left (of_decide_eq_true hne)
    have hhours : intOf ((more.filter (· ≠ ':')).take 2) < 10 ^ 2 :=
      intOf_lt_of_le (fun c hc => hdigits c (mem_of_mem_take hc)) (length_take_le _ _)
    have hminutes : intOf (slice 2 4 (more.filter (· ≠ ':'))) < 10 ^ 2 := by
      refine intOf_lt_of_le (fun c hc => hdigits c (mem_of_mem_take (mem_of_mem_drop hc))) ?_
      exact (length_slice 2 4 _).le.trans (by omega)
    unfold offsetMin
    dsimp only
    generalize intOf ((more.filter (· ≠ ':')).take 2) = hours at hhours
    generalize intOf (slice 2 4 (more.filter (· ≠ ':'))) = minutes at hminutes
    split
    · omega
    · split <;> split <;> omega

/-! ### One event, one time -/

def CommonShape (value : String) : Prop := (tsMatch value.toList).isSome ∧ (isoMatch value.toList).isSome

/-- What two readers of one event owe each other: on a text that both describe they accept the same instant or
both fail, and no reader accepts a date that is not in the calendar. -/
structure OneInstant (memo : DayMemo) (value : String) : Prop where
  common : CommonShape value → (parseTsMs memo (.str value)).1 = parseIsoMs (.str value)
  calendar : ∀ g, tsMatch value.toList = some g ∨ isoMatch value.toList = some g → g.dateExists = false →
    (parseTsMs memo (.str value)).1 = none ∧ parseIsoMs (.str value) = none

/-- A date of the calendar is of 1970 or later, or the time that is named is before the epoch; a date that is
not in the calendar is refused by the ranges of the fields. -/
def Sane (value : String) : Prop :=
  ∀ g, isoMatch value.toList = some g →
    (g.dateExists = true → (tsMatch value.toList).isSome → g.timeExists = true → intOf g.year < 1970 → g.instant < 0) ∧
      (g.dateExists = false → value.toList.length ≤ 64 → isoChecks g = false)

theorem inRange_eq_none {total : Int} : inRange total = none ↔ total < 0 ∨ (maxTokens : Int) < total := by
  unfold inRange
  split
  · exact iff_of_false (fun h => by cases h) (by omega)
  · exact iff_of_true rfl (by omega)

theorem isoChecks_iff : isoChecks g = true ↔
    (1 ≤ intOf g.month ∧ intOf g.month ≤ 12 ∧ 1 ≤ intOf g.day ∧ intOf g.day ≤ 31) ∧
      g.timeExists = true ∧ 1970 ≤ intOf g.year := by
  unfold isoChecks Groups.timeExists
  rw [decide_eq_true_iff, decide_eq_true_iff]
  omega

/-- A date of the calendar before 1970 names no time that is too late. -/
theorem instant_le_of_early (h : isoMatch cs = some g) (hdate : g.dateExists = true)
    (htime : g.timeExists = true) (hyear : intOf g.year < 1970) : g.instant ≤ maxTokens := by
  obtain ⟨-, hfrac, rest, zone, hzone⟩ := isoMatch_spec h
  have hdays := monthOrdinal_neg (by omega : (intOf g.year : Int) < 1970) hdate
  have hmillis := isoMillis_lt hfrac
  have hoffset := offsetMin_bounds (4 ≤ ·) hzone
  have htime := of_decide_eq_true htime
  unfold Groups.instant timegm maxTokens
  omega

/-- A date that the ranges of the fields let pass, but the calendar does not, names a time that is in range. -/
theorem instant_of_missing_day (h : isoMatch cs = some g) (hdate : g.dateExists = false)
    (hchecks : isoChecks g = true) : inRange g.instant = some g.instant := by
  obtain ⟨hyear, hfrac, rest, zone, hzone⟩ := isoMatch_spec h
  obtain ⟨⟨h1, h12, hd, hd'⟩, htime, h1970⟩ := isoChecks_iff.mp hchecks
  have h2 := two_le_of_invalid (by omega) (by omega) (by omega) (by omega) hdate
  have hdays := monthOrdinal_bounds (by omega : 1970 ≤ (intOf g.year : Int)) (by omega) h2 (by omega)
  have hmillis := isoMillis_lt hfrac
  have hoffset := offsetMin_bounds (4 ≤ ·) hzone
  have htime := of_decide_eq_true htime
  refine if_pos ?_
  unfold Groups.instant timegm maxTokens
  omega

/-- The readers agree on a text exactly if its date is in the calendar and of 1970 or later, or is refused by
both: by the one for the calendar or for a time before the epoch, by the other for the range of a field. -/
theorem timestamps_agree_iff (memo : DayMemo) (value : String) : OneInstant memo value ↔ Sane value := by
  constructor
  · rintro ⟨hcommon, hcalendar⟩ g hg
    refine ⟨fun hdate hts htime hyear => ?_, fun hdate hlen => ?_⟩
    · -- before 1970 the other reader refuses
      obtain ⟨g', hg'⟩ := Option.isSome_iff_exists.mp hts
      obtain rfl : g = g' := Option.some.inj (hg.symm.trans (isoMatch_of_tsMatch hg'))
      have hiso : parseIsoText value = none := by
        rw [parseIsoText_eq hg, if_neg fun hc => absurd (isoChecks_iff.mp hc.2).2.2 (by omega)]
      have hnone : (parseTsText memo value).1 = none :=
        (hcommon ⟨hts, by rw [hg]; rfl⟩).trans hiso
      rw [parseTsText_eq memo hg', if_pos ⟨hdate, htime⟩, inRange_eq_none] at hnone
      exact hnone.resolve_right (not_lt.mpr (instant_le_of_early hg hdate htime hyear))
    · by_contra hchecks
      rw [Bool.not_eq_false] at hchecks
      have hnone : parseIsoText value = none := (hcalendar g (.inr hg) hdate).2
      rw [parseIsoText_eq hg, if_pos ⟨hlen, hchecks⟩, instant_of_missing_day hg hdate hchecks] at hnone
      cases hnone
  · intro hsane
    have hrefused : ∀ g, isoMatch value.toList = some g → g.dateExists = false → parseIsoText value = none :=
      fun g hg hdate => by
        rw [parseIsoText_eq hg]
        refine if_neg fun hc => ?_
        rw [(hsane g hg).2 hdate hc.1] at hc
        exact absurd hc.2 Bool.false_ne_true
    refine ⟨fun hshape => ?_, fun g hg hdate => ?_⟩
    · obtain ⟨hts, -⟩ := hshape
      obtain ⟨g, hg⟩ := Option.isSome_iff_exists.mp hts
      have hiso := isoMatch_of_tsMatch hg
      have hlen := (length_of_tsMatch hg).2
      show (parseTsText memo value).1 = parseIsoText value
      cases hdate : g.dateExists with
      | false =>
        rw [hrefused g hiso hdate, parseTsText_eq memo hg, hdate, if_neg fun hc => absurd hc.1 Bool.false_ne_true]
      | true =>
        rw [parseTsText_eq memo hg, parseIsoText_eq hiso, hdate]
        obtain ⟨h1, h12, hd, hdm⟩ := validDate_iff.mp hdate
        have h31 := daysInMonth_le (y := intOf g.year) h1 h12
        by_cases htime : g.timeExists = true
        · rw [if_pos ⟨rfl, htime⟩]
          by_cases hyear : 1970 ≤ intOf g.year
          · rw [if_pos ⟨by omega, isoChecks_iff.mpr ⟨by omega, htime, hyear⟩⟩]
          · rw [if_neg fun hc => hyear (isoChecks_iff.mp hc.2).2.2, inRange_eq_none]
            exact .inl ((hsane g hiso).1 hdate hts htime (by omega))
        · rw [if_neg fun hc => htime hc.2, if_neg fun hc => htime (isoChecks_iff.mp hc.2).2.1]
    · have hiso : isoMatch value.toList = some g := hg.elim isoMatch_of_tsMatch id
      refine ⟨?_, hrefused g hiso hdate⟩
      show (parseTsText memo value).1 = none
      cases hts : tsMatch value.toList with
      | none => exact parseTsText_none memo hts
      | some g' =>
        obtain rfl : g' = g := Option.some.inj ((isoMatch_of_tsMatch hts).symm.trans hiso)
        rw [parseTsText_eq memo hts, hdate, if_neg fun hc => absurd hc.1 Bool.false_ne_true]

/-- The 31st of February: one reader refuses it, the other takes it for the third of March. -/
theorem february_has_no_31 : ¬ ∀ memo value, OneInstant memo value := by
  intro h
  have hcommon := (h .empty "2026-02-31T00:00:00Z").common
  have hts : (parseTsMs .empty (.str "2026-02-31T00:00:00Z")).1 = none := by decide
  have hiso : parseIsoMs (.str "2026-02-31T00:00:00Z") = some 1772496000000 := by decide
  have hshape : CommonShape "2026-02-31T00:00:00Z" := ⟨by decide, by decide⟩
  have := hcommon hshape
  rw [hts, hiso] at this
  cases this

end TokenBill.Timestamps
