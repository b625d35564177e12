import TokenBill.Core.Encode
import TokenBill.General.Decimals
import TokenBill.General.Separated
import Mathlib.Tactic.IntervalCases

/-!
# The dates of days

`isoDate` goes from a day to its text through the civil calendar. Two days have two texts: the
year, the month and the day of the month are told apart in the text, and the day is computed back
from them.
-/

namespace TokenBill

open General

/-! ### The calendar -/

/-- The year, counted from March, of a day of an era of 400 years. -/
def yearOfEra (doe : Nat) : Nat := (doe - doe / 1460 + doe / 36524 - doe / 146096) / 365

def daysBefore (yoe : Nat) : Nat := 365 * yoe + yoe / 4 - yoe / 100

theorem yearOfEra_century {doe c : Nat} (hc : doe / 36524 = c) (hc4 : c < 4) : yearOfEra doe / 100 = c := by
  unfold yearOfEra
  have hf : doe / 146096 = 0 := by omega
  have h1 : 36524 * c ≤ doe := by omega
  have h2 : doe ≤ 36524 * c + 36523 := by omega
  rw [hc, hf]
  interval_cases c <;> omega

theorem yearOfEra_spec {doe : Nat} (h : doe < 146097) : daysBefore (yearOfEra doe) ≤ doe ∧
    doe ≤ daysBefore (yearOfEra doe) + 365 ∧ yearOfEra doe < 400 := by
  unfold daysBefore
  rcases Nat.lt_or_ge doe 146096 with hlt | hge
  · have hcent := yearOfEra_century rfl (by omega : doe / 36524 < 4)
    have hy : yearOfEra doe = (doe - doe / 1460 + doe / 36524) / 365 := by
      unfold yearOfEra
      rw [show doe / 146096 = 0 by omega, Nat.sub_zero]
    rw [hcent]
    generalize yearOfEra doe = y at hy hcent ⊢
    have hq : y / 4 ≤ doe / 1460 := by omega
    have hq' : doe / 1460 ≤ y / 4 + 1 := by omega
    omega
  · obtain rfl : doe = 146096 := by omega
    decide

def dayOfYear (day : Nat) : Nat :=
  (day + 719468) % 146097 - daysBefore (yearOfEra ((day + 719468) % 146097))

def marchMonth (day : Nat) : Nat := (5 * dayOfYear day + 2) / 153

def monthOfDay (day : Nat) : Nat := if marchMonth day < 10 then marchMonth day + 3 else marchMonth day - 9

def yearOfDay (day : Nat) : Nat :=
  (day + 719468) / 146097 * 400 + yearOfEra ((day + 719468) % 146097) + if monthOfDay day ≤ 2 then 1 else 0

def dayOfMonth (day : Nat) : Nat := dayOfYear day - (153 * marchMonth day + 2) / 5 + 1

theorem isoDate_eq (day : Nat) : isoDate day =
    padded 4 (yearOfDay day) ++ "-" ++ padded 2 (monthOfDay day) ++ "-" ++ padded 2 (dayOfMonth day) := rfl

theorem civil_injective {a b : Nat} (hy : yearOfDay a = yearOfDay b) (hm : monthOfDay a = monthOfDay b)
    (hd : dayOfMonth a = dayOfMonth b) : a = b := by
  obtain ⟨ha1, ha2, ha3⟩ := yearOfEra_spec (Nat.mod_lt (a + 719468) (by omega : 146097 > 0))
  obtain ⟨hb1, hb2, hb3⟩ := yearOfEra_spec (Nat.mod_lt (b + 719468) (by omega : 146097 > 0))
  have hmarch : marchMonth a = marchMonth b := by
    have hle : ∀ {day}, dayOfYear day ≤ 365 → marchMonth day ≤ 11 := fun h => by unfold marchMonth; omega
    have hla := hle (show dayOfYear a ≤ 365 by unfold dayOfYear; omega)
    have hlb := hle (show dayOfYear b ≤ 365 by unfold dayOfYear; omega)
    unfold monthOfDay at hm
    split_ifs at hm <;> omega
  have hday : dayOfYear a = dayOfYear b := by
    unfold dayOfMonth at hd
    have hma : (153 * marchMonth a + 2) / 5 ≤ dayOfYear a := by unfold marchMonth; omega
    have hmb : (153 * marchMonth b + 2) / 5 ≤ dayOfYear b := by unfold marchMonth; omega
    rw [hmarch] at hd hma
    omega
  unfold yearOfDay at hy
  rw [hm] at hy
  have hera : (a + 719468) / 146097 = (b + 719468) / 146097 ∧
      yearOfEra ((a + 719468) % 146097) = yearOfEra ((b + 719468) % 146097) := by omega
  unfold dayOfYear at hday
  rw [hera.2] at hday ha1
  have hdoe : (a + 719468) % 146097 = (b + 719468) % 146097 := by omega
  omega

/-! ### The text -/

theorem toList_padded (width n : Nat) : (padded width n).toList = Decimal.padded width n := by
  unfold padded Decimal.padded
  have htext : (toString n).toList = Decimal.digits n := by
    rw [show toString n = String.ofList (Decimal.digits n) from rfl, String.toList_ofList]
  rw [String.toList_append, String.toList_ofList, ← String.length_toList, htext]

/-- Zeros in front do not change a number. -/
theorem ofDigits_padded (width n : Nat) : Decimal.ofDigits (Decimal.padded width n) = n := by
  unfold Decimal.padded
  generalize width - (Decimal.digits n).length = k
  induction k with
  | zero => exact Decimal.ofDigits_digits n
  | succ k ih => exact ih

theorem padded_injective (width : Nat) {a b : Nat} (h : padded width a = padded width b) : a = b := by
  rw [← ofDigits_padded width a, ← ofDigits_padded width b, ← toList_padded, ← toList_padded, h]

theorem dash_not_mem_padded (width n : Nat) : '-' ∉ (padded width n).toList := by
  intro h
  rw [toList_padded] at h
  have hdigit := Decimal.isDigit_of_mem_padded h
  exact absurd hdigit (by decide)

theorem isoDate_injective : Function.Injective isoDate := by
  intro a b h
  rw [isoDate_eq, isoDate_eq, ← String.toList_inj] at h
  simp only [String.toList_append, List.append_assoc] at h
  have hdash : "-".toList = ['-'] := rfl
  rw [hdash, List.singleton_append, List.singleton_append, List.singleton_append, List.singleton_append] at h
  obtain ⟨hy, h⟩ := append_sep_inj (dash_not_mem_padded _ _) (dash_not_mem_padded _ _) h
  obtain ⟨hm, hd⟩ := append_sep_inj (dash_not_mem_padded _ _) (dash_not_mem_padded _ _) h
  exact civil_injective (padded_injective 4 (String.toList_inj.mp hy)) (padded_injective 2 (String.toList_inj.mp hm))
    (padded_injective 2 (String.toList_inj.mp hd))

theorem mem_isoDate {day : Nat} {c : Char} (h : c ∈ (isoDate day).toList) : c.isDigit ∨ c = '-' := by
  rw [isoDate_eq] at h
  have hdash : "-".toList = ['-'] := rfl
  simp only [String.toList_append, List.mem_append, toList_padded, hdash, List.mem_singleton] at h
  rcases h with (((h | h) | h) | h) | h
  · exact .inl (Decimal.isDigit_of_mem_padded h)
  · exact .inr h
  · exact .inl (Decimal.isDigit_of_mem_padded h)
  · exact .inr h
  · exact .inl (Decimal.isDigit_of_mem_padded h)

end TokenBill
