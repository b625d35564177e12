import Mathlib.Data.List.Basic

/-!
# Base 64

The text of bytes in base 64 and what a strict decoder reads: groups of four characters, the last one padded. A
text that was encoded is read to its bytes.
-/

namespace TokenBill.General.Base64

/-- The character of six bits. -/
def charOf (n : Nat) : Char :=
  if n < 26 then Char.ofNat (65 + n)
  else if n < 52 then Char.ofNat (71 + n)
  else if n < 62 then Char.ofNat (n - 4)
  else if n = 62 then '+'
  else '/'

/-- The six bits of a character. -/
def valueOf (c : Char) : Option Nat :=
  if 'A' ≤ c ∧ c ≤ 'Z' then some (c.toNat - 65)
  else if 'a' ≤ c ∧ c ≤ 'z' then some (c.toNat - 71)
  else if '0' ≤ c ∧ c ≤ '9' then some (c.toNat + 4)
  else if c = '+' then some 62
  else if c = '/' then some 63
  else none

def first (w x : Nat) : UInt8 := UInt8.ofNat (w * 4 + x / 16)

def second (x y : Nat) : UInt8 := UInt8.ofNat (x % 16 * 16 + y / 4)

def third (y z : Nat) : UInt8 := UInt8.ofNat (y % 4 * 64 + z)

/-- The text of bytes. -/
def encode : List UInt8 → List Char
  | [] => []
  | [a] => [charOf (a.toNat / 4), charOf (a.toNat % 4 * 16), '=', '=']
  | [a, b] =>
    [charOf (a.toNat / 4), charOf (a.toNat % 4 * 16 + b.toNat / 16), charOf (b.toNat % 16 * 4), '=']
  | a :: b :: c :: rest =>
    charOf (a.toNat / 4) :: charOf (a.toNat % 4 * 16 + b.toNat / 16) :: charOf (b.toNat % 16 * 4 + c.toNat / 64) ::
      charOf (c.toNat % 64) :: encode rest

/-- The bytes of a text. -/
def decode : List Char → Option (List UInt8)
  | [] => some []
  | w :: x :: y :: z :: rest =>
    match valueOf w, valueOf x, valueOf y, valueOf z with
    | some w, some x, some y, some z => (decode rest).map fun bytes => first w x :: second x y :: third y z :: bytes
    | some w, some x, some y, none => if z = '=' ∧ rest = [] then some [first w x, second x y] else none
    | some w, some x, none, none => if y = '=' ∧ z = '=' ∧ rest = [] then some [first w x] else none
    | _, _, _, _ => none
  | _ => none

theorem valueOf_charOf : ∀ n < 64, valueOf (charOf n) = some n := by decide

theorem first_eq (a b : UInt8) : first (a.toNat / 4) (a.toNat % 4 * 16 + b.toNat / 16) = a := by
  have hb := b.toNat_lt
  have hval : a.toNat / 4 * 4 + (a.toNat % 4 * 16 + b.toNat / 16) / 16 = a.toNat := by omega
  unfold first
  rw [hval, UInt8.ofNat_toNat]

theorem second_eq (a b c : UInt8) :
    second (a.toNat % 4 * 16 + b.toNat / 16) (b.toNat % 16 * 4 + c.toNat / 64) = b := by
  have hb := b.toNat_lt
  have hc := c.toNat_lt
  have hval : (a.toNat % 4 * 16 + b.toNat / 16) % 16 * 16 + (b.toNat % 16 * 4 + c.toNat / 64) / 4 = b.toNat := by
    omega
  unfold second
  rw [hval, UInt8.ofNat_toNat]

theorem third_eq (b c : UInt8) : third (b.toNat % 16 * 4 + c.toNat / 64) (c.toNat % 64) = c := by
  have hc := c.toNat_lt
  have hval : (b.toNat % 16 * 4 + c.toNat / 64) % 4 * 64 + c.toNat % 64 = c.toNat := by omega
  unfold third
  rw [hval, UInt8.ofNat_toNat]

theorem decode_encode (bytes : List UInt8) : decode (encode bytes) = some bytes := by
  have hfirst : ∀ a : UInt8, valueOf (charOf (a.toNat / 4)) = some (a.toNat / 4) := fun a =>
    valueOf_charOf _ (by have := a.toNat_lt; omega)
  have hsecond : ∀ a b : UInt8, valueOf (charOf (a.toNat % 4 * 16 + b.toNat / 16)) =
      some (a.toNat % 4 * 16 + b.toNat / 16) := fun a b => valueOf_charOf _ (by have := b.toNat_lt; omega)
  have hthird : ∀ b c : UInt8, valueOf (charOf (b.toNat % 16 * 4 + c.toNat / 64)) =
      some (b.toNat % 16 * 4 + c.toNat / 64) := fun b c => valueOf_charOf _ (by have := c.toNat_lt; omega)
  have hfourth : ∀ c : UInt8, valueOf (charOf (c.toNat % 64)) = some (c.toNat % 64) := fun c =>
    valueOf_charOf _ (by omega)
  have hpad : valueOf '=' = none := by decide
  induction bytes using encode.induct with
  | case1 => rfl
  | case2 a =>
    have hlast := hsecond a 0
    have hbyte := first_eq a 0
    simp only [UInt8.toNat_zero, Nat.zero_div, Nat.add_zero] at hlast hbyte
    unfold encode decode
    simp only [hfirst, hlast, hpad, hbyte, and_self, if_true]
  | case3 a b =>
    have hlast := hthird b 0
    have hbyte := second_eq a b 0
    simp only [UInt8.toNat_zero, Nat.zero_div, Nat.add_zero] at hlast hbyte
    unfold encode decode
    simp only [hfirst, hsecond, hlast, hpad, first_eq, hbyte, and_self, if_true]
  | case4 a b c rest ih =>
    unfold encode decode
    simp only [hfirst, hsecond, hthird, hfourth, first_eq, second_eq, third_eq, ih, Option.map_some]

theorem ascii_charOf : ∀ n < 64, (charOf n).toNat < 128 := by decide

theorem ascii_encode {bytes : List UInt8} : ∀ c ∈ encode bytes, c.toNat < 128 := by
  have hpad : ('=').toNat < 128 := by decide
  have hbits : ∀ a b : UInt8, (charOf (a.toNat / 4)).toNat < 128 ∧
      (charOf (a.toNat % 4 * 16 + b.toNat / 16)).toNat < 128 ∧
      (charOf (a.toNat % 16 * 4 + b.toNat / 64)).toNat < 128 ∧ (charOf (a.toNat % 64)).toNat < 128 := fun a b => by
    have ha := a.toNat_lt
    have hb := b.toNat_lt
    exact ⟨ascii_charOf _ (by omega), ascii_charOf _ (by omega), ascii_charOf _ (by omega), ascii_charOf _ (by omega)⟩
  induction bytes using encode.induct with
  | case1 => exact fun _ hc => absurd hc List.not_mem_nil
  | case2 a =>
    have hlast := (hbits a 0).2.1
    simp only [encode, List.forall_mem_cons]
    exact ⟨(hbits a 0).1, hlast, hpad, hpad, fun _ hc => absurd hc List.not_mem_nil⟩
  | case3 a b =>
    have hlast := (hbits b 0).2.2.1
    simp only [encode, List.forall_mem_cons]
    exact ⟨(hbits a 0).1, (hbits a b).2.1, hlast, hpad, fun _ hc => absurd hc List.not_mem_nil⟩
  | case4 a b c rest ih =>
    simp only [encode, List.forall_mem_cons]
    exact ⟨(hbits a 0).1, (hbits a b).2.1, (hbits b c).2.2.1, (hbits c 0).2.2.2, ih⟩

end TokenBill.General.Base64
