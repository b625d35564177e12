import TokenBill.Core.JsonText

/-!
# JSON strings in ASCII

`json.dumps` with its defaults: of a string every character but the printable ones of ASCII is
escaped, one above the basic plane as two surrogates. The reader of `Core/JsonText.lean` reads it back.
-/

namespace TokenBill.JsonText

/-- `\u` and four hexadecimal digits. -/
def escape4 (n : Nat) : List Char :=
  ['\\', 'u', Json.hexDigit (n / 4096), Json.hexDigit (n / 256 % 16), Json.hexDigit (n / 16 % 16), Json.hexDigit (n % 16)]

/-- The escape of one character. -/
def asciiChar (c : Char) : List Char :=
  if c = '"' then ['\\', '"']
  else if c = '\\' then ['\\', '\\']
  else if c = '\n' then ['\\', 'n']
  else if c = '\r' then ['\\', 'r']
  else if c = '\t' then ['\\', 't']
  else if c = '\x0c' then ['\\', 'f']
  else if c = '\x08' then ['\\', 'b']
  else if 0x20 ≤ c.toNat ∧ c.toNat ≤ 0x7e then [c]
  else if c.toNat < 0x10000 then escape4 c.toNat
  else
    let n := c.toNat - 0x10000
    escape4 (0xd800 + n / 0x400) ++ escape4 (0xdc00 + n % 0x400)

def asciiQuote (s : String) : List Char := '"' :: s.toList.flatMap asciiChar ++ ['"']

example : String.ofList (asciiQuote "é\n") = "\"\\u00e9\\n\"" := by decide

/-! ### Reading it back -/

theorem hex4_digits {n : Nat} (h : n < 0x10000) :
    hex4 (Json.hexDigit (n / 4096)) (Json.hexDigit (n / 256 % 16)) (Json.hexDigit (n / 16 % 16))
      (Json.hexDigit (n % 16)) = some n := by
  rw [hex4_hexDigit (by omega) (by omega) (by omega) (by omega)]
  congr 1
  omega

/-- A character is no surrogate. -/
theorem toNat_valid (c : Char) : c.toNat < 0xd800 ∨ 0xdfff < c.toNat ∧ c.toNat < 0x110000 := c.valid

theorem readString_escape4 {n : Nat} (h : n < 0xd800 ∨ 0xdfff < n ∧ n < 0x10000) (rest : List Char) :
    readString (escape4 n ++ rest) = push (Char.ofNat n) (readString rest) := by
  show readString ('\\' :: 'u' :: _ :: _ :: _ :: _ :: rest) = _
  rw [readString, hex4_digits (by omega)]
  dsimp only
  rw [if_neg (by omega), if_neg (by omega)]

/-- Two escapes that are surrogates of a character. -/
theorem readString_pair {a b c d a' b' c' d' : Char} {n m : Nat} (hn : hex4 a b c d = some n)
    (hm : hex4 a' b' c' d' = some m) (hhigh : 0xd800 ≤ n ∧ n < 0xdc00) (hlow : 0xdc00 ≤ m ∧ m < 0xe000)
    (rest : List Char) :
    readString ('\\' :: 'u' :: a :: b :: c :: d :: '\\' :: 'u' :: a' :: b' :: c' :: d' :: rest) =
      push (Char.ofNat (0x10000 + (n - 0xd800) * 0x400 + (m - 0xdc00))) (readString rest) := by
  rw [readString, hn]
  dsimp only
  rw [if_pos hhigh]
  simp only [hm]
  rw [if_pos hlow]

theorem readString_surrogates {n : Nat} (h : n < 0x100000) (rest : List Char) :
    readString (escape4 (0xd800 + n / 0x400) ++ (escape4 (0xdc00 + n % 0x400) ++ rest)) =
      push (Char.ofNat (0x10000 + n)) (readString rest) := by
  have hvalue : 0x10000 + (0xd800 + n / 0x400 - 0xd800) * 0x400 + (0xdc00 + n % 0x400 - 0xdc00) = 0x10000 + n := by
    omega
  have hread := readString_pair (hex4_digits (n := 0xd800 + n / 0x400) (by omega))
    (hex4_digits (n := 0xdc00 + n % 0x400) (by omega)) (by omega) (by omega) rest
  rw [hvalue] at hread
  exact hread

theorem readString_asciiChar (c : Char) (rest : List Char) :
    readString (asciiChar c ++ rest) = push c (readString rest) := by
  have := toNat_valid c
  unfold asciiChar
  repeat' split
  · subst_vars; simp [readString, escapeOf]
  · subst_vars; simp [readString, escapeOf]
  · subst_vars; simp [readString, escapeOf]
  · subst_vars; simp [readString, escapeOf]
  · subst_vars; simp [readString, escapeOf]
  · subst_vars; simp [readString, escapeOf]
  · subst_vars; simp [readString, escapeOf]
  · exact readString_plain ‹_› ‹_› (by omega) rest
  · rw [readString_escape4 (by omega), Char.ofNat_toNat]
  · rw [List.append_assoc, readString_surrogates (by omega), Nat.add_sub_cancel' (by omega), Char.ofNat_toNat]

theorem readString_asciiQuote (s : String) (rest : List Char) :
    readString (s.toList.flatMap asciiChar ++ '"' :: rest) = some (s.toList, rest) := by
  induction s.toList with
  | nil => rfl
  | cons c cs ih =>
    rw [List.flatMap_cons, List.append_assoc, readString_asciiChar, ih]
    rfl

end TokenBill.JsonText
