import Mathlib.Data.List.Basic

/-!
# Text for terminals and files

`sanitize` of `core/textsafe.py`, without a limit: ANSI escape sequences go, then control
characters and bidirectional overrides. The alternatives of `_ANSI_RE` start with different
characters and match greedily, so one pass over the characters finds what it removes.
-/

namespace TokenBill

/-- What `str.strip` removes. -/
def isPySpace (c : Char) : Bool :=
  let n := c.toNat
  decide ((9 ≤ n ∧ n ≤ 13) ∨ (28 ≤ n ∧ n ≤ 32) ∨ n = 0x85 ∨ n = 0xA0 ∨ n = 0x1680 ∨
    (0x2000 ≤ n ∧ n ≤ 0x200A) ∨ n = 0x2028 ∨ n = 0x2029 ∨ n = 0x202F ∨ n = 0x205F ∨ n = 0x3000)

namespace Textsafe

/-- Where a pass of `_ANSI_RE` stands. -/
inductive Scan where
  /-- Outside a sequence. -/
  | plain
  /-- After an escape character. -/
  | escape
  /-- Inside `ESC ]`, which a bell or `ESC \` ends. -/
  | osc
  /-- Inside `ESC P`, `ESC X`, `ESC ^` or `ESC _`, which `ESC \` ends. -/
  | string
  /-- After an escape character inside one of the two. -/
  | stringEscape
  /-- In the parameters of `ESC [` or of the 8-bit form. -/
  | params
  /-- After them. -/
  | intermediate
  /-- In the intermediate characters of another escape sequence. -/
  | other

def within (lo hi : Nat) (c : Char) : Bool := lo ≤ c.toNat && c.toNat ≤ hi

/-- A character outside a sequence: it is kept unless it starts one. -/
def scanPlain (c : Char) : Scan × List Char :=
  if c.toNat = 0x1b then (.escape, [])
  else if c.toNat = 0x9b then (.params, [])
  else (.plain, [c])

/-- A character after an escape character. -/
def scanEscape (c : Char) : Scan × List Char :=
  if c = ']' then (.osc, [])
  else if c = 'P' ∨ c = 'X' ∨ c = '^' ∨ c = '_' then (.string, [])
  else if c = '[' then (.params, [])
  else if within 0x20 0x2f c then (.other, [])
  else if within 0x30 0x7e c then (.plain, [])
  else scanPlain c

/-- One character of the pass, with what is kept of it. -/
def scan (state : Scan) (c : Char) : Scan × List Char :=
  match state with
  | .plain => scanPlain c
  | .escape => scanEscape c
  | .osc =>
    if c.toNat = 0x07 then (.plain, []) else if c.toNat = 0x1b then (.stringEscape, []) else (.osc, [])
  | .string => if c.toNat = 0x1b then (.stringEscape, []) else (.string, [])
  | .stringEscape => if c = '\\' then (.plain, []) else scanEscape c
  | .params =>
    if within 0x30 0x3f c then (.params, [])
    else if within 0x20 0x2f c then (.intermediate, [])
    else if within 0x40 0x7e c then (.plain, [])
    else scanPlain c
  | .intermediate =>
    if within 0x20 0x2f c then (.intermediate, [])
    else if within 0x40 0x7e c then (.plain, [])
    else scanPlain c
  | .other =>
    if within 0x20 0x2f c then (.other, [])
    else if within 0x30 0x7e c then (.plain, [])
    else scanPlain c

/-- `_ANSI_RE.sub("", text)`, from a state of the pass. -/
def stripAnsi : Scan → List Char → List Char
  | _, [] => []
  | state, c :: cs => (scan state c).2 ++ stripAnsi (scan state c).1 cs

/-- `_CONTROL_RE`. -/
def isControl (c : Char) : Bool :=
  within 0x00 0x08 c || within 0x0b 0x1f c || within 0x7f 0x9f c || within 0x202a 0x202e c ||
    within 0x2066 0x2069 c

/-- `sanitize(text)`. -/
def sanitize (text : String) : String :=
  String.ofList ((stripAnsi .plain text.toList).filter fun c => !isControl c)

example : ["a\x1b[31mb\x1b]0;title\x07c", "\x1b\x1b[m1\x02", "x\x1bPq\x1b\\y\n"].map sanitize =
    ["abc", "1", "xy\n"] := by decide

theorem sanitize_ascii {text : String} (h : ∀ c ∈ text.toList, within 0x20 0x7e c) : sanitize text = text := by
  have hplain : ∀ c, within 0x20 0x7e c → scan .plain c = (.plain, [c]) ∧ isControl c = false := by
    intro c hc
    simp only [within, Bool.and_eq_true, decide_eq_true_eq] at hc
    constructor
    · show scanPlain c = _
      rw [scanPlain, if_neg (by omega), if_neg (by omega)]
    · simp only [isControl, within, Bool.or_eq_false_iff, Bool.and_eq_false_iff, decide_eq_false_iff_not]
      omega
  have hstrip : ∀ cs : List Char, (∀ c ∈ cs, within 0x20 0x7e c) →
      stripAnsi .plain cs = cs ∧ cs.filter (fun c => !isControl c) = cs := by
    intro cs
    induction cs with
    | nil => exact fun _ => ⟨rfl, rfl⟩
    | cons c cs ih =>
      intro hcs
      obtain ⟨hscan, hcontrol⟩ := hplain c (hcs c List.mem_cons_self)
      obtain ⟨hrest, hkept⟩ := ih fun c hc => hcs c (List.mem_cons_of_mem _ hc)
      constructor
      · rw [stripAnsi, hscan, hrest, List.singleton_append]
      · rw [List.filter_cons, hcontrol, Bool.not_false, if_pos rfl, hkept]
  obtain ⟨hstrip, hkept⟩ := hstrip text.toList h
  unfold sanitize
  rw [hstrip, hkept, String.ofList_toList]

end Textsafe

end TokenBill
