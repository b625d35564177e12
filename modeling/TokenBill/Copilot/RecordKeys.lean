import TokenBill.Copilot.SeatRecords
import TokenBill.Core.Amounts
import TokenBill.Core.IsoDates

/-!
# Record keys tell records apart

The parts of a `record_key` hold no separator, since free text is escaped, so a key gives back its
parts and every part what it spells. An absent organisation is spelled as an empty one; an
attribute is spelled with its name, and its value as the text of the value.
-/

namespace TokenBill.Copilot.Seats

open General List
open Handoff (configKey countAttrs countConfigKinds escapePart keyPart)

/-! ### Escaped text -/

def escapeCode (c : Char) : List Char :=
  if c = '\\' then ['\\', '\\'] else if c = '\x1f' then ['\\', 'x', '1', 'f'] else [c]

theorem toList_escapePart (s : String) : (escapePart s).toList = s.toList.flatMap escapeCode := by
  unfold escapePart
  rw [String.toList_ofList]
  rfl

theorem escapeCode_ne_nil (c : Char) : escapeCode c ≠ [] := by
  unfold escapeCode
  split
  · exact cons_ne_nil _ _
  · split <;> exact cons_ne_nil _ _

theorem escapeCode_prefix {c d : Char} {xs ys : List Char} (h : escapeCode c ++ xs = escapeCode d ++ ys) : c = d := by
  unfold escapeCode at h
  split_ifs at h <;> grind

theorem escapePart_injective : Function.Injective escapePart := by
  intro s t h
  rw [← String.toList_inj, toList_escapePart, toList_escapePart] at h
  exact String.toList_inj.mp (flatMap_inj escapeCode_ne_nil escapeCode_prefix h)

theorem sep_not_mem_escapePart (s : String) : '\x1f' ∉ (escapePart s).toList := by
  rw [toList_escapePart, mem_flatMap]
  rintro ⟨c, -, hc⟩
  unfold escapeCode at hc
  split_ifs at hc with h1 h2
  · revert hc
    decide
  · revert hc
    decide
  · exact h2 (mem_singleton.mp hc).symm

/-! ### Joined parts -/

/-- The separator of the parts is not in a text. -/
def SepFree (s : String) : Prop := '\x1f' ∉ s.toList

/-- Parts without the separator are told apart in their join. -/
theorem parts_inj {ps qs : List String} (hp : ∀ p ∈ ps, SepFree p) (hq : ∀ q ∈ qs, SepFree q) (hps : ps ≠ [])
    (hqs : qs ≠ []) (h : "\x1f".intercalate ps = "\x1f".intercalate qs) : ps = qs := by
  have hfree : ∀ {rs : List String}, (∀ r ∈ rs, SepFree r) → ∀ r ∈ rs.map String.toList, '\x1f' ∉ r := by
    intro rs hrs r hr
    obtain ⟨s, hs, rfl⟩ := mem_map.mp hr
    exact hrs s hs
  rw [← String.toList_inj, String.toList_intercalate, String.toList_intercalate] at h
  have hlists := intercalate_inj (hfree hp) (hfree hq) (by simpa using hps) (by simpa using hqs) h
  exact (map_injective_iff.mpr fun _ _ h => String.toList_inj.mp h) hlists

theorem sepFree_date {s : String} (h : isDateText s = true) : SepFree s := by
  intro hmem
  unfold isDateText at h
  rw [Bool.and_eq_true, all_eq_true] at h
  obtain ⟨i, hi, hget⟩ := mem_iff_getElem.mp hmem
  have hz := h.2 ('\x1f', i) (mem_zipIdx_iff_getElem?.mpr (by rw [← hget]; exact getElem?_eq_getElem hi))
  dsimp only at hz
  split at hz
  · revert hz
    decide
  · revert hz
    decide

theorem sepFree_principal {s : String} (h : Kanon.isPrincipalText s = true) : SepFree s := by
  unfold Kanon.isPrincipalText startsWith at h
  rw [Bool.and_eq_true, Bool.and_eq_true, all_eq_true, isPrefixOf_iff_prefix] at h
  obtain ⟨⟨⟨rest, hrest⟩, -⟩, hall⟩ := h
  unfold SepFree
  rw [← hrest] at hall ⊢
  intro hmem
  rcases mem_append.mp hmem with hmem | hmem
  · revert hmem
    decide
  · have hc := hall '\x1f' hmem
    revert hc
    decide

theorem sepFree_isoDate (day : Nat) : SepFree (isoDate day) := by
  intro hmem
  rcases mem_isoDate hmem with h | h <;> revert h <;> decide

/-! ### Attributes -/

/-- A text that spells no other value: not absence, a truth value or an integer. -/
def Plain (s : String) : Prop := s ≠ "" ∧ s ≠ "true" ∧ s ≠ "false" ∧ ∀ n : Int, s ≠ toString n

/-- An attribute whose name is as documented and whose text spells no other value. -/
structure Told (a : String × AttrValue) : Prop where
  name : '=' ∉ a.1.toList ∧ '\x1f' ∉ a.1.toList
  value : ∀ s, a.2 = .str s → Plain s

/-- The text of an integer starts with a digit or a sign. -/
theorem toString_int_head (n : Int) : ∃ c cs, (toString n).toList = c :: cs ∧ (c = '-' ∨ c.isDigit) := by
  obtain ⟨c, cs, h, hc⟩ := Decimal.text_head (Decimal.ofInt n)
  exact ⟨c, cs, by rw [toString_int_eq, String.toList_ofList, h], hc⟩

theorem toString_int_injective : Function.Injective (toString : Int → String) := by
  intro a b h
  rw [toString_int_eq, toString_int_eq] at h
  have hvalue := congrArg amountOfText h
  rw [amountOfText_text, amountOfText_text] at hvalue
  exact congrArg Decimal.mant (Decimal.toRat_injective hvalue)

theorem sepFree_toString (n : Int) : SepFree (toString n) := by
  intro hmem
  rw [toString_int_eq, String.toList_ofList] at hmem
  rcases Decimal.mem_text hmem with h | h | h <;> revert h <;> decide

/-- An integer is no text of another value. -/
theorem toString_ne (n : Int) : toString n ≠ "" ∧ toString n ≠ "true" ∧ toString n ≠ "false" := by
  obtain ⟨c, cs, hcs, hc⟩ := toString_int_head n
  refine ⟨fun h => ?_, fun h => ?_, fun h => ?_⟩ <;> rw [h] at hcs
  · cases hcs
  · have hc' : c = 't' := (List.cons.inj hcs).1.symm
    rw [hc'] at hc
    revert hc
    decide
  · have hc' : c = 'f' := (List.cons.inj hcs).1.symm
    rw [hc'] at hc
    revert hc
    decide

/-- An escaped text is empty, or spells a truth value or an integer, as the text does. -/
theorem escapePart_eq {s t : String} (ht : ∀ c ∈ t.toList, c ≠ '\\' ∧ c ≠ '\x1f') (h : escapePart s = t) : s = t := by
  have hself : escapePart t = t := by
    rw [← String.toList_inj, toList_escapePart]
    have hcode : ∀ c ∈ t.toList, escapeCode c = [c] := fun c hc => by
      unfold escapeCode
      rw [if_neg (ht c hc).1, if_neg (ht c hc).2]
    rw [flatMap_congr hcode]
    simp
  exact escapePart_injective (h.trans hself.symm)

/-- A plain text is not spelled as another value. -/
theorem escapePart_plain {s : String} (h : Plain s) :
    escapePart s ≠ "" ∧ escapePart s ≠ "true" ∧ escapePart s ≠ "false" ∧ ∀ n : Int, escapePart s ≠ toString n := by
  obtain ⟨h1, h2, h3, h4⟩ := h
  refine ⟨fun he => h1 (escapePart_eq (by simp) he), fun he => h2 (escapePart_eq (by simp) he),
    fun he => h3 (escapePart_eq (by simp) he), fun n he => h4 n (escapePart_eq (fun c hc => ?_) he)⟩
  rw [toString_int_eq, String.toList_ofList] at hc
  rcases Decimal.mem_text hc with h | rfl | rfl
  · constructor <;> rintro rfl <;> revert h <;> decide
  · decide
  · decide

theorem keyPart_bool (b : Bool) : keyPart (.bool b) ≠ "" ∧ (keyPart (.bool b) = "true" ∨ keyPart (.bool b) = "false") := by
  cases b
  · exact ⟨by decide, .inr rfl⟩
  · exact ⟨by decide, .inl rfl⟩

theorem keyPart_inj {v w : AttrValue} (hv : ∀ s, v = .str s → Plain s) (hw : ∀ s, w = .str s → Plain s)
    (h : keyPart v = keyPart w) : v = w := by
  -- no value of one type is spelled as one of another
  have hnull : ∀ {x : AttrValue}, (∀ s, x = .str s → Plain s) → keyPart x = "" → x = .null := fun {x} hx he => by
    cases x with
    | null => rfl
    | bool b => exact absurd he (keyPart_bool b).1
    | int n => exact absurd he (toString_ne n).1
    | str s => exact absurd he (escapePart_plain (hx s rfl)).1
  have hbool : ∀ {x : AttrValue} {b : Bool}, (∀ s, x = .str s → Plain s) → keyPart x = keyPart (.bool b) →
      x = .bool b := fun {x b} hx he => by
    cases x with
    | null => exact absurd he.symm (keyPart_bool b).1
    | bool c =>
      revert he
      cases b <;> cases c <;> decide
    | int n =>
      rcases (keyPart_bool b).2 with hb | hb
      · exact absurd (he.trans hb) (toString_ne n).2.1
      · exact absurd (he.trans hb) (toString_ne n).2.2
    | str s =>
      rcases (keyPart_bool b).2 with hb | hb
      · exact absurd (he.trans hb) (escapePart_plain (hx s rfl)).2.1
      · exact absurd (he.trans hb) (escapePart_plain (hx s rfl)).2.2.1
  cases w with
  | null => exact hnull hv h
  | bool b => exact hbool hv h
  | int n =>
    cases v with
    | null => exact absurd h.symm (toString_ne n).1
    | bool b => exact (hbool hw h.symm).symm
    | int m => exact congrArg AttrValue.int (toString_int_injective h)
    | str s => exact absurd h ((escapePart_plain (hv s rfl)).2.2.2 n)
  | str t =>
    cases v with
    | null => exact (hnull hw h.symm).symm
    | bool b => exact (hbool hw h.symm).symm
    | int n => exact absurd h.symm ((escapePart_plain (hw t rfl)).2.2.2 n)
    | str s => exact congrArg AttrValue.str (escapePart_injective h)

theorem sepFree_keyPart (v : AttrValue) : SepFree (keyPart v) := by
  cases v with
  | null => unfold SepFree; decide
  | bool b => cases b <;> unfold SepFree <;> decide
  | int n => exact sepFree_toString n
  | str s => exact sep_not_mem_escapePart s

def attrPart (a : String × AttrValue) : String := a.1 ++ "=" ++ keyPart a.2

theorem toList_attrPart (a : String × AttrValue) :
    (attrPart a).toList = a.1.toList ++ '=' :: (keyPart a.2).toList := by
  unfold attrPart
  simp only [String.toList_append, append_assoc]
  rfl

theorem sepFree_attrPart {a : String × AttrValue} (h : Told a) : SepFree (attrPart a) := by
  unfold SepFree
  rw [toList_attrPart, mem_append, mem_cons]
  rintro (hc | hc | hc)
  · exact h.name.2 hc
  · exact absurd hc (by decide)
  · exact sepFree_keyPart a.2 hc

theorem attrPart_inj {a b : String × AttrValue} (ha : Told a) (hb : Told b) (h : attrPart a = attrPart b) : a = b := by
  rw [← String.toList_inj, toList_attrPart, toList_attrPart] at h
  obtain ⟨hname, hvalue⟩ := append_sep_inj ha.name.1 hb.name.1 h
  exact Prod.ext (String.toList_inj.mp hname) (keyPart_inj ha.value hb.value (String.toList_inj.mp hvalue))

/-- The parts of attributes give the attributes. -/
theorem attrParts_inj : ∀ {xs ys : List (String × AttrValue)}, (∀ x ∈ xs, Told x) → (∀ y ∈ ys, Told y) →
    xs.map attrPart = ys.map attrPart → xs = ys
  | [], [], _, _, _ => rfl
  | [], _ :: _, _, _, h => absurd h.symm (cons_ne_nil _ _)
  | _ :: _, [], _, _, h => absurd h (cons_ne_nil _ _)
  | x :: xs, y :: ys, hx, hy, h => by
    obtain ⟨hhead, htail⟩ := List.cons.inj h
    rw [attrPart_inj (hx x mem_cons_self) (hy y mem_cons_self) hhead,
      attrParts_inj (fun z hz => hx z (mem_cons_of_mem _ hz)) (fun z hz => hy z (mem_cons_of_mem _ hz)) htail]

/-! ### Keys -/

/-- The key of a licence gives its date, product and person, and its organisation or none. -/
theorem licenseKey_inj {a b : LicenseSnapshot} (ha : a.Valid) (hb : b.Valid) (h : licenseKey a = licenseKey b) :
    a.snapshotDate = b.snapshotDate ∧ a.product = b.product ∧ a.principal = b.principal ∧
      a.org.getD "" = b.org.getD "" := by
  have hfree : ∀ {l : LicenseSnapshot}, l.Valid → ∀ p ∈ [l.snapshotDate, escapePart l.product, l.principal,
      escapePart (l.org.getD "")], SepFree p := by
    intro l hl p hp
    simp only [LicenseSnapshot.Valid, Bool.and_eq_true] at hl
    simp only [mem_cons, not_mem_nil, or_false] at hp
    rcases hp with rfl | rfl | rfl | rfl
    · exact sepFree_date hl.1.1.1.1.1.1.1
    · exact sep_not_mem_escapePart _
    · exact sepFree_principal hl.1.1.1.1.1.2
    · exact sep_not_mem_escapePart _
  have hparts := parts_inj (hfree ha) (hfree hb) (cons_ne_nil _ _) (cons_ne_nil _ _) h
  simp only [List.cons.injEq, and_true] at hparts
  exact ⟨hparts.1, escapePart_injective hparts.2.1, hparts.2.2.1, escapePart_injective hparts.2.2.2⟩

theorem activityKey_inj {a b : ActivityDay} (ha : a.Valid) (hb : b.Valid) (h : activityKey a = activityKey b) :
    a.dateUtc = b.dateUtc ∧ a.product = b.product ∧ a.principal = b.principal := by
  have hfree : ∀ {d : ActivityDay}, d.Valid → ∀ p ∈ [d.dateUtc, escapePart d.product, d.principal], SepFree p := by
    intro d hd p hp
    simp only [ActivityDay.Valid, Bool.and_eq_true] at hd
    simp only [mem_cons, not_mem_nil, or_false] at hp
    rcases hp with rfl | rfl | rfl
    · exact sepFree_date hd.1.1.1.1.1.1
    · exact sep_not_mem_escapePart _
    · exact sepFree_principal hd.1.1.1.1.1.2
  have hparts := parts_inj (hfree ha) (hfree hb) (cons_ne_nil _ _) (cons_ne_nil _ _) h
  simp only [List.cons.injEq, and_true] at hparts
  exact ⟨hparts.1, escapePart_injective hparts.2.1, hparts.2.2⟩

theorem configKey_eq (c : ConfigSnapshot) : configKey c = "\x1f".intercalate
    ([c.kind, escapePart c.entityId, isoDate (utcDay c)] ++ (keyAttrs c).map attrPart) := by
  unfold configKey keyAttrs utcDay
  split <;> rfl

/-- The kinds of configurations hold no separator. -/
theorem sepFree_kind {kind : String} (h : kind ∈ configKinds) : SepFree kind := by
  have hall : ∀ kind ∈ configKinds, '\x1f' ∉ kind.toList := by decide
  exact hall kind h

theorem configKey_inj {a b : ConfigSnapshot} (ha : validConfig a) (hb : validConfig b)
    (hta : ∀ x ∈ keyAttrs a, Told x) (htb : ∀ x ∈ keyAttrs b, Told x) (h : configKey a = configKey b) :
    a.kind = b.kind ∧ a.entityId = b.entityId ∧ utcDay a = utcDay b ∧ keyAttrs a = keyAttrs b := by
  have hfree : ∀ {c : ConfigSnapshot}, validConfig c → (∀ x ∈ keyAttrs c, Told x) →
      ∀ p ∈ [c.kind, escapePart c.entityId, isoDate (utcDay c)] ++ (keyAttrs c).map attrPart, SepFree p := by
    intro c hc ht p hp
    simp only [validConfig, Bool.and_eq_true, decide_eq_true_eq] at hc
    rcases mem_append.mp hp with hp | hp
    · simp only [mem_cons, not_mem_nil, or_false] at hp
      rcases hp with rfl | rfl | rfl
      · exact sepFree_kind hc.1.1.1.1.2
      · exact sep_not_mem_escapePart _
      · exact sepFree_isoDate _
    · obtain ⟨x, hx, rfl⟩ := mem_map.mp hp
      exact sepFree_attrPart (ht x hx)
  rw [configKey_eq, configKey_eq] at h
  have hparts := parts_inj (hfree ha hta) (hfree hb htb) (cons_ne_nil _ _) (cons_ne_nil _ _) h
  simp only [cons_append, nil_append, List.cons.injEq] at hparts
  obtain ⟨hkind, hentity, hday, hattrs⟩ := hparts
  refine ⟨hkind, escapePart_injective hentity, isoDate_injective hday, ?_⟩
  exact attrParts_inj hta htb hattrs

def Record.Told : Record → Prop
  | .config c => ∀ x ∈ keyAttrs c, Seats.Told x
  | _ => True

def seatOf (org : Option String) : LicenseSnapshot :=
  ⟨"2026-09-01", "github_copilot", "business", "p_0123456789abcdef0123", none, none, org, none, none, "0-7", none,
    "unknown", none, 0, "github.copilot_seats"⟩

end TokenBill.Copilot.Seats
