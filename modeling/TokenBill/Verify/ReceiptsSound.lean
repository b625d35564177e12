import TokenBill.Verify.Receipts

/-!
# A signature covers exactly one receipt

The bytes that a signature covers tell receipts apart that are not the same JSON value, and the envelope of a signed
receipt carries it back: what the check admits is read from its canonical bytes, and the framing by length finds
the payload type and the body again.
-/

namespace TokenBill.Receipts

open General PyJson List Value

/-! ### What the check admits -/

/-- A JSON value of integers in range, strings, lists, and objects with ASCII keys. -/
inductive Plain : PyJson (List Nat) → Prop
  | int {n : Int} (h : n.natAbs ≤ maxInt) : Plain (.int n)
  | str (s : List Nat) : Plain (.str s)
  | list {items : List (PyJson (List Nat))} (h : ∀ v ∈ items, Plain v) : Plain (.list items)
  | dict {fields : Dict (List Nat)} (hkeys : ∀ f ∈ fields, isAscii f.1 = true) (h : ∀ f ∈ fields, Plain f.2) :
      Plain (.dict fields)

theorem jsonItems_eq (items : List Value) : jsonItems items = items.map Value.json := by
  induction items with
  | nil => rfl
  | cons v items ih => exact congrArg (v.json :: ·) ih

theorem jsonFields_eq (fields : List (Key × Value)) :
    jsonFields fields = fields.map fun f => (textOf f.1, f.2.json) := by
  induction fields with
  | nil => rfl
  | cons f fields ih => exact congrArg ((textOf f.1, f.2.json) :: ·) ih

theorem ofJsonItems_eq (items : List (PyJson (List Nat))) : ofJsonItems items = items.map ofJson := by
  induction items with
  | nil => rfl
  | cons v items ih => exact congrArg (ofJson v :: ·) ih

theorem ofJsonFields_eq (fields : Dict (List Nat)) :
    ofJsonFields fields = fields.map fun f => (Key.str f.1, ofJson f.2) := by
  induction fields with
  | nil => rfl
  | cons f fields ih => exact congrArg ((Key.str f.1, ofJson f.2) :: ·) ih

theorem json_ofJson (v : PyJson (List Nat)) : (ofJson v).json = v := by
  induction v using PyJson.induct with
  | null => rfl
  | bool b => rfl
  | int n => rfl
  | float x => rfl
  | str s => rfl
  | list items ih =>
    show PyJson.list (jsonItems (ofJsonItems items)) = _
    rw [jsonItems_eq, ofJsonItems_eq, map_map]
    exact congrArg _ ((map_congr_left ih).trans (map_id items))
  | dict fields ih =>
    show PyJson.dict (jsonFields (ofJsonFields fields)) = _
    rw [jsonFields_eq, ofJsonFields_eq, map_map]
    refine congrArg _ ((map_congr_left fun f hf => ?_).trans (map_id fields))
    exact congrArg (Prod.mk f.1) (ih f hf)

def HasKeys (fields : List (Key × Value)) : Prop := ∀ f ∈ fields, f.1 = .str (textOf f.1)

variable {depth : Nat} {items : List Value} {place : String} {fields : List (Key × Value)} {v : PyJson (List Nat)}

theorem checkItems_ok {i : Nat}
    (h : checkItems depth items i place = .ok ()) : ∀ v ∈ items, ∃ place, check depth v place = .ok () := by
  induction items generalizing i with
  | nil => exact fun _ hv => absurd hv not_mem_nil
  | cons v items ih =>
    unfold checkItems at h
    split at h
    · cases h
    · rename_i hv
      exact forall_mem_cons.mpr ⟨⟨_, hv⟩, ih h⟩

theorem checkFields_ok (h : checkFields depth fields place = .ok ()) :
    HasKeys fields ∧
      ∀ f ∈ fields, isAscii (textOf f.1) = true ∧ ∃ place, check depth f.2 place = .ok () := by
  induction fields with
  | nil => exact ⟨fun _ hf => absurd hf not_mem_nil, fun _ hf => absurd hf not_mem_nil⟩
  | cons f fields ih =>
    obtain ⟨k, v⟩ := f
    unfold checkFields at h
    split at h
    · cases h
    · split at h
      · rename_i hascii
        split at h
        · cases h
        · rename_i hv
          obtain ⟨hkeys, hfields⟩ := ih h
          exact ⟨forall_mem_cons.mpr ⟨rfl, hkeys⟩, forall_mem_cons.mpr ⟨⟨hascii, _, hv⟩, hfields⟩⟩
      · cases h

theorem plain_of_check {v : Value} (h : check depth v place = .ok ()) : Plain v.json ∧ nesting v.json ≤ depth := by
  have hlist : ∀ {items : List Value}, (∀ v ∈ items, ∀ {depth : Nat} {place : String},
      check depth v place = .ok () → Plain v.json ∧ nesting v.json ≤ depth) →
      ∀ {depth : Nat} {place : String},
        (if depth = 0 then .error .nesting else checkItems (depth - 1) items 0 place) = Except.ok () →
        Plain (.list (jsonItems items)) ∧ nesting (.list (jsonItems items)) ≤ depth := by
    intro items ih depth place h
    split at h
    · cases h
    · rename_i hdepth
      have hitems := checkItems_ok h
      rw [jsonItems_eq]
      refine ⟨.list (forall_mem_map.mpr fun v hv => ?_), ?_⟩
      · obtain ⟨place, hv'⟩ := hitems v hv
        exact (ih v hv hv').1
      · have hle : nestingItems (items.map Value.json) ≤ depth - 1 :=
          nestingItems_le.mpr (forall_mem_map.mpr fun v hv => by
            obtain ⟨place, hv'⟩ := hitems v hv
            exact (ih v hv hv').2)
        show nestingItems _ + 1 ≤ depth
        omega
  induction v using Value.induct generalizing depth place with
  | null => cases h
  | bool b => cases h
  | int n =>
    unfold check at h
    split at h
    · exact ⟨.int ‹_›, Nat.zero_le _⟩
    · cases h
  | float x => cases h
  | str s => exact ⟨.str s, Nat.zero_le _⟩
  | list items ih => exact hlist (fun v hv _ _ => ih v hv) h
  | tuple items ih => exact hlist (fun v hv _ _ => ih v hv) h
  | dict fields ih =>
    unfold check at h
    split at h
    · cases h
    · rename_i hdepth
      obtain ⟨-, hfields⟩ := checkFields_ok h
      show Plain (.dict (jsonFields fields)) ∧ _
      rw [show Value.json (.dict fields) = .dict (jsonFields fields) from rfl, jsonFields_eq]
      refine ⟨.dict (forall_mem_map.mpr fun f hf => (hfields f hf).1)
        (forall_mem_map.mpr fun f hf => ?_), ?_⟩
      · obtain ⟨-, place, hv⟩ := hfields f hf
        exact (ih f hf hv).1
      · have hle : nestingFields (fields.map fun f => (textOf f.1, f.2.json)) ≤ depth - 1 :=
          nestingFields_le.mpr (forall_mem_map.mpr fun f hf => by
            obtain ⟨-, place, hv⟩ := hfields f hf
            exact (ih f hf hv).2)
        show nestingFields _ + 1 ≤ depth
        omega
  | other => cases h

theorem checkItems_of_forall (h : ∀ v ∈ items, ∀ place, check depth v place = .ok ())
    (i : Nat) (place : String) : checkItems depth items i place = .ok () := by
  induction items generalizing i with
  | nil => rfl
  | cons v items ih =>
    unfold checkItems
    rw [h v mem_cons_self]
    exact ih (fun w hw => h w (mem_cons_of_mem _ hw)) (i + 1)

theorem checkFields_of_forall {fields : Dict (List Nat)}
    (h : ∀ f ∈ fields, isAscii f.1 = true ∧ ∀ place, check depth (ofJson f.2) place = .ok ()) (place : String) :
    checkFields depth (ofJsonFields fields) place = .ok () := by
  induction fields with
  | nil => rfl
  | cons f fields ih =>
    obtain ⟨k, v⟩ := f
    obtain ⟨hascii, hv⟩ := h _ mem_cons_self
    unfold ofJsonFields checkFields
    simp only [hascii, if_true, hv]
    exact ih fun g hg => h g (mem_cons_of_mem _ hg)

/-- The check admits what is plain and nests no deeper than the host recurses. -/
theorem check_ofJson (h : Plain v) (hdepth : nesting v ≤ depth) (place : String) :
    check depth (ofJson v) place = .ok () := by
  induction v using PyJson.induct generalizing depth place with
  | null => cases h
  | bool b => cases h
  | int n =>
    cases h with
    | int h => exact if_pos h
  | float x => cases h
  | str s => rfl
  | list items ih =>
    cases h with
    | list h =>
      have hdepth : nestingItems items + 1 ≤ depth := hdepth
      have hitems := nestingItems_le.mp (show nestingItems items ≤ depth - 1 by omega)
      show (if depth = 0 then _ else checkItems (depth - 1) (ofJsonItems items) 0 place) = _
      rw [if_neg (by omega), ofJsonItems_eq]
      exact checkItems_of_forall (forall_mem_map.mpr fun v hv place => ih v hv (h v hv) (hitems v hv) place) 0 place
  | dict fields ih =>
    cases h with
    | dict hkeys h =>
      have hdepth : nestingFields fields + 1 ≤ depth := hdepth
      have hfields := nestingFields_le.mp (show nestingFields fields ≤ depth - 1 by omega)
      show (if depth = 0 then _ else checkFields (depth - 1) (ofJsonFields fields) place) = _
      rw [if_neg (by omega)]
      exact checkFields_of_forall (fun f hf => ⟨hkeys f hf, fun place => ih f hf (h f hf) (hfields f hf) place⟩) place

theorem Plain.sorted (h : Plain v) : Plain v.sorted := by
  induction v using PyJson.induct with
  | null => cases h
  | bool b => cases h
  | int n => exact h
  | float x => cases h
  | str s => exact h
  | list items ih =>
    cases h with
    | list h =>
      refine .list fun w hw => ?_
      rw [sortedItems_eq] at hw
      obtain ⟨v, hv, rfl⟩ := mem_map.mp hw
      exact ih v hv (h v hv)
  | dict fields ih =>
    cases h with
    | dict hkeys h =>
      refine .dict (fun g hg => ?_) fun g hg => ?_
      · obtain ⟨f, hf, rfl⟩ := exists_of_mem_sorted hg
        exact hkeys f hf
      · obtain ⟨f, hf, rfl⟩ := exists_of_mem_sorted hg
        exact ih f hf (h f hf)

/-! ### Canonical bytes -/

theorem wellFormedItems_iff : wellFormedItems items = true ↔ ∀ v ∈ items, v.wellFormed = true := by
  induction items with
  | nil => simp [wellFormedItems]
  | cons v items ih => simp [wellFormedItems, ih]

theorem wellFormedFields_iff :
    wellFormedFields fields = true ↔
      ∀ f ∈ fields, Value.isText (textOf f.1) = true ∧ f.2.wellFormed = true := by
  induction fields with
  | nil => simp [wellFormedFields]
  | cons f fields ih => simp [wellFormedFields, ih]

theorem loneInItems_eq_false {items : List (PyJson (List Nat))} :
    loneInItems items = false ↔ ∀ v ∈ items, hasLoneSurrogate v = false := by
  induction items with
  | nil => simp [loneInItems]
  | cons v items ih => simp [loneInItems, ih]

theorem loneInFields_eq_false {fields : Dict (List Nat)} :
    loneInFields fields = false ↔ ∀ f ∈ fields, surrogateIn f.1 = false ∧ hasLoneSurrogate f.2 = false := by
  induction fields with
  | nil => simp [loneInFields]
  | cons f fields ih => simp [loneInFields, ih]

/-- A string that UTF-8 encodes is written as it is. -/
theorem escapes_of_text {s : List Nat} (htext : Value.isText s = true) (hlone : surrogateIn s = false) :
    ∀ n ∈ s, Escapes escapePlain n := by
  intro n hn
  have hn' := of_decide_eq_true (all_eq_true.mp htext n hn)
  have hlone' := of_decide_eq_false (Bool.eq_false_iff.mpr (any_eq_false.mp hlone n hn))
  refine escapes_plain ?_
  unfold IsScalar
  omega

/-- What the check admits is read back from its text. -/
theorem writable_of_plain {v : Value} (hwf : v.wellFormed = true) (hplain : Plain v.json)
    (hlone : hasLoneSurrogate v.json = false) : Writable escapePlain v.json := by
  have hlist : ∀ {items : List Value}, (∀ v ∈ items, v.wellFormed = true → Plain v.json →
      hasLoneSurrogate v.json = false → Writable escapePlain v.json) → wellFormedItems items = true →
      Plain (.list (jsonItems items)) → loneInItems (jsonItems items) = false →
      Writable escapePlain (.list (jsonItems items)) := by
    intro items ih hwf hplain hlone
    rw [jsonItems_eq] at hplain hlone ⊢
    cases hplain with
    | list hplain =>
      exact .list (forall_mem_map.mpr fun v hv => ih v hv (wellFormedItems_iff.mp hwf v hv)
        (hplain _ (mem_map_of_mem hv)) (loneInItems_eq_false.mp hlone _ (mem_map_of_mem hv)))
  induction v using Value.induct with
  | null => cases hplain
  | bool b => cases hplain
  | int n =>
    cases hplain with
    | int h =>
      have hlt : n.natAbs < 10 ^ 16 := Nat.lt_of_le_of_lt h (by decide)
      exact .int (Nat.le_trans (Decimal.length_digits_le (by decide) hlt) (by decide))
  | float x => cases hplain
  | str s => exact .str (escapes_of_text hwf hlone)
  | list items ih => exact hlist ih hwf hplain hlone
  | tuple items ih => exact hlist ih hwf hplain hlone
  | dict fields ih =>
    have hwf : (decide (fields.map fun f => textOf f.1).Nodup && wellFormedFields fields) = true := hwf
    rw [Bool.and_eq_true, decide_eq_true_eq] at hwf
    have hfields := wellFormedFields_iff.mp hwf.2
    have hplain : Plain (.dict (jsonFields fields)) := hplain
    have hlone : loneInFields (jsonFields fields) = false := hlone
    show Writable escapePlain (.dict (jsonFields fields))
    rw [jsonFields_eq] at hplain hlone ⊢
    have hlone := loneInFields_eq_false.mp hlone
    cases hplain with
    | dict hkeys hplain =>
      refine .dict ?_ (forall_mem_map.mpr fun f hf => ?_) (forall_mem_map.mpr fun f hf => ?_)
      · rw [map_map]
        exact hwf.1
      · exact escapes_of_text (hfields f hf).1 (hlone _ (mem_map_of_mem hf)).1
      · exact ih f hf (hfields f hf).2 (hplain _ (mem_map_of_mem hf)) (hlone _ (mem_map_of_mem hf)).2
  | other => cases hplain

/-- A value that is read back from its text has no surrogates. -/
theorem hasLoneSurrogate_of_writable {escape : Nat → List Char} (h : Writable escape v) :
    hasLoneSurrogate v = false := by
  have hstr : ∀ {s : List Nat}, (∀ n ∈ s, Escapes escape n) → surrogateIn s = false := fun h => by
    refine any_eq_false.mpr fun n hn hlone => ?_
    have hlone := of_decide_eq_true hlone
    have hescapes := (h n hn).1
    omega
  induction v using PyJson.induct with
  | null => rfl
  | bool b => rfl
  | int n => rfl
  | float x => rfl
  | str s =>
    cases h with
    | str h => exact hstr h
  | list items ih =>
    cases h with
    | list h => exact loneInItems_eq_false.mpr fun v hv => ih v hv (h v hv)
  | dict fields ih =>
    cases h with
    | dict hkeys hstrs h => exact loneInFields_eq_false.mpr fun f hf => ⟨hstr (hstrs f hf), ih f hf (h f hf)⟩

/-- What `canonical_bytes` accepts, and its bytes. -/
theorem canonicalBytes_eq_ok {v : Value} {bytes : List UInt8} (hwf : v.wellFormed = true)
    (h : canonicalBytes depth v = .ok bytes) :
    ∃ fields, v = .dict fields ∧ HasKeys fields ∧ Plain v.json ∧ nesting v.json ≤ depth ∧
      Writable escapePlain v.json ∧ bytes = utf8 (canonicalText v.json) := by
  unfold canonicalBytes at h
  split at h
  · rename_i fields
    split at h
    · cases h
    · rename_i hcheck
      split at h
      · cases h
      · rename_i hlone
        obtain ⟨hplain, hnesting⟩ := plain_of_check hcheck
        have hkeys : HasKeys fields := by
          unfold check at hcheck
          split at hcheck
          · cases hcheck
          · exact (checkFields_ok hcheck).1
        exact ⟨fields, rfl, hkeys, hplain, hnesting, writable_of_plain hwf hplain (Bool.eq_false_iff.mpr hlone),
          (Except.ok.inj h).symm⟩
  · cases h

theorem fromUtf8_utf8 (text : String) : fromUtf8 (utf8 text) = some text := by
  have hbytes : (⟨(utf8 text).toArray⟩ : ByteArray) = text.toByteArray := by
    unfold utf8
    rw [Array.toArray_toList]
  unfold fromUtf8 String.fromUTF8?
  rw [hbytes, dif_pos text.isValidUTF8]
  rfl

theorem utf8_injective : Function.Injective utf8 := fun a b h => by
  have hread := fromUtf8_utf8 a
  rw [h, fromUtf8_utf8] at hread
  exact (Option.some.inj hread).symm

theorem same_of_canonicalBytes {a b : Obj} {bytes : List UInt8}
    (ha : canonicalBytes depth a.value = .ok bytes) (hb : canonicalBytes depth b.value = .ok bytes) :
    Same a.value.json b.value.json := by
  obtain ⟨-, -, -, -, -, hwa, rfl⟩ := canonicalBytes_eq_ok a.wellFormed ha
  obtain ⟨-, -, -, -, -, hwb, heq⟩ := canonicalBytes_eq_ok b.wellFormed hb
  exact sorted_of_dumps_eq _ hwa hwb (String.ofList_injective (utf8_injective heq))

/-! ### What a signature covers -/

theorem isDigit_toNat {c : Char} (h : c.isDigit = true) : 48 ≤ c.toNat ∧ c.toNat ≤ 57 := by
  simp only [Char.isDigit, Bool.and_eq_true, decide_eq_true_eq] at h
  exact ⟨h.1, h.2⟩

theorem space_notMem_decimalBytes (n : Nat) : space ∉ decimalBytes n := by
  unfold decimalBytes
  intro hmem
  obtain ⟨c, hc, hspace⟩ := mem_map.mp hmem
  obtain ⟨hlow, hhigh⟩ := isDigit_toNat (Decimal.isDigit_of_mem_digits hc)
  have hval := congrArg UInt8.toNat hspace
  rw [UInt8.toNat_ofNat', Nat.mod_eq_of_lt (by omega)] at hval
  exact absurd hval (by show ¬c.toNat = 32; omega)

theorem decimalBytes_injective : Function.Injective decimalBytes := by
  intro m n h
  have hchars : ∀ k, (decimalBytes k).map (fun b => Char.ofNat b.toNat) = Decimal.digits k := fun k => by
    unfold decimalBytes
    rw [map_map]
    refine (map_congr_left fun c hc => ?_).trans (map_id _)
    obtain ⟨hlow, hhigh⟩ := isDigit_toNat (Decimal.isDigit_of_mem_digits hc)
    show Char.ofNat (UInt8.ofNat c.toNat).toNat = c
    rw [UInt8.toNat_ofNat', Nat.mod_eq_of_lt (by omega), Char.ofNat_toNat]
  have hdigits := congrArg (List.map fun b => Char.ofNat b.toNat) h
  rw [hchars, hchars] at hdigits
  rw [← Decimal.ofDigits_digits m, hdigits, Decimal.ofDigits_digits]

theorem pae_inj {t t' : String} {body body' : List UInt8} (h : pae t body = pae t' body') : t = t' ∧ body = body' := by
  obtain ⟨htype, hrest⟩ := frame_append_inj space_notMem_decimalBytes decimalBytes_injective
    (append_cancel_left h)
  have hrest : frame decimalBytes space body ++ [] = frame decimalBytes space body' ++ [] := by
    rw [(List.cons.inj hrest).2]
  exact ⟨utf8_injective htype, (frame_append_inj space_notMem_decimalBytes decimalBytes_injective hrest).1⟩

/-! ### The receipt of an envelope -/

local instance (priority := 2000) codesBEq : BEq (List Nat) := instBEqOfDecidableEq

theorem get_json (h : HasKeys fields) (name : String) :
    (get name fields).map Value.json = (jsonFields fields).lookup (codes name) := by
  induction fields with
  | nil => rfl
  | cons f fields ih =>
    obtain ⟨k, v⟩ := f
    have hk : k = .str (textOf k) := h _ mem_cons_self
    have ih := ih fun g hg => h g (mem_cons_of_mem _ hg)
    unfold get at ih ⊢
    unfold jsonFields
    rw [find?_cons, lookup_cons]
    by_cases heq : textOf k = codes name
    · have hkey : k = .str (codes name) := by rw [hk, heq]
      rw [decide_eq_true hkey, beq_iff_eq.mpr heq.symm]
      rfl
    · have hkey : k ≠ .str (codes name) := fun hcon => heq (by rw [hcon]; rfl)
      rw [decide_eq_false hkey, beq_eq_false_iff_ne.mpr (Ne.symm heq)]
      exact ih

theorem get_ofJsonFields (fields : Dict (List Nat)) (name : String) :
    get name (ofJsonFields fields) = (fields.lookup (codes name)).map ofJson := by
  induction fields with
  | nil => rfl
  | cons f fields ih =>
    obtain ⟨k, v⟩ := f
    unfold get at ih ⊢
    unfold ofJsonFields
    rw [find?_cons, lookup_cons]
    by_cases heq : k = codes name
    · rw [decide_eq_true (show Key.str k = .str (codes name) by rw [heq]), beq_iff_eq.mpr heq.symm]
      rfl
    · rw [decide_eq_false (show Key.str k ≠ .str (codes name) from fun hcon => heq (Key.str.inj hcon)),
        beq_eq_false_iff_ne.mpr (Ne.symm heq)]
      exact ih

/-- What is read under a name from members in order that were read. -/
theorem get_read (h : HasKeys fields) (hnodup : ((jsonFields fields).map Prod.fst).Nodup) (name : String) :
    get name (ofJsonFields (sortMembers (sortedFields (jsonFields fields)))) =
      (get name fields).map fun v => ofJson v.json.sorted := by
  have hperm : (sortedFields (jsonFields fields)).Perm (sortMembers (sortedFields (jsonFields fields))) :=
    (sortMembers_perm _).symm
  rw [get_ofJsonFields, ← lookup_perm hperm (by rwa [keys_sortedFields]), sortedFields_eq, lookup_map_value,
    ← get_json h, Option.map_map, Option.map_map]
  rfl

/-- A receipt is one still after it was written and read. -/
theorem predicateOf_read (h : HasKeys fields)
    (hnodup : ((jsonFields fields).map Prod.fst).Nodup) {pred : List (Key × Value)}
    (hpred : predicateOf (.dict fields) = .ok pred) :
    ∃ pred', predicateOf (ofJson (Value.json (.dict fields)).sorted) = .ok pred' := by
  have hget := get_read h hnodup
  unfold predicateOf at hpred
  simp only at hpred
  split at hpred
  · rename_i htype hdict
    have htype' : isStr (get "_type" (ofJsonFields (sortMembers (sortedFields (jsonFields fields))))) receiptType =
        true := by
      rw [hget]
      cases hv : get "_type" fields with
      | none =>
        rw [hv] at htype
        cases htype
      | some v =>
        rw [hv] at htype
        cases v with
        | str s => exact htype
        | _ => cases htype
    have hdict' : get "predicate" (ofJsonFields (sortMembers (sortedFields (jsonFields fields)))) =
        some (ofJson (Value.json (.dict pred)).sorted) := by
      rw [hget, hdict, Except.ok.inj hpred]
      rfl
    refine ⟨ofJsonFields (sortMembers (sortedFields (jsonFields pred))), ?_⟩
    change predicateOf (.dict (ofJsonFields (sortMembers (sortedFields (jsonFields fields))))) = _
    unfold predicateOf
    dsimp only
    rw [htype', hdict']
    rfl
  · cases hpred

theorem isAscii_codes {s : String} (h : ∀ c ∈ s.toList, c.toNat < 128) : isAscii (codes s) = true :=
  all_eq_true.mpr fun n hn => by
    obtain ⟨c, hc, rfl⟩ := mem_map.mp hn
    exact decide_eq_true (h c hc)

theorem ofNat_codes (s : String) : (codes s).map Char.ofNat = s.toList := by
  unfold codes
  rw [map_map]
  exact (map_congr_left fun c _ => Char.ofNat_toNat c).trans (map_id _)

theorem b64_b64encode (body : List UInt8) : b64 (.str (codes (b64encode body))) = some body := by
  have htext : (b64encode body).toList = Base64.encode body := String.toList_ofList
  have hascii : isAscii (codes (b64encode body)) = true :=
    isAscii_codes fun c hc => Base64.ascii_encode c (htext ▸ hc)
  unfold b64
  simp only
  rw [if_pos hascii, ofNat_codes, htext, Base64.decode_encode]

theorem predicateOf_of_reasons {receipt : Value} {reasons : List Refusal} (h : refusalReasons receipt = .ok reasons) :
    ∃ pred, predicateOf receipt = .ok pred := by
  unfold refusalReasons at h
  split at h
  · cases h
  · exact ⟨_, ‹_›⟩

/-- An object that was written and read has the canonical bytes it was read from. -/
theorem canonicalBytes_read (hplain : Plain (Value.json (.dict fields)))
    (hnesting : nesting (Value.json (.dict fields)) ≤ depth)
    (hwritable : Writable escapePlain (Value.json (.dict fields))) :
    canonicalBytes depth (ofJson (Value.json (.dict fields)).sorted) =
      .ok (utf8 (canonicalText (Value.json (.dict fields)))) := by
  have hcheck := check_ofJson hplain.sorted (show nesting (Value.json (.dict fields)).sorted ≤ depth by
    rwa [nesting_sorted]) "$"
  have hlone := hasLoneSurrogate_of_writable hwritable.sorted
  have htext : canonicalText (Value.json (.dict fields)).sorted = canonicalText (Value.json (.dict fields)) := by
    unfold canonicalText dumps
    rw [sorted_sorted]
  have hdict : ofJson (Value.json (.dict fields)).sorted =
      .dict (ofJsonFields (sortMembers (sortedFields (jsonFields fields)))) := rfl
  have hjson : (Value.dict (ofJsonFields (sortMembers (sortedFields (jsonFields fields))))).json =
      (Value.json (.dict fields)).sorted := json_ofJson (Value.json (.dict fields)).sorted
  rw [hdict] at hcheck ⊢
  unfold canonicalBytes
  dsimp only
  rw [hcheck, hjson, hlone, htext]
  rfl

theorem envelopeReceipt_sign {hooks : Hooks} {signer : Signer} {receipt : Obj} {envelope : Envelope}
    (h : sign depth signer receipt.value = .ok envelope) :
    ∃ carried, envelopeReceipt hooks depth envelope = .ok carried ∧ Same carried.json receipt.value.json ∧
      canonicalBytes depth carried = canonicalBytes depth receipt.value := by
  obtain ⟨value, hwf⟩ := receipt
  unfold sign at h
  obtain ⟨reasons, hreasons, h⟩ := bind_eq_ok.mp h
  split at h
  · cases h
  · obtain ⟨body, hbody, h⟩ := bind_eq_ok.mp h
    split at h
    · cases h
    · split at h
      · cases h
      · obtain ⟨fields, rfl, hkeys, hplain, hnesting, hwritable, rfl⟩ := canonicalBytes_eq_ok hwf hbody
        obtain ⟨pred, hpred⟩ := predicateOf_of_reasons hreasons
        have hnodup : ((jsonFields fields).map Prod.fst).Nodup := by
          cases hwritable with
          | dict hnodup => exact hnodup
        obtain ⟨pred', hpred'⟩ := predicateOf_read hkeys hnodup hpred
        have hload := loadsWith_dumps (fun _ => []) hooks hwritable hnesting
        refine ⟨ofJson (Value.json (.dict fields)).sorted, ?_, ?_, (canonicalBytes_read hplain hnesting hwritable).trans
          hbody.symm⟩
        · cases h
          unfold envelopeReceipt
          rw [b64_b64encode]
          simp only [fromUtf8_utf8, Option.bind_some]
          rw [show (canonicalText (Value.json (.dict fields))).toList = _ from String.toList_ofList, hload]
          exact congrArg (Except.map _) hpred'
        · rw [json_ofJson]
          exact same_sorted _

/-- The bytes that a signature covers are equal only for receipts that are the same JSON value, and tell the payload
type and the body apart in general; the envelope of a signed receipt carries that receipt, with its canonical bytes and
its id. -/
theorem signature_covers_one_receipt (hooks : Hooks) (depth : Nat) (signer : Signer) (h : Hashes)
    (sha256 : List UInt8 → String) :
    (∀ (a b : Obj) (bytes bytes' : List UInt8), canonicalBytes depth a.value = .ok bytes →
      canonicalBytes depth b.value = .ok bytes' → pae payloadType bytes = pae payloadType bytes' →
      Same a.value.json b.value.json) ∧
    (∀ (t t' : String) (body body' : List UInt8), pae t body = pae t' body' → t = t' ∧ body = body') ∧
    ∀ (receipt : Obj) (envelope : Envelope), sign depth signer receipt.value = .ok envelope →
      ∃ carried, envelopeReceipt hooks depth envelope = .ok carried ∧ Same carried.json receipt.value.json ∧
        canonicalBytes depth carried = canonicalBytes depth receipt.value ∧
        receiptId h sha256 depth carried = receiptId h sha256 depth receipt.value := by
  refine ⟨fun a b bytes bytes' ha hb hpae => ?_, fun _ _ _ _ hpae => pae_inj hpae, fun receipt envelope hsign => ?_⟩
  · obtain ⟨-, rfl⟩ := pae_inj hpae
    exact same_of_canonicalBytes ha hb
  · obtain ⟨carried, hcarried, hsame, hbytes⟩ := envelopeReceipt_sign hsign
    refine ⟨carried, hcarried, hsame, hbytes, ?_⟩
    unfold receiptId
    rw [hbytes]

def plainHooks : Hooks := ⟨fun _ => none, fun _ => none⟩

def sampleSigner : Signer := ⟨true, "SHA256:key", fun bytes => some (bytes.take 3)⟩

def sampleHashes : Hashes := ⟨id, fun key value => key ++ value, id⟩

def member (name : String) (v : Value) : Key × Value := (.str (codes name), v)

/-- A receipt with a tuple in it. -/
def sampleReceipt : Obj where
  value := .dict [member "_type" (.str (codes receiptType)),
    member "predicate" (.dict [member "label" (.str (codes "measured")),
      member "reconciliation_verdict" (.str (codes "reconciled")), member "basis" (.str (codes "list")),
      member "estimate_usd_micro" (.int (-12)), member "adjustments" (.tuple [.str (codes "é\"")]),
      member "signable" (.str (codes "true"))])]
  wellFormed := by decide

theorem sampleReceipt_carried :
    ∃ envelope carried, sign 40 sampleSigner sampleReceipt.value = .ok envelope ∧
      envelopeReceipt plainHooks 40 envelope = .ok carried ∧ Same carried.json sampleReceipt.value.json := by
  have hsigned : (sign 40 sampleSigner sampleReceipt.value).toOption.isSome = true := by decide
  cases hsign : sign 40 sampleSigner sampleReceipt.value with
  | error e =>
    rw [hsign] at hsigned
    cases hsigned
  | ok envelope =>
    obtain ⟨carried, hcarried, hsame, -⟩ :=
      (signature_covers_one_receipt plainHooks 40 sampleSigner sampleHashes fun _ => "").2.2 sampleReceipt envelope hsign
    exact ⟨envelope, carried, rfl, hcarried, hsame⟩

end TokenBill.Receipts
