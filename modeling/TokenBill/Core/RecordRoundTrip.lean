import TokenBill.Core.RecordCodec
import TokenBill.General.Lists

/-!
# What `to_json` writes, `from_json` reads back

A value fits an annotation when its type says so and every record in it came out of its constructor.
For a schema whose unions can be told apart by the shape of the document (`Hint.unambiguous`) and
whose constructors leave alone what they have built, the document of every such value is decoded to
the same value (`roundTrips`).
-/

namespace TokenBill.Codec

open General List

variable {C E : Type}

/-! ### The shapes of documents -/

/-- The kinds of documents. -/
inductive Shape where
  | null
  | bool
  | int
  | str
  | arr
  | obj
  deriving DecidableEq

/-- The kind of a document. -/
def shape : Json → Shape
  | .null => .null
  | .bool _ => .bool
  | .int _ => .int
  | .str _ => .str
  | .arr _ => .arr
  | .obj _ => .obj

def EnumValue.shape : EnumValue → Shape
  | .text _ => .str
  | .number _ => .int

/-- The kinds of documents that may stand for the values of an annotation. -/
def Hint.shapes (S : Schema C E) : Hint C E → List Shape
  | .none => [.null]
  | .bool => [.bool]
  | .int => [.int]
  | .str => [.str]
  | .decimal => [.str]
  | .enum e => (S.values e).map EnumValue.shape
  | .variadic _ => [.arr]
  | .fixed _ => [.arr]
  | .list _ => [.arr]
  | .frozenset => [.arr]
  | .dict _ => [.obj]
  | .record _ => [.obj]
  | .union _ _ => [.null, .bool, .int, .str, .arr, .obj]

/-- The kinds of documents that are taken for values of an annotation. -/
def Hint.accepts (S : Schema C E) : Hint C E → List Shape
  | .decimal => [.str, .int]
  | .enum e => if (S.values e).any (fun v => v.shape == .int) then [.str, .int, .bool] else [.str]
  | .union _ _ => []
  | h => h.shapes S

def separated (S : Schema C E) : List (Hint C E) → Bool
  | [] => true
  | a :: arms => arms.all (fun b => (b.shapes S).all fun s => s ∉ a.accepts S) && separated S arms

mutual

/-- Whether the arms of every union can be told apart. -/
def Hint.unambiguous (S : Schema C E) : Hint C E → Bool
  | .variadic item => item.unambiguous S
  | .fixed items => allUnambiguous S items
  | .list item => item.unambiguous S
  | .dict value => value.unambiguous S
  | .union arms _ => allUnambiguous S arms && arms.all (fun a => .null ∉ a.shapes S) &&
      (arms.length == 1 || arms.all Hint.isPrimitive || separated S arms)
  | _ => true

def Hint.allUnambiguous (S : Schema C E) : List (Hint C E) → Bool
  | [] => true
  | h :: hs => h.unambiguous S && allUnambiguous S hs

end

theorem Hint.allUnambiguous_eq (S : Schema C E) (hints : List (Hint C E)) :
    Hint.allUnambiguous S hints = hints.all (Hint.unambiguous S) := by
  induction hints with
  | nil => rfl
  | cons h hs ih => rw [Hint.allUnambiguous, ih, all_cons]

/-! ### Values that fit -/

/-- A value of an annotation, each record in it as its constructor left it. -/
inductive Typed (S : Schema C E) (construct : Construct C E) : Hint C E → Val C E → Prop
  | none : Typed S construct .none .none
  | bool (b : Bool) : Typed S construct .bool (.bool b)
  | int (n : Int) : Typed S construct .int (.int n)
  | str (s : String) : Typed S construct .str (.str s)
  | decimal {d : DecimalTuple} (hd : Representable d) : Typed S construct .decimal (.decimal (.finite d))
  | enum {e : E} {value : EnumValue} (hvalue : value ∈ S.values e) : Typed S construct (.enum e) (.member e value)
  | variadic {item : Hint C E} {vs : List (Val C E)} (hvs : ∀ v ∈ vs, Typed S construct item v) :
      Typed S construct (.variadic item) (.tuple vs)
  | fixed {hints : List (Hint C E)} {vs : List (Val C E)} (hlen : hints.length = vs.length)
      (hvs : ∀ p ∈ hints.zip vs, Typed S construct p.1 p.2) : Typed S construct (.fixed hints) (.tuple vs)
  | list {item : Hint C E} {vs : List (Val C E)} (hvs : ∀ v ∈ vs, Typed S construct item v) :
      Typed S construct (.list item) (.list vs)
  | frozenset (items : Finset String) : Typed S construct .frozenset (.frozenset items)
  | dict {value : Hint C E} {es : List (String × Val C E)} (hkeys : (es.map (·.1)).Nodup)
      (hes : ∀ e ∈ es, Typed S construct value e.2) : Typed S construct (.dict value) (.dict es)
  | null (arms : List (Hint C E)) : Typed S construct (.union arms true) .none
  | arm {arms : List (Hint C E)} {nullable : Bool} {a : Hint C E} {v : Val C E} (ha : a ∈ arms)
      (hv : Typed S construct a v) : Typed S construct (.union arms nullable) v
  | record {c : C} {given vs : List (Val C E)} (hbuilt : construct c given = .ok vs)
      (hlen : (S.fields c).length = vs.length)
      (hvs : ∀ p ∈ (S.fields c).zip vs, Typed S construct p.1.hint p.2) :
      Typed S construct (.record c) (.record c vs)

/-- The default of an appended field: nothing equals it but itself. -/
def Field.plainDefault (f : Field C E) : Bool :=
  match f.default, f.hint with
  | some .none, _ => true
  | some (.tuple []), _ => true
  | some (.list []), _ => true
  | some (.str _), .str => true
  | _, _ => false

/-- A schema that `from_json` can read. -/
structure Schema.Readable (S : Schema C E) : Prop where
  names : ∀ c, ((S.fields c).map Field.name).Nodup
  hints : ∀ c, ∀ f ∈ S.fields c, f.hint.unambiguous S = true
  defaults : ∀ c, ∀ f ∈ S.fields c, f.appended = true → f.plainDefault = true

/-! ### Defaults that are left out -/

variable [DecidableEq C] {S : Schema C E} {construct : Construct C E}

variable {vs : List (Val C E)} {v : Val C E} {j : Json} {h a : Hint C E} {c : C}
  {decRecord : C → Json → Except Failure (Val C E)} {arms : List (Hint C E)}

theorem pyEqItems_nil (h : Val.pyEqItems vs [] = true) : vs = [] := by
  cases vs with
  | nil => rfl
  | cons v vs => exact absurd (h : false = true) Bool.false_ne_true

theorem eq_none_of_pyEq (h : v.pyEq .none = true) : v = .none := by
  cases v with
  | none => rfl
  | member e value => cases value <;> exact absurd (h : false = true) Bool.false_ne_true
  | decimal d => cases d <;> exact absurd (h : false = true) Bool.false_ne_true
  | _ => exact absurd (h : false = true) Bool.false_ne_true

theorem eq_tuple_of_pyEq (h : v.pyEq (.tuple []) = true) : v = .tuple [] := by
  cases v with
  | tuple vs => exact congrArg Val.tuple (pyEqItems_nil h)
  | member e value => cases value <;> exact absurd (h : false = true) Bool.false_ne_true
  | decimal d => cases d <;> exact absurd (h : false = true) Bool.false_ne_true
  | _ => exact absurd (h : false = true) Bool.false_ne_true

theorem eq_list_of_pyEq (h : v.pyEq (.list []) = true) : v = .list [] := by
  cases v with
  | list vs => exact congrArg Val.list (pyEqItems_nil h)
  | member e value => cases value <;> exact absurd (h : false = true) Bool.false_ne_true
  | decimal d => cases d <;> exact absurd (h : false = true) Bool.false_ne_true
  | _ => exact absurd (h : false = true) Bool.false_ne_true

theorem eq_of_pyEq_str {s t : String} (h : (Val.str s : Val C E).pyEq (.str t) = true) : s = t :=
  beq_iff_eq.mp (h : (s == t) = true)

/-- A value that is left out is the default that is put back. -/
theorem default_of_omits {f : Field C E} (hf : f.appended = true → f.plainDefault = true)
    (hv : Typed S construct f.hint v) (h : f.omits v = true) : f.default = some v := by
  obtain ⟨happ, heq⟩ := (Bool.and_eq_true _ _).mp h
  have hplain := hf happ
  obtain ⟨name, hint, default, appended⟩ := f
  unfold Field.plainDefault at hplain
  dsimp only at hplain
  split at hplain
  · rw [eq_none_of_pyEq heq]
  · rw [eq_tuple_of_pyEq heq]
  · rw [eq_list_of_pyEq heq]
  · cases hv with
    | str t => rw [eq_of_pyEq_str heq]
  · cases hplain

/-! ### Unions -/

omit [DecidableEq C] in
theorem accepts_enum (S : Schema C E) (e : E) : (Hint.enum e : Hint C E).accepts S =
    if (S.values e).any (fun v => v.shape == .int) then [.str, .int, .bool] else [.str] := rfl

omit [DecidableEq C] in
theorem memberOf_shape {e : E} (h : (memberOf S e j).isSome) : shape j ∈ (Hint.enum e : Hint C E).accepts S := by
  have hnumber : ∀ n : Int, EnumValue.number n ∈ S.values e →
      (Hint.enum e : Hint C E).accepts S = [.str, .int, .bool] := fun n hn => by
    rw [accepts_enum, if_pos (any_eq_true.mpr ⟨_, hn, rfl⟩)]
  unfold memberOf at h
  cases j with
  | str s =>
    rw [accepts_enum]
    dsimp only [shape]
    split_ifs <;> simp
  | int n =>
    dsimp only at h
    by_cases hn : EnumValue.number n ∈ S.values e
    · rw [hnumber n hn]
      simp [shape]
    · rw [if_neg hn] at h
      cases h
  | bool b =>
    dsimp only at h
    by_cases hn : EnumValue.number (if b then 1 else 0) ∈ S.values e
    · rw [hnumber _ hn]
      simp [shape]
    · rw [if_neg hn] at h
      cases h
  | _ => cases h

omit [DecidableEq C] in
/-- A document that matches an annotation is of a kind that the annotation takes. -/
theorem shape_of_jsonMatches (hm : jsonMatches S h j = true) : shape j ∈ h.accepts S := by
  cases h with
  | enum e => exact memberOf_shape (by cases j <;> simpa [jsonMatches] using hm)
  | _ => cases j <;> simp_all [jsonMatches, shape, Hint.accepts, Hint.shapes]

/-- The document of a value is of a kind of its annotation. -/
theorem shape_of_enc (hv : Typed S construct h v) (hj : enc S v = .ok j) : shape j ∈ h.shapes S := by
  cases hv with
  | none => cases hj; exact mem_singleton.mpr rfl
  | bool b => cases hj; exact mem_singleton.mpr rfl
  | int n => cases hj; exact mem_singleton.mpr rfl
  | str s => cases hj; exact mem_singleton.mpr rfl
  | decimal hd => cases hj; exact mem_singleton.mpr rfl
  | @enum e value hvalue =>
    cases hj
    refine mem_map.mpr ⟨value, hvalue, ?_⟩
    cases value <;> rfl
  | variadic hvs =>
    obtain ⟨js, -, hjs⟩ := bind_eq_ok.mp hj
    cases hjs
    exact mem_singleton.mpr rfl
  | fixed hlen hvs =>
    obtain ⟨js, -, hjs⟩ := bind_eq_ok.mp hj
    cases hjs
    exact mem_singleton.mpr rfl
  | list hvs =>
    obtain ⟨js, -, hjs⟩ := bind_eq_ok.mp hj
    cases hjs
    exact mem_singleton.mpr rfl
  | frozenset items => cases hj; exact mem_singleton.mpr rfl
  | dict hkeys hes =>
    obtain ⟨js, -, hjs⟩ := bind_eq_ok.mp hj
    cases hjs
    exact mem_singleton.mpr rfl
  | record hbuilt hlen hvs =>
    obtain ⟨js, -, hjs⟩ := bind_eq_ok.mp hj
    cases hjs
    exact mem_singleton.mpr rfl
  | null arms => cases j <;> simp [Hint.shapes, shape]
  | arm ha hv => cases j <;> simp [Hint.shapes, shape]

/-! ### One level of the round trip -/

/-- A value has a document, and every decoder of enough depth reads it back. -/
def RoundTrips (S : Schema C E) (construct : Construct C E) (h : Hint C E) (v : Val C E) : Prop :=
  ∃ j, enc S v = .ok j ∧ ∀ n, depth j ≤ n → decode S (decodeRecord S construct n) h j = .ok v

theorem encItems_roundTrips {item : Hint C E} (h : ∀ v ∈ vs, RoundTrips S construct item v) :
    ∃ js, encItems S vs = .ok js ∧ ∀ n, depthItems js ≤ n →
      js.mapM (fun j => decode S (decodeRecord S construct n) item j) = .ok vs := by
  induction vs with
  | nil => exact ⟨[], rfl, fun n _ => rfl⟩
  | cons v vs ih =>
    obtain ⟨⟨j, hj, hdec⟩, hrest⟩ := forall_mem_cons.mp h
    obtain ⟨js, hjs, hmap⟩ := ih hrest
    refine ⟨j :: js, bind_eq_ok.mpr ⟨j, hj, bind_eq_ok.mpr ⟨js, hjs, rfl⟩⟩, fun n hn => ?_⟩
    have hdepth : max (depth j) (depthItems js) ≤ n := hn
    rw [mapM_cons]
    exact bind_eq_ok.mpr ⟨v, hdec n (le_trans (le_max_left _ _) hdepth),
      bind_eq_ok.mpr ⟨vs, hmap n (le_trans (le_max_right _ _) hdepth), rfl⟩⟩

theorem encEach_roundTrips {hints : List (Hint C E)} (hlen : hints.length = vs.length)
    (h : ∀ p ∈ hints.zip vs, RoundTrips S construct p.1 p.2) :
    ∃ js, encItems S vs = .ok js ∧ js.length = hints.length ∧ ∀ n, depthItems js ≤ n →
      decodeEach S (decodeRecord S construct n) hints js = .ok vs := by
  induction vs generalizing hints with
  | nil =>
    obtain rfl := eq_nil_of_length_eq_zero hlen
    exact ⟨[], rfl, rfl, fun n _ => rfl⟩
  | cons v vs ih =>
    cases hints with
    | nil => cases hlen
    | cons hint hints =>
      obtain ⟨⟨j, hj, hdec⟩, hrest⟩ := forall_mem_cons.mp h
      obtain ⟨js, hjs, hl, hmap⟩ := ih (Nat.succ.inj hlen) hrest
      refine ⟨j :: js, bind_eq_ok.mpr ⟨j, hj, bind_eq_ok.mpr ⟨js, hjs, rfl⟩⟩, congrArg Nat.succ hl, fun n hn => ?_⟩
      have hdepth : max (depth j) (depthItems js) ≤ n := hn
      exact bind_eq_ok.mpr ⟨v, hdec n (le_trans (le_max_left _ _) hdepth),
        bind_eq_ok.mpr ⟨vs, hmap n (le_trans (le_max_right _ _) hdepth), rfl⟩⟩

theorem encEntries_roundTrips {value : Hint C E} {es : List (String × Val C E)}
    (h : ∀ e ∈ es, RoundTrips S construct value e.2) :
    ∃ ms, encEntries S es = .ok ms ∧ ∀ n, depthFields ms ≤ n →
      ms.mapM (fun m => do .ok (m.1, ← decode S (decodeRecord S construct n) value m.2)) = .ok es := by
  induction es with
  | nil => exact ⟨[], rfl, fun n _ => rfl⟩
  | cons e es ih =>
    obtain ⟨⟨j, hj, hdec⟩, hrest⟩ := forall_mem_cons.mp h
    obtain ⟨ms, hms, hmap⟩ := ih hrest
    refine ⟨(e.1, j) :: ms, bind_eq_ok.mpr ⟨j, hj, bind_eq_ok.mpr ⟨ms, hms, rfl⟩⟩, fun n hn => ?_⟩
    have hdepth : max (depth j) (depthFields ms) ≤ n := hn
    rw [mapM_cons]
    exact bind_eq_ok.mpr ⟨e, bind_eq_ok.mpr ⟨e.2, hdec n (le_trans (le_max_left _ _) hdepth), rfl⟩,
      bind_eq_ok.mpr ⟨es, hmap n (le_trans (le_max_right _ _) hdepth), rfl⟩⟩

/-! ### Records -/

theorem depth_le_of_lookup {ms : List (String × Json)} {k : String} (h : ms.lookup k = some j) :
    depth j ≤ depthFields ms := by
  induction ms with
  | nil => cases h
  | cons m ms ih =>
    rw [lookup_cons] at h
    split at h
    · cases h
      exact le_max_left _ _
    · exact le_trans (ih h) (le_max_right _ _)

/-- The members of a record's document: under the name of each field the document of its value, or
nothing where the value is the default. -/
theorem encFields_spec {fs : List (Field C E)} (hlen : fs.length = vs.length)
    (hnames : (fs.map Field.name).Nodup) (h : ∀ p ∈ fs.zip vs, ∃ j, enc S p.2 = .ok j) :
    ∃ ms, encFields S fs vs = .ok ms ∧ (∀ m ∈ ms, m.1 ∈ fs.map Field.name) ∧
      ∀ p ∈ fs.zip vs, (p.1.omits p.2 = true ∧ ms.lookup p.1.name = none) ∨
        ∃ j, enc S p.2 = .ok j ∧ ms.lookup p.1.name = some j := by
  induction vs generalizing fs with
  | nil =>
    obtain rfl := eq_nil_of_length_eq_zero hlen
    exact ⟨[], rfl, fun m hm => absurd hm not_mem_nil, fun p hp => absurd hp not_mem_nil⟩
  | cons v vs ih =>
    cases fs with
    | nil => cases hlen
    | cons f fs =>
      obtain ⟨⟨j, hj⟩, hrest⟩ := forall_mem_cons.mp h
      obtain ⟨hf, hnames⟩ := nodup_cons.mp hnames
      obtain ⟨ms, hms, hkeys, hlook⟩ := ih (Nat.succ.inj hlen) hnames hrest
      have hfresh : ms.lookup f.name = none := by
        rw [lookup_eq_none_iff]
        intro m hm
        simpa using fun hne : f.name = m.1 => hf (hne ▸ hkeys m hm)
      by_cases homit : f.omits v = true
      · refine ⟨ms, by rw [encFields, if_pos homit, hms], fun m hm => mem_cons_of_mem _ (hkeys m hm), ?_⟩
        rw [zip_cons_cons]
        exact forall_mem_cons.mpr ⟨.inl ⟨homit, hfresh⟩, hlook⟩
      · refine ⟨(f.name, j) :: ms, ?_, ?_, ?_⟩
        · rw [encFields, if_neg homit]
          exact bind_eq_ok.mpr ⟨j, hj, bind_eq_ok.mpr ⟨ms, hms, rfl⟩⟩
        · exact forall_mem_cons.mpr
            ⟨mem_cons_self, fun m hm => mem_cons_of_mem _ (hkeys m hm)⟩
        · rw [zip_cons_cons]
          refine forall_mem_cons.mpr ⟨.inr ⟨j, hj, lookup_cons_self⟩, fun p hp => ?_⟩
          have hne : p.1.name ≠ f.name := fun hne => hf (hne ▸ mem_map_of_mem (of_mem_zip hp).1)
          rw [lookup_cons, beq_false_of_ne hne]
          exact hlook p hp

omit [DecidableEq C] in
/-- The decoders of the fields give the values back. -/
theorem mapM_decodeField {fs : List (Field C E)} {ms : List (String × Json)} (hlen : fs.length = vs.length)
    (h : ∀ p ∈ fs.zip vs, decodeField S decRecord c ms p.1 = .ok p.2) :
    fs.mapM (decodeField S decRecord c ms) = .ok vs := by
  rw [mapM_eq_ok]
  exact forall₂_iff_zip.mpr ⟨hlen, fun hp => h _ hp⟩

theorem roundTrips_record (hS : S.Readable) (hbuilt : construct c vs = .ok vs)
    (hlen : (S.fields c).length = vs.length) (htyped : ∀ p ∈ (S.fields c).zip vs, Typed S construct p.1.hint p.2)
    (h : ∀ p ∈ (S.fields c).zip vs, RoundTrips S construct p.1.hint p.2) :
    RoundTrips S construct (.record c) (.record c vs) := by
  obtain ⟨ms, hms, hkeys, hlook⟩ := encFields_spec hlen (hS.names c) fun p hp => ⟨_, (h p hp).choose_spec.1⟩
  refine ⟨.obj ms, bind_eq_ok.mpr ⟨ms, hms, rfl⟩, fun n hn => ?_⟩
  obtain ⟨m, rfl⟩ := Nat.exists_eq_add_one_of_ne_zero (Nat.ne_of_gt (lt_of_lt_of_le (Nat.succ_pos _) hn))
  have hdepth : depthFields ms ≤ m := Nat.le_of_succ_le_succ hn
  have hknown : ms.all (fun m => (S.fields c).any fun f => f.name == m.1) = true := by
    refine all_eq_true.mpr fun m hm => ?_
    obtain ⟨f, hf, hname⟩ := mem_map.mp (hkeys m hm)
    exact any_eq_true.mpr ⟨f, hf, beq_iff_eq.mpr hname⟩
  have hvalues : (S.fields c).mapM (decodeField S (decodeRecord S construct m) c ms) = .ok vs := by
    refine mapM_decodeField hlen fun p hp => ?_
    unfold decodeField
    rcases hlook p hp with ⟨homit, hnone⟩ | ⟨j, hj, hsome⟩
    · have hdefault := default_of_omits (hS.defaults c p.1 (of_mem_zip hp).1) (htyped p hp) homit
      rw [hnone, hdefault]
    · obtain ⟨j', hj', hdec⟩ := h p hp
      obtain rfl : j = j' := Except.ok.inj (hj.symm.trans hj')
      rw [hsome]
      exact hdec m (le_trans (depth_le_of_lookup hsome) hdepth)
  show decodeRecord S construct (m + 1) c (.obj ms) = _
  rw [decodeRecord, if_pos hknown, hvalues]
  dsimp only [bind, Except.bind]
  rw [hbuilt]

/-! ### Unions -/

/-- A document of a value of an arm is read as that arm reads it. -/
theorem decodeArm_eq (ha : a ∈ arms) (hsep : separated S arms = true)
    (hv : Typed S construct a v) (hj : enc S v = .ok j) (hmatch : jsonMatches S a j = true)
    (hdec : decode S decRecord a j = .ok v) : decodeArm S decRecord false arms j = .ok v := by
  induction arms with
  | nil => cases ha
  | cons b arms ih =>
    obtain ⟨hb, hsep⟩ := (Bool.and_eq_true _ _).mp hsep
    rw [decodeArm, Bool.false_or]
    rcases mem_cons.mp ha with rfl | ha
    · rw [if_pos hmatch]
      exact hdec
    · have hshape := all_eq_true.mp (all_eq_true.mp hb a ha) _ (shape_of_enc hv hj)
      rw [if_neg fun hm => (of_decide_eq_true hshape) (shape_of_jsonMatches hm)]
      exact ih ha hsep

theorem jsonMatches_of_enc (hv : Typed S construct h v)
    (hj : enc S v = .ok j) (hunion : ∀ arms nullable, h ≠ .union arms nullable) : jsonMatches S h j = true := by
  cases hv with
  | none => cases hj; rfl
  | bool b => cases hj; rfl
  | int n => cases hj; rfl
  | str s => cases hj; rfl
  | decimal hd => cases hj; rfl
  | @enum e value hvalue =>
    cases hj
    cases value <;> simp [jsonMatches, memberOf, EnumValue.json, hvalue]
  | variadic hvs =>
    obtain ⟨js, -, hjs⟩ := bind_eq_ok.mp hj
    cases hjs
    rfl
  | fixed hlen hvs =>
    obtain ⟨js, -, hjs⟩ := bind_eq_ok.mp hj
    cases hjs
    rfl
  | list hvs =>
    obtain ⟨js, -, hjs⟩ := bind_eq_ok.mp hj
    cases hjs
    rfl
  | frozenset items => cases hj; rfl
  | dict hkeys hes =>
    obtain ⟨js, -, hjs⟩ := bind_eq_ok.mp hj
    cases hjs
    rfl
  | record hbuilt hlen hvs =>
    obtain ⟨js, -, hjs⟩ := bind_eq_ok.mp hj
    cases hjs
    rfl
  | null arms => exact absurd rfl (hunion arms true)
  | arm ha hv => exact absurd rfl (hunion _ _)

omit [DecidableEq C] in
theorem decode_union {nullable : Bool} (hj : j ≠ .null) :
    decode S decRecord (.union arms nullable) j =
      if arms.length ≠ 1 ∧ arms.all Hint.isPrimitive then decPrimitive arms j
      else decodeArm S decRecord (arms.length == 1) arms j := by
  cases j with
  | null => exact absurd rfl hj
  | _ =>
    rw [decode]
    exact hj

omit [DecidableEq C] in
/-- A union of plain types takes the document as it is. -/
theorem decPrimitive_eq (ha : a ∈ arms) (hprim : a.isPrimitive = true) (hv : Typed S construct a v) :
    (∃ b, v = .bool b ∧ decPrimitive arms (.bool b) = .ok v) ∨
      (∃ n, v = .int n ∧ decPrimitive arms (.int n) = .ok v) ∨
        ∃ s, v = .str s ∧ decPrimitive arms (.str s) = .ok v := by
  cases hv with
  | bool b => exact .inl ⟨b, rfl, if_pos (any_eq_true.mpr ⟨_, ha, rfl⟩)⟩
  | int n => exact .inr (.inl ⟨n, rfl, if_pos (any_eq_true.mpr ⟨_, ha, rfl⟩)⟩)
  | str s => exact .inr (.inr ⟨s, rfl, if_pos (any_eq_true.mpr ⟨_, ha, rfl⟩)⟩)
  | _ => cases hprim

theorem roundTrips_arm {nullable : Bool} (ha : a ∈ arms)
    (hun : (Hint.union arms nullable).unambiguous S = true) (hv : Typed S construct a v)
    (h : RoundTrips S construct a v) : RoundTrips S construct (.union arms nullable) v := by
  obtain ⟨j, hj, hdec⟩ := h
  obtain ⟨hun, hapart⟩ := (Bool.and_eq_true _ _).mp hun
  have hnull : Shape.null ∉ a.shapes S :=
    of_decide_eq_true (all_eq_true.mp ((Bool.and_eq_true _ _).mp hun).2 a ha)
  have hne : j ≠ .null := by
    rintro rfl
    exact hnull (shape_of_enc hv hj)
  refine ⟨j, hj, fun n hn => ?_⟩
  rw [decode_union hne]
  by_cases hsingle : arms.length = 1
  · obtain ⟨b, rfl⟩ := length_eq_one_iff.mp hsingle
    obtain rfl := mem_singleton.mp ha
    rw [if_neg fun hc => hc.1 rfl]
    show decodeArm S _ true [a] j = _
    rw [decodeArm, Bool.true_or, if_pos rfl]
    exact hdec n hn
  · by_cases hprim : arms.all Hint.isPrimitive = true
    · rw [if_pos ⟨hsingle, hprim⟩]
      rcases decPrimitive_eq ha (all_eq_true.mp hprim a ha) hv with ⟨b, rfl, hb⟩ | ⟨b, rfl, hb⟩ | ⟨b, rfl, hb⟩
      all_goals
        cases hj
        exact hb
    · have hsep : separated S arms = true := by simpa [hsingle, hprim] using hapart
      rw [if_neg fun hc => hprim hc.2, beq_false_of_ne hsingle]
      refine decodeArm_eq ha hsep hv hj (jsonMatches_of_enc hv hj fun as n heq => ?_) (hdec n hn)
      subst heq
      exact hnull mem_cons_self

/-! ### Every value -/

/-- The document of every value that fits its annotation is decoded to the value. -/
theorem roundTrips (hS : S.Readable) (hidem : ∀ c given vs, construct c given = .ok vs → construct c vs = .ok vs)
    (hv : Typed S construct h v) (hun : h.unambiguous S = true) : RoundTrips S construct h v := by
  induction hv with
  | none => exact ⟨_, rfl, fun n _ => rfl⟩
  | bool b => exact ⟨_, rfl, fun n _ => rfl⟩
  | int n => exact ⟨_, rfl, fun n _ => rfl⟩
  | str s => exact ⟨_, rfl, fun n _ => rfl⟩
  | decimal hd =>
    refine ⟨_, rfl, fun n _ => ?_⟩
    rw [decode, decDecimal, decimalOf_decimalStr hd]
  | @enum e value hvalue =>
    refine ⟨_, rfl, fun n _ => ?_⟩
    rw [decode]
    cases value <;> simp [memberOf, EnumValue.json, hvalue]
  | variadic hvs ih =>
    obtain ⟨js, hjs, hmap⟩ := encItems_roundTrips fun v hv => ih v hv hun
    refine ⟨.arr js, bind_eq_ok.mpr ⟨js, hjs, rfl⟩, fun n hn => ?_⟩
    exact bind_eq_ok.mpr ⟨js, rfl, bind_eq_ok.mpr ⟨_, hmap n (Nat.le_of_succ_le hn), rfl⟩⟩
  | fixed hlen hvs ih =>
    rw [Hint.unambiguous, Hint.allUnambiguous_eq] at hun
    obtain ⟨js, hjs, hl, hmap⟩ := encEach_roundTrips hlen fun p hp =>
      ih p hp (all_eq_true.mp hun _ (of_mem_zip hp).1)
    refine ⟨.arr js, bind_eq_ok.mpr ⟨js, hjs, rfl⟩, fun n hn => ?_⟩
    refine bind_eq_ok.mpr ⟨js, rfl, ?_⟩
    rw [if_pos hl]
    exact bind_eq_ok.mpr ⟨_, hmap n (Nat.le_of_succ_le hn), rfl⟩
  | list hvs ih =>
    obtain ⟨js, hjs, hmap⟩ := encItems_roundTrips fun v hv => ih v hv hun
    refine ⟨.arr js, bind_eq_ok.mpr ⟨js, hjs, rfl⟩, fun n hn => ?_⟩
    exact bind_eq_ok.mpr ⟨js, rfl, bind_eq_ok.mpr ⟨_, hmap n (Nat.le_of_succ_le hn), rfl⟩⟩
  | frozenset items =>
    refine ⟨_, rfl, fun n _ => bind_eq_ok.mpr ⟨_, rfl, bind_eq_ok.mpr ⟨items.sort (· ≤ ·), ?_, ?_⟩⟩⟩
    · rw [mapM_eq_ok, forall₂_map_left_iff]
      exact forall₂_same.mpr fun s _ => rfl
    · rw [Finset.sort_toFinset]
  | dict hkeys hes ih =>
    obtain ⟨ms, hms, hmap⟩ := encEntries_roundTrips fun e he => ih e he hun
    refine ⟨.obj ms, bind_eq_ok.mpr ⟨ms, hms, rfl⟩, fun n hn => ?_⟩
    exact bind_eq_ok.mpr ⟨_, hmap n (Nat.le_of_succ_le hn), rfl⟩
  | null arms => exact ⟨_, rfl, fun n _ => rfl⟩
  | arm ha hv ih =>
    have hall := ((Bool.and_eq_true _ _).mp ((Bool.and_eq_true _ _).mp hun).1).1
    rw [Hint.allUnambiguous_eq] at hall
    exact roundTrips_arm ha hun hv (ih (all_eq_true.mp hall _ ha))
  | record hbuilt hlen hvs ih =>
    exact roundTrips_record hS (hidem _ _ _ hbuilt) hlen hvs fun p hp =>
      ih p hp (hS.hints _ _ (of_mem_zip hp).1)

/-- `from_json(to_json(record))` is the record. -/
theorem fromJson_toJson (hS : S.Readable) (hidem : ∀ c given vs, construct c given = .ok vs → construct c vs = .ok vs)
    (h : Typed S construct (.record c) (.record c vs)) :
    ∃ d, toJson S (.record c vs) = .ok d ∧ fromJson S construct c d = .ok (.record c vs) := by
  obtain ⟨d, hd, hdec⟩ := roundTrips hS hidem h rfl
  refine ⟨d, hd, ?_⟩
  have hread : decodeRecord S construct (depth d) c d = .ok (.record c vs) := hdec _ le_rfl
  unfold fromJson
  rw [hread]

end TokenBill.Codec
