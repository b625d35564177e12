import TokenBill.Core.IsoDates
import TokenBill.Core.JsonLossless

/-!
# Provider records and their JSON

A usage aggregate, a cost line or an outcome aggregate is determined by its canonical JSON: every
field stands under a name of its own, and a field that is left out holds its default.
-/

namespace TokenBill

open General List
open Json (nat ofInt? ofNat? ofStr? pairs)

/-! ### Principals -/

theorem Principal.text_injective : Function.Injective Principal.text := by
  intro p q h
  have hlist : p.text.toList = q.text.toList := congrArg String.toList h
  cases p <;> cases q <;> simp [Principal.text] at hlist ⊢ <;> exact String.toList_inj.mp hlist

/-! ### Fields under one list of names -/

variable {β : Type} {k : String}

/-- Fields with the same names that read the same have the same values in their places. -/
theorem values_eq_of_lookup {γ : Type} {v : β → γ} {fs gs : List (String × β)}
    (hnames : fs.map (·.1) = gs.map (·.1)) (hnodup : (fs.map (·.1)).Nodup)
    (h : ∀ k ∈ fs.map (·.1), (fs.lookup k).map v = (gs.lookup k).map v) :
    fs.map (fun f => v f.2) = gs.map fun f => v f.2 := by
  induction fs generalizing gs with
  | nil =>
    rw [map_eq_nil_iff.mp hnames.symm]
  | cons f fs ih =>
    obtain ⟨g, gs, rfl⟩ := exists_cons_of_ne_nil fun hnil : gs = [] => by
      rw [hnil] at hnames
      exact absurd hnames (cons_ne_nil _ _)
    obtain ⟨hname, hnames⟩ := List.cons.inj hnames
    obtain ⟨hnot, hnodup⟩ := nodup_cons.mp hnodup
    have hfg : f.1 = g.1 := hname
    have hhead := h f.1 mem_cons_self
    rw [lookup_cons, lookup_cons, beq_self_eq_true, hfg, beq_self_eq_true] at hhead
    have htail : fs.map (fun f => v f.2) = gs.map fun f => v f.2 := by
      refine ih hnames hnodup fun k hk => ?_
      have hne : k ≠ f.1 := by
        rintro rfl
        exact hnot hk
      have hk' := h k (mem_cons_of_mem _ hk)
      rw [lookup_cons, lookup_cons, ← hfg, beq_false_of_ne hne] at hk'
      exact hk'
    rw [map_cons, map_cons, htail, Option.some.inj hhead]

theorem exists_lookup {l : List (String × β)} (h : k ∈ l.map (·.1)) : ∃ v, l.lookup k = some v := by
  rw [← Option.isSome_iff_exists, lookup_isSome_iff]
  obtain ⟨f, hf, rfl⟩ := mem_map.mp h
  exact ⟨f, hf, beq_self_eq_true _⟩

theorem lookup_append_left {l m : List (String × β)} (h : k ∈ l.map (·.1)) : (l ++ m).lookup k = l.lookup k := by
  obtain ⟨v, hv⟩ := exists_lookup h
  rw [lookup_append, hv]
  rfl

theorem lookup_append_right {l m : List (String × β)} (h : k ∉ l.map (·.1)) : (l ++ m).lookup k = m.lookup k := by
  rw [lookup_append, lookup_eq_none_iff.mpr fun f hf => ?_]
  · rfl
  · exact bne_iff_ne.mpr fun he => h (mem_map.mpr ⟨f, hf, he.symm⟩)

/-! ### Fields that may be left out -/

theorem lookup_omitNone (k name : String) (value : Option String) :
    ((omitNone name value).lookup k).map Json.toValue = if k = name then value.map JsonValue.str else none := by
  unfold omitNone
  cases value with
  | none => simp
  | some s =>
    by_cases hk : k = name
    · simp [hk, ofStr?, Json.toValue]
    · simp [hk]

theorem names_omitNone (name : String) (value : Option String) :
    ((omitNone name value).map (·.1)).Sublist [name] := by
  unfold omitNone
  split
  · exact nil_sublist _
  · exact List.Sublist.refl _

/-! ### Values without an object -/

namespace Json

theorem distinct_ofStr? (s : Option String) : Distinct (ofStr? s) := by
  cases s with
  | none => exact .null
  | some s => exact .str s

theorem distinct_ofInt? (n : Option Int) : Distinct (ofInt? n) := by
  cases n with
  | none => exact .null
  | some n => exact .int n

theorem distinct_ofNat? (n : Option Nat) : Distinct (ofNat? n) := by
  cases n with
  | none => exact .null
  | some n => exact .int n

theorem distinct_pairs (ps : List (String × String)) : Distinct (pairs ps) := by
  refine .arr (forall_mem_map.mpr fun p _ => .arr fun v hv => ?_)
  rcases mem_pair.mp hv with rfl | rfl
  · exact .str _
  · exact .str _

theorem distinct_omitNone {name : String} {value : Option String} {f : String × Json}
    (hf : f ∈ omitNone name value) : Distinct f.2 := by
  unfold omitNone at hf
  split at hf
  · exact absurd hf not_mem_nil
  · rw [mem_singleton.mp hf]
    exact distinct_ofStr? value

end Json

/-! ### Cost lines -/

theorem CostLine.toJson_eq (c : CostLine) :
    c.toJson = .obj (c.fixedFields ++ c.appended.flatMap fun f => omitNone f.1 f.2) := rfl

theorem CostLine.nodup_names (c : CostLine) :
    ((c.fixedFields ++ c.appended.flatMap fun f => omitNone f.1 f.2).map (·.1)).Nodup := by
  have hsub : ((c.appended.flatMap fun f => omitNone f.1 f.2).map (·.1)).Sublist (c.appended.map (·.1)) := by
    rw [map_flatMap]
    induction c.appended with
    | nil => exact List.Sublist.refl _
    | cons f fs ih =>
      rw [flatMap_cons]
      exact (names_omitNone f.1 f.2).append ih
  rw [map_append]
  refine ((List.Sublist.refl _).append hsub).nodup ?_
  simp [fixedFields, appended]

theorem CostLine.distinct_toJson (c : CostLine) : Json.Distinct c.toJson := by
  rw [toJson_eq]
  refine .obj c.nodup_names fun f hf => ?_
  rcases mem_append.mp hf with hf | hf
  · simp only [fixedFields, mem_cons, not_mem_nil, or_false] at hf
    rcases hf with rfl | rfl | rfl | rfl | rfl | rfl | rfl | rfl | rfl | rfl | rfl | rfl | rfl | rfl | rfl | rfl |
      rfl | rfl | rfl
    all_goals first
      | exact .str _
      | exact .int _
      | exact Json.distinct_ofStr? _
      | exact Json.distinct_ofInt? _
  · obtain ⟨g, -, hf⟩ := mem_flatMap.mp hf
    exact Json.distinct_omitNone hf

/-- What two objects of two parts with the same names, that read the same, have in each part. -/
theorem parts_eq_of_lookup {γ : Type} {v : β → γ} {fs gs fs' gs' : List (String × β)}
    (hnames : fs.map (·.1) = gs.map (·.1)) (hnodup : ((fs ++ fs').map (·.1)).Nodup)
    (hnodup' : ((gs ++ gs').map (·.1)).Nodup) (h : ∀ k, ((fs ++ fs').lookup k).map v = ((gs ++ gs').lookup k).map v) :
    fs.map (fun f => v f.2) = gs.map (fun f => v f.2) ∧ ∀ k, (fs'.lookup k).map v = (gs'.lookup k).map v := by
  rw [map_append] at hnodup hnodup'
  have hleft : ∀ k ∈ fs.map (·.1), (fs.lookup k).map v = (gs.lookup k).map v := fun k hk => by
    have hk' : k ∈ gs.map (·.1) := hnames ▸ hk
    rw [← lookup_append_left (m := fs') hk, ← lookup_append_left (m := gs') hk', h k]
  have hnone : ∀ {k : String} {l m : List (String × β)}, (l.map (·.1) ++ m.map (·.1)).Nodup → k ∈ l.map (·.1) →
      m.lookup k = none := fun {k l m} hn hk => by
    rw [lookup_eq_none_iff]
    intro f hf
    refine bne_iff_ne.mpr fun he => ?_
    exact (nodup_append.mp hn).2.2 k hk f.1 (mem_map.mpr ⟨f, hf, rfl⟩) he
  refine ⟨values_eq_of_lookup hnames hnodup.of_append_left hleft, fun k => ?_⟩
  by_cases hk : k ∈ fs.map (·.1)
  · rw [hnone hnodup hk, hnone hnodup' (hnames ▸ hk)]
  · have hk' : k ∉ gs.map (·.1) := fun hmem => hk (hnames ▸ hmem)
    rw [← lookup_append_right (m := fs') hk, ← lookup_append_right (m := gs') hk', h k]

/-- What reads in fields that are left out while they are absent. -/
theorem lookup_flatMap_omitNone {fs : List (String × Option String)} (hnodup : (fs.map (·.1)).Nodup) (k : String) :
    ((fs.flatMap fun f => omitNone f.1 f.2).lookup k).map Json.toValue =
      ((fs.lookup k).bind id).map JsonValue.str := by
  induction fs with
  | nil => rfl
  | cons f fs ih =>
    obtain ⟨hnot, hnodup⟩ := nodup_cons.mp hnodup
    have hhead := lookup_omitNone k f.1 f.2
    rw [flatMap_cons, lookup_append, Option.map_or, hhead, ih hnodup, lookup_cons]
    by_cases hk : k = f.1
    · have hnone : fs.lookup k = none := lookup_eq_none_iff.mpr fun g hg => bne_iff_ne.mpr fun he =>
        hnot (mem_map.mpr ⟨g, hg, (hk.symm.trans he).symm⟩)
      simp [hk ▸ hnone, hk]
    · simp [hk, beq_false_of_ne hk]

theorem CostLine.canonical_inj {c d : CostLine} (h : Json.canonical c.toJson = Json.canonical d.toJson) : c = d := by
  have hvalue := Json.canonical_inj c.distinct_toJson d.distinct_toJson h
  rw [toJson_eq, toJson_eq] at hvalue
  obtain ⟨hfixed, happended⟩ := parts_eq_of_lookup (v := Json.toValue) (by simp [fixedFields]) c.nodup_names
    d.nodup_names (Json.field_eq c.nodup_names d.nodup_names hvalue)
  have hoptional : c.appended.map (fun f => f.2) = d.appended.map fun f => f.2 := by
    refine values_eq_of_lookup (v := id) (by simp [appended]) (by simp [appended]) fun k hk => ?_
    have hk' := happended k
    rw [lookup_flatMap_omitNone (by simp [appended]), lookup_flatMap_omitNone (by simp [appended])] at hk'
    have hbind := Option.map_injective (fun _ _ => JsonValue.str.inj) hk'
    obtain ⟨x, hx⟩ := exists_lookup hk
    obtain ⟨y, hy⟩ := exists_lookup (l := d.appended) (by simpa [appended] using hk)
    rw [hx, hy] at hbind ⊢
    exact congrArg some hbind
  simp only [fixedFields, map_cons, map_nil, List.cons.injEq, Json.toValue_str, Json.toValue_int,
    Json.toValue_nat, Json.toValue_ofStr?, Json.toValue_ofInt?, and_true] at hfixed
  simp only [appended, map_cons, map_nil, List.cons.injEq, and_true] at hoptional
  obtain ⟨h1, h2, hdate, h4, h5, h6, h7, h8, h9, h10, h11, h12, h13, h14, h15, h16, h17, hprincipal, h19⟩ := hfixed
  obtain ⟨g1, g2, g3, g4, g5, g6, g7, g8, g9, g10⟩ := hoptional
  have hday := isoDate_injective hdate
  have hwho := Option.map_injective Principal.text_injective hprincipal
  cases c
  cases d
  simp_all

/-! ### Usage aggregates -/

/-- Objects with one list of names and one value have the same values in their places. -/
theorem Json.fields_eq {fs gs : List (String × Json)} (hnames : fs.map (·.1) = gs.map (·.1))
    (hnodup : (fs.map (·.1)).Nodup) (h : Json.toValue (.obj fs) = Json.toValue (.obj gs)) :
    fs.map (fun f => f.2.toValue) = gs.map fun f => f.2.toValue :=
  values_eq_of_lookup (v := Json.toValue) hnames hnodup fun k _ => Json.field_eq hnodup (hnames ▸ hnodup) h k

theorem UsageBuckets.distinct_toJson (u : UsageBuckets) : Json.Distinct u.toJson := by
  refine .obj (by simp) fun f hf => ?_
  simp only [mem_cons, not_mem_nil, or_false] at hf
  rcases hf with rfl | rfl | rfl | rfl | rfl | rfl | rfl | rfl | rfl | rfl | rfl
  all_goals first
    | exact .int _
    | exact Json.distinct_ofNat? _

theorem UsageBuckets.toValue_inj {u w : UsageBuckets} (h : u.toJson.toValue = w.toJson.toValue) : u = w := by
  have hfields := Json.fields_eq (by simp) (by simp) h
  simp only [map_cons, map_nil, List.cons.injEq, Json.toValue_nat, Json.toValue_ofNat?, and_true] at hfields
  obtain ⟨⟨⟩, _⟩ := u
  obtain ⟨⟨⟩, _⟩ := w
  simp_all

theorem UsageAggregate.distinct_toJson (a : UsageAggregate) : Json.Distinct a.toJson := by
  refine .obj (by simp) fun f hf => ?_
  simp only [mem_cons, not_mem_nil, or_false] at hf
  rcases hf with rfl | rfl | rfl | rfl | rfl | rfl | rfl | rfl | rfl | rfl | rfl
  all_goals first
    | exact .str _
    | exact .int _
    | exact Json.distinct_pairs _
    | exact a.usage.distinct_toJson
    | exact Json.distinct_ofStr? _
    | exact Json.distinct_ofInt? _

theorem UsageAggregate.canonical_inj {a b : UsageAggregate}
    (h : Json.canonical a.toJson = Json.canonical b.toJson) : a = b := by
  have hfields := Json.fields_eq (by simp) (by simp) (Json.canonical_inj a.distinct_toJson b.distinct_toJson h)
  simp only [map_cons, map_nil, List.cons.injEq, Json.toValue_str, Json.toValue_nat, Json.toValue_pairs,
    Json.toValue_ofStr?, Json.toValue_ofInt?, and_true] at hfields
  obtain ⟨h1, h2, h3, h4, h5, husage, h7, h8, h9, h10, h11⟩ := hfields
  have hu := UsageBuckets.toValue_inj husage
  cases a
  cases b
  simp_all

/-! ### Outcome aggregates -/

theorem OutcomeAggregate.toJson_eq (o : OutcomeAggregate) : o.toJson = .obj (o.fixedFields ++ o.extraField) := rfl

theorem OutcomeAggregate.nodup_names (o : OutcomeAggregate) : ((o.fixedFields ++ o.extraField).map (·.1)).Nodup := by
  unfold fixedFields extraField
  split <;> simp

theorem OutcomeAggregate.distinct_toJson (o : OutcomeAggregate) : Json.Distinct o.toJson := by
  rw [toJson_eq]
  refine .obj o.nodup_names fun f hf => ?_
  rcases mem_append.mp hf with hf | hf
  · simp only [fixedFields, mem_cons, not_mem_nil, or_false] at hf
    rcases hf with rfl | rfl | rfl | rfl | rfl | rfl | rfl | rfl | rfl | rfl | rfl
    all_goals first
      | exact .str _
      | exact .int _
  · unfold extraField at hf
    split at hf
    · exact absurd hf not_mem_nil
    · rw [mem_singleton.mp hf]
      refine .arr (forall_mem_map.mpr fun e _ => .arr fun v hv => ?_)
      rcases mem_pair.mp hv with rfl | rfl
      · exact .str _
      · exact .int _

theorem OutcomeAggregate.lookup_extraField (o : OutcomeAggregate) :
    ((o.extraField.lookup "extra").map Json.toValue).getD (Json.toValue (.arr [])) = o.extraJson.toValue := by
  unfold extraField extraJson
  split
  · rename_i h
    rw [h]
    rfl
  · rfl

theorem OutcomeAggregate.canonical_inj {o p : OutcomeAggregate}
    (h : Json.canonical o.toJson = Json.canonical p.toJson) : o = p := by
  have hvalue := Json.canonical_inj o.distinct_toJson p.distinct_toJson h
  rw [toJson_eq, toJson_eq] at hvalue
  obtain ⟨hfixed, hextra⟩ := parts_eq_of_lookup (v := Json.toValue) (by simp [fixedFields]) o.nodup_names
    p.nodup_names (Json.field_eq o.nodup_names p.nodup_names hvalue)
  have hcounts : o.extraJson.toValue = p.extraJson.toValue := by
    rw [← lookup_extraField, ← lookup_extraField, hextra "extra"]
  unfold extraJson at hcounts
  rw [Json.toValue_arr, map_map, map_map] at hcounts
  have hlist : o.extra = p.extra := by
    refine map_injective_iff.mpr (fun e f he => ?_) hcounts
    have hpair := Json.toValue_arr.mp he
    rw [map_cons, map_cons, map_cons, map_cons, List.cons.injEq, List.cons.injEq,
      Json.toValue_str, Json.toValue_nat] at hpair
    exact Prod.ext hpair.1 hpair.2.1
  simp only [fixedFields, map_cons, map_nil, List.cons.injEq, Json.toValue_str, Json.toValue_nat,
    and_true] at hfixed
  obtain ⟨hdate, h2, h3, h4, h5, h6, h7, h8, h9, h10, h11⟩ := hfixed
  have hday := isoDate_injective hdate
  cases o
  cases p
  simp_all

end TokenBill
