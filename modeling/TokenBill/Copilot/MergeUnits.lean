import TokenBill.Copilot.CellGame
import TokenBill.General.Clamps
import TokenBill.General.GroupSums

/-!
# Merged units

`_Game` merges pooled units "that every transform treats alike" and `_cell_sums` clamps what a merged
unit has left at zero. Merging is neutral where the units of a merged one stay on one side of zero,
and nowhere else: a unit whose delta is above its value takes from the units it is merged with. What
merging does keep is the split into teams: a unit split into units of its key leaves every sum as it is.
-/

namespace TokenBill.CellGame

open General Game List

/-! ### What a unit has left -/

local instance modelsLawful : LawfulBEq (Option String) := inferInstance

/-- What a transform leaves of a unit, before the clamp; it adds up over units of a key. -/
def leftHom (t : Transform) (st : State) (k : EvalKey) : UnitSums →+ Int where
  toFun s :=
    if k.remapModel ≠ none ∧ k.remapModel ∈ t.remaps then
      s.value - if st.bandHigh then s.dRemapHi else s.dRemap
    else if t.fast ∧ k.fast then s.value - s.dFast
    else s.value
  map_zero' := by
    split
    · cases st.bandHigh <;> rfl
    · split <;> rfl
  map_add' a b := by
    have hsub : ∀ x y c d : Int, x + y - (c + d) = x - c + (y - d) := fun x y c d => by omega
    split
    · cases st.bandHigh
      · exact hsub a.value b.value a.dRemap b.dRemap
      · exact hsub a.value b.value a.dRemapHi b.dRemapHi
    · split
      · exact hsub a.value b.value a.dFast b.dFast
      · rfl

def weight (t : Transform) (st : State) (k : EvalKey) : ℚ :=
  if t.auto ∧ k.auto then if st.reachHigh then k.factor.2 else k.factor.1 else 1

theorem transformed_eq (t : Transform) (st : State) (u : EvalKey × UnitSums) :
    transformed t st u = (max (leftHom t st u.1 u.2) 0 : Int) * weight t st u.1 := by
  unfold transformed weight
  dsimp only
  split
  · rfl
  · exact (mul_one _).symm

/-! ### Merging -/

/-- The key units are merged under: `remap_model or ""`. -/
def mergeKey (k : EvalKey) : EvalKey := { k with remapModel := some (k.remapModel.getD "") }

/-- A unit merged into the one of its key, which is as the first. -/
def mergeStep (held : Option (EvalKey × UnitSums)) (u : EvalKey × UnitSums) : EvalKey × UnitSums :=
  match held with
  | none => (u.1, 0 + u.2)
  | some m => (m.1, m.2 + u.2)

/-- `merged`: the pooled units of a game, each with those of its key. -/
def merge (units : List (EvalKey × UnitSums)) : List (EvalKey × UnitSums) :=
  (collect (fun u => mergeKey u.1) mergeStep units).map (·.2)

theorem mergeKey_inj {j k : EvalKey} (hj : j.remapModel ≠ some "") (hk : k.remapModel ≠ some "")
    (h : mergeKey j = mergeKey k) : j = k := by
  obtain ⟨_, j, _, _, _⟩ := j
  obtain ⟨_, k, _, _, _⟩ := k
  obtain ⟨rfl, hmodel, rfl, rfl, rfl⟩ := EvalKey.mk.inj h
  congr 1
  cases j <;> cases k <;> simp_all

theorem map_merged_addAt {table : List (EvalKey × UnitSums)} {u : EvalKey × UnitSums}
    (ht : ∀ e ∈ table, e.1.remapModel ≠ some "") (hu : u.1.remapModel ≠ some "") :
    collectStep (fun u => mergeKey u.1) mergeStep (table.map fun e => (mergeKey e.1, e)) u =
      (addAt table u).map fun e => (mergeKey e.1, e) := by
  unfold collectStep addAt
  induction table with
  | nil => rfl
  | cons e table ih =>
    have hrest := ih fun e he => ht e (mem_cons_of_mem _ he)
    rw [map_cons, lookup_cons, lookup_cons, upsert, upsert]
    by_cases h : e.1 = u.1
    · rw [if_pos (congrArg mergeKey h), if_pos h, h, beq_self_eq_true, beq_self_eq_true]
      exact congrArg (fun k => (mergeKey u.1, (k, e.2 + u.2)) :: _) h
    · have hne : mergeKey e.1 ≠ mergeKey u.1 := fun hkey => h (mergeKey_inj (ht e mem_cons_self) hu hkey)
      rw [if_neg hne, if_neg h, beq_false_of_ne hne.symm, beq_false_of_ne (Ne.symm h), map_cons, ← hrest]

theorem merge_eq_tally {units : List (EvalKey × UnitSums)} (h : ∀ u ∈ units, u.1.remapModel ≠ some "") :
    merge units = tally units := by
  have hrun : ∀ (units table : List (EvalKey × UnitSums)), (∀ u ∈ units, u.1.remapModel ≠ some "") →
      (∀ e ∈ table, e.1.remapModel ≠ some "") →
      units.foldl (collectStep (fun u => mergeKey u.1) mergeStep) (table.map fun e => (mergeKey e.1, e)) =
        (units.foldl addAt table).map fun e => (mergeKey e.1, e) := by
    intro units
    induction units with
    | nil => exact fun _ _ _ => rfl
    | cons u units ih =>
      intro table hu ht
      have hhead := hu u mem_cons_self
      rw [foldl_cons, foldl_cons, map_merged_addAt ht hhead]
      refine ih _ (fun u hmem => hu u (mem_cons_of_mem _ hmem)) fun e he => ?_
      rcases mem_of_mem_upsert he with rfl | he
      · exact hhead
      · exact ht e he
  unfold merge collect tally
  rw [show ([] : List (EvalKey × EvalKey × UnitSums)) = [].map fun e => (mergeKey e.1, e) from rfl,
    hrun units [] h (fun _ he => absurd he not_mem_nil), map_map]
  exact map_id' _

/-! ### Replays -/

/-- The units a game is built of, and what is left of each under the Auto default. -/
structure Replay where
  units : List Unit
  /-- The remap model of a unit has a name. -/
  named : ∀ u ∈ units, u.1.remapModel ≠ some ""
  /-- `_auto_factor`, at the point and the high reach. -/
  factor : UnitKey → ℚ × ℚ
  /-- A discount of shares leaves no less than nothing. -/
  factor_nonneg : ∀ u ∈ units, 0 ≤ (factor u.1).1 ∧ 0 ≤ (factor u.1).2

/-- What `_cell_sums` returns. -/
@[ext] structure CellSums where
  /-- The pooled value of an entity, 0 of one that has no pooled units. -/
  pooled : String → ℚ
  directInvoice : ℚ
  directDiscount : ℚ

/-- `_cell_sums`, of evaluation units. -/
def cellSums (pooled direct : List (EvalKey × UnitSums)) (active : List Player) (st : State) : CellSums where
  pooled name := ((pooled.filter fun u => decide (u.1.entity = name)).map (transformed (transform active) st)).sum
  directInvoice := (direct.map (directInvoice (transform active) st)).sum
  directDiscount := (direct.map (directDiscount (transform active) st)).sum

namespace Replay

variable (r : Replay)

def evalKey (u : UnitKey) : EvalKey := ⟨u.entity, u.remapModel, u.fast, u.auto, r.factor u⟩

def pooledUnits : List (EvalKey × UnitSums) :=
  (r.units.filter (·.1.pooled)).map fun u => (r.evalKey u.1, u.2.credit)

def directUnits : List (EvalKey × UnitSums) :=
  (r.units.filter fun u => !u.1.pooled).map fun u => (r.evalKey u.1, u.2)

/-- `pooled0`: the value of the pooled units of an entity. -/
def pooled0 (name : String) : Int :=
  ((r.units.filter fun u => u.1.pooled && decide (u.1.entity = name)).map (·.2.value)).sum

def mergedSums (active : List Player) (st : State) : CellSums :=
  cellSums (merge r.pooledUnits) r.directUnits active st

def plainSums (active : List Player) (st : State) : CellSums :=
  cellSums r.pooledUnits r.directUnits active st

/-- Of the units that are merged, none has more taken from it than its value where another has some left,
unless the Auto factor leaves nothing of them. -/
def OneSided (t : Transform) (st : State) : Prop :=
  ∀ u ∈ r.pooledUnits, ∀ w ∈ r.pooledUnits, u.1 = w.1 → weight t st u.1 ≠ 0 →
    ¬ (leftHom t st u.1 u.2 < 0 ∧ 0 < leftHom t st w.1 w.2)

variable {r}

variable {u : EvalKey × UnitSums} {r' : Replay}

theorem named_pooledUnits (h : u ∈ r.pooledUnits) : u.1.remapModel ≠ some "" := by
  obtain ⟨v, hv, rfl⟩ := mem_map.mp h
  exact r.named v (mem_filter.mp hv).1

theorem weight_nonneg (t : Transform) (st : State) (h : u ∈ r.pooledUnits) : 0 ≤ weight t st u.1 := by
  obtain ⟨v, hv, rfl⟩ := mem_map.mp h
  obtain ⟨hpoint, hhigh⟩ := r.factor_nonneg v (mem_filter.mp hv).1
  unfold weight
  split
  · split
    · exact hhigh
    · exact hpoint
  · exact zero_le_one

/-! ### One merged unit -/

def leftsOf (r : Replay) (t : Transform) (st : State) (k : EvalKey) : List Int :=
  (r.pooledUnits.filter fun u => decide (u.1 = k)).map fun u => leftHom t st k u.2

theorem transformed_merged (t : Transform) (st : State) (h : u ∈ tally r.pooledUnits) :
    transformed t st u = (max (r.leftsOf t st u.1).sum 0 : Int) * weight t st u.1 := by
  obtain ⟨k, total⟩ := u
  have hamount := mem_tally.mp h
  unfold amountOf at hamount
  split at hamount
  · cases hamount
    rw [transformed_eq, map_list_sum, map_map]
    rfl
  · cases hamount

theorem transformed_plain (t : Transform) (st : State) (k : EvalKey) :
    ((r.pooledUnits.filter fun u => decide (u.1 = k)).map (transformed t st)).sum =
      (((r.leftsOf t st k).map fun v => max v 0).sum : Int) * weight t st k := by
  have hone : ∀ u ∈ r.pooledUnits.filter (fun u => decide (u.1 = k)),
      transformed t st u = (max (leftHom t st k u.2) 0 : Int) * weight t st k := fun u hu => by
    obtain rfl : u.1 = k := of_decide_eq_true (mem_filter.mp hu).2
    exact transformed_eq t st u
  unfold leftsOf
  rw [map_congr_left hone, sum_map_mul_right, Int.cast_list_sum, map_map, map_map]
  rfl

theorem merged_le_plain (t : Transform) (st : State) (h : u ∈ tally r.pooledUnits) :
    transformed t st u ≤ ((r.pooledUnits.filter fun w => decide (w.1 = u.1)).map (transformed t st)).sum := by
  obtain ⟨w, hw, hkey⟩ := mem_map.mp (mem_keys_tally.mp (mem_map_of_mem h))
  have hweight : 0 ≤ weight t st u.1 := hkey ▸ weight_nonneg t st hw
  rw [transformed_merged t st h, transformed_plain]
  exact mul_le_mul_of_nonneg_right (Int.cast_le.mpr (clamp_sum_le _)) hweight

/-- And as much exactly when they are on one side of zero, or their factor is 0. -/
theorem merged_eq_plain_iff (t : Transform) (st : State) (h : u ∈ tally r.pooledUnits) :
    transformed t st u = ((r.pooledUnits.filter fun w => decide (w.1 = u.1)).map (transformed t st)).sum ↔
      (weight t st u.1 ≠ 0 → ¬ Mixed (r.leftsOf t st u.1)) := by
  rw [transformed_merged t st h, transformed_plain, mul_eq_mul_right_iff, Int.cast_inj, clamp_sum_eq_iff]
  exact or_iff_not_imp_right

theorem mem_leftsOf {t : Transform} {st : State} {k : EvalKey} {v : Int} :
    v ∈ r.leftsOf t st k ↔ ∃ u ∈ r.pooledUnits, u.1 = k ∧ leftHom t st u.1 u.2 = v := by
  unfold leftsOf
  rw [mem_map]
  constructor
  · rintro ⟨u, hmem, rfl⟩
    obtain ⟨hu, hkey⟩ := mem_filter.mp hmem
    obtain rfl := of_decide_eq_true hkey
    exact ⟨u, hu, rfl, rfl⟩
  · rintro ⟨u, hu, rfl, rfl⟩
    exact ⟨u, mem_filter.mpr ⟨hu, decide_eq_true rfl⟩, rfl⟩

theorem oneSided_iff (t : Transform) (st : State) :
    r.OneSided t st ↔ ∀ u ∈ tally r.pooledUnits, weight t st u.1 ≠ 0 → ¬ Mixed (r.leftsOf t st u.1) := by
  constructor
  · rintro h ⟨k, total⟩ - hweight ⟨⟨_, hbelow, hneg⟩, _, habove, hpos⟩
    obtain ⟨v, hv, rfl, rfl⟩ := mem_leftsOf.mp hbelow
    obtain ⟨w, hw, hkey, rfl⟩ := mem_leftsOf.mp habove
    exact h v hv w hw hkey.symm hweight ⟨hneg, hpos⟩
  · rintro h u hu w hw hkey hweight ⟨hneg, hpos⟩
    obtain ⟨e, he, hsame⟩ := mem_map.mp (mem_keys_tally.mpr (mem_map_of_mem hu))
    refine h e he (hsame ▸ hweight) ⟨⟨_, mem_leftsOf.mpr ⟨u, hu, hsame.symm, rfl⟩, hneg⟩, _, ?_, hpos⟩
    exact mem_leftsOf.mpr ⟨w, hw, hkey.symm.trans hsame.symm, rfl⟩

theorem merge_pooledUnits : merge r.pooledUnits = tally r.pooledUnits :=
  merge_eq_tally fun _ hu => named_pooledUnits hu

/-! ### Splits -/

/-- The units of another replay: a pooled unit is split into units of its key, into other teams for one. -/
def Split (r r' : Replay) : Prop :=
  r'.factor = r.factor ∧ ∃ before u parts after, r.units = before ++ u :: after ∧
    r'.units = before ++ parts ++ after ∧ u.1.pooled = true ∧ parts ≠ [] ∧
    (∀ v ∈ parts, v.1.pooled = true ∧ r.evalKey v.1 = r.evalKey u.1) ∧
    (parts.map fun v => v.2.credit).sum = u.2.credit

/-- What a unit and its parts come to, under a key. -/
theorem amountOf_split {κ M : Type} [DecidableEq κ] [AddCommMonoid M] {k₀ : κ} {parts : List (κ × M)}
    (hne : parts ≠ []) (hkey : ∀ e ∈ parts, e.1 = k₀) (before after : List (κ × M)) (k : κ) :
    amountOf (before ++ parts ++ after) k =
      amountOf (before ++ (k₀, (parts.map (·.2)).sum) :: after) k := by
  have hmem : k ∈ parts.map (·.1) ↔ k = k₀ := by
    constructor
    · intro h
      obtain ⟨e, he, rfl⟩ := mem_map.mp h
      exact hkey e he
    · rintro rfl
      obtain ⟨e, he⟩ := exists_mem_of_ne_nil parts hne
      exact mem_map.mpr ⟨e, he, hkey e he⟩
  refine if_congr ?_ ?_ rfl
  · simp only [map_append, map_cons, mem_append, mem_cons, hmem]
    tauto
  · by_cases h : k₀ = k
    · have hall : parts.filter (fun e => decide (e.1 = k)) = parts :=
        filter_eq_self.mpr fun e he => decide_eq_true ((hkey e he).trans h)
      simp [hall, h]
    · have hnone : parts.filter (fun e => decide (e.1 = k)) = [] :=
        filter_eq_nil_iff.mpr fun e he => by simpa [hkey e he] using h
      simp [hnone, h]

theorem Split.evalKey (h : Split r r') : r'.evalKey = r.evalKey := by
  unfold Replay.evalKey
  rw [h.1]

theorem Split.pooledUnits (h : Split r r') : (tally r'.pooledUnits).Perm (tally r.pooledUnits) := by
  have hkeys := h.evalKey
  obtain ⟨-, before, u, parts, after, hunits, hunits', hu, hne, hparts, hsum⟩ := h
  have hall : parts.filter (·.1.pooled) = parts := filter_eq_self.mpr fun v hv => (hparts v hv).1
  have hne : (parts.map fun v => (r.evalKey v.1, v.2.credit)) ≠ [] := map_eq_nil_iff.not.mpr hne
  have hsame : ∀ e ∈ parts.map fun v => (r.evalKey v.1, v.2.credit), e.1 = r.evalKey u.1 := fun e he => by
    obtain ⟨v, hv, rfl⟩ := mem_map.mp he
    exact (hparts v hv).2
  have hamounts := amountOf_split hne hsame
    ((before.filter (·.1.pooled)).map fun v => (r.evalKey v.1, v.2.credit))
    ((after.filter (·.1.pooled)).map fun v => (r.evalKey v.1, v.2.credit))
  refine (perm_ext_iff_of_nodup (nodup_tally _).of_map (nodup_tally _).of_map).mpr fun ⟨k, total⟩ => ?_
  have hk := hamounts k
  rw [map_map] at hk
  rw [mem_tally, mem_tally]
  unfold Replay.pooledUnits
  rw [hkeys, hunits, hunits', filter_append, filter_append, filter_append, hall, filter_cons,
    if_pos hu, map_append, map_append, map_append, map_cons, ← hsum]
  exact Eq.congr_left hk

theorem Split.directUnits (h : Split r r') : r'.directUnits = r.directUnits := by
  have hkeys := h.evalKey
  obtain ⟨-, before, u, parts, after, hunits, hunits', hu, -, hparts, -⟩ := h
  have hnone : parts.filter (fun v => !v.1.pooled) = [] :=
    filter_eq_nil_iff.mpr fun v hv => by simp [(hparts v hv).1]
  unfold Replay.directUnits
  rw [hkeys, hunits, hunits', filter_append, filter_append, filter_append, hnone, filter_cons,
    hu, append_nil]
  rfl

theorem Split.pooled0 (h : Split r r') : r'.pooled0 = r.pooled0 := by
  have hsum := fun name => congrArg UnitSums.valueHom
    ((h.pooledUnits.filter fun u => decide (u.1.entity = name)).map (·.2)).sum_eq
  have hpooled : ∀ (r : Replay) (name : String), r.pooled0 name = UnitSums.valueHom
      (((tally r.pooledUnits).filter fun u => decide (u.1.entity = name)).map (·.2)).sum := fun r name => by
    rw [sum_tally r.pooledUnits fun k => decide (k.entity = name), map_list_sum, map_map]
    unfold Replay.pooled0 Replay.pooledUnits
    rw [filter_map, map_map, filter_filter]
    refine congrArg (fun l => (List.map _ l).sum) (filter_congr fun u _ => Bool.and_comm _ _)
  funext name
  rw [hpooled, hpooled, hsum]

end Replay

/-! ### The replay of a game -/

namespace Game

variable {g : Game}

end Game

namespace Replay

/-! ### Main results -/

/-- Merging changes no sum exactly when the units that are merged stay on one side of zero. Splitting a
pooled unit into units of its key never does. -/
theorem merge_neutral (r : Replay) (active : List Player) (st : State) :
    (r.mergedSums active st = r.plainSums active st ↔ r.OneSided (transform active) st) ∧
      ∀ r', Split r r' → r'.mergedSums active st = r.mergedSums active st ∧ r'.pooled0 = r.pooled0 := by
  refine ⟨?_, fun r' h => ⟨?_, h.pooled0⟩⟩
  · rw [oneSided_iff, CellSums.ext_iff, and_iff_left ⟨rfl, rfl⟩, funext_iff]
    have hname : ∀ name, (r.mergedSums active st).pooled name = (r.plainSums active st).pooled name ↔
        ∀ u ∈ (tally r.pooledUnits).filter (fun u => decide (u.1.entity = name)),
          weight (transform active) st u.1 ≠ 0 → ¬ Mixed (r.leftsOf (transform active) st u.1) := fun name => by
      have hplain := sum_by_tally r.pooledUnits (fun k => decide (k.entity = name))
        (transformed (transform active) st)
      unfold mergedSums plainSums cellSums
      dsimp only
      rw [merge_pooledUnits, hplain,
        sum_eq_iff_of_le fun u hu => merged_le_plain _ st (mem_filter.mp hu).1]
      exact forall₂_congr fun u hu => merged_eq_plain_iff _ st (mem_filter.mp hu).1
    rw [forall_congr' hname]
    constructor
    · exact fun h u hu => h u.1.entity u (mem_filter.mpr ⟨hu, decide_eq_true rfl⟩)
    · exact fun h name u hu => h u (mem_filter.mp hu).1
  · unfold mergedSums cellSums
    rw [merge_pooledUnits, merge_pooledUnits, h.directUnits]
    congr 1
    funext name
    exact ((h.pooledUnits.filter _).map _).sum_eq

def twoTeams : Replay where
  units := [(⟨"enterprise", true, some "core", false, true, some "a", false⟩, ⟨10, 15, 15, 0, 10, 10⟩),
    (⟨"enterprise", true, some "web", false, true, some "a", false⟩, ⟨10, 0, 0, 0, 10, 10⟩)]
  named := by decide
  factor := fun _ => (1, 1)
  factor_nonneg := fun _ _ => ⟨zero_le_one, zero_le_one⟩

/-- The remap takes more than the value of the first team's cells. Merged, it takes it from the second's. -/
theorem merge_not_neutral :
    let active : List Player := [⟨"remap:a", "remap", .rate, .remap, some "a", [], 0⟩]
    (twoTeams.mergedSums active {}).pooled "enterprise" = 5 ∧
      (twoTeams.plainSums active {}).pooled "enterprise" = 10 := by
  decide +kernel

end Replay

end TokenBill.CellGame
