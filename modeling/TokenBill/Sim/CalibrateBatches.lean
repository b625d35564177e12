import TokenBill.Sim.Calibrate

/-!
# Calibration and batches

A partial sum of a pass is that of the transitions its lanes walk, so the partial sums of any batches merge into that
of all lanes, in any order. The hit rates are fitted on the merged counts of the first pass, so the second pass, too, does
not depend on the batches, and neither does the report.
-/

namespace TokenBill.Calibrate

open General Transitions Sim List

/-! ### Traversals -/

section Traversal

variable {α β : Type} (f : α → Option (List β))

theorem mapM_flatten_cons (a : α) (l : List α) : ((a :: l).mapM f).map List.flatten =
    (f a).bind fun bs => ((l.mapM f).map List.flatten).map (bs ++ ·) := by
  rw [mapM_cons]
  cases f a with
  | none => rfl
  | some bs => cases l.mapM f <;> rfl

theorem mapM_flatten_append (xs ys : List α) : ((xs ++ ys).mapM f).map List.flatten =
    ((xs.mapM f).map List.flatten).bind fun bs => ((ys.mapM f).map List.flatten).map (bs ++ ·) := by
  rw [mapM_append]
  cases xs.mapM f with
  | none => rfl
  | some bss =>
    cases ys.mapM f with
    | none => rfl
    | some css => exact congrArg some flatten_append

/-- Traversals in parts are one traversal. -/
theorem mapM_flatten_flatten (xss : List (List α)) :
    (xss.mapM fun xs : List α => (xs.mapM f).map List.flatten).map List.flatten =
      (xss.flatten.mapM f).map List.flatten := by
  induction xss with
  | nil => rfl
  | cons xs xss ih => rw [flatten_cons, mapM_flatten_append, mapM_flatten_cons, ih]

/-- A traversal in another order has the same results in another order. -/
theorem mapM_flatten_perm {xs ys : List α} (h : xs.Perm ys) :
    Option.Rel List.Perm ((xs.mapM f).map List.flatten) ((ys.mapM f).map List.flatten) := by
  induction h with
  | nil => exact .some .nil
  | cons a h ih =>
    rw [mapM_flatten_cons, mapM_flatten_cons]
    cases f a with
    | none => exact .none
    | some bs =>
      revert ih
      generalize (List.mapM f _).map List.flatten = left
      generalize (List.mapM f _).map List.flatten = right
      intro ih
      cases ih with
      | none => exact .none
      | some hperm => exact .some (hperm.append_left bs)
  | swap a b l =>
    rw [mapM_flatten_cons, mapM_flatten_cons, mapM_flatten_cons, mapM_flatten_cons]
    cases f a with
    | none => cases f b <;> exact .none
    | some bs =>
      cases f b with
      | none => exact .none
      | some cs =>
        cases (l.mapM f).map List.flatten with
        | none => exact .none
        | some ds =>
          refine .some ?_
          show (cs ++ (bs ++ ds)).Perm (bs ++ (cs ++ ds))
          rw [← append_assoc, ← append_assoc]
          exact perm_append_comm.append_right ds
  | trans h₁ h₂ ih₁ ih₂ =>
    revert ih₁ ih₂
    generalize (List.mapM f _).map List.flatten = left
    generalize (List.mapM f _).map List.flatten = middle
    generalize (List.mapM f _).map List.flatten = right
    intro ih₁ ih₂
    cases ih₁ with
    | none => exact ih₂
    | some h₁ =>
      cases ih₂ with
      | some h₂ => exact .some (h₁.trans h₂)

/-- Results that are related are gone on with alike. -/
theorem bind_of_rel {α β γ : Type} {r : α → β → Prop} {x : Option α} {y : Option β} (h : Option.Rel r x y)
    {f : α → Option γ} {g : β → Option γ} (hfg : ∀ a b, r a b → f a = g b) : x.bind f = y.bind g := by
  cases h with
  | none => rfl
  | some h => exact hfg _ _ h

end Traversal

/-! ### Partial sums -/

theorem partialSum_parts {α κ M : Type} [LinearOrder κ] [AddCommMonoid M] (f : α → List (κ × M)) (xss : List (List α)) :
    partialSum (xss.flatMap fun xs => partialSum (xs.flatMap f)) = partialSum (xss.flatten.flatMap f) := by
  have hflatten : (xss.flatMap fun xs => xs.flatMap f) = xss.flatten.flatMap f := by
    rw [flatMap_def, flatMap_def, map_flatten, flatten_flatten, map_map]
    rfl
  rw [partialSum_flatMap, hflatten]

theorem sum_countP {α : Type} (p : α → Bool) (xss : List (List α)) :
    (xss.map fun xs => xs.countP p).sum = xss.flatten.countP p := by
  induction xss with
  | nil => rfl
  | cons xs xss ih => rw [map_cons, sum_cons, ih, flatten_cons, countP_append]

theorem sum_sums {α M : Type} [AddCommMonoid M] (f : α → M) (xss : List (List α)) :
    (xss.map fun xs => (xs.map f).sum).sum = (xss.flatten.map f).sum := by
  induction xss with
  | nil => rfl
  | cons xs xss ih => rw [map_cons, sum_cons, ih, flatten_cons, map_append, sum_append]

variable (s : Setting)

/-- The merged partial sums of the first pass are those of all that was walked. -/
theorem mergePartials_sums1 {wss : List (List Walked)} (h : wss ≠ []) :
    mergePartials (wss.map s.sums1) = some (s.sums1 wss.flatten) := by
  obtain ⟨ws, rest, rfl⟩ := exists_cons_of_ne_nil h
  have hall : ((ws :: rest).map s.sums1).all (fun part => decide (part.granularity = (s.sums1 ws).granularity)) = true := by
    rw [all_map, all_eq_true]
    exact fun _ _ => decide_eq_true rfl
  unfold mergePartials
  rw [map_cons] at hall ⊢
  dsimp only
  rw [if_pos hall, ← map_cons]
  refine congrArg some ?_
  simp only [flatMap_map, map_map, Function.comp_def, Setting.sums1, partialSum_parts, sum_countP, sum_sums]
  rw [show ((ws :: rest).flatMap fun _ => ([] : List (String × Int))) = [] from flatMap_eq_nil_iff.mpr fun _ _ => rfl]
  rfl

/-- The merged partial sums of the second pass are those of all that was walked. -/
theorem mergePartials_sums2 (rho : Setting.RhoByFold) {wss : List (List Walked)} (h : wss ≠ []) :
    mergePartials (wss.map (s.sums2 rho)) = some (s.sums2 rho wss.flatten) := by
  obtain ⟨ws, rest, rfl⟩ := exists_cons_of_ne_nil h
  have hall : ((ws :: rest).map (s.sums2 rho)).all
      (fun part => decide (part.granularity = (s.sums2 rho ws).granularity)) = true := by
    rw [all_map, all_eq_true]
    exact fun _ _ => decide_eq_true rfl
  have hnil : ∀ α : Type, ((ws :: rest).flatMap fun _ => ([] : List α)) = [] := fun _ =>
    flatMap_eq_nil_iff.mpr fun _ _ => rfl
  have hzero : ∀ (M : Type) [AddCommMonoid M], ((ws :: rest).map fun _ => (0 : M)).sum = 0 := fun M _ =>
    sum_eq_zero fun x hx => by
      obtain ⟨_, -, rfl⟩ := mem_map.mp hx
      rfl
  unfold mergePartials
  rw [map_cons] at hall ⊢
  dsimp only
  rw [if_pos hall, ← map_cons]
  refine congrArg some ?_
  simp only [flatMap_map, map_map, Function.comp_def, Setting.sums2, partialSum_parts, hnil]
  rw [hzero Nat, show ((ws :: rest).map fun _ => ((0, 0) : Nat × Nat)).sum = 0 from hzero (Nat × Nat)]
  rfl

theorem sums1_perm {ws vs : List Walked} (h : ws.Perm vs) : s.sums1 ws = s.sums1 vs := by
  unfold Setting.sums1
  rw [partialSum_perm (h.flatMap_right _), partialSum_perm (h.flatMap_right _), partialSum_perm (h.flatMap_right _),
    partialSum_perm (h.flatMap_right _), (h.map _).sum_eq, h.countP_eq, h.countP_eq]

theorem sums2_perm (rho : Setting.RhoByFold) {ws vs : List Walked} (h : ws.Perm vs) : s.sums2 rho ws = s.sums2 rho vs := by
  unfold Setting.sums2
  rw [partialSum_perm (h.flatMap_right _)]

/-! ### The report -/

def fittedRho (counts : List ((Nat ×ₗ String) × Nat × Nat)) (folds : Nat) : Setting.RhoByFold :=
  (List.range folds).map fun k =>
    (k, bandRho (tally ((counts.filter fun c => decide ((ofLex c.1).1 ≠ k)).map fun c => ((ofLex c.1).2, c.2))))

theorem fitRhoByFold_sums1 (wss : List (List Walked)) (hfolds : ¬s.folds < 2) :
    fitRhoByFold (wss.map s.sums1) s.folds = some (fittedRho (s.sums1 wss.flatten).rhoCounts s.folds) := by
  unfold fitRhoByFold
  rw [if_neg hfolds]
  by_cases h : wss = []
  · subst h
    rfl
  · rw [if_neg fun hnil => h (map_eq_nil_iff.mp hnil), mergePartials_sums1 s h]
    rfl

def reportOfWalks (ws₁ ws₂ : List Walked) : Option CalibrationReport :=
  reportOf s.granularity s.folds (s.sums1 ws₁) (s.sums2 (fittedRho (s.sums1 ws₁).rhoCounts s.folds) ws₂)

theorem finishCalibration_sums (rho : Setting.RhoByFold) (wss₁ wss₂ : List (List Walked)) (hfolds : ¬s.folds < 2) :
    finishCalibration (wss₁.map s.sums1) (wss₂.map (s.sums2 rho)) s.granularity s.folds =
      reportOf s.granularity s.folds (s.sums1 wss₁.flatten) (s.sums2 rho wss₂.flatten) := by
  have hall : (wss₁.map s.sums1 ++ wss₂.map (s.sums2 rho)).all
      (fun part => decide (part.granularity = s.granularity)) = true := by
    rw [all_append, all_map, all_map, Bool.and_eq_true, all_eq_true, all_eq_true]
    exact ⟨fun _ _ => decide_eq_true rfl, fun _ _ => decide_eq_true rfl⟩
  have h₁ := mergePartials_sums1 s (cons_ne_nil [] wss₁)
  have h₂ := mergePartials_sums2 s rho (cons_ne_nil [] wss₂)
  rw [map_cons, flatten_cons, nil_append] at h₁ h₂
  unfold finishCalibration
  rw [if_neg hfolds, if_pos hall]
  show (mergePartials (s.sums1 [] :: wss₁.map s.sums1) >>= fun one =>
    mergePartials (s.sums2 rho [] :: wss₂.map (s.sums2 rho)) >>= fun two => reportOf s.granularity s.folds one two) = _
  rw [h₁, h₂]
  rfl

theorem pass_batches (withLabels : Bool) (sums : List Walked → CalibrationPartial) (batches : List (List Lane)) :
    (batches.mapM fun lanes => (s.walk withLabels lanes).map sums) = (batches.mapM (s.walk withLabels)).map (List.map sums) := by
  induction batches with
  | nil => rfl
  | cons lanes rest ih =>
    rw [mapM_cons, mapM_cons, ih]
    cases s.walk withLabels lanes with
    | none => rfl
    | some ws => cases rest.mapM (s.walk withLabels) <;> rfl

theorem calibrate_eq (hfolds : ¬s.folds < 2) (batches : List (List Lane)) :
    calibrate s batches = (s.walk true batches.flatten).bind fun ws₁ =>
      (s.walk false batches.flatten).bind (reportOfWalks s ws₁) := by
  have hwalk : ∀ withLabels, (batches.mapM (s.walk withLabels)).map List.flatten = s.walk withLabels batches.flatten :=
    fun withLabels => mapM_flatten_flatten (s.walkLane withLabels) batches
  unfold calibrate
  rw [if_neg hfolds, ← hwalk true, ← hwalk false]
  show (batches.mapM fun lanes => (s.walk true lanes).map s.sums1) >>= _ = _
  rw [pass_batches]
  cases batches.mapM (s.walk true) with
  | none => rfl
  | some wss₁ =>
    show fitRhoByFold (wss₁.map s.sums1) s.folds >>= _ = _
    rw [fitRhoByFold_sums1 s wss₁ hfolds]
    show (batches.mapM fun lanes => (s.walk false lanes).map (s.sums2 _)) >>= _ = _
    rw [pass_batches]
    cases batches.mapM (s.walk false) with
    | none => rfl
    | some wss₂ => exact finishCalibration_sums s _ wss₁ wss₂ hfolds

def dailySetting : Setting where
  providers := ⟨fun model => model, fun _ _ _ => true, fun _ _ => none⟩
  book := ⟨fun _ _ => none, fun _ _ _ _ _ _ => some none⟩
  floor := fun _ => 0
  granularity := .day
  folds := 2

/-- A lane of a key. -/
def laneOf (key : String) : Lane where
  laneKey := key
  sessionKey := "s"
  kind := .main
  parentLaneKey := none
  cacheScopeKey := "unknown"
  requests := []

end TokenBill.Calibrate
