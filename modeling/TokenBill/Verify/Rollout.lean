import TokenBill.Core.DecimalStr
import TokenBill.Core.Money
import TokenBill.Core.PyJsonText
import TokenBill.General.Grouping
import TokenBill.General.Deal

/-!
# Rollout plans

`plan` assigns clusters to a holdback and to waves, writes the assignment log and the pre-registration, and hashes both;
`verify_assignment` and `is_randomized` read the pre-registration back. Texts are lists of code points. The hash, the
shuffle of the seeded generator, the statistics of the pre-period panel and Python's reading of labels and dates are
those of a host. The warnings of a plan are left out, and so is what only they are made from.
-/

namespace TokenBill.Rollout

open General PyJson

/-! ### Texts -/

/-- A text of code points. -/
abbrev Text := List Nat

local instance textsLawful : LawfulBEq (List Nat) := inferInstance

def codes (s : String) : Text := s.toList.map Char.toNat

/-- `_encodable`: UTF-8 has no surrogates. -/
def encodable (s : Text) : Bool := s.all fun n => decide (IsScalar n)

/-- `[A-Za-z0-9._:-]`. -/
def isLeverChar (n : Nat) : Bool :=
  decide (65 ≤ n ∧ n ≤ 90 ∨ 97 ≤ n ∧ n ≤ 122 ∨ 48 ≤ n ∧ n ≤ 57) || (codes "._:-").contains n

/-- `_LEVER_RE`. -/
def isLever (s : Text) : Bool := decide (1 ≤ s.length ∧ s.length ≤ 128) && s.all isLeverChar

/-- `sorted(texts)`. -/
def sortTexts (texts : List Text) : List Text := texts.insertionSort (· ≤ ·)

/-! ### Designs and clusters -/

/-- `DESIGNS`. -/
inductive Design where
  | clusterRct
  | steppedWedge
  | its
  deriving DecidableEq

/-- The name of a design. -/
def Design.name : Design → String
  | .clusterRct => "cluster_rct"
  | .steppedWedge => "stepped_wedge"
  | .its => "its"

/-- `ESTIMATORS`. -/
def Design.estimator : Design → String
  | .clusterRct => "cuped_cluster_dim"
  | .steppedWedge => "imputation_did"
  | .its => "event_study_its"

/-- The kinds of `CLUSTER_FIELDS`. -/
inductive ClusterKind where
  | team
  | workspace
  | mdmGroup
  | gateway
  deriving DecidableEq

/-- The name of a kind. -/
def ClusterKind.name : ClusterKind → String
  | .team => "team"
  | .workspace => "workspace"
  | .mdmGroup => "mdm_group"
  | .gateway => "gateway"

/-- `ORG_WIDE_RANDOMIZABLE`. -/
def orgWideRandomizable : List ClusterKind := [.mdmGroup, .gateway]

/-- `REFRESH_MINUTES`. -/
def refreshMinutes : ClusterKind → Nat
  | .mdmGroup => 30
  | .gateway => 60
  | .workspace => 60
  | .team => 60

/-! ### What a plan is made from -/

/-- What `plan` itself reads of a row of the pre-period panel. -/
structure PreRow where
  (clusterId dateUtc : Text)
  activeDevDays : Nat

/-- A projection: what `to_json` makes of the figure, and its amount. -/
structure Projection where
  json : PyJson (List Nat)
  distinct : json.distinct = true
  nano : Option Int

/-- The arguments of `plan`, of the types that it checks. -/
structure Args where
  clusters : List Text
  leverId : Text
  clusterKind : ClusterKind
  design : Design
  waves : Int
  holdback : DecimalTuple
  seed : Int
  prePanel : Option (List PreRow)
  projection : Option Projection
  washoutHours : Int
  looks : List Text
  treated : Option (List (Text × Text))
  orgWideDelivery : Bool
  (changeDate rateCardSha256 : Option Text)

/-- What a plan takes from the host. -/
structure Host where
  /-- `hashlib.sha256(text.encode("utf-8")).hexdigest()`. -/
  sha : List Char → Text
  /-- The order that `rng(seed, "verify.rollout.assign", lever_id, design).shuffle` leaves. -/
  shuffle : Int → Text → Design → List Text → List Text
  shuffle_perm : ∀ seed lever design xs, (shuffle seed lever design xs).Perm xs
  /-- `str(label).strip().lower()`. -/
  normalize : Text → Text
  /-- `int(text)`. -/
  int : Text → Option Int
  /-- A text is a `YYYY-MM-DD` date. -/
  isDate : Text → Bool
  /-- The date of the next day. -/
  nextDay : Text → Option Text
  /-- The effect that is detectable by the A/A estimates of a holdback and a number of waves. -/
  mde : Args → Design → Nat → Nat → Option Int
  /-- `spend_targeting` of an assignment: the text of rho, and whether p is below `SPEND_ALPHA`. -/
  spendTargeting : Args → List (Text × Int) → Option (Text × Bool)
  /-- `_share`. -/
  share : Nat → Nat → Text
  /-- How deep the host writes and reads values that nest. -/
  depth : Nat
  /-- What `json.loads` makes of numbers that are no integers, and of constants. -/
  hooks : Hooks
  /-- `str(value)` of a value that is no string. -/
  str : PyJson (List Nat) → Text

/-- `UsageError`, or an error of the host: a text or an integer that is not written, a date that does not exist. -/
inductive PlanError where
  | usage (message : String)
  | host

/-! ### JSON -/

mutual

/-- A value that `canonical_json` writes and UTF-8 encodes. -/
def writes : PyJson (List Nat) → Bool
  | .null => true
  | .bool _ => true
  | .int n => decide ((Decimal.digits n.natAbs).length ≤ intMaxStrDigits)
  | .float _ => false
  | .str s => encodable s
  | .list items => writesItems items
  | .dict fields => writesFields fields

/-- Values that `canonical_json` writes. -/
def writesItems : List (PyJson (List Nat)) → Bool
  | [] => true
  | v :: items => writes v && writesItems items

/-- Members that `canonical_json` writes. -/
def writesFields : Dict (List Nat) → Bool
  | [] => true
  | (k, v) :: fields => encodable k && writes v && writesFields fields

end

/-- `canonical_json`. -/
def canonicalJson (v : PyJson (List Nat)) : List Char := dumps (fun _ => []) escapePlain v

/-- `None` or a value. -/
def orNull {α : Type} (f : α → PyJson (List Nat)) (v : Option α) : PyJson (List Nat) := (v.map f).getD .null

def lit (s : String) : PyJson (List Nat) := .str (codes s)

/-! ### Assignments -/

/-- A wave: its number and its clusters. -/
abbrev Wave := Int × List Text

/-- `_assign`. -/
def assign (order : List Text) (nHold waves : Nat) : List Text × List (List Text) :=
  (order.take nHold, deal waves (order.drop nHold))

def numbered (groups : List (List Text)) : List Wave := groups.zipIdx.map fun g => ((g.2 : Int) + 1, g.1)

/-- `_CONTROL_LABELS`. -/
def controlLabels : List Text := [codes "control", codes "holdback", codes "0"]

/-- `label.removeprefix("wave")`. -/
def removeWave (label : Text) : Text := if (codes "wave").isPrefixOf label then label.drop 4 else label

/-- The wave of a label of `treated`, or none for the holdback. -/
def readLabel (host : Host) (label : Text) : Except PlanError (Option Int) :=
  let label := host.normalize label
  if label ∈ controlLabels then .ok none
  else
    match host.int (removeWave label) with
    | none => .error (.usage "treated values must be wave numbers or 'control'")
    | some n => if n < 1 then .error (.usage "wave numbers start at 1") else .ok (some n)

/-- The clusters of each wave number, in the order of the numbers. -/
def byWave (labelled : List (Text × Option Int)) : List (List Text) :=
  let treat := labelled.filterMap fun c => c.2.map fun n => (n, c.1)
  ((groupsOf Prod.fst treat).insertionSort fun a b => a.1 ≤ b.1).map fun g => (g.2.1 :: g.2.2).map Prod.snd

/-- `_user_assignment`. -/
def userAssignment (host : Host) (clusters : List Text) (treated : List (Text × Text)) :
    Except PlanError (List Text × List Wave) :=
  if ∃ c ∈ treated, c.1 ∉ clusters then .error (.usage "treated names clusters that are not in the plan")
  else if ∃ c ∈ clusters, c ∉ treated.map Prod.fst then
    .error (.usage "treated must assign every cluster (a wave number or 'control')")
  else do
    let labelled ← (sortTexts clusters).mapM fun c => do
      let wave ← readLabel host ((treated.lookup c).getD [])
      pure (c, wave)
    let waves := byWave labelled
    if waves = [] then .error (.usage "treated assigns no cluster to a wave")
    else pure ((labelled.filter fun c => c.2.isNone).map Prod.fst, numbered waves)

/-- The coefficient and the exponent of `holdback * n` in the default context, of 28 digits. -/
def heldProduct (holdback : DecimalTuple) (n : Nat) : Int × Int :=
  let c : Nat := holdback.coeff * n
  let extra := (Decimal.digits c).length - 28
  (divHalfEven c (10 ^ extra), holdback.exp + extra)

/-- `int((hb * len(names)).to_integral_value(ROUND_HALF_UP))` of a share that is not negative. -/
def heldCount (holdback : DecimalTuple) (n : Nat) : Nat :=
  let (c, exp) := heldProduct holdback n
  if 0 ≤ exp then (c * 10 ^ exp.toNat).toNat else ((2 * c + 10 ^ (-exp).toNat) / (2 * 10 ^ (-exp).toNat)).toNat

/-! ### The log and the pre-registration -/

/-- `CONTROL_ARM`. -/
def controlArm : Text := codes "control"

/-- `_log_lines`. -/
def logLines (leverId : Text) (design : Design) (kind : ClusterKind) (seed : PyJson (List Nat)) (source : Text)
    (holdback : List Text) (waves : List Wave) : List Char :=
  let entries := (holdback.map fun c => (c, controlArm, (0 : Int))) ++
    waves.flatMap fun w => w.2.map fun c => (c, leverId, w.1)
  entries.zipIdx.flatMap fun e =>
    canonicalJson (.dict [(codes "arm", .str e.1.2.1), (codes "cluster", .str e.1.1),
      (codes "cluster_kind", lit kind.name), (codes "design", lit design.name), (codes "lever", .str leverId),
      (codes "position", .int e.2), (codes "seed", seed), (codes "source", .str source),
      (codes "wave", .int e.1.2.2)]) ++ ['\n']

/-- `_payloads`. -/
def payloads (leverId : Text) (waves : List Wave) : PyJson (List Nat) :=
  .list (waves.map fun w =>
    .list [.int w.1, .str (codes "tokenbill-" ++ leverId ++ codes "-wave" ++ (intText w.1).map Char.toNat)])

/-- `MeasurePlan`, as far as it is read. -/
structure MeasurePlan where
  leverId : Text
  design : Design
  clusterKind : ClusterKind
  waves : List Wave
  holdback : List Text
  washoutHours : Int
  looks : List Text
  mdeNano : Option Int
  verificationDesign : Bool
  (assignmentLogSha256 preregistrationSha256 : Text)
  preregistrationJson : List Char

/-- How the clusters were assigned: the source, the seed of the log, the holdback and the waves. -/
structure Assignment where
  source : String
  seed : Option Int
  holdback : List Text
  waves : List Wave

/-- `design its`: every cluster in one wave. -/
def orgWide (names : List Text) : Assignment := ⟨"org_wide", none, [], [(1, names)]⟩

/-- `HOLDBACK_RANGE`. -/
def holdbackRange : ℚ × ℚ := (1 / 10, 1 / 4)

/-- The assignment of a randomized design. -/
def assignment (host : Host) (args : Args) (design : Design) (names : List Text) : Except PlanError Assignment :=
  if ¬(holdbackRange.1 ≤ args.holdback.toRat ∧ args.holdback.toRat ≤ holdbackRange.2) then
    .error (.usage "holdback must be between 0.10 and 0.25")
  else if names.length < 2 then .error (.usage "a randomized design needs ≥ 2 clusters (use design its)")
  else
    let nHold := min (max 1 (heldCount args.holdback names.length)) (names.length - 1)
    let waves := min (if design = .clusterRct then 1 else args.waves.toNat) (names.length - nHold)
    match args.treated with
    | some treated => do
      let (hold, waveList) ← userAssignment host names treated
      pure ⟨"user", none, hold,
        if design = .clusterRct ∧ 1 < waveList.length then [(1, sortTexts (waveList.flatMap Prod.snd))] else waveList⟩
    | none =>
      let (hold, groups) := assign (host.shuffle args.seed args.leverId design (sortTexts names)) nHold waves
      pure ⟨"seeded", some args.seed, hold, numbered groups⟩

/-- The wave of each cluster, with the holdback after the last one. -/
def priority (a : Assignment) : List (Text × Int) :=
  (a.waves.flatMap fun w => w.2.map fun c => (c, w.1)) ++ a.holdback.map fun c => (c, (a.waves.length : Int) + 1)

def devDays (rows : List PreRow) (clusters : List Text) : Nat :=
  ((rows.filter fun r => decide (r.clusterId ∈ clusters)).map (·.activeDevDays)).sum

def Args.rows (args : Args) : List PreRow := args.prePanel.getD []

/-- The arm shares of the pre-registration. -/
def armShares (host : Host) (rows : List PreRow) (names hold : List Text) : PyJson (List Nat) :=
  let total := devDays rows names
  let shares := if 0 < total then (host.share (devDays rows hold) total, host.share (total - devDays rows hold) total)
    else (host.share hold.length names.length, host.share (names.length - hold.length) names.length)
  .dict [(controlArm, .str shares.1), (codes "treatment", .str shares.2)]

/-- `MIN_SIDE_DAYS`. -/
def minSideDays : Nat := 7

/-- The change date and the placebo date of `design its`. -/
def itsDates (host : Host) (args : Args) : Except PlanError (Option Text × Option Text) :=
  let dates := sortTexts (args.rows.map (·.dateUtc)).dedup
  let placebo := if 2 * minSideDays ≤ dates.length then dates[dates.length / 2]? else none
  match args.changeDate, dates.getLast? with
  | some change, _ =>
    if host.isDate change then .ok (some change, placebo) else .error (.usage "change_date must be a YYYY-MM-DD date")
  | none, some last =>
    match host.nextDay last with
    | some change => .ok (some change, placebo)
    | none => .error .host
  | none, none => .ok (none, placebo)

/-- A measurement is designed to be verified: the projection is priced, and not below the detectable effect. -/
def powered (projection : Option Projection) (mde : Option Int) : Bool :=
  match projection with
  | none => true
  | some p => match p.nano, mde with
    | some nano, some mde => decide (5 * mde ≤ 4 * nano.natAbs)
    | _, _ => false

/-- The check of the arguments. -/
def checkArgs (host : Host) (args : Args) : Except PlanError Unit :=
  if args.clusters = [] ∨ ∃ c ∈ args.clusters, c = [] ∨ encodable c = false then
    .error (.usage "clusters must be non-empty UTF-8 strings")
  else if ¬args.clusters.Nodup then .error (.usage "clusters must be unique")
  else if isLever args.leverId = false then .error (.usage "lever_id must match [A-Za-z0-9._:-]\x7b1,128\x7d")
  else if args.waves < 1 then .error (.usage "waves must be an int ≥ 1")
  else if args.washoutHours < 0 then .error (.usage "washout_hours must be an int ≥ 0")
  else if ∃ look ∈ args.looks, host.isDate look = false then .error (.usage "look must be a YYYY-MM-DD date")
  else if ∃ r ∈ args.rows, r.clusterId = [] then .error (.usage "PanelRow.cluster_id must be a non-empty string")
  else if ∃ r ∈ args.rows, host.isDate r.dateUtc = false then
    .error (.usage "PanelRow.date_utc must be a YYYY-MM-DD date")
  else .ok ()

/-- The design that is planned: org-wide settings that no group randomizes have no comparison group. -/
def Args.planned (args : Args) : Design :=
  if args.orgWideDelivery && decide (args.clusterKind ∉ orgWideRandomizable) then .its else args.design

def Args.washout (args : Args) : Int := max (max args.washoutHours 1) ((refreshMinutes args.clusterKind + 59) / 60 : Nat)

/-- The pre-registration that every design has, before the assignment. -/
def baseFields (args : Args) : Dict (List Nat) :=
  [(codes "lever", .str args.leverId), (codes "metric", lit "cost per active developer-day"),
    (codes "estimator", lit args.planned.estimator), (codes "looks", .list ((sortTexts args.looks.dedup).map .str)),
    (codes "rate_card_sha256", orNull .str args.rateCardSha256), (codes "projection", orNull (·.json) args.projection),
    (codes "design", lit args.planned.name), (codes "cluster_kind", lit args.clusterKind.name),
    (codes "washout_hours", .int args.washout), (codes "unit", lit "nano per active developer-day")]

/-- The pre-registration of the assignment. -/
def assignmentFields (mde : Option Int) (a : Assignment) (logSha : Text) (spend : Option Bool) (leverId : Text) :
    Dict (List Nat) :=
  [(codes "mde", orNull .int mde), (codes "seed", orNull .int a.seed), (codes "assignment", lit a.source),
    (codes "assignment_log_sha256", .str logSha), (codes "spend_targeted", orNull .bool spend),
    (codes "waves", .int a.waves.length), (codes "payloads", payloads leverId a.waves)]

def prereg (args : Args) (fields : Dict (List Nat)) (mde : Option Int) (a : Assignment) (logSha : Text)
    (spend : Option Bool) : Dict (List Nat) :=
  baseFields args ++ fields ++ assignmentFields mde a logSha spend args.leverId

/-- The assignment of a plan, the fields of the pre-registration about it, the effect and the spend flag. -/
def planned (host : Host) (args : Args) (names : List Text) :
    Except PlanError (Assignment × Dict (List Nat) × Option Int × Option Bool) :=
  if args.planned = .its then do
    let (change, placebo) ← itsDates host args
    pure (orgWide names, [(codes "change_date", orNull .str change), (codes "placebo_date", orNull .str placebo)],
      if args.rows = [] then none else host.mde args .its 0 1, none)
  else do
    let a ← assignment host args args.planned names
    let spend := if a.source = "user" ∧ args.rows ≠ [] then host.spendTargeting args (priority a) else none
    let nHold := if a.source = "user" then a.holdback.length
      else min (max 1 (heldCount args.holdback names.length)) (names.length - 1)
    pure (a, (spend.map fun s => (codes "spend_rho", PyJson.str s.1)).toList ++
      [(codes "arm_shares", armShares host args.rows names a.holdback),
        (codes "holdback", lit (decimalStr args.holdback))],
      if args.rows = [] then none else host.mde args args.planned nHold a.waves.length, spend.map Prod.snd)

def Args.log (args : Args) (a : Assignment) : List Char :=
  logLines args.leverId args.planned args.clusterKind (orNull .int a.seed) (codes a.source) a.holdback a.waves

/-- A plan of an assignment with the hash of its log and a pre-registration. -/
def measurePlan (host : Host) (args : Args) (a : Assignment) (mde : Option Int) (logSha : Text)
    (preregJson : List Char) : MeasurePlan where
  leverId := args.leverId
  design := args.planned
  clusterKind := args.clusterKind
  waves := a.waves
  holdback := a.holdback
  washoutHours := args.washout
  looks := sortTexts args.looks.dedup
  mdeNano := mde
  verificationDesign := decide (a.source = "seeded") && powered args.projection mde
  assignmentLogSha256 := logSha
  preregistrationSha256 := host.sha preregJson
  preregistrationJson := preregJson

/-- `plan`. -/
def plan (host : Host) (args : Args) : Except PlanError MeasurePlan := do
  checkArgs host args
  let (a, fields, mde, spend) ← planned host args (sortTexts args.clusters)
  let logSha := host.sha (args.log a)
  let pre : PyJson (List Nat) := .dict (prereg args fields mde a logSha spend)
  if writes pre = false ∨ host.depth < nesting pre then .error .host
  else pure (measurePlan host args a mde logSha (canonicalJson pre))

/-! ### Reading a plan -/

/-- `preregistration`. -/
def preregistration (host : Host) (p : MeasurePlan) : Option (Dict (List Nat)) :=
  if host.sha p.preregistrationJson ≠ p.preregistrationSha256 then none
  else
    match loadsWith host.hooks host.depth p.preregistrationJson with
    | some (.dict fields) => some fields
    | _ => none

/-- `pre.get(name)`. -/
def get (name : String) (pre : Dict (List Nat)) : Option (PyJson (List Nat)) :=
  (pre.find? fun f => decide (f.1 = codes name)).map Prod.snd

/-- `value if isinstance(value, int) else None`. -/
def intOrNull : Option (PyJson (List Nat)) → PyJson (List Nat)
  | some (.int n) => .int n
  | some (.bool b) => .bool b
  | _ => .null

/-- `str(pre.get(…, ""))`. -/
def strOf (host : Host) : Option (PyJson (List Nat)) → Text
  | none => []
  | some (.str s) => s
  | some v => host.str v

/-- `assignment_log_text`. -/
def assignmentLogText (host : Host) (p : MeasurePlan) : Option (List Char) :=
  (preregistration host p).map fun pre =>
    logLines p.leverId p.design p.clusterKind (intOrNull (get "seed" pre))
      (strOf host (get "assignment" pre)) p.holdback p.waves

/-- A value of the pre-registration is a text. -/
def isText (v : Option (PyJson (List Nat))) (s : Text) : Bool :=
  match v with
  | some (.str t) => decide (t = s)
  | _ => false

/-- `verify_assignment`. -/
def verifyAssignment (host : Host) (p : MeasurePlan) (logText : Option (List Char)) : Bool :=
  match preregistration host p with
  | none => false
  | some pre =>
    match logText <|> assignmentLogText host p with
    | none => false
    | some text =>
      let digest := host.sha text
      decide (digest = p.assignmentLogSha256) && isText (get "assignment_log_sha256" pre) p.assignmentLogSha256

/-- `is_randomized`. -/
def isRandomized (host : Host) (p : MeasurePlan) : Bool :=
  match preregistration host p with
  | none => false
  | some pre =>
    decide (p.design ≠ .its) && isText (get "assignment" pre) (codes "seeded") &&
      (match get "seed" pre with
        | some (.int _) => true
        | some (.bool _) => true
        | _ => false)

end TokenBill.Rollout
