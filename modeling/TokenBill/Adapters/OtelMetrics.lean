import TokenBill.Copilot.RecordKeys
import TokenBill.General.GroupSums

/-!
# Metric totals

`_metric` and `_aggregates` of `adapters/otel.py`: the data points of the Claude Code metrics of a file are summed into
one row for each UTC hour and each channel, model, speed and team. A cumulative series keeps its latest point.

`V` is the type of what a JSON value decodes to.
-/

namespace TokenBill.OtelMetrics

open General List

/-- `_TOKEN_METRIC`. -/
def tokenMetric : String := "claude_code.token.usage"

/-- `_COST_METRIC`. -/
def costMetric : String := "claude_code.cost.usage"

/-- `_HOUR_MS`. -/
def hourMs : Nat := 3600000

/-! ### Exports -/

section Exports

variable {V : Type}

/-- The dictionary of `_attrs`. -/
abbrev Attrs (V : Type) : Type := List (String × V)

/-- `{**res, **attrs}`. -/
def Attrs.over (own resource : Attrs V) : Attrs V := own.foldl (fun out kv => upsert (·.1) kv out) resource

/-- A data point: its attributes and times decoded, and `asInt` if it is there, else `asDouble`. -/
structure DataPoint (V : Type) where
  attributes : Attrs V
  (startTimeUnixNano timeUnixNano : Option Nat)
  value : V

/-- A metric: its `sum`, else its `gauge`, with whether the temporality is cumulative. -/
structure Metric (V : Type) where
  name : String
  data : Option (Bool × List (DataPoint V))

/-- A block of `resourceMetrics`: the names of its scopes, the attribute keys of its data points, its metrics. -/
structure ResourceMetrics (V : Type) where
  attributes : Attrs V
  (scopeNames attrKeys : List String)
  metrics : List (Metric V)

/-- The lines of a file. -/
abbrev Export (V : Type) : Type := List (List (ResourceMetrics V))

/-- An entry of `points`. -/
structure Point (V : Type) where
  name : String
  start : Nat
  «end» : Nat
  cumulative : Bool
  attrs : Attrs V
  value : V

end Exports

/-- What the reader uses of Python and of the other adapters. -/
structure Host (V : Type) where
  /-- The value if it is a string. -/
  text? : V → Option String
  repr : V → String
  cleanLabel : V → Option String
  cleanAttr : V → Option String
  normalizeIdentity : V → Option String
  toInt : V → Option Nat
  usdToNano : V → Option Nat
  /-- `normalize_model(raw).model`. -/
  normalizeModel : String → Option String
  /-- `_cc_channel(raw)[0]`. -/
  ccChannel : String → String
  /-- `team_for` with the options of the run. -/
  teamFor : List String → Option String
  /-- `opts.attribution.team`. -/
  team : Option String
  /-- The names of Copilot services, with those of the options. -/
  copilotNames : List String
  inWindow : Nat → Bool
  sourceId : String
  nowMs : Nat
  hashes : Hashes

section Reader

variable {V : Type} (h : Host V)

/-- `is_copilot_resource` of a block. -/
def copilot (rm : ResourceMetrics V) : Bool :=
  ((rm.attributes.lookup "service.name").bind h.text?).any (fun name => decide (name ∈ h.copilotNames)) ||
    rm.scopeNames.any (startsWith · "github.copilot") ||
    rm.attrKeys.any fun key => startsWith key "github.copilot." || startsWith key "copilot_chat."

/-- The point of a data point that has an end. -/
def pointOf (name : String) (cumulative : Bool) (resource : Attrs V) (dp : DataPoint V) : Option (Point V) :=
  dp.timeUnixNano.map fun endNs =>
    { name := name, start := dp.startTimeUnixNano.getD endNs / 1000000, «end» := endNs / 1000000
      cumulative := cumulative, attrs := dp.attributes.over resource, value := dp.value }

/-- `_metric`. -/
def metricPoints (resource : Attrs V) (metric : Metric V) : List (Point V) :=
  if metric.name ∈ [tokenMetric, costMetric] then
    match metric.data with
    | none => []
    | some (cumulative, dataPoints) => dataPoints.filterMap (pointOf metric.name cumulative resource)
  else []

def linePoints (line : List (ResourceMetrics V)) : List (Point V) :=
  line.flatMap fun rm => if copilot h rm then [] else rm.metrics.flatMap (metricPoints rm.attributes)

/-- `self.points` after all lines. -/
def points (lines : Export V) : List (Point V) := lines.flatMap (linePoints h)

/-! ### Aggregates -/

/-- The series of a point: the metric, the start and the attributes, sorted by name. -/
def series (p : Point V) : String × Nat × List (String × String) :=
  (p.name, p.start, (p.attrs.map fun a => (a.1, h.repr a.2)).insertionSort fun a b => a.1 ≤ b.1)

/-- One point of a cumulative series: a later arrival wins ties. -/
def latestStep (held : Option (Point V)) (p : Point V) : Point V :=
  match held with
  | none => p
  | some prev => if prev.end ≤ p.end then p else prev

/-- `latest`. -/
def latest (ps : List (Point V)) : List (Point V) :=
  (collect (series h) latestStep (ps.filter (·.cumulative))).map (·.2)

/-- The points that count: all deltas, and the latest point of each cumulative series. -/
def counted (ps : List (Point V)) : List (Point V) := ps.filter (fun p => !p.cumulative) ++ latest h ps

/-- `a or b` of strings. -/
def orText (a b : Option String) : Option String :=
  match a with
  | some s => if s = "" then b else some s
  | none => b

/-- `_USER_KEYS`. -/
def userKeys : List String := ["user.email", "user.account_uuid", "user.account_id", "user.id", "enduser.id"]

/-- The candidates of `_identities`. -/
def candidates (attrs : Attrs V) : List String :=
  userKeys.filterMap fun key => (attrs.lookup key).bind h.normalizeIdentity

/-- The dimensions of a point, sorted by name. -/
def dims (attrs : Attrs V) : List (String × String) :=
  let modelRaw := ((attrs.lookup "model").bind h.cleanLabel).getD ""
  let team := orText (orText (h.teamFor (candidates h attrs)) ((attrs.lookup "team.id").bind h.cleanAttr)) h.team
  [("channel", h.ccChannel modelRaw), ("model", (orText (h.normalizeModel modelRaw) (some modelRaw)).getD ""),
    ("product", "claude_code")] ++
    (if (attrs.lookup "speed").bind h.text? = some "fast" then [("speed", "fast")] else []) ++
    ((orText team none).map fun team => ("team", team)).toList

/-- A key of `groups`: the hour of the end of a point, and its dimensions. -/
abbrev Key : Type := Nat × List (String × String)

def groupKey (p : Point V) : Key := (p.end - p.end % hourMs, dims h p.attrs)

/-- The buckets of `_METRIC_BUCKET`. -/
inductive Bucket where
  | uncachedInput
  | output
  | cacheRead
  | cacheWriteUnknown
  deriving DecidableEq

/-- `_METRIC_BUCKET`. -/
def metricBucket : String → Option Bucket
  | "input" => some .uncachedInput
  | "output" => some .output
  | "cacheRead" => some .cacheRead
  | "cacheCreation" => some .cacheWriteUnknown
  | _ => none

/-- What a point adds to its group. -/
inductive Amount where
  | cost (nano : Nat)
  | tokens (bucket : Bucket) (n : Nat)
  /-- It counts as `bad_metric_points`. -/
  | bad
  deriving DecidableEq

def amount (p : Point V) : Amount :=
  if p.name = costMetric then
    match h.usdToNano p.value with
    | some nano => .cost nano
    | none => .bad
  else
    match ((p.attrs.lookup "type").bind h.text?).bind metricBucket, h.toInt p.value with
    | some bucket, some n => .tokens bucket n
    | _, _ => .bad

def contribution (p : Point V) : Option (Key × Amount) :=
  if h.inWindow p.end then some (groupKey h p, amount h p) else none

/-- A value of `groups`. -/
structure Group where
  usage : UsageCounts := {}
  cost : Option Nat := none

def addTokens (usage : UsageCounts) (n : Nat) : Bucket → UsageCounts
  | .uncachedInput => { usage with uncachedInput := usage.uncachedInput + n }
  | .output => { usage with output := usage.output + n }
  | .cacheRead => { usage with cacheRead := usage.cacheRead + n }
  | .cacheWriteUnknown => { usage with cacheWriteUnknown := usage.cacheWriteUnknown + n }

def Group.add (group : Group) : Amount → Group
  | .cost nano => { group with cost := some (group.cost.getD 0 + nano) }
  | .tokens bucket n => { group with usage := addTokens group.usage n bucket }
  | .bad => group

/-- `groups`. -/
def groups (ps : List (Point V)) : List (Key × Group) :=
  collect (·.1) (fun held c => (held.getD {}).add c.2) (ps.filterMap (contribution h))

/-- The row of a group, if its usage can be built. -/
def aggregate (key : Key) (group : Group) : Option UsageAggregate :=
  match group.usage.build with
  | .error _ => none
  | .ok usage =>
    some { aggId := h.hashes.stableId "agg" ([h.sourceId, "otel.metric", toString key.1, toString (key.1 + hourMs)] ++
             key.2.map fun d => d.1 ++ "=" ++ d.2)
           sourceKind := "otel.metric"
           bucketStartMs := key.1
           bucketEndMs := key.1 + hourMs
           dims := key.2
           usage := usage
           reportedCostNano := group.cost.map Int.ofNat
           reportedCostBasis := group.cost.map fun _ => "provider_estimate"
           fetchedMs := h.nowMs }

def keyLe (a b : Key) : Prop := toLex (a.1, a.2.map toLex) ≤ toLex (b.1, b.2.map toLex)

instance : DecidableRel keyLe := fun a b =>
  inferInstanceAs (Decidable (toLex (a.1, a.2.map toLex) ≤ toLex (b.1, b.2.map toLex)))

/-- `_aggregates`. -/
def aggregates (ps : List (Point V)) : List UsageAggregate :=
  ((groups h (counted h ps)).insertionSort fun a b => keyLe a.1 b.1).filterMap fun g => aggregate h g.1 g.2

/-! ### Measurements -/

/-- A data point with what it is read with. -/
structure Measurement (V : Type) where
  resource : Attrs V
  name : String
  cumulative : Bool
  dataPoint : DataPoint V

def Measurement.point? (m : Measurement V) : Option (Point V) := pointOf m.name m.cumulative m.resource m.dataPoint

/-- The data points of the two metrics in the blocks that are not left to the Copilot reader. -/
def measurements (lines : Export V) : List (Measurement V) :=
  lines.flatMap fun line => line.flatMap fun rm =>
    if copilot h rm then []
    else rm.metrics.flatMap fun metric =>
      if metric.name ∈ [tokenMetric, costMetric] then
        (metric.data.elim [] fun data => data.2.map fun dp => ⟨rm.attributes, metric.name, data.1, dp⟩)
      else []

theorem metricPoints_eq (resource : Attrs V) (metric : Metric V) :
    metricPoints resource metric =
      (if metric.name ∈ [tokenMetric, costMetric] then
        (metric.data.elim [] fun data => data.2.map fun dp => (⟨resource, metric.name, data.1, dp⟩ : Measurement V))
      else []).filterMap Measurement.point? := by
  unfold metricPoints
  split
  · cases metric.data with
    | none => rfl
    | some data =>
      rw [Option.elim_some, filterMap_map]
      rfl
  · rfl

theorem points_eq (lines : Export V) : points h lines = (measurements h lines).filterMap Measurement.point? := by
  unfold points measurements
  rw [filterMap_flatMap]
  refine flatMap_congr fun line _ => ?_
  rw [filterMap_flatMap]
  refine flatMap_congr fun rm _ => ?_
  split
  · rfl
  · rw [filterMap_flatMap]
    exact flatMap_congr fun metric _ => metricPoints_eq rm.attributes metric

/-! ### The latest point of a series -/

theorem foldl_latestStep (x : Point V) (rest : List (Point V)) :
    rest.foldl (fun held p => latestStep (some held) p) x ∈ x :: rest ∧
      ∀ q ∈ x :: rest, q.end ≤ (rest.foldl (fun held p => latestStep (some held) p) x).end := by
  induction rest generalizing x with
  | nil => exact ⟨mem_singleton_self x, fun q hq => (mem_singleton.mp hq ▸ le_rfl)⟩
  | cons y rest ih =>
    rw [foldl_cons]
    obtain ⟨hmem, hlast⟩ := ih (latestStep (some x) y)
    have hstep : (latestStep (some x) y = x ∨ latestStep (some x) y = y) ∧
        x.end ≤ (latestStep (some x) y).end ∧ y.end ≤ (latestStep (some x) y).end := by
      unfold latestStep
      dsimp only
      split
      · rename_i hle
        exact ⟨.inr rfl, hle, le_rfl⟩
      · rename_i hlt
        exact ⟨.inl rfl, le_rfl, (not_le.mp hlt).le⟩
    have hheld := hlast _ mem_cons_self
    refine ⟨?_, ?_⟩
    · rcases mem_cons.mp hmem with heq | hrest
      · rw [heq]
        rcases hstep.1 with h | h <;> rw [h]
        · exact mem_cons_self
        · exact mem_cons_of_mem _ mem_cons_self
      · exact mem_cons_of_mem _ (mem_cons_of_mem _ hrest)
    · refine forall_mem_cons.mpr ⟨hstep.2.1.trans hheld, forall_mem_cons.mpr ⟨hstep.2.2.trans hheld, ?_⟩⟩
      exact fun q hq => hlast q (mem_cons_of_mem _ hq)

/-- The points of the cumulative series `key` that end last. -/
def Last (ps : List (Point V)) (key : String × Nat × List (String × String)) (p : Point V) : Prop :=
  p ∈ ps ∧ p.cumulative = true ∧ series h p = key ∧
    ∀ q ∈ ps, q.cumulative = true → series h q = key → q.end ≤ p.end

variable {p : Point V} {ps ps' : List (Point V)}

theorem last_of_mem {key : String × Nat × List (String × String)}
    (hp : (key, p) ∈ collect (series h) latestStep (ps.filter (·.cumulative))) : Last h ps key p := by
  obtain ⟨x, rest, hfilter, hfold⟩ := mem_collect hp
  obtain ⟨hmem, hlast⟩ := foldl_latestStep x rest
  rw [← hfilter] at hmem hlast
  change rest.foldl (fun held p => latestStep (some held) p) x = p at hfold
  rw [hfold] at hmem hlast
  obtain ⟨hmem, hkey⟩ := mem_filter.mp hmem
  obtain ⟨hmem, hcumulative⟩ := mem_filter.mp hmem
  exact ⟨hmem, hcumulative, of_decide_eq_true hkey, fun q hq hqc hqk =>
    hlast q (mem_filter.mpr ⟨mem_filter.mpr ⟨hq, hqc⟩, decide_eq_true hqk⟩)⟩

theorem mem_latest (hp : p ∈ latest h ps) : Last h ps (series h p) p := by
  obtain ⟨⟨key, p⟩, hmem, rfl⟩ := mem_map.mp hp
  have hlast := last_of_mem h hmem
  rw [hlast.2.2.1]
  exact hlast

theorem nodup_series_latest (ps : List (Point V)) : ((latest h ps).map (series h)).Nodup := by
  have hkeys : (latest h ps).map (series h) = (collect (series h) latestStep (ps.filter (·.cumulative))).map (·.1) := by
    unfold latest
    rw [map_map]
    exact map_congr_left fun e he => (last_of_mem h he).2.2.1
  rw [hkeys]
  exact nodup_collect _ _ _

theorem exists_latest {q : Point V} (hq : q ∈ ps) (hc : q.cumulative = true) :
    ∃ p ∈ latest h ps, series h p = series h q := by
  have hkey : series h q ∈ (collect (series h) latestStep (ps.filter (·.cumulative))).map (·.1) :=
    mem_keys_collect.mpr ⟨q, mem_filter.mpr ⟨hq, hc⟩, rfl⟩
  obtain ⟨e, he, heq⟩ := mem_map.mp hkey
  exact ⟨e.2, mem_map_of_mem he, (last_of_mem h he).2.2.1.trans heq⟩

/-- Points of one cumulative series that both end last, and at the same time, contribute the same. -/
def Untied (ps : List (Point V)) : Prop :=
  ∀ key p q, Last h ps key p → Last h ps key q → contribution h p = contribution h q

theorem untied_of_ends (hends : ∀ p ∈ ps.filter (·.cumulative), ∀ q ∈ ps.filter (·.cumulative),
    series h p = series h q → p.end = q.end → contribution h p = contribution h q) : Untied h ps :=
  fun _ p q hp hq => hends p (mem_filter.mpr ⟨hp.1, hp.2.1⟩) q (mem_filter.mpr ⟨hq.1, hq.2.1⟩)
    (hp.2.2.1.trans hq.2.2.1.symm)
    (le_antisymm (hq.2.2.2 p hp.1 hp.2.1 hp.2.2.1) (hp.2.2.2 q hq.1 hq.2.1 hq.2.2.1))

/-- What the latest points contribute does not depend on the order of the points. -/
theorem contributions_latest_perm (huntied : Untied h ps) (hperm : ps.Perm ps') :
    ((latest h ps).map (contribution h)).Perm ((latest h ps').map (contribution h)) := by
  have hlast : ∀ key p, Last h ps' key p → Last h ps key p := fun key p hp =>
    ⟨hperm.mem_iff.mpr hp.1, hp.2.1, hp.2.2.1, fun q hq => hp.2.2.2 q (hperm.mem_iff.mp hq)⟩
  have hkeys : ∀ {ps ps' : List (Point V)} {key p}, ps.Perm ps' →
      (key, p) ∈ collect (series h) latestStep (ps.filter (·.cumulative)) →
      ∃ q, (key, q) ∈ collect (series h) latestStep (ps'.filter (·.cumulative)) := by
    intro ps ps' key p hperm hp
    obtain ⟨hmem, hc, rfl, -⟩ := last_of_mem h hp
    have hkey : series h p ∈ (collect (series h) latestStep (ps'.filter (·.cumulative))).map (·.1) :=
      mem_keys_collect.mpr ⟨p, mem_filter.mpr ⟨hperm.mem_iff.mp hmem, hc⟩, rfl⟩
    obtain ⟨⟨key, q⟩, hq, rfl⟩ := mem_map.mp hkey
    exact ⟨q, hq⟩
  have hnodup : ∀ ps : List (Point V), ((collect (series h) latestStep (ps.filter (·.cumulative))).map
      fun e => (e.1, contribution h e.2)).Nodup := fun ps =>
    List.Nodup.of_map (·.1) (by
      rw [map_map]
      exact nodup_collect (series h) latestStep (ps.filter (·.cumulative)))
  have htable : ((collect (series h) latestStep (ps.filter (·.cumulative))).map fun e => (e.1, contribution h e.2)).Perm
      ((collect (series h) latestStep (ps'.filter (·.cumulative))).map fun e => (e.1, contribution h e.2)) := by
    refine (perm_ext_iff_of_nodup (hnodup ps) (hnodup ps')).mpr fun e => ⟨fun he => ?_, fun he => ?_⟩
    · obtain ⟨⟨key, p⟩, hp, rfl⟩ := mem_map.mp he
      obtain ⟨q, hq⟩ := hkeys hperm hp
      have hsame := huntied key p q (last_of_mem h hp) (hlast key q (last_of_mem h hq))
      exact mem_map.mpr ⟨(key, q), hq, Prod.ext rfl hsame.symm⟩
    · obtain ⟨⟨key, q⟩, hq, rfl⟩ := mem_map.mp he
      obtain ⟨p, hp⟩ := hkeys hperm.symm hq
      have hsame := huntied key p q (last_of_mem h hp) (hlast key q (last_of_mem h hq))
      exact mem_map.mpr ⟨(key, p), hp, Prod.ext rfl hsame⟩
  have hvalues := htable.map (·.2)
  rw [map_map, map_map] at hvalues
  unfold latest
  rw [map_map, map_map]
  exact hvalues

def contributions (cs : List (Point V)) : List (Key × Amount) := cs.filterMap (contribution h)

theorem contributions_perm (huntied : Untied h ps) (hperm : ps.Perm ps') :
    (contributions h (counted h ps)).Perm (contributions h (counted h ps')) := by
  have hlatest : ((latest h ps).filterMap (contribution h)).Perm ((latest h ps').filterMap (contribution h)) := by
    have hvalues := (contributions_latest_perm h huntied hperm).filterMap id
    rw [filterMap_map, filterMap_map] at hvalues
    exact hvalues
  unfold contributions counted
  rw [filterMap_append, filterMap_append]
  exact ((hperm.filter _).filterMap _).append hlatest

/-! ### Totals of a group -/

def Amount.tokensOf (bucket : Bucket) : Amount → Nat
  | .tokens b n => if b = bucket then n else 0
  | _ => 0

def Amount.cost? : Amount → Option Nat
  | .cost nano => some nano
  | _ => none

/-- The sums of some amounts: tokens by bucket, and the costs where there is one. -/
def total (amounts : List Amount) : Group where
  usage :=
    { uncachedInput := (amounts.map (Amount.tokensOf .uncachedInput)).sum
      output := (amounts.map (Amount.tokensOf .output)).sum
      cacheRead := (amounts.map (Amount.tokensOf .cacheRead)).sum
      cacheWriteUnknown := (amounts.map (Amount.tokensOf .cacheWriteUnknown)).sum }
  cost := if amounts.filterMap Amount.cost? = [] then none else some (amounts.filterMap Amount.cost?).sum

theorem total_append_singleton (amounts : List Amount) (a : Amount) : total (amounts ++ [a]) = (total amounts).add a := by
  unfold total
  rw [filterMap_append]
  simp only [map_append, sum_append, map_cons, map_nil, sum_singleton]
  cases a with
  | cost nano =>
    have hcost : [Amount.cost nano].filterMap Amount.cost? = [nano] := rfl
    rw [hcost, if_neg (append_ne_nil_of_right_ne_nil _ (cons_ne_nil _ _)), sum_singleton]
    have hheld : (if amounts.filterMap Amount.cost? = [] then none else some (amounts.filterMap Amount.cost?).sum).getD 0 =
        (amounts.filterMap Amount.cost?).sum := by
      split
      · rename_i hnil
        rw [hnil]
        rfl
      · rfl
    unfold Group.add
    dsimp only [Amount.tokensOf, Nat.add_zero]
    rw [hheld]
  | tokens bucket n =>
    have hcost : [Amount.tokens bucket n].filterMap Amount.cost? = [] := rfl
    rw [hcost, append_nil]
    cases bucket <;> simp [Amount.tokensOf, Group.add, addTokens]
  | bad =>
    have hcost : [Amount.bad].filterMap Amount.cost? = [] := rfl
    rw [hcost, append_nil]
    simp [Amount.tokensOf, Group.add]

theorem foldl_add (amounts : List Amount) : amounts.foldl Group.add {} = total amounts := by
  induction amounts using List.reverseRecOn with
  | nil => rfl
  | append_singleton amounts a ih => rw [foldl_append, ih, foldl_cons, foldl_nil, total_append_singleton]

theorem total_perm {a b : List Amount} (hperm : a.Perm b) : total a = total b := by
  have hcost := hperm.filterMap Amount.cost?
  have hnil : a.filterMap Amount.cost? = [] ↔ b.filterMap Amount.cost? = [] := by
    rw [← length_eq_zero_iff, hcost.length_eq, length_eq_zero_iff]
  unfold total
  simp only [(hperm.map _).sum_eq, hcost.sum_eq, hnil]

def amountsAt (cs : List (Key × Amount)) (key : Key) : List Amount :=
  (cs.filter fun c => decide (c.1 = key)).map (·.2)

theorem mem_groups {key : Key} {group : Group} :
    (key, group) ∈ groups h ps ↔
      (∃ c ∈ contributions h ps, c.1 = key) ∧ group = total (amountsAt (contributions h ps) key) := by
  have hvalue : ∀ {group}, (key, group) ∈ groups h ps → group = total (amountsAt (contributions h ps) key) := by
    intro group hmem
    obtain ⟨x, rest, hfilter, hfold⟩ := mem_collect hmem
    unfold amountsAt contributions
    rw [hfilter, ← foldl_add, map_cons, foldl_cons, foldl_map, ← hfold]
    rfl
  constructor
  · intro hmem
    exact ⟨mem_keys_collect.mp (mem_map_of_mem hmem), hvalue hmem⟩
  · rintro ⟨hkey, rfl⟩
    have hmem : key ∈ (groups h ps).map (·.1) := mem_keys_collect.mpr hkey
    obtain ⟨⟨key, group⟩, hgroup, rfl⟩ := mem_map.mp hmem
    rw [← hvalue hgroup]
    exact hgroup

theorem nodup_groups (ps : List (Point V)) : ((groups h ps).map (·.1)).Nodup := nodup_collect _ _ _

theorem groups_perm {cs cs' : List (Point V)} (hperm : (contributions h cs).Perm (contributions h cs')) :
    (groups h cs).Perm (groups h cs') := by
  refine (perm_ext_iff_of_nodup (nodup_groups h cs).of_map (nodup_groups h cs').of_map).mpr fun ⟨key, group⟩ => ?_
  rw [mem_groups, mem_groups, total_perm (a := amountsAt (contributions h cs) key) ((hperm.filter _).map _)]
  exact and_congr_left' (exists_congr fun c => and_congr_left' hperm.mem_iff)

theorem keyLe_antisymm {a b : Key} (hab : keyLe a b) (hba : keyLe b a) : a = b := by
  have heq := toLex.injective (le_antisymm hab hba)
  obtain ⟨hstart, hdims⟩ := Prod.mk.inj heq
  exact Prod.ext hstart (map_injective_iff.mpr toLex.injective hdims)

instance : Std.Total fun a b : Key × Group => keyLe a.1 b.1 := ⟨fun _ _ => le_total _ _⟩

instance : IsTrans (Key × Group) fun a b => keyLe a.1 b.1 := ⟨fun _ _ _ hab hbc => le_trans (α := Nat ×ₗ _) hab hbc⟩

theorem aggregates_perm (huntied : Untied h ps) (hperm : ps.Perm ps') : aggregates h ps = aggregates h ps' := by
  have hgroups := groups_perm h (contributions_perm h huntied hperm)
  unfold aggregates
  rw [sorted_eq (fun a ha b hb hab hba => ?_) hgroups]
  exact inj_on_of_nodup_map (nodup_groups h (counted h ps)) ha (hgroups.mem_iff.mpr hb) (keyLe_antisymm hab hba)

/-! ### Every point counts once -/

/-- All deltas count, and of each cumulative series one point that ends last. -/
structure CountsOnce (ps cs : List (Point V)) : Prop where
  deltas : cs.filter (fun p => !p.cumulative) = ps.filter fun p => !p.cumulative
  once : ((cs.filter (·.cumulative)).map (series h)).Nodup
  last : ∀ p ∈ cs, p.cumulative = true → Last h ps (series h p) p
  every : ∀ q ∈ ps, q.cumulative = true → ∃ p ∈ cs, p.cumulative = true ∧ series h p = series h q

/-- The rows are those of the groups of some contributions, with their totals, but for the groups whose usage cannot
be built. -/
structure SumsUp (cs : List (Key × Amount)) (rows : List UsageAggregate) : Prop where
  totals : ∀ row, row ∈ rows ↔ ∃ key, (∃ c ∈ cs, c.1 = key) ∧ aggregate h key (total (amountsAt cs key)) = some row
  distinct : (rows.map fun row => (row.bucketStartMs, row.dims)).Nodup

theorem cumulative_latest (hp : p ∈ latest h ps) : p.cumulative = true :=
  (mem_latest h hp).2.1

theorem counted_countsOnce (ps : List (Point V)) : CountsOnce h ps (counted h ps) := by
  have hdeltas : (ps.filter fun p => !p.cumulative).filter (·.cumulative) = [] := by
    refine filter_eq_nil_iff.mpr fun p hp hc => ?_
    rw [mem_filter, hc] at hp
    exact absurd hp.2 (by decide)
  have hlatest : (latest h ps).filter (·.cumulative) = latest h ps :=
    filter_eq_self.mpr fun p hp => cumulative_latest h hp
  have hrest : (latest h ps).filter (fun p => !p.cumulative) = [] := by
    refine filter_eq_nil_iff.mpr fun p hp hc => ?_
    rw [cumulative_latest h hp] at hc
    exact absurd hc (by decide)
  refine ⟨?_, ?_, fun p hp hc => ?_, fun q hq hc => ?_⟩
  · unfold counted
    rw [filter_append, hrest, append_nil, filter_filter]
    exact filter_congr fun p _ => Bool.and_self _
  · unfold counted
    rw [filter_append, hdeltas, nil_append, hlatest]
    exact nodup_series_latest h ps
  · rcases mem_append.mp hp with hp | hp
    · rw [mem_filter, hc] at hp
      exact absurd hp.2 (by decide)
    · exact mem_latest h hp
  · obtain ⟨p, hp, hkey⟩ := exists_latest h hq hc
    exact ⟨p, mem_append_right _ hp, cumulative_latest h hp, hkey⟩

theorem aggregate_key {key : Key} {group : Group} {row : UsageAggregate} (hrow : aggregate h key group = some row) :
    (row.bucketStartMs, row.dims) = key := by
  unfold aggregate at hrow
  split at hrow
  · cases hrow
  · obtain rfl := Option.some.inj hrow
    rfl

theorem aggregates_sumsUp (ps : List (Point V)) :
    SumsUp h (contributions h (counted h ps)) (aggregates h ps) := by
  refine ⟨fun row => ?_, ?_⟩
  · unfold aggregates
    rw [mem_filterMap]
    constructor
    · rintro ⟨⟨key, group⟩, hmem, hrow⟩
      obtain ⟨hkey, rfl⟩ := (mem_groups h).mp ((mem_insertionSort _).mp hmem)
      exact ⟨key, hkey, hrow⟩
    · rintro ⟨key, hkey, hrow⟩
      exact ⟨(key, _), (mem_insertionSort _).mpr ((mem_groups h).mpr ⟨hkey, rfl⟩), hrow⟩
  · have hsorted : (((groups h (counted h ps)).insertionSort fun a b => keyLe a.1 b.1).map (·.1)).Nodup :=
      ((perm_insertionSort _ _).map _).nodup_iff.mpr (nodup_groups h (counted h ps))
    refine pairwise_map.mpr ((pairwise_map.mp hsorted).filterMap _ fun a b hne row hrow row' hrow' heq => hne ?_)
    rw [← aggregate_key h hrow, ← aggregate_key h hrow', heq]

/-- The rows do not depend on the order of the data points or on how they are cut into lines, and every cumulative
series counts once, with its latest point. -/
theorem aggregates_orderFree (lines lines' : Export V) (hsame : (measurements h lines).Perm (measurements h lines'))
    (huntied : Untied h (points h lines)) :
    aggregates h (points h lines) = aggregates h (points h lines') ∧
      ∃ cs, CountsOnce h (points h lines) cs ∧ SumsUp h (contributions h cs) (aggregates h (points h lines)) := by
  refine ⟨aggregates_perm h huntied ?_, counted h _, counted_countsOnce h _, aggregates_sumsUp h _⟩
  rw [points_eq, points_eq]
  exact hsame.filterMap _

end Reader

/-! ### An export -/

/-- A reader of strings and integers, with every label as it is. -/
def plainHost : Host Json where
  text? v := match v with
    | .str s => some s
    | _ => none
  repr v := match v with
    | .str s => "'" ++ s ++ "'"
    | .int n => toString n
    | _ => "None"
  cleanLabel v := match v with
    | .str s => some s
    | _ => none
  cleanAttr v := match v with
    | .str s => some s
    | _ => none
  normalizeIdentity v := match v with
    | .str s => some s
    | _ => none
  toInt v := match v with
    | .int n => if 0 ≤ n then some n.toNat else none
    | _ => none
  usdToNano v := match v with
    | .int n => if 0 ≤ n then some (n.toNat * 1000000000) else none
    | _ => none
  normalizeModel raw := some raw
  ccChannel _ := "anthropic_api"
  teamFor _ := none
  team := none
  copilotNames := ["github-copilot", "copilot-chat"]
  inWindow _ := true
  sourceId := "s"
  nowMs := 0
  hashes := ⟨fun t => t, fun _ t => t, fun t => t⟩

/-- Input tokens that a series starting at 0 has counted `end` ms later. -/
def inputPoint (endMs : Nat) (tokens : Int) : DataPoint Json where
  attributes := [("model", .str "claude-sonnet-5"), ("type", .str "input")]
  startTimeUnixNano := some 1000000
  timeUnixNano := some (endMs * 1000000)
  value := .int tokens

def tokenLine (dataPoints : List (DataPoint Json)) : List (ResourceMetrics Json) :=
  [{ attributes := [], scopeNames := [], attrKeys := ["model", "type"]
     metrics := [{ name := tokenMetric, data := some (true, dataPoints) }] }]

theorem twoPoints_orderFree :
    aggregates plainHost (points plainHost [tokenLine [inputPoint 60 100, inputPoint 120 250]]) =
        aggregates plainHost (points plainHost [tokenLine [inputPoint 120 250], tokenLine [inputPoint 60 100]]) ∧
      ∃ cs, CountsOnce plainHost (points plainHost [tokenLine [inputPoint 60 100, inputPoint 120 250]]) cs ∧
        SumsUp plainHost (contributions plainHost cs)
          (aggregates plainHost (points plainHost [tokenLine [inputPoint 60 100, inputPoint 120 250]])) :=
  aggregates_orderFree plainHost _ _ (List.Perm.swap _ _ _) (untied_of_ends plainHost (by decide))

/-- Of two points of a series that end in the same millisecond the one that arrives last counts. -/
theorem tied_points_depend_on_order :
    aggregates plainHost (points plainHost [tokenLine [inputPoint 60 100, inputPoint 60 250]]) ≠
      aggregates plainHost (points plainHost [tokenLine [inputPoint 60 250, inputPoint 60 100]]) := by
  decide

end TokenBill.OtelMetrics
