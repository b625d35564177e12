import TokenBill.Core.Money
import TokenBill.Core.Records

/-!
# Usage tuples

The helpers of `sim/usage_replay.py`: the replay and the calibration move tokens between the buckets of a tuple of
integers, which is checked again only where it is priced without the unit rates of its day.
-/

namespace TokenBill.Sim

/-- The usage tuple: `_U`, `_R`, `_W5`, `_W1`, `_WO`, `_WOT`, `_WU`, `_O`, `_OR`, `_WS`, `_WF`. -/
structure UsageTuple where
  (uncached reads w5 w1 other : Int)
  otherTtl : Option Nat
  (unknown output : Int)
  reasoning : Option Int
  (webSearch webFetch : Int)
  deriving DecidableEq

/-- `_tup`. -/
def tupleOf (u : UsageBuckets) : UsageTuple where
  uncached := u.uncachedInput
  reads := u.cacheRead
  w5 := u.cacheWrite5m
  w1 := u.cacheWrite1h
  other := u.cacheWriteOther
  otherTtl := u.cacheWriteOtherTtlS
  unknown := u.cacheWriteUnknown
  output := u.output
  reasoning := u.outputReasoning.map Int.ofNat
  webSearch := u.webSearchRequests
  webFetch := u.webFetchRequests

namespace UsageTuple

/-- `_writes`. -/
def writes (t : UsageTuple) : Int := t.w5 + t.w1 + t.other + t.unknown

/-- `_total_input`. -/
def totalInput (t : UsageTuple) : Int := t.uncached + t.reads + t.w5 + t.w1 + t.other + t.unknown

/-- The numbers of a tuple that a bucket may not have below zero. -/
def counts (t : UsageTuple) : List Int :=
  [t.uncached, t.reads, t.w5, t.w1, t.other, t.unknown, t.output, t.webSearch, t.webFetch] ++ t.reasoning.toList

/-- `_buckets`: nothing where the constructor raises. -/
def buckets (t : UsageTuple) : Option UsageBuckets :=
  if t.counts.all (0 ≤ ·) then
    (UsageCounts.build
      { uncachedInput := t.uncached.toNat, cacheRead := t.reads.toNat, cacheWrite5m := t.w5.toNat
        cacheWrite1h := t.w1.toNat, cacheWriteOther := t.other.toNat, cacheWriteOtherTtlS := t.otherTtl
        cacheWriteUnknown := t.unknown.toNat, output := t.output.toNat
        outputReasoning := t.reasoning.map Int.toNat, webSearchRequests := t.webSearch.toNat
        webFetchRequests := t.webFetch.toNat }).toOption
  else none

end UsageTuple

/-- A bucket of writes. -/
inductive WriteBucket where
  | w5 | w1 | other | unknown
  deriving DecidableEq

/-- What a tuple has in a bucket of writes. -/
def WriteBucket.of : WriteBucket → UsageTuple → Int
  | .w5, t => t.w5
  | .w1, t => t.w1
  | .other, t => t.other
  | .unknown, t => t.unknown

/-- A bucket of writes and the TTL of the bucket of other ones. -/
abbrev Pref : Type := WriteBucket × Option Nat

/-- `_PREF_5M`. -/
def pref5m : Pref := (.w5, none)

/-- `_PREF_1H`. -/
def pref1h : Pref := (.w1, none)

/-- `_pref_of_ttl`. -/
def prefOfTtl (ttl : Nat) : Pref := if ttl = 300 then pref5m else if ttl = 3600 then pref1h else (.other, some ttl)

/-- `_dominant`: the bucket with most of the writes, the first of several. -/
def dominant (t : UsageTuple) : Option Pref :=
  ([WriteBucket.w5, .w1, .other, .unknown].foldl
    (fun (best : Int × Option Pref) bucket =>
      if best.1 < bucket.of t then (bucket.of t, some (bucket, if bucket = .other then t.otherTtl else none)) else best)
    (0, none)).2

/-- A tuple with all of its writes in one bucket. -/
def writesTo (t : UsageTuple) (w : Int) (pref : Pref) : UsageTuple :=
  { t with
    w5 := if pref.1 = .w5 then w else 0
    w1 := if pref.1 = .w1 then w else 0
    other := if pref.1 = .other then w else 0
    otherTtl := if pref.1 = .other then pref.2 else t.otherTtl
    unknown := if pref.1 = .unknown then w else 0 }

/-- `_with_split`: the observed writes stay where they are if there are as many of them. -/
def withSplit (t : UsageTuple) (u r w : Int) (pref : Pref) : UsageTuple :=
  if w = t.writes then { t with uncached := u, reads := r } else { writesTo t w pref with uncached := u, reads := r }

/-- `_rerate`. -/
def rerate (t : UsageTuple) (pref : Pref) : UsageTuple :=
  if t.writes = 0 ∨ pref.1.of t = t.writes then t else writesTo t t.writes pref

/-- `GAP_BANDS`. -/
def gapBands : List (String × Option Int) :=
  [("0s-60s", some 60000), ("60s-300s", some 300000), ("300s-3600s", some 3600000), ("3600s+", none)]

/-- `gap_band`. -/
def gapBand (gapMs : Int) : String :=
  ((gapBands.find? fun band => band.2.all (gapMs < ·)).map Prod.fst).getD "3600s+"

/-! ### Totals -/

theorem totalInput_eq (t : UsageTuple) : t.totalInput = t.uncached + t.reads + t.writes := by
  unfold UsageTuple.totalInput UsageTuple.writes
  omega

theorem writes_writesTo (t : UsageTuple) (w : Int) (pref : Pref) : (writesTo t w pref).writes = w := by
  unfold UsageTuple.writes writesTo
  rcases pref with ⟨bucket, ttl⟩
  cases bucket <;> simp

theorem totalInput_withSplit (t : UsageTuple) (u r w : Int) (pref : Pref) : (withSplit t u r w pref).totalInput = u + r + w := by
  rw [totalInput_eq]
  unfold withSplit
  by_cases h : w = t.writes
  · rw [if_pos h, h]
    rfl
  · rw [if_neg h]
    show u + r + (writesTo t w pref).writes = u + r + w
    rw [writes_writesTo]

theorem totalInput_rerate (t : UsageTuple) (pref : Pref) : (rerate t pref).totalInput = t.totalInput := by
  unfold rerate
  by_cases h : t.writes = 0 ∨ pref.1.of t = t.writes
  · rw [if_pos h]
  · rw [if_neg h, totalInput_eq, totalInput_eq, writes_writesTo]
    rfl

/-- The buckets of the input of a tuple are not negative. -/
structure Natural (t : UsageTuple) : Prop where
  uncached : 0 ≤ t.uncached
  reads : 0 ≤ t.reads
  w5 : 0 ≤ t.w5
  w1 : 0 ≤ t.w1
  other : 0 ≤ t.other
  unknown : 0 ≤ t.unknown

theorem Natural.writes {t : UsageTuple} (h : Natural t) : 0 ≤ t.writes := by
  have h5 := h.w5
  have h1 := h.w1
  have ho := h.other
  have hu := h.unknown
  unfold UsageTuple.writes
  omega

theorem natural_tupleOf (u : UsageBuckets) : Natural (tupleOf u) :=
  ⟨Int.natCast_nonneg _, Int.natCast_nonneg _, Int.natCast_nonneg _, Int.natCast_nonneg _, Int.natCast_nonneg _,
    Int.natCast_nonneg _⟩

theorem Natural.writesTo {t : UsageTuple} (h : Natural t) {w : Int} (hw : 0 ≤ w) (pref : Pref) :
    Natural (writesTo t w pref) := by
  have hcase : ∀ (p : Prop) [Decidable p], 0 ≤ if p then w else 0 := fun p _ => by split <;> omega
  exact ⟨h.uncached, h.reads, hcase _, hcase _, hcase _, hcase _⟩

theorem Natural.withSplit {t : UsageTuple} (h : Natural t) {u r w : Int} (hu : 0 ≤ u) (hr : 0 ≤ r) (hw : 0 ≤ w)
    (pref : Pref) : Natural (withSplit t u r w pref) := by
  unfold Sim.withSplit
  split
  · exact ⟨hu, hr, h.w5, h.w1, h.other, h.unknown⟩
  · have hto := h.writesTo hw pref
    exact ⟨hu, hr, hto.w5, hto.w1, hto.other, hto.unknown⟩

theorem Natural.rerate {t : UsageTuple} (h : Natural t) (pref : Pref) : Natural (rerate t pref) := by
  unfold Sim.rerate
  split
  · exact h
  · exact h.writesTo h.writes pref

end TokenBill.Sim
