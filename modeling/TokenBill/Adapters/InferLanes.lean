import TokenBill.Core.Findings
import TokenBill.General.Tries
import TokenBill.General.Champion

/-!
# Lane inference

`infer_lanes` of `adapters/fingerprint.py` gives the requests of a source without lanes a lane each: a request joins
the lane of its model and tools whose last request shares the longest prefix of block hashes with it, if the prefix
passes the system blocks, and opens a lane otherwise. It finds the lane in a trie of the last requests' paths, which
is kept up as lanes grow. The result is that of a search through all lanes, whatever the order of the list.
-/

namespace TokenBill.InferLanes

open General

/-! ### Paths -/

/-- `a or b` of two strings. -/
def orText (a : Option String) (b : String) : String :=
  match a with
  | some s => if s = "" then b else s
  | none => b

/-- `tools_tier_hash(fp)`. -/
def toolsTierHash (hashes : Hashes) (fp : ContentFingerprint) : String :=
  let tools := (fp.blocks.take fp.tierEnd.1).map fun b => orText b.hSorted b.h
  String.ofList ((hashes.sha256 ("\x1f".intercalate (tools.insertionSort (· ≤ ·)))).toList.take 24)

/-- The path of a request: its system blocks without what is volatile, then the blocks of its messages. -/
def pathOf (fp : ContentFingerprint) : List String :=
  ((fp.blocks.take fp.tierEnd.2.1).drop fp.tierEnd.1).map (fun b => orText b.hNorm b.h) ++
    (fp.blocks.drop fp.tierEnd.2.1).map (·.h)

def systemBlocks (fp : ContentFingerprint) : Nat := fp.tierEnd.2.1 - fp.tierEnd.1

/-- A model and a set of tools. -/
abbrev Group : Type := String × String

def groupOf (hashes : Hashes) (r : Request) (fp : ContentFingerprint) : Group := (r.model, toolsTierHash hashes fp)

def laneKey (hashes : Hashes) (session requestId : String) : String := hashes.stableId "ln" [session, "inferred", requestId]

/-! ### Inference -/

/-- What is known of a session: the tries of the groups, the last path of each lane and when it was extended, the
lanes without fingerprints by model, the number of requests, and the lanes given. -/
structure State where
  tries : Group → Trie String String
  tails : String → Option (List String)
  recency : String → Nat
  plainLanes : String → Option String
  tick : Nat
  out : List (String × String)

def State.init : State := ⟨fun _ => .empty, fun _ => none, fun _ => 0, fun _ => none, 0, []⟩

/-- `max(lanes, key=lambda k: (recency[k], k))`. -/
def latest (recency : String → Nat) (lanes : List String) : Option String :=
  best (fun b k => recency b < recency k ∨ (recency b = recency k ∧ b < k)) lanes

/-- A request without a fingerprint joins the lane of its model that has none. -/
def State.stepPlain (hashes : Hashes) (session : String) (st : State) (r : Request) : State :=
  match st.plainLanes r.model with
  | some lane => { st with tick := st.tick + 1, out := st.out ++ [(r.requestId, lane)] }
  | none =>
    let lane := laneKey hashes session r.requestId
    { st with
      plainLanes := Function.update st.plainLanes r.model (some lane)
      tick := st.tick + 1
      out := st.out ++ [(r.requestId, lane)] }

/-- A lane extended by a request of a group with a path; the trie of the group is without the lane's last path. -/
def State.extend (st : State) (g : Group) (trie : Trie String String) (path : List String) (requestId lane : String) :
    State where
  tries := Function.update st.tries g (trie.insert lane path)
  tails := Function.update st.tails lane (some path)
  recency := Function.update st.recency lane (st.tick + 1)
  plainLanes := st.plainLanes
  tick := st.tick + 1
  out := st.out ++ [(requestId, lane)]

/-- A request with a fingerprint joins the lane that the trie finds, or opens one. -/
def State.stepPath (hashes : Hashes) (session : String) (st : State) (r : Request) (fp : ContentFingerprint) : State :=
  let g := groupOf hashes r fp
  let trie := st.tries g
  let path := pathOf fp
  let found := trie.deepest path
  match if systemBlocks fp < found.1 then latest st.recency found.2 else none with
  | some lane => st.extend g (trie.remove lane ((st.tails lane).getD [])) path r.requestId lane
  | none => st.extend g trie path r.requestId (laneKey hashes session r.requestId)

/-- A request of the session. -/
def State.step (hashes : Hashes) (session : String) (st : State) (r : Request) : State :=
  match r.fingerprint with
  | none => st.stepPlain hashes session r
  | some fp => st.stepPath hashes session r fp

/-- `_order_key(r)`. -/
def orderKey (r : Request) : String ×ₗ Nat ×ₗ Nat ×ₗ String :=
  toLex (r.sessionKey, toLex (r.tsStartMs, toLex (r.seq, r.requestId)))

def sessionRequests (requests : List Request) (session : String) : List Request :=
  (requests.filter fun r => decide (r.sessionKey = session)).insertionSort fun a b => orderKey a ≤ orderKey b

def sessions (requests : List Request) : List String := (requests.map (·.sessionKey)).dedup.insertionSort (· ≤ ·)

/-- `infer_lanes(requests)`. -/
def inferLanes (hashes : Hashes) (requests : List Request) : List (String × String) :=
  (sessions requests).flatMap fun session =>
    ((sessionRequests requests session).foldl (State.step hashes session) .init).out

/-! ### The search through all lanes -/

/-- A lane: its group, the path of its last request and when it was extended. -/
structure Lane where
  key : String
  group : Group
  tail : List String
  tick : Nat
  deriving DecidableEq

/-- Whether a lane is farther from a path than another: it shares less with it, or as much and is older. -/
def Lane.Farther (path : List String) (a b : Lane) : Prop :=
  Trie.shared path a.tail < Trie.shared path b.tail ∨
    (Trie.shared path a.tail = Trie.shared path b.tail ∧ a.tick < b.tick)

instance (path : List String) (a b : Lane) : Decidable (a.Farther path b) :=
  inferInstanceAs (Decidable (_ ∨ _))

def nearest (path : List String) (lanes : List Lane) : Option Lane := best (Lane.Farther path) lanes

/-- What the search knows of a session. -/
structure Naive where
  lanes : List Lane
  plainLanes : String → Option String
  tick : Nat
  out : List (String × String)

def Naive.init : Naive := ⟨[], fun _ => none, 0, []⟩

/-- A request without a fingerprint joins the lane of its model that has none. -/
def Naive.stepPlain (hashes : Hashes) (session : String) (nv : Naive) (r : Request) : Naive :=
  match nv.plainLanes r.model with
  | some lane => { nv with tick := nv.tick + 1, out := nv.out ++ [(r.requestId, lane)] }
  | none =>
    let lane := laneKey hashes session r.requestId
    { nv with
      plainLanes := Function.update nv.plainLanes r.model (some lane)
      tick := nv.tick + 1
      out := nv.out ++ [(r.requestId, lane)] }

/-- The lane of the group of a request that is nearest to its path, if what they share passes the system blocks. -/
def Naive.joined (hashes : Hashes) (nv : Naive) (r : Request) (fp : ContentFingerprint) : Option Lane :=
  (nearest (pathOf fp) (nv.lanes.filter fun l => decide (l.group = groupOf hashes r fp))).filter fun l =>
    decide (systemBlocks fp < Trie.shared (pathOf fp) l.tail)

/-- A request with a fingerprint joins that lane, or opens one. -/
def Naive.stepPath (hashes : Hashes) (session : String) (nv : Naive) (r : Request) (fp : ContentFingerprint) : Naive :=
  match nv.joined hashes r fp with
  | some lane =>
    { nv with
      lanes := nv.lanes.map fun l => if l.key = lane.key then { l with tail := pathOf fp, tick := nv.tick + 1 } else l
      tick := nv.tick + 1
      out := nv.out ++ [(r.requestId, lane.key)] }
  | none =>
    let lane := laneKey hashes session r.requestId
    { nv with
      lanes := nv.lanes ++ [⟨lane, groupOf hashes r fp, pathOf fp, nv.tick + 1⟩]
      tick := nv.tick + 1
      out := nv.out ++ [(r.requestId, lane)] }

/-- A request of the session. -/
def Naive.step (hashes : Hashes) (session : String) (nv : Naive) (r : Request) : Naive :=
  match r.fingerprint with
  | none => nv.stepPlain hashes session r
  | some fp => nv.stepPath hashes session r fp

def naiveLanes (hashes : Hashes) (requests : List Request) : List (String × String) :=
  (sessions requests).flatMap fun session =>
    ((sessionRequests requests session).foldl (Naive.step hashes session) .init).out

end TokenBill.InferLanes
