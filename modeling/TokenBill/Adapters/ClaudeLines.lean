import TokenBill.Adapters.TimestampsAgree
import TokenBill.Core.Conventions

/-!
# The fast paths of the Claude Code adapter

`adapters/claude_code.py` has its own line parser, its own reading of a usage object and its own inferences of
a response without iterations. The parser and the timestamps are those of `core/jsonl.py` and of the regular
expression, and so is the usage object. The inferences are those of `core/conventions.py` but for iterations
that are neither a list nor true: the adapter takes them for none and the conventions refuse them.
-/

namespace TokenBill.ClaudeLines

open General PyJson Conventions Timestamps

/-! ### Lines -/

def lineText (raw : ByteArray) : Option (List Char) :=
  (String.fromUTF8? raw).map fun s => if s.toList.head? = some bom then s.toList.tail else s.toList

/-- A hexadecimal digit that a surrogate has after its `d`. -/
def surrogateDigit (b : UInt8) : Bool :=
  decide (b = 0x38 ∨ b = 0x39 ∨ 0x61 ≤ b ∧ b ≤ 0x66 ∨ 0x41 ≤ b ∧ b ≤ 0x46)

/-- `re.compile(rb"\\[uU][dD][89a-fA-F]").search`. -/
def surrogateEscape : List UInt8 → Bool
  | a :: b :: c :: d :: rest =>
    decide (a = 0x5c) && decide (b = 0x75 ∨ b = 0x55) && decide (c = 0x64 ∨ c = 0x44) && surrogateDigit d ||
      surrogateEscape (b :: c :: d :: rest)
  | _ => false

/-- An object that was decoded from a line, unless it has a surrogate without its partner. -/
def lineObject (raw : ByteArray) : Option (PyJson (List Nat)) → Option (Dict (List Nat))
  | some (.dict fields) => if surrogateEscape raw.toList && loneInFields fields then none else some fields
  | _ => none

/-- `core.jsonl.parse_json_line` of finite floats. -/
def parseJsonLine (parseFloat : List Char → Option ℚ) (depth : Nat) (raw : ByteArray) : Option (Dict (List Nat)) :=
  if raw.isEmpty then none else (lineText raw).bind fun text => lineObject raw (loads parseFloat depth text)

/-- `parse_line`: a decoder that is made once in the place of `json.loads`. -/
def parseLine (parseFloat : List Char → Option ℚ) (depth : Nat) (raw : ByteArray) : Option (Dict (List Nat)) :=
  if raw.isEmpty then none else (lineText raw).bind fun text => lineObject raw (decode parseFloat depth text)

/-- The line parser gives the result of the core one. -/
theorem parseLine_eq (parseFloat : List Char → Option ℚ) (depth : Nat) (raw : ByteArray) :
    parseLine parseFloat depth raw = parseJsonLine parseFloat depth raw := by
  unfold parseLine parseJsonLine
  simp only [loads_eq_decode]

/-! ### Timestamps -/

/-- `parse_ts_ms` of a text without its fast path. -/
def tsOfMatch (value : String) : Option Int :=
  if 19 ≤ value.toList.length ∧ value.toList.length ≤ 40 then slowTsMs value.toList else none

theorem parseTsText_eq_tsOfMatch (memo : DayMemo) (value : String) : (parseTsText memo value).1 = tsOfMatch value := by
  unfold parseTsText tsOfMatch
  by_cases hlen : 19 ≤ value.toList.length ∧ value.toList.length ≤ 40
  · rw [if_pos hlen, if_pos hlen]
    split
    · rename_i hfits
      exact fastTsMs_eq memo hfits
    · rfl
  · rw [if_neg hlen, if_neg hlen]

/-! ### Usage objects -/

/-- The counts that `usage_counts` returns, in its order. -/
structure Counts where
  (uncached read w5 w1 unknown output webSearch webFetch : Nat)

/-- A count that is absent, null or in range, or nothing. -/
def plainCount : Option (PyJson String) → Option (Option Nat)
  | none => some none
  | some .null => some none
  | some (.int n) => if 0 ≤ n ∧ n ≤ maxTokens then some (some n.toNat) else none
  | some _ => none

/-- Two counts of an object that is absent, null or a dictionary, or nothing. -/
def plainPair (key₁ key₂ : String) : Option (PyJson String) → Option (Nat × Nat)
  | none => some (0, 0)
  | some .null => some (0, 0)
  | some (.dict obj) =>
    (plainCount (obj.lookup key₁)).bind fun a => (plainCount (obj.lookup key₂)).map fun b => (a.getD 0, b.getD 0)
  | some _ => none

/-- `usage_counts`: nothing where anything is unusual. -/
def usageCounts (u : Usage) : Option Counts := do
  let uncached ← plainCount (u.lookup "input_tokens")
  let read ← plainCount (u.lookup "cache_read_input_tokens")
  let output ← plainCount (u.lookup "output_tokens")
  let total ← plainCount (u.lookup "cache_creation_input_tokens")
  let (w5, w1) ← plainPair "ephemeral_5m_input_tokens" "ephemeral_1h_input_tokens" (u.lookup "cache_creation")
  let (webSearch, webFetch) ← plainPair "web_search_requests" "web_fetch_requests" (u.lookup "server_tool_use")
  if absent (u.lookup "output_tokens_details") then
    some { uncached := uncached.getD 0, read := read.getD 0, w5, w1
           unknown := (total.map fun total => total - w5 - w1).getD 0
           output := output.getD 0, webSearch, webFetch }
  else none

def Counts.ofBuckets (b : UsageBuckets) : Counts :=
  { uncached := b.uncachedInput, read := b.cacheRead, w5 := b.cacheWrite5m, w1 := b.cacheWrite1h
    unknown := b.cacheWriteUnknown, output := b.output, webSearch := b.webSearchRequests, webFetch := b.webFetchRequests }

/-- The counts of the usage object of a line: where the fast reading gives none, those of the conventions. -/
def lineCounts (u : Usage) : Except Error Counts :=
  match usageCounts u with
  | some counts => .ok counts
  | none => (normalizeAnthropicMessages (.dict u)).map fun read => .ofBuckets read.1

/-! ### Inferences -/

/-- `UsageBuckets(...)` of counts. -/
def Counts.build (c : Counts) : Except Error UsageBuckets :=
  UsageCounts.build
    { uncachedInput := c.uncached, cacheRead := c.read, cacheWrite5m := c.w5, cacheWrite1h := c.w1
      cacheWriteUnknown := c.unknown, output := c.output, webSearchRequests := c.webSearch
      webFetchRequests := c.webFetch }

/-- What is noted of the split of writes. -/
def splitNotes (total : Option (PyJson String)) (c : Counts) : List String :=
  match total with
  | none => []
  | some .null => []
  | some total =>
    if c.unknown ≠ 0 then ["dq.ttl_split_residual"]
    else
      match total with
      | .int total => if total < c.w5 + c.w1 then ["dq.ttl_split_exceeds_total"] else []
      -- the counts are those of the usage object, so its total is an integer
      | _ => []

/-- `message_inferences`, with the counts of the usage object if they were read before. -/
def messageInferences (r : Response) (usage : Usage) (counts : Option Counts) :
    Except Error (List Inference × List String) :=
  match if (usage.lookup "iterations").any truthy then none else counts.or (usageCounts usage) with
  | none => r.anthropicInferences (.dict usage)
  | some c => do
    let buckets ← c.build
    .ok ([r.messageInference buckets], splitNotes (usage.lookup "cache_creation_input_tokens") c)

/-! ### Counts that are plain -/

theorem count_of_plain {obj : Usage} {key within : String} {c : Option Nat} (h : plainCount (obj.lookup key) = some c) :
    count obj key within = .ok c := by
  unfold count
  cases hv : obj.lookup key with
  | none =>
    rw [hv] at h
    exact congrArg Except.ok (Option.some.inj h)
  | some v =>
    rw [hv] at h
    cases v with
    | null => exact congrArg Except.ok (Option.some.inj h)
    | int n =>
      simp only [plainCount] at h
      by_cases hn : 0 ≤ n ∧ n ≤ maxTokens
      · rw [if_pos hn] at h
        show (if 0 ≤ n ∧ n ≤ maxTokens then Except.ok (some n.toNat) else .error _) = _
        rw [if_pos hn]
        exact congrArg Except.ok (Option.some.inj h)
      · rw [if_neg hn] at h
        cases h
    | _ => cases h

variable {v : Option (PyJson String)} {u : Usage} {c : Counts}

theorem plainCount_le {c : Option Nat} (h : plainCount v = some c) : c.getD 0 ≤ maxTokens := by
  unfold plainCount at h
  split at h
  · obtain rfl := Option.some.inj h
    exact Nat.zero_le _
  · obtain rfl := Option.some.inj h
    exact Nat.zero_le _
  · rename_i n
    by_cases hn : 0 ≤ n ∧ n ≤ maxTokens
    · rw [if_pos hn] at h
      obtain rfl := Option.some.inj h
      rw [Option.getD_some]
      omega
    · rw [if_neg hn] at h
      cases h
  · cases h

theorem twoCounts_of_plain {key key₁ key₂ : String} {a b : Nat} (within : String)
    (h : plainPair key₁ key₂ (u.lookup key) = some (a, b)) :
    (∃ obj, Conventions.sub u key = .ok obj ∧ twoCounts obj within key₁ key₂ = .ok (a, b)) ∧ a ≤ maxTokens ∧ b ≤ maxTokens := by
  unfold Conventions.sub
  cases hv : u.lookup key with
  | none =>
    rw [hv] at h
    obtain ⟨rfl, rfl⟩ := Prod.mk.inj (Option.some.inj h)
    exact ⟨⟨none, rfl, rfl⟩, Nat.zero_le _, Nat.zero_le _⟩
  | some v =>
    rw [hv] at h
    cases v with
    | null =>
      obtain ⟨rfl, rfl⟩ := Prod.mk.inj (Option.some.inj h)
      exact ⟨⟨none, rfl, rfl⟩, Nat.zero_le _, Nat.zero_le _⟩
    | dict obj =>
      obtain ⟨x, hx, h⟩ := Option.bind_eq_some_iff.mp h
      obtain ⟨y, hy, h⟩ := Option.map_eq_some_iff.mp h
      obtain ⟨rfl, rfl⟩ := Prod.mk.inj h
      refine ⟨⟨some obj, rfl, ?_⟩, plainCount_le hx, plainCount_le hy⟩
      show (count obj key₁ within >>= _) = _
      rw [count_of_plain hx]
      rw [count_of_plain hy]
      rfl
    | _ => cases h

/-- Counts in range are buckets. -/
theorem Counts.build_ok (huncached : c.uncached ≤ maxTokens) (hread : c.read ≤ maxTokens)
    (hw5 : c.w5 ≤ maxTokens) (hw1 : c.w1 ≤ maxTokens) (hunknown : c.unknown ≤ maxTokens) (houtput : c.output ≤ maxTokens)
    (hsearch : c.webSearch ≤ maxTokens) (hfetch : c.webFetch ≤ maxTokens) : ∃ b, c.build = .ok b := by
  have hcheck : ({ uncachedInput := c.uncached, cacheRead := c.read, cacheWrite5m := c.w5, cacheWrite1h := c.w1
                   cacheWriteUnknown := c.unknown, output := c.output, webSearchRequests := c.webSearch
                   webFetchRequests := c.webFetch } : UsageCounts).check = none := by
    unfold UsageCounts.check UsageCounts.bucketCounts
    rw [List.find?_eq_none.mpr]
    · rfl
    · intro b hb
      simp only [List.mem_cons, List.not_mem_nil, or_false] at hb
      rcases hb with rfl | rfl | rfl | rfl | rfl | rfl | rfl | rfl | rfl <;> simp [*]
  exact ⟨⟨_, hcheck⟩, UsageCounts.build_eq_ok.mpr rfl⟩

/-- The writes of no TTL are those of the fast reading, and so is what is noted of them. -/
theorem unknownWrites_of_plain {total : Option Nat} (h : plainCount v = some total)
    (hunknown : c.unknown = (total.map fun total => total - c.w5 - c.w1).getD 0) :
    unknownWrites total c.w5 c.w1 = (c.unknown, splitNotes v c) := by
  unfold plainCount at h
  split at h
  · obtain rfl := Option.some.inj h
    rw [hunknown]
    rfl
  · obtain rfl := Option.some.inj h
    rw [hunknown]
    rfl
  · rename_i n
    by_cases hn : 0 ≤ n ∧ n ≤ maxTokens
    · rw [if_pos hn] at h
      obtain rfl := Option.some.inj h
      rw [Option.map_some, Option.getD_some] at hunknown
      unfold unknownWrites splitNotes
      dsimp only
      by_cases hlt : c.w5 + c.w1 < n.toNat
      · have hne : c.unknown ≠ 0 := by omega
        rw [if_pos hlt, if_pos hne, hunknown]
      · have hzero : c.unknown = 0 := by omega
        rw [if_neg hlt, if_neg (not_not.mpr hzero), hzero]
        by_cases hgt : n.toNat < c.w5 + c.w1
        · have hgt' : n < (c.w5 : Int) + c.w1 := by omega
          rw [if_pos hgt, if_pos hgt']
        · have hgt' : ¬n < (c.w5 : Int) + c.w1 := by omega
          rw [if_neg hgt, if_neg hgt']
    · rw [if_neg hn] at h
      cases h
  · cases h

/-- A usage object that is read fast has the buckets and the notes that the conventions give it. -/
theorem normalizeUsage_of_plain (h : usageCounts u = some c) : ∃ b, c.build = .ok b ∧
    normalizeUsage u = .ok (b, splitNotes (u.lookup "cache_creation_input_tokens") c) := by
  unfold usageCounts at h
  obtain ⟨uncached, huncached, h⟩ := Option.bind_eq_some_iff.mp h
  obtain ⟨read, hread, h⟩ := Option.bind_eq_some_iff.mp h
  obtain ⟨output, houtput, h⟩ := Option.bind_eq_some_iff.mp h
  obtain ⟨total, htotal, h⟩ := Option.bind_eq_some_iff.mp h
  obtain ⟨⟨w5, w1⟩, hcreation, h⟩ := Option.bind_eq_some_iff.mp h
  obtain ⟨⟨search, fetch⟩, hserver, h⟩ := Option.bind_eq_some_iff.mp h
  dsimp only at h
  by_cases hdetails : absent (u.lookup "output_tokens_details") = true
  · rw [if_pos hdetails] at h
    obtain ⟨⟨creation, hsub, htwo⟩, hw5, hw1⟩ := twoCounts_of_plain "cache_creation." hcreation
    obtain ⟨⟨server, hsubServer, htwoServer⟩, hsearch, hfetch⟩ :=
      twoCounts_of_plain "server_tool_use." hserver
    have hunknown : c.unknown = (total.map fun total => total - c.w5 - c.w1).getD 0 := by
      rw [← Option.some.inj h]
    have hwrites := unknownWrites_of_plain htotal hunknown
    have htotalLe := plainCount_le htotal
    have hunknownLe : c.unknown ≤ maxTokens := by
      rw [hunknown]
      cases total with
      | none => exact Nat.zero_le _
      | some total =>
        rw [Option.getD_some] at htotalLe
        rw [Option.map_some, Option.getD_some]
        omega
    obtain rfl := Option.some.inj h
    obtain ⟨b, hb⟩ := Counts.build_ok (plainCount_le huncached) (plainCount_le hread) hw5 hw1 hunknownLe
      (plainCount_le houtput) hsearch hfetch
    refine ⟨b, hb, ?_⟩
    have hdetails' : Conventions.sub u "output_tokens_details" = .ok none := by
      unfold absent at hdetails
      unfold Conventions.sub
      split at hdetails
      · rename_i hlookup
        rw [hlookup]
      · rename_i hlookup
        rw [hlookup]
      · cases hdetails
    unfold normalizeUsage
    rw [count_of_plain huncached]
    rw [count_of_plain hread]
    rw [count_of_plain htotal]
    rw [hsub]
    show (twoCounts creation _ _ _ >>= _) = _
    rw [htwo]
    rw [count_of_plain houtput]
    rw [hdetails']
    rw [hsubServer]
    show (twoCounts server _ _ _ >>= _) = _
    rw [htwoServer]
    have hbuckets : bucketsOf {
        uncachedInput := uncached.getD 0, cacheRead := read.getD 0, cacheWrite5m := w5, cacheWrite1h := w1
        cacheWriteUnknown := (unknownWrites total w5 w1).1, output := output.getD 0
        webSearchRequests := search, webFetchRequests := fetch } = .ok b := by
      unfold bucketsOf
      rw [hwrites]
      split
      · rename_i b' hb'
        exact hb'.symm.trans hb
      · rename_i e he
        cases he.symm.trans hb
    refine (congrArg (fun read : Except Error UsageBuckets => read >>= fun buckets =>
      .ok (buckets, (unknownWrites total w5 w1).2 ++ [])) hbuckets).trans ?_
    rw [hwrites, List.append_nil]
    rfl
  · rw [if_neg hdetails] at h
    cases h

theorem lineCounts_eq (u : Usage) :
    lineCounts u = (normalizeAnthropicMessages (.dict u)).map fun read => Counts.ofBuckets read.1 := by
  unfold lineCounts
  cases h : usageCounts u with
  | none => rfl
  | some c =>
    obtain ⟨b, hb, hnormalize⟩ := normalizeUsage_of_plain h
    have hcounts : b.toUsageCounts = _ := UsageCounts.build_eq_ok.mp hb
    show Except.ok c = (normalizeUsage u).map _
    rw [hnormalize]
    show Except.ok c = Except.ok (Counts.ofBuckets b)
    unfold Counts.ofBuckets
    rw [hcounts]

/-! ### Iterations that are no list -/

/-- A value that is false without being null or a list. -/
def falsyNoList : PyJson String → Bool
  | .bool b => !b
  | .int n => decide (n = 0)
  | .float x => decide (x = 0)
  | .str s => decide (s = "")
  | .dict fields => fields.isEmpty
  | _ => false

/-- A count that is absent, null or an integer in range. -/
def isCount (v : Option (PyJson String)) : Bool :=
  match v with
  | none => true
  | some .null => true
  | some (.int n) => decide (0 ≤ n ∧ n ≤ maxTokens)
  | some _ => false

/-- An object of counts that is absent, null or a dictionary. -/
def hasCounts (keys : List String) (v : Option (PyJson String)) : Bool :=
  match v with
  | none => true
  | some .null => true
  | some (.dict obj) => keys.all fun key => isCount (obj.lookup key)
  | some _ => false

/-- A usage object of well formed counts without output details. -/
def plainUsage (u : Usage) : Bool :=
  (["input_tokens", "cache_read_input_tokens", "output_tokens", "cache_creation_input_tokens"].all fun key =>
    isCount (u.lookup key)) &&
  hasCounts ["ephemeral_5m_input_tokens", "ephemeral_1h_input_tokens"] (u.lookup "cache_creation") &&
  hasCounts ["web_search_requests", "web_fetch_requests"] (u.lookup "server_tool_use") &&
  absent (u.lookup "output_tokens_details")

/-- Iterations that are false, but neither null nor a list, in a usage object of well formed counts. -/
def IllTypedIterations (u : Usage) : Prop := (u.lookup "iterations").any falsyNoList = true ∧ plainUsage u = true

theorem isSome_plainCount (v : Option (PyJson String)) : (plainCount v).isSome = isCount v := by
  cases v with
  | none => rfl
  | some v =>
    cases v with
    | int n =>
      show (if 0 ≤ n ∧ n ≤ maxTokens then some (some n.toNat) else none).isSome = decide _
      by_cases hn : 0 ≤ n ∧ n ≤ maxTokens
      · rw [if_pos hn, decide_eq_true hn]
        rfl
      · rw [if_neg hn, decide_eq_false hn]
        rfl
    | _ => rfl

theorem isSome_plainPair (key₁ key₂ : String) (v : Option (PyJson String)) :
    (plainPair key₁ key₂ v).isSome = hasCounts [key₁, key₂] v := by
  cases v with
  | none => rfl
  | some v =>
    cases v with
    | dict obj =>
      show _ = (isCount (obj.lookup key₁) && (isCount (obj.lookup key₂) && true))
      rw [Bool.and_true, ← isSome_plainCount, ← isSome_plainCount]
      show ((plainCount (obj.lookup key₁)).bind fun a => (plainCount (obj.lookup key₂)).map _).isSome = _
      cases plainCount (obj.lookup key₁) with
      | none => rfl
      | some a => rw [Option.bind_some, Option.isSome_map, Option.isSome_some, Bool.true_and]
    | _ => rfl

theorem isSome_bind_and {α β : Type} (x : Option α) (f : α → Option β) (b : Bool) (h : ∀ a, (f a).isSome = b) :
    (x.bind f).isSome = (x.isSome && b) := by
  cases x with
  | none => rfl
  | some a => rw [Option.bind_some, h, Option.isSome_some, Bool.true_and]

theorem isSome_usageCounts (u : Usage) : (usageCounts u).isSome = plainUsage u := by
  have hlast : ∀ uncached read output total : Option Nat, ∀ w ws : Nat × Nat,
      (if absent (u.lookup "output_tokens_details") then
        some ({ uncached := uncached.getD 0, read := read.getD 0, w5 := w.1, w1 := w.2
                unknown := (total.map fun total => total - w.1 - w.2).getD 0
                output := output.getD 0, webSearch := ws.1, webFetch := ws.2 } : Counts)
      else none).isSome = absent (u.lookup "output_tokens_details") := by
    intro uncached read output total w ws
    cases absent (u.lookup "output_tokens_details") <;> rfl
  unfold usageCounts plainUsage
  simp only [List.all_cons, List.all_nil, Bool.and_true, ← isSome_plainCount, ← isSome_plainPair, Bool.and_assoc]
  refine isSome_bind_and _ _ _ fun uncached => ?_
  refine isSome_bind_and _ _ _ fun read => ?_
  refine isSome_bind_and _ _ _ fun output => ?_
  refine isSome_bind_and _ _ _ fun total => ?_
  refine isSome_bind_and _ _ _ fun w => ?_
  refine isSome_bind_and _ _ _ fun ws => ?_
  exact hlast uncached read output total w ws

/-! ### The inferences of a response -/

/-- A false value is null, an empty list, or one of the others that are false. -/
theorem iterationsOf_of_falsy (h : (u.lookup "iterations").any truthy = false) :
    iterationsOf u = if (u.lookup "iterations").any falsyNoList then .error (badUsage "iterations") else .ok [] := by
  unfold iterationsOf
  cases hv : u.lookup "iterations" with
  | none => rfl
  | some v =>
    rw [hv] at h
    cases v with
    | null => rfl
    | bool b =>
      cases b with
      | false => rfl
      | true => cases h
    | int n =>
      have hn : n = 0 := by simpa [truthy] using h
      subst hn
      rfl
    | float x =>
      have hx : x = 0 := by simpa [truthy] using h
      subst hx
      show _ = if decide ((0 : ℚ) = 0) = true then _ else _
      rw [if_pos (decide_eq_true rfl)]
    | str s =>
      have hs : s = "" := by simpa [truthy] using h
      subst hs
      rfl
    | list items =>
      have hitems : items = [] := by simpa [truthy] using h
      subst hitems
      rfl
    | dict fields =>
      have hfields : fields = [] := by simpa [truthy] using h
      subst hfields
      rfl

theorem not_falsyNoList_of_truthy {v : PyJson String} (h : truthy v = true) : falsyNoList v = false := by
  cases v with
  | bool b =>
    cases b with
    | true => rfl
    | false => cases h
  | int n => exact decide_eq_false (of_decide_eq_true h)
  | float x => exact decide_eq_false (of_decide_eq_true h)
  | str s => exact decide_eq_false (of_decide_eq_true h)
  | dict fields => exact Bool.not_eq_true' _ |>.mp h
  | _ => rfl

theorem any_falsyNoList_of_any_truthy (h : v.any truthy = true) : v.any falsyNoList = false := by
  cases v with
  | none => rfl
  | some v => exact not_falsyNoList_of_truthy h

theorem eraseDups_splitNotes (v : Option (PyJson String)) (c : Counts) : (splitNotes v c).eraseDups = splitNotes v c := by
  have hlen : (splitNotes v c).length ≤ 1 := by
    unfold splitNotes
    repeat' split
    all_goals decide
  cases h : splitNotes v c with
  | nil => rfl
  | cons a rest =>
    rw [h, List.length_cons] at hlen
    obtain rfl : rest = [] := List.length_eq_zero_iff.mp (by omega)
    rfl

/-- The inferences are those of the conventions exactly if the iterations are not false in place of a list. -/
theorem messageInferences_eq_iff (r : Response) (u : Usage) {counts : Option Counts}
    (hcounts : ∀ c ∈ counts, usageCounts u = some c) :
    messageInferences r u counts = r.anthropicInferences (.dict u) ↔ ¬IllTypedIterations u := by
  have hcounts' : counts.or (usageCounts u) = usageCounts u := by
    cases counts with
    | none => rfl
    | some c => exact (hcounts c rfl).symm
  unfold messageInferences
  rw [hcounts']
  by_cases htruthy : (u.lookup "iterations").any truthy = true
  · -- both are the conventions
    rw [if_pos htruthy]
    refine iff_of_true rfl fun hill => ?_
    exact Bool.false_ne_true ((any_falsyNoList_of_any_truthy htruthy).symm.trans hill.1)
  · rw [if_neg htruthy]
    cases h : usageCounts u with
    | none =>
      refine iff_of_true rfl fun hill => ?_
      have hplain := isSome_usageCounts u
      rw [h, hill.2] at hplain
      cases hplain
    | some c =>
      obtain ⟨b, hb, hnormalize⟩ := normalizeUsage_of_plain h
      have hplain : plainUsage u = true := by
        rw [← isSome_usageCounts, h]
        rfl
      have hread : r.anthropicInferences (.dict u) = iterationsOf u >>= fun items =>
          if items = [] then .ok ([r.messageInference b],
            (splitNotes (u.lookup "cache_creation_input_tokens") c).eraseDups) else r.fromElements b items := by
        show normalizeUsage u >>= _ = _
        rw [hnormalize]
        rfl
      rw [hread, iterationsOf_of_falsy (Bool.not_eq_true _ |>.mp htruthy)]
      show (c.build >>= _) = _ ↔ _
      rw [hb]
      by_cases hill : (u.lookup "iterations").any falsyNoList = true
      · rw [if_pos hill]
        refine iff_of_false ?_ (not_not.mpr ⟨hill, hplain⟩)
        intro heq
        cases heq
      · rw [if_neg hill]
        refine iff_of_true ?_ fun hcases => hill hcases.1
        show Except.ok ([r.messageInference b], splitNotes (u.lookup "cache_creation_input_tokens") c) =
          Except.ok ([r.messageInference b], (splitNotes (u.lookup "cache_creation_input_tokens") c).eraseDups)
        rw [eraseDups_splitNotes]

/-- The fast paths are their references: the inferences exactly where the iterations are not false in place of a
list, and the counts, the lines and the timestamps always. -/
theorem fastPaths_eq_iff (parseFloat : List Char → Option ℚ) (depth : Nat) (r : Response) (u : Usage) {counts : Option Counts}
    (hcounts : ∀ c ∈ counts, usageCounts u = some c) :
    (messageInferences r u counts = r.anthropicInferences (.dict u) ↔ ¬IllTypedIterations u) ∧
      lineCounts u = (normalizeAnthropicMessages (.dict u)).map (fun read => Counts.ofBuckets read.1) ∧
      (∀ raw, parseLine parseFloat depth raw = parseJsonLine parseFloat depth raw) ∧
      ∀ memo value, (parseTsText memo value).1 = tsOfMatch value :=
  ⟨messageInferences_eq_iff r u hcounts, lineCounts_eq u, parseLine_eq parseFloat depth, parseTsText_eq_tsOfMatch⟩

def objectIterations : Usage := [("input_tokens", .int 5), ("iterations", .dict [])]

def lineResponse : Response where
  hashes := ⟨fun s => s, fun _ s => s, fun s => s⟩
  normalizeModel := fun s => s
  messageModel := "m"
  ctx := { provider := "anthropic", channel := "api", model := "m", modelRaw := "m" }
  idPrefix := "req"

/-- The adapter prices iterations that the conventions refuse. -/
theorem objectIterations_accepted :
    messageInferences lineResponse objectIterations none ≠ lineResponse.anthropicInferences (.dict objectIterations) := by
  intro heq
  have hfast : (messageInferences lineResponse objectIterations none).isOk = true := by decide
  have hcore : (lineResponse.anthropicInferences (.dict objectIterations)).isOk = false := by decide
  rw [heq, hcore] at hfast
  cases hfast

/-- The fast paths on iterations that are an object. -/
theorem objectIterations_paths :
    (∀ c ∈ usageCounts objectIterations, usageCounts objectIterations = some c) ∧ IllTypedIterations objectIterations ∧
      ((messageInferences lineResponse objectIterations (usageCounts objectIterations) =
          lineResponse.anthropicInferences (.dict objectIterations) ↔ ¬IllTypedIterations objectIterations) ∧
        lineCounts objectIterations =
          (normalizeAnthropicMessages (.dict objectIterations)).map (fun read => Counts.ofBuckets read.1) ∧
        (∀ raw, parseLine (fun _ => none) 500 raw = parseJsonLine (fun _ => none) 500 raw) ∧
        ∀ memo value, (parseTsText memo value).1 = tsOfMatch value) :=
  ⟨fun _ hc => hc, ⟨by decide, by decide⟩,
    fastPaths_eq_iff (fun _ => none) 500 lineResponse objectIterations fun _ hc => hc⟩

end TokenBill.ClaudeLines
