import TokenBill.Adapters.FingerprintTexts

/-!
# Fingerprints and markers

`scan_request` and `fingerprint_request` are meant to see the same breakpoints, and no marker of a block is meant
to change its fingerprint. Both hold of a payload exactly when, in every block, the first marker at most 64 levels
deep and the first one at most 200 levels deep outside of every other have one time to live, and when no block that
can be given a marker has, without its markers, a value deeper than 200 levels in a text without the mark: such a
block is cut once it has a marker, and is not before.
-/

namespace TokenBill.Fingerprint

open List

/-! ### Payloads with other markers -/

mutual

/-- Whether the keys of every object are distinct. -/
def Payload.wellFormed : Payload → Bool
  | .dict fields => decide (fields.map (·.1)).Nodup && wellFormedFields fields
  | .list items => wellFormedItems items
  | _ => true

def wellFormedItems : List Payload → Bool
  | [] => true
  | v :: vs => v.wellFormed && wellFormedItems vs

def wellFormedFields : List (String × Payload) → Bool
  | [] => true
  | (_, v) :: fields => v.wellFormed && wellFormedFields fields

end

def mapContent (f : Payload → Payload) : Payload → Payload
  | .list blocks => .list (blocks.map f)
  | v => v

/-- A message with its blocks mapped; one that is no object is a block. -/
def mapMessage (f : Payload → Payload) : Payload → Payload
  | .dict fields => .dict (fields.map fun m => (m.1, if m.1 = "content" then mapContent f m.2 else m.2))
  | msg => f msg

namespace Sent

def WellFormed (p : Sent) : Prop := ∀ v ∈ p.tools ++ p.system :: p.messages, v.wellFormed = true

/-- A payload with its blocks mapped. -/
def mapBlocks (f : Payload → Payload) (p : Sent) : Sent where
  tools := p.tools.map f
  system := mapContent f p.system
  messages := p.messages.map (mapMessage f)

/-- Two payloads that are the same but for the `cache_control` members of their blocks. -/
def Remarked (p q : Sent) : Prop := p.mapBlocks Payload.erase = q.mapBlocks Payload.erase

end Sent

/-! ### Values with a marker in every object -/

mutual

/-- A value with one marker in each of its objects. -/
def Payload.mark : Payload → Payload
  | .dict fields => .dict ((ccKey, .dict []) :: markFields fields)
  | .list items => .list (markItems items)
  | v => v

def markItems : List Payload → List Payload
  | [] => []
  | v :: vs => v.mark :: markItems vs

/-- The members with one marker in each object, without the markers that were there. -/
def markFields : List (String × Payload) → List (String × Payload)
  | [] => []
  | (k, v) :: fields => if k = ccKey then markFields fields else (k, v.mark) :: markFields fields

end

mutual

/-- Whether a value holds an object. -/
def hasObject : Payload → Bool
  | .dict _ => true
  | .list items => hasObjectItems items
  | _ => false

def hasObjectItems : List Payload → Bool
  | [] => false
  | v :: vs => hasObject v || hasObjectItems vs

end

mutual

theorem erase_mark : ∀ v : Payload, v.mark.erase = v.erase
  | .null => rfl
  | .bool _ => rfl
  | .num _ => rfl
  | .str _ => rfl
  | .list items => congrArg Payload.list (eraseItems_mark items)
  | .dict fields => by
    rw [Payload.mark, Payload.erase, Payload.erase, eraseFields, if_pos rfl, eraseFields_mark fields]

theorem eraseItems_mark : ∀ items, eraseItems (markItems items) = eraseItems items
  | [] => rfl
  | v :: vs => by rw [markItems, eraseItems, eraseItems, erase_mark v, eraseItems_mark vs]

theorem eraseFields_mark : ∀ fields, eraseFields (markFields fields) = eraseFields fields
  | [] => rfl
  | (k, v) :: fields => by
    rw [markFields, eraseFields]
    by_cases hk : k = ccKey
    · rw [if_pos hk, if_pos hk, eraseFields_mark fields]
    · rw [if_neg hk, if_neg hk, eraseFields, if_neg hk, erase_mark v, eraseFields_mark fields]

end

mutual

theorem marked_mark : ∀ v : Payload, marked v.mark = hasObject v
  | .null => rfl
  | .bool _ => rfl
  | .num _ => rfl
  | .str _ => rfl
  | .list items => markedItems_mark items
  | .dict fields => by rw [Payload.mark, marked, markedFields, decide_eq_true rfl, Bool.true_or, Bool.true_or, hasObject]

theorem markedItems_mark : ∀ items, markedItems (markItems items) = hasObjectItems items
  | [] => rfl
  | v :: vs => by rw [markItems, markedItems, hasObjectItems, marked_mark v, markedItems_mark vs]

end

mutual

theorem not_marked_erase : ∀ v : Payload, marked v.erase = false
  | .null => rfl
  | .bool _ => rfl
  | .num _ => rfl
  | .str _ => rfl
  | .list items => not_markedItems_erase items
  | .dict fields => not_markedFields_erase fields

theorem not_markedItems_erase : ∀ items, markedItems (eraseItems items) = false
  | [] => rfl
  | v :: vs => by rw [eraseItems, markedItems, not_marked_erase v, not_markedItems_erase vs, Bool.or_false]

theorem not_markedFields_erase : ∀ fields, markedFields (eraseFields fields) = false
  | [] => rfl
  | (k, v) :: fields => by
    rw [eraseFields]
    by_cases hk : k = ccKey
    · rw [if_pos hk, not_markedFields_erase fields]
    · rw [if_neg hk, markedFields, decide_eq_false hk, not_marked_erase v, not_markedFields_erase fields, Bool.or_false,
        Bool.or_false]

end

theorem erase_erase (v : Payload) : v.erase.erase = v.erase := erase_of_not_marked (not_marked_erase v)

mutual

theorem hasObject_erase : ∀ v : Payload, hasObject v.erase = hasObject v
  | .null => rfl
  | .bool _ => rfl
  | .num _ => rfl
  | .str _ => rfl
  | .list items => hasObjectItems_erase items
  | .dict _ => rfl

theorem hasObjectItems_erase : ∀ items, hasObjectItems (eraseItems items) = hasObjectItems items
  | [] => rfl
  | v :: vs => by rw [eraseItems, hasObjectItems, hasObjectItems, hasObject_erase v, hasObjectItems_erase vs]

end

mutual

theorem hasObject_of_marked : ∀ {v}, marked v = true → hasObject v = true
  | .null, h => by cases h
  | .bool _, h => by cases h
  | .num _, h => by cases h
  | .str _, h => by cases h
  | .list items, h => hasObjectItems_of_marked (show markedItems items = true from h)
  | .dict _, _ => rfl

theorem hasObjectItems_of_marked : ∀ {items}, markedItems items = true → hasObjectItems items = true
  | [], h => by cases h
  | v :: vs, h => by
    rw [markedItems, Bool.or_eq_true] at h
    rw [hasObjectItems, Bool.or_eq_true]
    exact h.imp hasObject_of_marked hasObjectItems_of_marked

end

/-! ### The text of a block -/

def text (v : Payload) : List Char := if ccMark <:+: wire v then wire (cut 0 v.erase) else wire v

/-- A block whose text no marker changes: one without objects, one whose text holds the mark without its markers,
or one that is not cut without them. -/
def Kept (v : Payload) : Prop := hasObject v = true → ¬ccMark <:+: wire v.erase → fits 0 v.erase = true

variable {v : Payload} {f : Payload → Payload} {p : Sent}

theorem text_of_not_marked (h : marked v = false) (hmark : ¬ccMark <:+: wire v) : text v = wire v.erase := by
  rw [text, if_neg hmark, erase_of_not_marked h]

theorem text_of_marked (h : marked v = true) : text v = wire (cut 0 v.erase) :=
  if_pos (ccMark_infix_of_marked h)

theorem text_eq_of_kept {w : Payload} (hkept : Kept v) (herase : v.erase = w.erase) : text v = text w := by
  by_cases hmark : ccMark <:+: wire v.erase
  · have hcut : ∀ u : Payload, ccMark <:+: wire u.erase → text u = wire (cut 0 u.erase) := fun u hu => by
      cases hm : marked u with
      | true => exact text_of_marked hm
      | false => exact if_pos (by rwa [erase_of_not_marked hm] at hu)
    rw [hcut v hmark, hcut w (herase ▸ hmark), herase]
  · have hplain : ∀ u : Payload, u.erase = v.erase → text u = wire u.erase := fun u hu => by
      cases hm : marked u with
      | true =>
        have hobject : hasObject v = true := by
          rw [← hasObject_erase, ← hu, hasObject_erase, hasObject_of_marked hm]
        rw [text_of_marked hm, hu, cut_of_fits (hkept hobject hmark)]
      | false => exact text_of_not_marked hm (by rwa [← hu, erase_of_not_marked hm] at hmark)
    rw [hplain v rfl, hplain w herase.symm, herase]

theorem parts_of_not_kept (h : ¬Kept v) : Parts (text v.mark) (text v.erase) := by
  simp only [Kept, Classical.not_imp, Bool.not_eq_true] at h
  obtain ⟨hobject, hmark, hfits⟩ := h
  rw [text_of_marked ((marked_mark v).trans hobject), erase_mark,
    text_of_not_marked (not_marked_erase v) hmark, erase_erase]
  exact parts_cut hfits

/-! ### What mapping the blocks changes -/

/-- A function of blocks that changes nothing but their `cache_control` members. -/
def Marking (f : Payload → Payload) : Prop := ∀ v, (f v).erase = v.erase

theorem marking_erase : Marking Payload.erase := erase_erase

theorem marking_mark : Marking Payload.mark := erase_mark

theorem Marking.str (hf : Marking f) (s : String) : f (.str s) = .str s := by
  have h := hf (.str s)
  cases hv : f (.str s) <;> rw [hv] at h <;> cases h
  rfl

theorem Marking.not_str (hf : Marking f) (h : ∀ s, v ≠ .str s) (s : String) : f v ≠ .str s := by
  intro hv
  have herase := hf v
  rw [hv] at herase
  cases v <;> cases herase
  exact h _ rfl

theorem Marking.not_dict (hf : Marking f) (h : ∀ fields, v ≠ .dict fields)
    (fields : List (String × Payload)) : f v ≠ .dict fields := by
  intro hv
  have herase := hf v
  rw [hv] at herase
  cases v with
  | dict fields => exact h _ rfl
  | _ => cases herase

theorem lookup_eraseFields {k : String} (hk : k ≠ ccKey) (fields : List (String × Payload)) :
    (eraseFields fields).lookup k = (fields.lookup k).map Payload.erase := by
  induction fields with
  | nil => rfl
  | cons f fields ih =>
    obtain ⟨name, v⟩ := f
    rw [eraseFields, lookup_cons]
    by_cases hname : name = ccKey
    · have hne : (k == name) = false := beq_false_of_ne fun h => hk (h.trans hname)
      rw [if_pos hname, hne, ih]
    · rw [if_neg hname, lookup_cons]
      cases k == name with
      | true => rfl
      | false => exact ih

theorem kindOf_erase (v : Payload) : kindOf v.erase = kindOf v := by
  cases v with
  | dict fields =>
    unfold kindOf
    dsimp only [Payload.get, Payload.erase]
    rw [lookup_eraseFields (by decide)]
    cases hv : fields.lookup "type" with
    | none => rfl
    | some w => cases w <;> rfl
  | _ => rfl

theorem Marking.kindOf (hf : Marking f) (v : Payload) : kindOf (f v) = kindOf v := by
  rw [← kindOf_erase (f v), hf v, kindOf_erase]

/-- What mapping the blocks of a payload makes of a block: a string that stands for a block stays. -/
def Changed (f : Payload → Payload) (r r' : Raw) : Prop :=
  r' = { r with obj := f r.obj } ∨ r' = r ∧ ∃ s, r.obj = textBlock s

theorem systemRaw_of_not_str (h : ∀ s, v ≠ .str s) : systemRaw v = ⟨"system", "system_text", none, v⟩ := by
  cases v with
  | str s => exact absurd rfl (h s)
  | _ => rfl

theorem contentRaw_of_not_str (role : Option String) (h : ∀ s, v ≠ .str s) :
    contentRaw role v = ⟨"messages", kindOf v, role, v⟩ := by
  cases v with
  | str s => exact absurd rfl (h s)
  | _ => rfl

theorem changed_systemRaw (hf : Marking f) (v : Payload) : Changed f (systemRaw v) (systemRaw (f v)) := by
  by_cases hstr : ∃ s, v = .str s
  · obtain ⟨s, rfl⟩ := hstr
    rw [hf.str]
    exact .inr ⟨rfl, s, rfl⟩
  · have hv : ∀ s, v ≠ .str s := fun s h => hstr ⟨s, h⟩
    rw [systemRaw_of_not_str hv, systemRaw_of_not_str (hf.not_str hv)]
    exact .inl rfl

theorem changed_contentRaw (hf : Marking f) (role : Option String) (v : Payload) :
    Changed f (contentRaw role v) (contentRaw role (f v)) := by
  by_cases hstr : ∃ s, v = .str s
  · obtain ⟨s, rfl⟩ := hstr
    rw [hf.str]
    exact .inr ⟨rfl, s, rfl⟩
  · have hv : ∀ s, v ≠ .str s := fun s h => hstr ⟨s, h⟩
    rw [contentRaw_of_not_str role hv, contentRaw_of_not_str role (hf.not_str hv), hf.kindOf]
    exact .inl rfl

theorem forall₂_map {g g' : Payload → Raw} (h : ∀ v, Changed f (g v) (g' (f v)))
    (vs : List Payload) : List.Forall₂ (Changed f) (vs.map g) ((vs.map f).map g') := by
  rw [map_map, forall₂_map_left_iff, forall₂_map_right_iff]
  exact forall₂_same.mpr fun v _ => h v

theorem changed_systemRaws (hf : Marking f) (v : Payload) :
    List.Forall₂ (Changed f) (systemRaws v) (systemRaws (mapContent f v)) := by
  cases v with
  | str s =>
    dsimp only [mapContent, systemRaws]
    split
    · exact .nil
    · exact .cons (.inr ⟨rfl, s, rfl⟩) .nil
  | list blocks => exact forall₂_map (changed_systemRaw hf) blocks
  | _ => exact .nil

theorem lookup_mapMessage (f : Payload → Payload) (k : String) (fields : List (String × Payload)) :
    (fields.map fun m => (m.1, if m.1 = "content" then mapContent f m.2 else m.2)).lookup k =
      (fields.lookup k).map fun v => if k = "content" then mapContent f v else v := by
  induction fields with
  | nil => rfl
  | cons m fields ih =>
    rw [map_cons, lookup_cons, lookup_cons]
    by_cases hk : k = m.1
    · rw [beq_iff_eq.mpr hk, hk]
      rfl
    · rw [beq_false_of_ne hk]
      exact ih

/-- The blocks of the content of a message. -/
def contentRaws (role : Option String) : Option Payload → List Raw
  | some (.str s) => [contentRaw role (.str s)]
  | some (.list blocks) => blocks.map (contentRaw role)
  | _ => []

theorem messageRaws_dict (fields : List (String × Payload)) :
    messageRaws (.dict fields) = contentRaws (roleOf (.dict fields)) (fields.lookup "content") := rfl

theorem messageRaws_of_not_dict {msg : Payload} (h : ∀ fields, msg ≠ .dict fields) :
    messageRaws msg = [⟨"messages", "other", none, msg⟩] := by
  cases msg with
  | dict fields => exact absurd rfl (h fields)
  | _ => rfl

theorem changed_contentRaws (hf : Marking f) (role : Option String) (content : Option Payload) :
    List.Forall₂ (Changed f) (contentRaws role content) (contentRaws role (content.map (mapContent f))) := by
  cases content with
  | none => exact .nil
  | some v =>
    cases v with
    | str s => exact .cons (.inr ⟨rfl, s, rfl⟩) .nil
    | list blocks => exact forall₂_map (changed_contentRaw hf role) blocks
    | _ => exact .nil

theorem changed_messageRaws (hf : Marking f) (msg : Payload) :
    List.Forall₂ (Changed f) (messageRaws msg) (messageRaws (mapMessage f msg)) := by
  by_cases hdict : ∃ fields, msg = .dict fields
  · obtain ⟨fields, rfl⟩ := hdict
    have hrole : roleOf (mapMessage f (.dict fields)) = roleOf (.dict fields) := by
      unfold roleOf
      dsimp only [mapMessage, Payload.get]
      rw [lookup_mapMessage]
      cases fields.lookup "role" <;> rfl
    rw [messageRaws_dict, mapMessage, messageRaws_dict, lookup_mapMessage]
    rw [mapMessage] at hrole
    rw [hrole]
    exact changed_contentRaws hf _ _
  · have hmsg : ∀ fields, msg ≠ .dict fields := fun fields h => hdict ⟨fields, h⟩
    have hmap : mapMessage f msg = f msg := by
      cases msg with
      | dict fields => exact absurd rfl (hmsg fields)
      | _ => rfl
    rw [hmap, messageRaws_of_not_dict hmsg, messageRaws_of_not_dict (hf.not_dict hmsg)]
    exact .cons (.inl rfl) .nil

theorem changed_walk (hf : Marking f) (p : Sent) : List.Forall₂ (Changed f) (walk p) (walk (p.mapBlocks f)) := by
  have hmessages : List.Forall₂ (Changed f) (p.messages.flatMap messageRaws)
      ((p.messages.map (mapMessage f)).flatMap messageRaws) := by
    induction p.messages with
    | nil => exact .nil
    | cons msg messages ih => exact rel_append (changed_messageRaws hf msg) ih
  have htools : List.Forall₂ (Changed f) (p.tools.map fun tool => ⟨"tools", "tool_def", none, tool⟩)
      ((p.tools.map f).map fun tool => ⟨"tools", "tool_def", none, tool⟩) := forall₂_map (fun v => .inl rfl) p.tools
  exact rel_append (rel_append htools (changed_systemRaws hf p.system)) hmessages

def Raw.erase (r : Raw) : Raw := { r with obj := r.obj.erase }

theorem walk_erase (p : Sent) : walk (p.mapBlocks Payload.erase) = (walk p).map Raw.erase := by
  have heq : ∀ {r r' : Raw}, Changed Payload.erase r r' → r' = r.erase := by
    rintro r r' (rfl | ⟨rfl, s, hs⟩)
    · rfl
    · unfold Raw.erase
      rw [hs]
      exact congrArg (Raw.mk r'.tier r'.kind r'.role) hs
  have hforall : List.Forall₂ (· = ·) ((walk p).map Raw.erase) (walk (p.mapBlocks Payload.erase)) := by
    rw [forall₂_map_left_iff]
    exact (changed_walk marking_erase p).imp fun _ _ h => (heq h).symm
  exact (forall₂_eq_eq_eq ▸ hforall).symm

/-! ### Fingerprints -/

section

variable (host : Host) (key : List UInt8) (tier : ContentTier) (family : String)

def refs (p : Sent) : List BlockRef :=
  List.zipWith (blockRef host key family) (snapshotBlocks p) (lookbackPositions ((snapshotBlocks p).map (·.kind)))

/-- `scan_request` and `fingerprint_request` see the same breakpoints and kinds. -/
def SeesMarkers (p : Sent) : Prop :=
  ∃ r, fingerprintRequest host key tier family p = .ok r ∧
    scanRequest p = (r.breakpoints, r.fingerprint.blocks.map (·.kind))

/-- No marker of a block of the payload changes a field of a fingerprinted block. -/
def IgnoresMarkers (p : Sent) : Prop :=
  ∀ q : Sent, q.WellFormed → p.Remarked q →
    (fingerprintRequest host key tier family q).map (·.fingerprint.blocks) =
      (fingerprintRequest host key tier family p).map (·.fingerprint.blocks)

/-- No block of the payload has a hash that is that of the block cut at 200 levels, unless they have one text. -/
def NoCollision (p : Sent) : Prop :=
  ∀ r ∈ walk p, host.digest key (tagOf r.tier r.role ++ wire (cut 0 r.obj.erase)) =
    host.digest key (tagOf r.tier r.role ++ wire r.obj.erase) → wire (cut 0 r.obj.erase) = wire r.obj.erase

/-- The first marker that each of the walkers sees has one time to live. -/
def MarkersAgree (v : Payload) : Prop :=
  ((markers 0 false v).find? Marker.near).map (·.ttl) = ((markers 0 false v).find? Marker.outer).map (·.ttl)

theorem fingerprintRequest_eq (hkey : key ≠ []) (htier : tier ≠ .none) (p : Sent) :
    ∃ r, fingerprintRequest host key tier family p = .ok r ∧ r.fingerprint.blocks = refs host key family p ∧
      r.breakpoints = breakpointsFrom 0 ((snapshotBlocks p).map (·.marker)) := by
  have hargs : checkFpArgs key tier = none := by
    rw [checkFpArgs, if_neg htier, if_neg hkey]
  unfold fingerprintRequest fingerprintBlocks
  rw [hargs]
  exact ⟨_, rfl, rfl, rfl⟩

end

/-! ### Breakpoints -/

theorem le_blockIndex {idx : Nat} {ttls : List (Option String)} : ∀ b ∈ breakpointsFrom idx ttls, idx ≤ b.blockIndex := by
  induction ttls generalizing idx with
  | nil => intro b hb; cases hb
  | cons ttl ttls ih =>
    intro b hb
    cases ttl with
    | none => exact Nat.le_of_succ_le (ih b hb)
    | some ttl =>
      rcases mem_cons.mp hb with rfl | hb
      · exact le_rfl
      · exact Nat.le_of_succ_le (ih b hb)

theorem breakpointsFrom_inj {idx : Nat} {l m : List (Option String)} (hlen : l.length = m.length)
    (h : breakpointsFrom idx l = breakpointsFrom idx m) : l = m := by
  induction l generalizing idx m with
  | nil => exact (length_eq_zero_iff.mp hlen.symm).symm
  | cons a l ih =>
    obtain ⟨b, m, rfl⟩ := exists_cons_of_length_eq_add_one hlen.symm
    have hrest : l.length = m.length := Nat.succ.inj hlen
    cases a with
    | none =>
      cases b with
      | none => rw [ih hrest h]
      | some t =>
        have hle : idx + 1 ≤ idx := le_blockIndex ⟨idx, t, false⟩ (h ▸ mem_cons_self : _ ∈ breakpointsFrom (idx + 1) l)
        exact absurd hle (Nat.not_succ_le_self idx)
    | some s =>
      cases b with
      | none =>
        have hle : idx + 1 ≤ idx := le_blockIndex ⟨idx, s, false⟩ (h.symm ▸ mem_cons_self : _ ∈ breakpointsFrom (idx + 1) m)
        exact absurd hle (Nat.not_succ_le_self idx)
      | some t =>
        obtain ⟨hhead, htail⟩ := List.cons.inj h
        rw [ih hrest htail, (Breakpoint.mk.inj hhead).2.1]

/-! ### Blocks of a snapshot -/

theorem wire_wireBlock (r : Raw) : (wireBlock r).wire = text r.obj := by
  unfold wireBlock text
  rw [← strip_eq_cut]
  split <;> rfl

theorem tags_wireBlock (r : Raw) :
    (wireBlock r).tier = r.tier ∧ (wireBlock r).kind = r.kind ∧ (wireBlock r).role = r.role := by
  unfold wireBlock
  split <;> exact ⟨rfl, rfl, rfl⟩

theorem marker_wireBlock (r : Raw) :
    (wireBlock r).marker = ((markers 0 false r.obj).find? Marker.outer).map (·.ttl) := by
  unfold wireBlock
  split
  · rw [strip_markers, head?_map, head?_filter]
  · rename_i hmark
    have hmarked : marked r.obj = false := Bool.eq_false_iff.mpr fun h => hmark (ccMark_infix_of_marked h)
    rw [markers_of_not_marked hmarked]
    rfl

theorem length_positionsAfter (prev : String) (pos : Nat) (kinds : List String) :
    (positionsAfter prev pos kinds).length = kinds.length := by
  induction kinds generalizing prev pos with
  | nil => rfl
  | cons kind kinds ih => exact congrArg (· + 1) (ih _ _)

theorem length_lookbackPositions (kinds : List String) : (lookbackPositions kinds).length = kinds.length := by
  cases kinds with
  | nil => rfl
  | cons kind kinds => exact congrArg (· + 1) (length_positionsAfter _ _ _)

theorem map_zipWith_left {α β γ δ : Type} {f : α → β → γ} {g : γ → δ} {g' : α → δ} (h : ∀ a b, g (f a b) = g' a) :
    ∀ {as : List α} {bs : List β}, bs.length = as.length → (List.zipWith f as bs).map g = as.map g'
  | [], _, _ => rfl
  | a :: as, [], hlen => by cases hlen
  | a :: as, b :: bs, hlen => by
    rw [zipWith_cons_cons, map_cons, map_cons, h, map_zipWith_left h (Nat.succ.inj hlen)]

theorem kinds_refs (host : Host) (key : List UInt8) (family : String) (p : Sent) :
    (refs host key family p).map (·.kind) = (walk p).map (·.kind) := by
  have hblocks : (refs host key family p).map (·.kind) = (snapshotBlocks p).map (·.kind) :=
    map_zipWith_left (fun w pos => show (blockRef host key family w pos).kind = w.kind from rfl)
      (by rw [length_lookbackPositions, length_map])
  rw [hblocks, snapshotBlocks, map_map]
  exact map_congr_left fun r _ => (tags_wireBlock r).2.1

theorem hashes_refs (host : Host) (key : List UInt8) (family : String) (p : Sent) :
    (refs host key family p).map (·.h) = (walk p).map fun r => host.digest key (tagOf r.tier r.role ++ text r.obj) := by
  have hblocks : (refs host key family p).map (·.h) =
      (snapshotBlocks p).map fun w => host.digest key (tagOf w.tier w.role ++ w.wire) :=
    map_zipWith_left (fun w pos => show (blockRef host key family w pos).h = _ from rfl)
      (by rw [length_lookbackPositions, length_map])
  rw [hblocks, snapshotBlocks, map_map]
  refine map_congr_left fun r _ => ?_
  obtain ⟨htier, -, hrole⟩ := tags_wireBlock r
  dsimp only [Function.comp_apply]
  rw [htier, hrole, wire_wireBlock]

/-! ### When the scanners agree -/

theorem seesMarkers_iff {host : Host} {key : List UInt8} {tier : ContentTier} {family : String} (hkey : key ≠ [])
    (htier : tier ≠ .none) (p : Sent) : SeesMarkers host key tier family p ↔ ∀ r ∈ walk p, MarkersAgree r.obj := by
  obtain ⟨r, hr, hblocks, hbreakpoints⟩ := fingerprintRequest_eq host key tier family hkey htier p
  have hscan : scanRequest p = (r.breakpoints, r.fingerprint.blocks.map (·.kind)) ↔
      (walk p).map (fun r => firstTtl 0 r.obj) = (snapshotBlocks p).map (·.marker) := by
    rw [hblocks, kinds_refs, hbreakpoints, Prod.mk.injEq]
    refine ⟨fun h => breakpointsFrom_inj (by simp [snapshotBlocks]) h.1, fun h => ⟨congrArg _ h, rfl⟩⟩
  have hagree : (walk p).map (fun r => firstTtl 0 r.obj) = (snapshotBlocks p).map (·.marker) ↔
      ∀ r ∈ walk p, MarkersAgree r.obj := by
    unfold snapshotBlocks MarkersAgree
    rw [map_map, map_inj_left]
    refine forall₂_congr fun r _ => ?_
    rw [firstTtl_eq 0 false r.obj, ← marker_wireBlock r]
    rfl
  rw [← hagree, ← hscan]
  constructor
  · rintro ⟨r', hr', hs⟩
    obtain rfl := Except.ok.inj (hr.symm.trans hr')
    exact hs
  · intro hs
    exact ⟨r, hr, hs⟩

/-! ### When markers change nothing -/

theorem kept_congr {w : Payload} (h : v.erase = w.erase) (hkept : Kept v) : Kept w := by
  unfold Kept at hkept ⊢
  rwa [← hasObject_erase w, ← h, hasObject_erase]

def unmarked (r : Raw) : WiredBlock := ⟨r.tier, r.kind, r.role, text r.obj, none⟩

theorem refs_eq (host : Host) (key : List UInt8) (family : String) (p : Sent) :
    refs host key family p = List.zipWith (blockRef host key family) ((walk p).map unmarked)
      (lookbackPositions (((walk p).map unmarked).map (·.kind))) := by
  have hblock : ∀ w pos, blockRef host key family w pos = blockRef host key family { w with marker := none } pos :=
    fun _ _ => rfl
  have hmap : (snapshotBlocks p).map (fun w => { w with marker := none }) = (walk p).map unmarked := by
    unfold snapshotBlocks
    rw [map_map]
    refine map_congr_left fun r _ => ?_
    obtain ⟨htier, hkind, hrole⟩ := tags_wireBlock r
    unfold unmarked
    dsimp only [Function.comp_apply]
    rw [htier, hkind, hrole, wire_wireBlock]
  rw [← hmap, map_map, zipWith_map_left]
  rfl

theorem refs_eq_of_kept (host : Host) (key : List UInt8) (family : String) {q : Sent}
    (hkept : ∀ r ∈ walk p, Kept r.obj) (h : p.Remarked q) : refs host key family p = refs host key family q := by
  have hwalk : (walk p).map Raw.erase = (walk q).map Raw.erase := by
    rw [← walk_erase, ← walk_erase, h]
  have hunmarked : (walk p).map unmarked = (walk q).map unmarked := by
    have hforall : List.Forall₂ (fun r r' => Raw.erase r = Raw.erase r') (walk p) (walk q) := by
      have heq := forall₂_eq_eq_eq ▸ hwalk
      rwa [forall₂_map_left_iff, forall₂_map_right_iff] at heq
    have hsame : ∀ {l m : List Raw}, (∀ r ∈ l, Kept r.obj) → List.Forall₂ (fun r r' => Raw.erase r = Raw.erase r') l m →
        l.map unmarked = m.map unmarked := by
      intro l m hl hforall
      induction hforall with
      | nil => rfl
      | @cons r r' l m hr _ ih =>
        obtain ⟨htier, hkind, hrole, hobj⟩ := Raw.mk.inj hr
        have htext := text_eq_of_kept (hl r mem_cons_self) hobj
        rw [map_cons, map_cons, ih fun x hx => hl x (mem_cons_of_mem _ hx)]
        unfold unmarked
        rw [htier, hkind, hrole, htext]
    exact hsame hkept hforall
  rw [refs_eq, refs_eq, hunmarked]

/-! ### Values that keep distinct keys -/

theorem keys_eraseFields (fields : List (String × Payload)) :
    (eraseFields fields).map (·.1) = (fields.map (·.1)).filter fun k => decide (k ≠ ccKey) := by
  induction fields with
  | nil => rfl
  | cons f fields ih =>
    obtain ⟨k, v⟩ := f
    rw [eraseFields, map_cons, filter_cons]
    by_cases hk : k = ccKey
    · rw [if_pos hk, ih, if_neg (by simpa using hk)]
    · rw [if_neg hk, map_cons, ih, if_pos (by simpa using hk)]

theorem keys_markFields (fields : List (String × Payload)) :
    (markFields fields).map (·.1) = (fields.map (·.1)).filter fun k => decide (k ≠ ccKey) := by
  induction fields with
  | nil => rfl
  | cons f fields ih =>
    obtain ⟨k, v⟩ := f
    rw [markFields, map_cons, filter_cons]
    by_cases hk : k = ccKey
    · rw [if_pos hk, ih, if_neg (by simpa using hk)]
    · rw [if_neg hk, map_cons, ih, if_pos (by simpa using hk)]

mutual

theorem wellFormed_erase : ∀ {v : Payload}, v.wellFormed = true → v.erase.wellFormed = true
  | .null, _ => rfl
  | .bool _, _ => rfl
  | .num _, _ => rfl
  | .str _, _ => rfl
  | .list items, h => wellFormedItems_erase (show wellFormedItems items = true from h)
  | .dict fields, h => by
    rw [Payload.wellFormed, Bool.and_eq_true, decide_eq_true_eq] at h
    rw [Payload.erase, Payload.wellFormed, Bool.and_eq_true, decide_eq_true_eq, keys_eraseFields]
    exact ⟨h.1.filter _, wellFormedFields_erase h.2⟩

theorem wellFormedItems_erase : ∀ {items}, wellFormedItems items = true → wellFormedItems (eraseItems items) = true
  | [], _ => rfl
  | v :: vs, h => by
    rw [wellFormedItems, Bool.and_eq_true] at h
    rw [eraseItems, wellFormedItems, Bool.and_eq_true]
    exact ⟨wellFormed_erase h.1, wellFormedItems_erase h.2⟩

theorem wellFormedFields_erase : ∀ {fields}, wellFormedFields fields = true →
    wellFormedFields (eraseFields fields) = true
  | [], _ => rfl
  | (k, v) :: fields, h => by
    rw [wellFormedFields, Bool.and_eq_true] at h
    rw [eraseFields]
    by_cases hk : k = ccKey
    · rw [if_pos hk]
      exact wellFormedFields_erase h.2
    · rw [if_neg hk, wellFormedFields, Bool.and_eq_true]
      exact ⟨wellFormed_erase h.1, wellFormedFields_erase h.2⟩

end

mutual

theorem wellFormed_mark : ∀ {v : Payload}, v.wellFormed = true → v.mark.wellFormed = true
  | .null, _ => rfl
  | .bool _, _ => rfl
  | .num _, _ => rfl
  | .str _, _ => rfl
  | .list items, h => wellFormedItems_mark (show wellFormedItems items = true from h)
  | .dict fields, h => by
    rw [Payload.wellFormed, Bool.and_eq_true, decide_eq_true_eq] at h
    rw [Payload.mark, Payload.wellFormed, Bool.and_eq_true, decide_eq_true_eq, map_cons, keys_markFields,
      wellFormedFields, Bool.and_eq_true]
    refine ⟨nodup_cons.mpr ⟨fun hmem => ?_, h.1.filter _⟩, rfl, wellFormedFields_mark h.2⟩
    simpa using of_mem_filter hmem

theorem wellFormedItems_mark : ∀ {items}, wellFormedItems items = true → wellFormedItems (markItems items) = true
  | [], _ => rfl
  | v :: vs, h => by
    rw [wellFormedItems, Bool.and_eq_true] at h
    rw [markItems, wellFormedItems, Bool.and_eq_true]
    exact ⟨wellFormed_mark h.1, wellFormedItems_mark h.2⟩

theorem wellFormedFields_mark : ∀ {fields}, wellFormedFields fields = true →
    wellFormedFields (markFields fields) = true
  | [], _ => rfl
  | (k, v) :: fields, h => by
    rw [wellFormedFields, Bool.and_eq_true] at h
    rw [markFields]
    by_cases hk : k = ccKey
    · rw [if_pos hk]
      exact wellFormedFields_mark h.2
    · rw [if_neg hk, wellFormedFields, Bool.and_eq_true]
      exact ⟨wellFormed_mark h.1, wellFormedFields_mark h.2⟩

end

theorem wellFormedItems_iff {items : List Payload} : wellFormedItems items = true ↔ ∀ v ∈ items, v.wellFormed = true := by
  induction items with
  | nil => simp [wellFormedItems]
  | cons v vs ih => rw [wellFormedItems, Bool.and_eq_true, ih, forall_mem_cons]

theorem wellFormedFields_iff {fields : List (String × Payload)} :
    wellFormedFields fields = true ↔ ∀ f ∈ fields, f.2.wellFormed = true := by
  induction fields with
  | nil => simp [wellFormedFields]
  | cons f fields ih =>
    obtain ⟨k, v⟩ := f
    rw [wellFormedFields, Bool.and_eq_true, ih, forall_mem_cons]

theorem wellFormed_mapContent (hf : ∀ v, v.wellFormed = true → (f v).wellFormed = true)
    (h : v.wellFormed = true) : (mapContent f v).wellFormed = true := by
  cases v with
  | list blocks =>
    refine wellFormedItems_iff.mpr fun w hw => ?_
    obtain ⟨u, hu, rfl⟩ := mem_map.mp hw
    exact hf u (wellFormedItems_iff.mp h u hu)
  | _ => exact h

theorem wellFormed_mapMessage (hf : ∀ v, v.wellFormed = true → (f v).wellFormed = true)
    {msg : Payload} (h : msg.wellFormed = true) : (mapMessage f msg).wellFormed = true := by
  cases msg with
  | dict fields =>
    rw [Payload.wellFormed, Bool.and_eq_true, wellFormedFields_iff] at h
    rw [mapMessage, Payload.wellFormed, Bool.and_eq_true, wellFormedFields_iff, map_map]
    refine ⟨h.1, fun m hm => ?_⟩
    obtain ⟨m, hmem, rfl⟩ := mem_map.mp hm
    split
    · exact wellFormed_mapContent hf (h.2 m hmem)
    · exact h.2 m hmem
  | _ => exact hf _ h

theorem Sent.WellFormed.mapBlocks (hf : ∀ v, v.wellFormed = true → (f v).wellFormed = true)
    (h : p.WellFormed) : (p.mapBlocks f).WellFormed := by
  intro v hv
  rcases mem_append.mp hv with hv | hv
  · obtain ⟨w, hw, rfl⟩ := mem_map.mp hv
    exact hf w (h w (mem_append_left _ hw))
  · rcases mem_cons.mp hv with rfl | hv
    · exact wellFormed_mapContent hf (h _ (mem_append_right _ mem_cons_self))
    · obtain ⟨w, hw, rfl⟩ := mem_map.mp hv
      exact wellFormed_mapMessage hf (h w (mem_append_right _ (mem_cons_of_mem _ hw)))

theorem mapContent_comp {g : Payload → Payload} (h : ∀ v, g (f v) = g v) (v : Payload) :
    mapContent g (mapContent f v) = mapContent g v := by
  cases v with
  | list blocks => simp [mapContent, h]
  | _ => rfl

theorem mapMessage_comp {g : Payload → Payload} (h : ∀ v, g (f v) = g v)
    (hdict : ∀ v, (∀ fields, v ≠ .dict fields) → ∀ fields, f v ≠ .dict fields) (msg : Payload) :
    mapMessage g (mapMessage f msg) = mapMessage g msg := by
  by_cases hmsg : ∃ fields, msg = .dict fields
  · obtain ⟨fields, rfl⟩ := hmsg
    rw [mapMessage, mapMessage, mapMessage, map_map]
    refine congrArg Payload.dict (map_congr_left fun m _ => ?_)
    dsimp only [Function.comp_apply]
    split
    · rw [mapContent_comp h]
    · rfl
  · have hnot : ∀ fields, msg ≠ .dict fields := fun fields h => hmsg ⟨fields, h⟩
    have hother : ∀ {k : Payload → Payload} {v : Payload}, (∀ fields, v ≠ .dict fields) → mapMessage k v = k v := by
      intro k v hv
      cases v with
      | dict fields => exact absurd rfl (hv fields)
      | _ => rfl
    rw [hother hnot, hother (hdict msg hnot), hother hnot, h]

theorem remarked_mapBlocks (hf : Marking f) (p : Sent) : p.Remarked (p.mapBlocks f) := by
  unfold Sent.Remarked Sent.mapBlocks
  rw [map_map, map_map, mapContent_comp hf,
    map_congr_left fun v _ => (show (Payload.erase ∘ f) v = v.erase from hf v),
    map_congr_left fun v _ => (show (mapMessage Payload.erase ∘ mapMessage f) v = mapMessage Payload.erase v from
      mapMessage_comp hf (fun _ => hf.not_dict) v)]

/-- No marker changes a fingerprint exactly when every block is kept. -/
theorem ignoresMarkers_iff {host : Host} {key : List UInt8} {tier : ContentTier} {family : String} (hkey : key ≠ [])
    (htier : tier ≠ .none) (hp : p.WellFormed) (hhost : NoCollision host key p) :
    IgnoresMarkers host key tier family p ↔ ∀ r ∈ walk p, Kept r.obj := by
  have hblocks : ∀ q : Sent, (fingerprintRequest host key tier family q).map (·.fingerprint.blocks) =
      .ok (refs host key family q) := fun q => by
    obtain ⟨r, hr, hrefs, -⟩ := fingerprintRequest_eq host key tier family hkey htier q
    rw [hr, ← hrefs]
    rfl
  constructor
  · intro h r hr
    by_contra hkept
    have hmark := h _ (hp.mapBlocks fun _ => wellFormed_mark) (remarked_mapBlocks marking_mark p)
    have herase := h _ (hp.mapBlocks fun _ => wellFormed_erase) (remarked_mapBlocks marking_erase p)
    rw [hblocks, hblocks] at hmark herase
    have heq : refs host key family (p.mapBlocks Payload.mark) = refs host key family (p.mapBlocks Payload.erase) :=
      (Except.ok.inj hmark).trans (Except.ok.inj herase).symm
    have hhashes := congrArg (List.map (·.h)) heq
    rw [hashes_refs, hashes_refs, walk_erase, map_map] at hhashes
    have hforall : List.Forall₂ (fun r r' => host.digest key (tagOf r.tier r.role ++ text r.obj.erase) =
        host.digest key (tagOf r'.tier r'.role ++ text r'.obj)) (walk p) (walk (p.mapBlocks Payload.mark)) := by
      have hrel := forall₂_eq_eq_eq ▸ hhashes.symm
      rwa [forall₂_map_left_iff, forall₂_map_right_iff] at hrel
    obtain ⟨r', hchanged, hdigest⟩ : ∃ r', Changed Payload.mark r r' ∧ host.digest key (tagOf r.tier r.role ++
        text r.obj.erase) = host.digest key (tagOf r'.tier r'.role ++ text r'.obj) := by
      clear heq hhashes hmark herase hhost
      have hwalk := changed_walk marking_mark p
      generalize walk p = l at hr hforall hwalk
      generalize walk (p.mapBlocks Payload.mark) = m at hforall hwalk
      induction hwalk with
      | nil => cases hr
      | cons hab _ ih =>
        cases hforall with
        | cons hd hrest =>
          rcases mem_cons.mp hr with rfl | hr
          · exact ⟨_, hab, hd⟩
          · exact ih hr hrest
    rcases hchanged with rfl | ⟨-, s, hs⟩
    · have hparts := parts_of_not_kept hkept
      simp only [Kept, Classical.not_imp, Bool.not_eq_true] at hkept
      obtain ⟨hobj, hccMark, hfits⟩ := hkept
      rw [text_of_marked ((marked_mark r.obj).trans hobj), erase_mark,
        text_of_not_marked (not_marked_erase r.obj) hccMark, erase_erase] at hdigest hparts
      exact hparts.ne (hhost r hr hdigest.symm)
    · refine hkept fun _ _ => ?_
      rw [hs]
      rfl
  · intro hkept q _ hq
    rw [hblocks, hblocks, refs_eq_of_kept host key family hkept hq]

/-- Both scanners agree on a payload and no marker changes its fingerprint exactly when, in every block, the markers
that the two walkers find first have one time to live, and the block is kept. -/
theorem markers_harmless_iff {host : Host} {key : List UInt8} {tier : ContentTier} {family : String} (hkey : key ≠ [])
    (htier : tier ≠ .none) {p : Sent} (hp : p.WellFormed) (hhost : NoCollision host key p) :
    SeesMarkers host key tier family p ∧ IgnoresMarkers host key tier family p ↔
      ∀ r ∈ walk p, MarkersAgree r.obj ∧ Kept r.obj := by
  rw [seesMarkers_iff hkey htier, ignoresMarkers_iff hkey htier hp hhost]
  exact ⟨fun h r hr => ⟨h.1 r hr, h.2 r hr⟩, fun h => ⟨fun r hr => (h r hr).1, fun r hr => (h r hr).2⟩⟩

def nested : Nat → Payload → Payload
  | 0, v => v
  | n + 1, v => .list [nested n v]

def messageOf (block : Payload) : Sent where
  tools := []
  system := .null
  messages := [.dict [("role", .str "user"), ("content", .list [block])]]

def markedAt (n : Nat) : Payload :=
  .dict [("type", .str "tool_result"), ("content", nested n (.dict [(ccKey, .dict [("type", .str "ephemeral")])]))]

def plainResult : Payload := .dict [("type", .str "tool_result"), ("content", .list [.dict []])]

/-- What the host computes of that tool result under the key `[1]`. -/
def plainHost : Host where
  hmac _ data :=
    if data = tagOf "messages" (some "user") ++ wire plainResult then
      "1da85d262d29ccd41b0f27f2793b12958f77afb1d92231a3278692d147b2680d"
    else "641ad9f92fadb87ab1df91e019837954d7400af6566a5b7200c777cdde707385"
  keyId _ := "k_47ba89628a33"
  loads data := if data = wire plainResult then plainResult else .null
  finditer _ _ := []
  b64decode _ := none

theorem markedText_harmless : SeesMarkers plainHost [1] .full "claude-4.7+" (messageOf (markedAt 1)) ∧
    IgnoresMarkers plainHost [1] .full "claude-4.7+" (messageOf (markedAt 1)) :=
  (markers_harmless_iff (by decide) (by decide) (by unfold Sent.WellFormed; decide)
    (by unfold NoCollision; decide +kernel)).mpr (by unfold MarkersAgree Kept; decide +kernel)

theorem deepMarker_unseen : ¬SeesMarkers plainHost [1] .full "claude-4.7+" (messageOf (markedAt 64)) := by
  rintro ⟨r, hr, hs⟩
  obtain rfl := Except.ok.inj hr
  have hbreakpoints := congrArg Prod.fst hs
  revert hbreakpoints
  decide +kernel

end TokenBill.Fingerprint
