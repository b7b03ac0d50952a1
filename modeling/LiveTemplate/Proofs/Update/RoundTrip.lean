import LiveTemplate.Proofs.Client.Lead
import LiveTemplate.Proofs.Render.Shape
import LiveTemplate.Proofs.Update.Best
import LiveTemplate.Proofs.Update.Markers

/-!
# Updates bring a client to the next render

`Update.Leads` says what an update does at a client: its nested part and then its fragments lead
from one node to another.

* Each kind of update leads where it should (`leads_text`, `leads_replace`, `leads_items`,
  `leads_edits`, `leads_markers`, `leads_keyed`), so that any choice among them does
  (`leads_ofTree`, `leads_ofList`).
* `Slot.compare_leads`: the update between two nodes leads from the first one to the second.
* `RenderTree.fragments_lead`: so do the fragments between two renders.
* `RenderTree.fragments_roundTrip`: a client that has read the first render has, with the fragments
  applied, what a client that has read the second one has.
-/

namespace LiveTemplate

namespace Update

open Slot

/-- The nested part of an update at a path and then its fragments lead from one node to another. -/
def Leads (update : Update) (path : KeyPath) (old new : Slot) : Prop :=
  ∃ middle, Nested (update.inline path).1 old middle ∧
    Lead path (update.inline path).2 middle new

/-- The same for updates of slots, the first of which has the given key, with any slots before
them. -/
def LeadsSlots (changes : List (Nat × Update)) (path : KeyPath) (key : Nat)
    (olds news : List Slot) : Prop :=
  ∃ middles, Keyed key (inlineFields path changes).1 olds middles ∧
    ∀ (statics : List String) (before : List Slot), before.length = key →
      Lead path (inlineFields path changes).2 (.tree statics (before ++ middles))
        (.tree statics (before ++ news))

variable {path : KeyPath}

/-! ## The kinds of updates -/

theorem leads_text (old : Slot) (content : String) :
    (Update.text content).Leads path old (.text content) :=
  ⟨.text content, fun _ => rfl, .nil _⟩

theorem leads_replace {new : Slot} (hp : path ≠ []) (hs : new.sound = true) (old : Slot) :
    (Update.replace new).Leads path old new := by
  refine ⟨old, rfl, .single ?_⟩
  have hid : ¬(path.text = "" ∧ new.isTree = false) := fun h => KeyPath.text_ne_empty hp h.1
  simp only [applyPayload, Fragment.of, applyReplacement, ofJson_toJson hs]
  show Outcome.ofExcept old (if path.text = "" ∧ new.isTree = false then _ else .ok new) = _
  rw [if_neg hid]
  rfl

theorem leads_markers {old new : Slot} {next : Nat} {markers : List Marker}
    (h : textMarkers? 0 old new = some (next, markers)) (hl : old.texts.length ≤ Json.limit32) :
    (Update.markers markers).Leads path old new :=
  ⟨old, rfl, .single (applyPayload_markers h hl path.text)⟩

section Lists

variable {statics : List String} {olds news : List (List Slot)}

theorem leads_items (hl : olds.length = news.length) (hk : olds.length ≤ KeyPath.keyLimit)
    (hf : itemsFit statics news = true) (hs : soundItems news = true) :
    (Update.items (changedItems 0 olds news)).Leads path (.list statics olds)
      (.list statics news) :=
  ⟨.list statics news, applyKeyed_itemsPayload hl hk hf hs, .nil _⟩

theorem leads_edits {edits : List (ListEdit (List Slot))}
    (he : ListEdit.between? olds news = some edits) (ho : olds.length < Json.limit32)
    (hn : news.length < Json.limit32) (hf : itemsFit statics news = true)
    (hs : soundItems news = true) :
    (Update.edits edits).Leads path (.list statics olds) (.list statics news) :=
  ⟨.list statics olds, rfl, .single (applyPayload_edits he ho hn hf hs path.text)⟩

end Lists

/-! ## Slots of a tree -/

theorem leadsSlots_nil (key : Nat) : LeadsSlots [] path key [] [] :=
  ⟨[], .nil, fun _ _ _ => .nil _⟩

section Cons

variable {key : Nat} {old new : Slot} {olds news : List Slot} {changes : List (Nat × Update)}

theorem leadsSlots_keep (h : LeadsSlots changes path (key + 1) olds news) (slot : Slot) :
    LeadsSlots changes path key (slot :: olds) (slot :: news) := by
  obtain ⟨middles, hkeyed, hlead⟩ := h
  have hslot : Nested none slot slot := rfl
  refine ⟨slot :: middles, .cons hslot hkeyed, fun statics before hb => ?_⟩
  have := hlead statics (before ++ [slot]) (by rw [List.length_append, hb]; rfl)
  rwa [List.append_assoc, List.append_assoc] at this

theorem leadsSlots_change {update : Update} (hk : key < KeyPath.keyLimit)
    (hu : update.Leads (path.child key) old new)
    (h : LeadsSlots changes path (key + 1) olds news) :
    LeadsSlots ((key, update) :: changes) path key (old :: olds) (new :: news) := by
  obtain ⟨middle, hnested, hown⟩ := hu
  obtain ⟨middles, hkeyed, hlead⟩ := h
  refine ⟨middle :: middles, .cons hnested hkeyed, fun statics before hb => ?_⟩
  -- The fragments for the first slot come before those for the others.
  have hrest := hlead statics (before ++ [new]) (by rw [List.length_append, hb]; rfl)
  rw [List.append_assoc, List.append_assoc] at hrest
  subst hb
  exact (hown.inSlot statics middles hk).append hrest

end Cons

theorem nested_keyed {changes : List (Nat × Update)} {olds news : List Slot}
    (h : Keyed 0 (inlineFields path changes).1 olds news) (hl : olds.length ≤ KeyPath.keyLimit)
    (statics : List String) :
    Nested ((Update.keyed changes).inline path).1 (.tree statics olds) (.tree statics news) := by
  show Nested (if (inlineFields path changes).1.isEmpty then none
    else some (Json.ofFields (inlineFields path changes).1)) _ _
  split
  · rename_i he
    rw [List.isEmpty_iff.mp he] at h
    rw [h.eq_of_nil]
    rfl
  · exact applyKeyed_keyed h hl statics

theorem leads_keyed {changes : List (Nat × Update)} {olds news : List Slot}
    (h : LeadsSlots changes path 0 olds news) (hl : olds.length ≤ KeyPath.keyLimit)
    (statics : List String) :
    (Update.keyed changes).Leads path (.tree statics olds) (.tree statics news) := by
  obtain ⟨middles, hkeyed, hlead⟩ := h
  exact ⟨.tree statics middles, nested_keyed hkeyed hl statics, hlead statics [] rfl⟩

/-! ## Choice -/

theorem leads_ofTree {statics : List String} {olds news : List Slot}
    {changes : List (Nat × Update)} (h : LeadsSlots changes path 0 olds news)
    (ho : slotsFit statics olds = true) (hn : slotsFit statics news = true)
    (hl : olds.length ≤ KeyPath.keyLimit) (ht : (textsOfSlots olds).length ≤ Json.limit32)
    (options : UpdateOptions) :
    (ofTree options statics olds news changes).Leads path (.tree statics olds)
      (.tree statics news) := by
  rw [ofTree, ho, hn]
  have hkeyed := leads_keyed h hl statics
  split
  · rename_i hf
    cases hf
  · split
    · exact hkeyed
    · cases hm : slotMarkers? 0 olds news with
      | none => exact hkeyed
      | some found =>
        obtain ⟨next, markers⟩ := found
        have hroot : textMarkers? 0 (.tree statics olds) (.tree statics news) =
            some (next, markers) := by
          rw [textMarkers?, if_pos rfl, hm]
        dsimp only
        split
        · exact leads_markers hroot ht
        · exact hkeyed

theorem leads_ofList {statics : List String} {olds news : List (List Slot)} (hp : path ≠ [])
    (ho : olds.length < Json.limit32) (hn : news.length < Json.limit32)
    (hs : (Slot.list statics news).sound = true) (options : UpdateOptions) :
    (ofList options statics olds news).Leads path (.list statics olds) (.list statics news) := by
  obtain ⟨hf, hi⟩ := sound_list.mp hs
  have hwhole := leads_replace hp hs (.list statics olds)
  rcases List.mem_cons.mp (ofList_mem options statics olds news) with h | h
  · rw [h]
    exact hwhole
  · rcases mem_listCandidates.mp h with ⟨hitems, hl⟩ | ⟨found, hedits, -, hb, -⟩
    · rw [hitems]
      have hk : olds.length ≤ KeyPath.keyLimit := Nat.le_of_lt (Nat.lt_trans ho (by decide))
      exact leads_items hl hk hf hi
    · rw [hedits]
      exact leads_edits hb ho hn hf hi

end Update

/-! ## Comparison -/

namespace Slot

theorem eq_of_compare_none {options : UpdateOptions} {old new : Slot}
    (h : compare options old new = none) : old = new := by
  unfold compare at h
  split at h
  · assumption
  · split at h
    · cases h
    · split at h <;> cases h
    · split at h <;> cases h
    · cases h

theorem compareSlots_self (options : UpdateOptions) (key : Nat) (slots : List Slot) :
    compareSlots options key slots slots = [] := by
  induction slots generalizing key with
  | nil => rfl
  | cons slot rest ih =>
    have hsame : compare options slot slot = none := by
      unfold compare
      exact if_pos rfl
    rw [compareSlots, hsame, ih]
    rfl

mutual

/-- The update between two nodes leads from the first one to the second. -/
theorem compare_leads {options : UpdateOptions} {update : Update} (path : KeyPath)
    (old new : Slot) (h : compare options old new = some update) (hp : path ≠ [])
    (ho : old.sound = true) (hn : new.sound = true)
    (ao : old.addressable = true) (an : new.addressable = true) :
    update.Leads path old new := by
  have hreplace := Update.leads_replace hp hn old
  unfold compare at h
  split at h
  · cases h
  · cases old with
    | empty =>
      cases h
      exact hreplace
    | text content =>
      cases new with
      | text content' =>
        cases h
        exact Update.leads_text _ content'
      | _ =>
        cases h
        exact hreplace
    | tree statics slots =>
      cases new with
      | tree statics' slots' =>
        dsimp only at h
        split at h
        · rename_i hs
          cases h
          subst hs
          obtain ⟨fo, so⟩ := sound_tree.mp ho
          obtain ⟨fn, sn⟩ := sound_tree.mp hn
          obtain ⟨lo, ht, ao⟩ := addressable_tree.mp ao
          obtain ⟨-, -, an⟩ := addressable_tree.mp an
          have hlen := length_eq_of_slotsFit fo fn
          have hk : slots.length ≤ KeyPath.keyLimit := Nat.le_of_lt (Nat.lt_trans lo (by decide))
          have hslots := compareSlots_leads options path 0 slots slots' hlen
            (by rwa [Nat.zero_add]) so sn ao an
          exact Update.leads_ofTree hslots fo fn hk (Nat.le_of_lt ht) options
        · cases h
          exact hreplace
      | _ =>
        cases h
        exact hreplace
    | list statics items =>
      cases new with
      | list statics' items' =>
        dsimp only at h
        split at h
        · rename_i hs
          cases h
          subst hs
          exact Update.leads_ofList hp (addressable_list.mp ao) (addressable_list.mp an) hn options
        · cases h
          exact hreplace
      | _ =>
        cases h
        exact hreplace
termination_by structural old

theorem compareSlots_leads (options : UpdateOptions) (path : KeyPath) (key : Nat)
    (olds news : List Slot) (hl : olds.length = news.length)
    (hk : key + olds.length ≤ KeyPath.keyLimit) (ho : soundSlots olds = true)
    (hn : soundSlots news = true) (ao : addressableSlots olds = true)
    (an : addressableSlots news = true) :
    Update.LeadsSlots (compareSlots options key olds news) path key olds news := by
  cases olds with
  | nil =>
    rw [List.eq_nil_of_length_eq_zero hl.symm]
    exact Update.leadsSlots_nil key
  | cons old olds =>
    cases news with
    | nil => cases hl
    | cons new news =>
      obtain ⟨so, ho⟩ := soundSlots_cons.mp ho
      obtain ⟨sn, hn⟩ := soundSlots_cons.mp hn
      obtain ⟨fo, ao⟩ := addressableSlots_cons.mp ao
      obtain ⟨fn, an⟩ := addressableSlots_cons.mp an
      rw [List.length_cons] at hk
      have hrest := compareSlots_leads options path (key + 1) olds news
        (Nat.succ.inj hl) (by omega) ho hn ao an
      rw [compareSlots]
      cases hc : compare options old new with
      | none =>
        rw [eq_of_compare_none hc]
        exact Update.leadsSlots_keep hrest new
      | some update =>
        have hp : path.child key ≠ [] := List.append_ne_nil_of_right_ne_nil _ (List.cons_ne_nil _ _)
        exact Update.leadsSlots_change (by omega) (compare_leads _ old new hc hp so sn fo fn) hrest
termination_by structural olds

end

end Slot

/-! ## Renders -/

theorem Update.leads_fragments {update : Update} {key : Nat} {old new : Slot}
    (h : update.Leads [key] old new) : Slot.Lead [key] (update.fragments key) old new := by
  obtain ⟨middle, hnested, hlead⟩ := h
  rw [Update.fragments]
  cases hi : update.inline [key] with
  | mk nested others =>
    rw [hi] at hnested hlead
    cases nested with
    | none =>
      rw [show old = middle from hnested]
      exact hlead
    | some json =>
      have hkeyed : Slot.applyPayload (.of (KeyPath.text [key]) .keyed json) old = (middle, none) :=
        hnested _
      exact (Slot.Lead.single hkeyed).append hlead

/-- The fragments for top-level slots, the first of which has the given slots before it. -/
theorem Slot.compareSlots_lead (options : UpdateOptions) (statics : List String)
    (before : List Slot) {olds news : List Slot} (hl : olds.length = news.length)
    (hk : before.length + olds.length ≤ KeyPath.keyLimit) (ho : soundSlots olds = true)
    (hn : soundSlots news = true) (ao : addressableSlots olds = true)
    (an : addressableSlots news = true) :
    Lead [] (RootUpdate.slots (compareSlots options before.length olds news)).fragments
      (.tree statics (before ++ olds)) (.tree statics (before ++ news)) := by
  induction olds generalizing before news with
  | nil =>
    rw [List.eq_nil_of_length_eq_zero hl.symm]
    exact .nil _
  | cons old olds ih =>
    cases news with
    | nil => cases hl
    | cons new news =>
      obtain ⟨so, ho⟩ := soundSlots_cons.mp ho
      obtain ⟨sn, hn⟩ := soundSlots_cons.mp hn
      obtain ⟨fo, ao⟩ := addressableSlots_cons.mp ao
      obtain ⟨fn, an⟩ := addressableSlots_cons.mp an
      rw [List.length_cons] at hk
      have hb : (before ++ [new]).length = before.length + 1 := List.length_append
      have hrest := ih (before ++ [new]) (Nat.succ.inj hl) (by omega) ho hn ao an
      rw [List.append_assoc, List.append_assoc, hb] at hrest
      rw [compareSlots]
      cases hc : compare options old new with
      | none =>
        rw [eq_of_compare_none hc]
        exact hrest
      | some update =>
        have hu := compare_leads [before.length] old new hc (List.cons_ne_nil _ _) so sn fo fn
        have hown : Lead (KeyPath.child [] before.length) (update.fragments before.length)
            old new := Update.leads_fragments hu
        exact (hown.inSlot statics olds (by omega)).append hrest

namespace RenderTree

variable {prev next : RenderTree}

/-- The fragments between two renders lead from the first one to the second. -/
theorem fragments_lead (options : UpdateOptions) (hp : prev.sound = true) (hn : next.sound = true)
    (ap : prev.addressable = true) (an : next.addressable = true) :
    Slot.Lead [] (prev.fragments options next) prev.toSlot next.toSlot := by
  obtain ⟨fp, sp⟩ := Slot.sound_tree.mp hp
  obtain ⟨fn, sn⟩ := Slot.sound_tree.mp hn
  obtain ⟨lp, -, ap⟩ := Slot.addressable_tree.mp ap
  obtain ⟨-, -, an⟩ := Slot.addressable_tree.mp an
  rw [fragments, compare]
  split
  · -- A new root is sent as a whole and stays a tree.
    have hread : Slot.ofJson next.toJson = .ok next.toSlot := Slot.ofJson_toJson hn
    have hroot : Slot.applyPayload (.of (KeyPath.text []) .replacement next.toJson) prev.toSlot =
        (next.toSlot, none) := by
      simp only [Slot.applyPayload, Fragment.of, Slot.applyReplacement, hread]
      rfl
    exact .single hroot
  · rename_i hs
    simp only [wellFormed, fp, fn, Bool.not_true, Bool.false_or, bne_iff_ne, ne_eq,
      Decidable.not_not] at hs
    have hl : prev.slots.length = next.slots.length :=
      Nat.succ.inj ((Slot.slotsFit_iff.mp fp).symm.trans (hs ▸ Slot.slotsFit_iff.mp fn))
    have hk : prev.slots.length ≤ KeyPath.keyLimit := Nat.le_of_lt (Nat.lt_trans lp (by decide))
    have := Slot.compareSlots_lead options prev.statics [] hl
      (by rwa [List.length_nil, Nat.zero_add]) sp sn ap an
    rw [toSlot, toSlot, ← hs]
    exact this

theorem applyAll_fragments (options : UpdateOptions) (hp : prev.sound = true)
    (hn : next.sound = true) (ap : prev.addressable = true) (an : next.addressable = true) :
    Client.applyAll ⟨prev.toSlot⟩ (prev.fragments options next) = (⟨next.toSlot⟩, none) :=
  (fragments_lead options hp hn ap an).applyAll

/-- Nothing is sent for a render that stays the same. -/
theorem fragments_self (options : UpdateOptions) {tree : RenderTree} (h : tree.sound = true) :
    tree.fragments options tree = [] := by
  have hfit : tree.wellFormed = true := (Slot.sound_tree.mp h).1
  simp only [fragments, compare, hfit, Bool.not_true, Bool.or_self, bne_self_eq_false,
    Bool.false_eq_true, if_false, Slot.compareSlots_self]
  rfl

/-- A client that was given a render applies the fragments to another one without an error and then
holds what a client holds that was given the other one. -/
theorem fragments_roundTrip (options : UpdateOptions) (hp : prev.sound = true)
    (hn : next.sound = true) (ap : prev.addressable = true) (an : next.addressable = true) :
    ∃ before after : Client, Client.ofJson prev.toJson = .ok before ∧
      before.applyAll (prev.fragments options next) = (after, none) ∧
        Client.ofJson next.toJson = .ok after :=
  ⟨⟨prev.toSlot⟩, ⟨next.toSlot⟩, Client.ofJson_toJson hp, applyAll_fragments options hp hn ap an,
    Client.ofJson_toJson hn⟩

/-- A greeting changes, a list loses its first item and an empty slot gets a tree. -/
theorem fragments_roundTrip_page :
    let prev : RenderTree := ⟨["<p>", "</p><ul>", "</ul>", ""],
      [.text "hi", .list ["<li>", "</li>"] [[.text "a"], [.text "b"]], .empty]⟩
    let next : RenderTree := ⟨["<p>", "</p><ul>", "</ul>", ""],
      [.text "bye", .list ["<li>", "</li>"] [[.text "b"]], .tree ["", "!"] [.text "c"]]⟩
    ∃ before after : Client, Client.ofJson prev.toJson = .ok before ∧
      before.applyAll (prev.fragments {} next) = (after, none) ∧
        Client.ofJson next.toJson = .ok after :=
  fragments_roundTrip {} (by decide) (by decide) (by decide) (by decide)

end RenderTree

end LiveTemplate
