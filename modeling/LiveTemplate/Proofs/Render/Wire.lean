import LiveTemplate.Proofs.Json.Fields
import LiveTemplate.Proofs.Key.Text
import LiveTemplate.Proofs.Render.Shape

/-!
# Reading what was written

A node in which texts and slots fit together is read back by reading back what it holds
(`Slot.ofJson_toJson_tree`, `Slot.ofJson_toJson_list`). So a sound slot is read back from its wire
form (`Slot.ofJson_toJson`), and so are the items of a list (`Slot.itemOfJson_itemToJson`).

The fields of an object come back in the order of their keys as texts, in which slot 10 stands
before slot 2; the reader looks each key up and does not depend on it. So the wire form of a render
determines it (`RenderTree.wire_faithful`).
-/

namespace LiveTemplate

namespace Slot

/-! ## The fields of slots -/

theorem mem_names_slotFields {start : Nat} {slots : List Slot} {name : String}
    (h : name ∈ Json.names (slotFields start slots)) :
    ∃ key, start ≤ key ∧ name = toString key := by
  induction slots generalizing start with
  | nil => cases h
  | cons slot rest ih =>
    rw [slotFields, Json.names_cons, List.mem_cons] at h
    rcases h with rfl | h
    · exact ⟨start, Nat.le_refl _, rfl⟩
    · obtain ⟨key, hk, rfl⟩ := ih h
      exact ⟨key, by omega, rfl⟩

theorem nodup_names_slotFields (start : Nat) (slots : List Slot) :
    (Json.names (slotFields start slots)).Nodup := by
  induction slots generalizing start with
  | nil => exact List.nodup_nil
  | cons slot rest ih =>
    rw [slotFields, Json.names_cons, List.nodup_cons]
    refine ⟨fun h => ?_, ih _⟩
    obtain ⟨key, hk, he⟩ := mem_names_slotFields h
    have := KeyPath.toString_inj.mp he
    omega

theorem lookup_slotFields (start : Nat) (slots : List Slot) {i : Nat} (hi : i < slots.length) :
    (slotFields start slots).lookup (toString (start + i)) = some slots[i].toJson := by
  induction slots generalizing start i with
  | nil => cases hi
  | cons slot rest ih =>
    rw [slotFields, Json.lookup_cons]
    cases i with
    | zero =>
      rw [if_pos (congrArg toString (Nat.add_zero start))]
      rfl
    | succ i =>
      rw [if_neg (fun h => by have := KeyPath.toString_inj.mp h; omega)]
      have := ih (start + 1) (i := i) (by simpa using hi)
      rwa [Nat.add_right_comm] at this

theorem staticsKey_not_mem_slotFields (start : Nat) (slots : List Slot) :
    Wire.staticsKey ∉ Json.names (slotFields start slots) := by
  intro h
  obtain ⟨key, -, he⟩ := mem_names_slotFields h
  exact KeyPath.toString_ne_staticsKey key he.symm

theorem itemsKey_not_mem_slotFields (start : Nat) (slots : List Slot) :
    Wire.itemsKey ∉ Json.names (slotFields start slots) := by
  intro h
  obtain ⟨key, -, he⟩ := mem_names_slotFields h
  exact KeyPath.toString_ne_itemsKey key he.symm

/-! ## Readers as look-ups -/

theorem slotOfFields?_eq (name : String) (fields : List (String × Json)) :
    slotOfFields? name fields = (fields.lookup name).map ofJson := by
  induction fields with
  | nil => rfl
  | cons field rest ih =>
    obtain ⟨key, value⟩ := field
    rw [slotOfFields?, Json.lookup_cons, ih]
    by_cases h : name = key
    · rw [if_pos h, if_pos h.symm]
      rfl
    · rw [if_neg h, if_neg (Ne.symm h)]

theorem itemsOfFields?_eq_none (width : Nat) {fields : List (String × Json)}
    (h : fields.lookup Wire.itemsKey = none) : itemsOfFields? width fields = none := by
  induction fields with
  | nil => rfl
  | cons field rest ih =>
    obtain ⟨key, value⟩ := field
    rw [Json.lookup_cons] at h
    by_cases hk : Wire.itemsKey = key
    · rw [if_pos hk] at h
      cases h
    · rw [if_neg hk] at h
      unfold itemsOfFields?
      rw [if_neg (Ne.symm hk)]
      exact ih h

theorem itemsOfFields?_eq_some (width : Nat) {fields : List (String × Json)} {items : List Json}
    (h : fields.lookup Wire.itemsKey = some (.array items)) :
    itemsOfFields? width fields = some (itemsOfJson width items) := by
  induction fields with
  | nil => cases h
  | cons field rest ih =>
    obtain ⟨key, value⟩ := field
    rw [Json.lookup_cons] at h
    by_cases hk : Wire.itemsKey = key
    · rw [if_pos hk] at h
      cases h
      rw [itemsOfFields?, if_pos hk.symm]
    · rw [if_neg hk] at h
      unfold itemsOfFields?
      rw [if_neg (Ne.symm hk)]
      exact ih h

theorem readTexts_texts (texts : List String) :
    Wire.readTexts (texts.map .text) = .ok texts := by
  induction texts with
  | nil => rfl
  | cons text rest ih =>
    rw [List.map_cons, Wire.readTexts, ih]
    rfl

theorem readStatics_eq {fields : List (String × Json)} {statics : List String}
    (h : fields.lookup Wire.staticsKey = some (Wire.statics statics)) (hne : statics ≠ []) :
    Wire.readStatics fields = .ok statics := by
  rw [Wire.readStatics, h, Wire.statics]
  simp only [readTexts_texts]
  simp [bind, Except.bind, hne]

/-- A reader that finds something for each of some slots under its key does so for all in turn. -/
theorem mapM_range'_eq {ε α β : Type} {read : Nat → Except ε β} {find : α → Except ε β}
    (slots : List α) (start : Nat)
    (h : ∀ i, (hi : i < slots.length) → read (start + i) = find slots[i]) :
    (List.range' start slots.length).mapM read = slots.mapM find := by
  induction slots generalizing start with
  | nil => rfl
  | cons slot rest ih =>
    have h0 := h 0 (by simp)
    have hrest := ih (start + 1) fun i hi => by
      have := h (i + 1) (by simpa using hi)
      rwa [show start + (i + 1) = start + 1 + i by omega] at this
    simp only [Nat.add_zero, List.getElem_cons_zero] at h0
    rw [List.length_cons, List.range'_succ, List.mapM_cons, List.mapM_cons, h0, hrest]

/-! ## Reading level by level -/

/-- The slots of an item are read back one by one. -/
theorem itemOfJson_itemToJson_eq {width : Nat} {item : List Slot} (hw : item.length = width) :
    itemOfJson width (itemToJson item) = item.mapM fun slot => ofJson slot.toJson := by
  rw [itemToJson, Json.ofFields, itemOfJson, ← hw, List.range_eq_range']
  refine mapM_range'_eq item 0 fun i hi => ?_
  rw [slotOfFields?_eq, Json.lookup_sortFields (nodup_names_slotFields 0 item),
    lookup_slotFields 0 item hi]
  rfl

theorem itemsOfJson_itemsToJson_eq {width : Nat} {items : List (List Slot)}
    (hw : ∀ item ∈ items, item.length = width) :
    itemsOfJson width (itemsToJson items) =
      items.mapM fun item => item.mapM fun slot => ofJson slot.toJson := by
  induction items with
  | nil => rfl
  | cons item rest ih =>
    obtain ⟨hitem, hrest⟩ := List.forall_mem_cons.mp hw
    have hread := itemOfJson_itemToJson_eq hitem
    rw [itemToJson] at hread
    rw [itemsToJson, itemsOfJson, hread, ih hrest, List.mapM_cons]
    rfl

/-- The slots of a tree in which texts and slots fit together are read back one by one. -/
theorem ofJson_toJson_tree {statics : List String} {slots : List Slot}
    (hfit : slotsFit statics slots = true) :
    ofJson (tree statics slots).toJson =
      tree statics <$> slots.mapM fun slot => ofJson slot.toJson := by
  have hlen := slotsFit_iff.mp hfit
  have hn : (Json.names ((Wire.staticsKey, Wire.statics statics) :: slotFields 0 slots)).Nodup :=
    List.nodup_cons.mpr ⟨staticsKey_not_mem_slotFields 0 slots, nodup_names_slotFields 0 slots⟩
  have hstatics : (Json.sortFields ((Wire.staticsKey, Wire.statics statics) ::
      slotFields 0 slots)).lookup Wire.staticsKey = some (Wire.statics statics) := by
    rw [Json.lookup_sortFields hn, Json.lookup_cons, if_pos rfl]
  have hitems : (Json.sortFields ((Wire.staticsKey, Wire.statics statics) ::
      slotFields 0 slots)).lookup Wire.itemsKey = none := by
    rw [Json.lookup_sortFields hn, Json.lookup_cons, if_neg (by decide),
      Json.lookup_eq_none (itemsKey_not_mem_slotFields 0 slots)]
  have hs := readStatics_eq hstatics fun h0 => by rw [h0] at hlen; cases hlen
  have hi := itemsOfFields?_eq_none (statics.length - 1) hitems
  rw [toJson, Json.ofFields, ofJson]
  simp only [hs, bind, Except.bind, hi]
  rw [show statics.length - 1 = slots.length by omega, List.range_eq_range',
    mapM_range'_eq slots 0 fun i hi => ?_]
  rw [slotOfFields?_eq, Json.lookup_sortFields hn, Json.lookup_cons,
    if_neg (KeyPath.toString_ne_staticsKey _), lookup_slotFields 0 slots hi]
  rfl

/-- The items of a list in which texts and slots fit together are read back one by one. -/
theorem ofJson_toJson_list {statics : List String} {items : List (List Slot)}
    (hfit : itemsFit statics items = true) :
    ofJson (list statics items).toJson =
      list statics <$> items.mapM fun item => item.mapM fun slot => ofJson slot.toJson := by
  obtain ⟨hne, hwidth⟩ := itemsFit_iff.mp hfit
  have hn : (Json.names [(Wire.staticsKey, Wire.statics statics),
      (Wire.itemsKey, .array (itemsToJson items))]).Nodup := by
    simp [Wire.staticsKey, Wire.itemsKey]
  have hstatics : (Json.sortFields [(Wire.staticsKey, Wire.statics statics),
      (Wire.itemsKey, .array (itemsToJson items))]).lookup Wire.staticsKey =
        some (Wire.statics statics) := by
    rw [Json.lookup_sortFields hn, Json.lookup_cons, if_pos rfl]
  have hlist : (Json.sortFields [(Wire.staticsKey, Wire.statics statics),
      (Wire.itemsKey, .array (itemsToJson items))]).lookup Wire.itemsKey =
        some (.array (itemsToJson items)) := by
    rw [Json.lookup_sortFields hn, Json.lookup_cons, if_neg (by decide), Json.lookup_cons,
      if_pos rfl]
  have hs := readStatics_eq hstatics hne
  have hi := itemsOfFields?_eq_some (statics.length - 1) hlist
  rw [toJson, Json.ofFields, ofJson]
  simp only [hs, bind, Except.bind, hi]
  rw [itemsOfJson_itemsToJson_eq hwidth]

/-! ## Slots -/

mutual

theorem ofJson_toJson {slot : Slot} (h : slot.sound = true) : ofJson slot.toJson = .ok slot := by
  cases slot with
  | empty => rfl
  | text content => rfl
  | tree statics slots =>
    obtain ⟨hfit, hslots⟩ := sound_tree.mp h
    rw [ofJson_toJson_tree hfit, slots_ofJson_toJson hslots]
    rfl
  | list statics items =>
    obtain ⟨hfit, hitems⟩ := sound_list.mp h
    rw [ofJson_toJson_list hfit, items_ofJson_toJson hitems]
    rfl
termination_by structural slot

theorem slots_ofJson_toJson {slots : List Slot} (h : soundSlots slots = true) :
    (slots.mapM fun slot => ofJson slot.toJson) = .ok slots := by
  cases slots with
  | nil => rfl
  | cons first rest =>
    obtain ⟨hfirst, hrest⟩ := soundSlots_cons.mp h
    rw [List.mapM_cons, ofJson_toJson hfirst, slots_ofJson_toJson hrest]
    rfl
termination_by structural slots

theorem items_ofJson_toJson {items : List (List Slot)} (h : soundItems items = true) :
    (items.mapM fun item => item.mapM fun slot => ofJson slot.toJson) = .ok items := by
  cases items with
  | nil => rfl
  | cons item rest =>
    obtain ⟨hitem, hrest⟩ := soundItems_cons.mp h
    rw [List.mapM_cons, slots_ofJson_toJson hitem, items_ofJson_toJson hrest]
    rfl
termination_by structural items

end

theorem itemOfJson_itemToJson {width : Nat} {item : List Slot} (h : soundSlots item = true)
    (hw : item.length = width) : itemOfJson width (itemToJson item) = .ok item := by
  rw [itemOfJson_itemToJson_eq hw, slots_ofJson_toJson h]

/-- Sound slots with one wire form are the same slot, since both are read back from it. -/
theorem toJson_inj {slot other : Slot} (h : sound slot = true) (ho : sound other = true)
    (he : slot.toJson = other.toJson) : slot = other := by
  have hread := ofJson_toJson h
  rw [he, ofJson_toJson ho] at hread
  exact (Except.ok.inj hread).symm

end Slot

/-! ## Clients -/

/-- A client reads a sound render and holds it. -/
theorem Client.ofJson_toJson {tree : RenderTree} (h : tree.sound = true) :
    Client.ofJson tree.toJson = .ok ⟨tree.toSlot⟩ := by
  rw [Client.ofJson, RenderTree.toJson, Slot.ofJson_toJson h]
  rfl

/-- A client reads a sound render from its wire form, holds the same tree and shows the same text,
and no other sound render has this wire form. -/
theorem RenderTree.wire_faithful {tree : RenderTree} (h : tree.sound = true) :
    ∃ client, Client.ofJson tree.toJson = .ok client ∧ client.root = tree.toSlot ∧
      client.text = tree.text ∧
      ∀ other : RenderTree, other.sound = true → other.toJson = tree.toJson → other = tree :=
  ⟨⟨tree.toSlot⟩, Client.ofJson_toJson h, rfl, rfl,
    fun _ ho he => toSlot_inj (Slot.toJson_inj ho h he)⟩

/-- Slot 10 stands before slot 2 on the wire, and nothing, an empty text, a tree without slots and a
list without items are four different contents. -/
theorem RenderTree.wire_faithful_page :
    let tree : RenderTree := ⟨["a", "b", "c", "d", "e", "f", "g", "h", "i", "j", "k", "l"],
      [.empty, .text "", .tree [""] [], .list ["", ""] [], .text "4", .text "5", .text "6",
        .text "7", .text "8", .tree ["", ""] [.empty],
        .list ["<", ">"] [[.list ["", ""] [[.text "x"]]], [.empty]]]⟩
    tree.sound = true ∧ ∃ client, Client.ofJson tree.toJson = .ok client ∧
      client.root = tree.toSlot ∧ client.text = tree.text ∧
      ∀ other : RenderTree, other.sound = true → other.toJson = tree.toJson → other = tree :=
  ⟨by decide, RenderTree.wire_faithful (by decide)⟩

end LiveTemplate

