import LiveTemplate.Proofs.Update.Chosen

/-!
# What fragments touch

A `Place` is a node of a render, an item of a list or a text slot counted from a node. A fragment
touches the places that its payload has new contents for (`Fragment.Touches`), as a client reads it.

* `Slot.Chosen.onlyChanges`: what is sent for a chosen update touches places that differ.
* `RenderTree.fragments_minimal`: nothing is sent between two renders if and only if they are equal,
  and every fragment touches some place and only places that differ.
-/

namespace LiveTemplate

/-! ## Places -/

/-- A place in a render: a node, an item of the list at a path, or a text slot with its number among
those of the node at a path. -/
inductive Place where
  | node (path : KeyPath)
  | item (path : KeyPath) (index : Nat)
  | text (path : KeyPath) (number : Nat)

/-- Two contents exist and are not the same. -/
def Differ {α : Type} (old new : Option α) : Prop :=
  ∃ a b, old = some a ∧ new = some b ∧ a ≠ b

namespace Slot

/-- An item of the list at a path. -/
def itemAt? (path : KeyPath) (index : Nat) (slot : Slot) : Option (List Slot) :=
  (nodeAt? path slot).bind fun
    | .list _ items => items[index]?
    | _ => none

/-- A text of the node at a path. -/
def textAt? (path : KeyPath) (number : Nat) (slot : Slot) : Option String :=
  (nodeAt? path slot).bind fun node => node.texts[number]?

end Slot

/-- A place exists in two nodes and has different contents in them. -/
def Place.Differs (old new : Slot) : Place → Prop
  | .node path => Differ (Slot.nodeAt? path old) (Slot.nodeAt? path new)
  | .item path index => Differ (Slot.itemAt? path index old) (Slot.itemAt? path index new)
  | .text path number => Differ (Slot.textAt? path number old) (Slot.textAt? path number new)

/-- The payload of a keyed update for the node at a path has a new content for a place. An object
with texts is the content of the node, one with items has new items by index, any other has new
contents of slots by key. -/
inductive Json.KeyedTouches : KeyPath → Json → Place → Prop
  | empty {path : KeyPath} : KeyedTouches path .null (.node path)
  | text {path : KeyPath} {content : String} : KeyedTouches path (.text content) (.node path)
  | content {path : KeyPath} {fields : List (String × Json)}
      (texts : Wire.staticsKey ∈ names fields) : KeyedTouches path (.object fields) (.node path)
  | item {path : KeyPath} {fields items : List (String × Json)} {index : Nat} {item : Json}
      (noTexts : Wire.staticsKey ∉ names fields) (changed : (Wire.itemsKey, .object items) ∈ fields)
      (mem : (toString index, item) ∈ items) : KeyedTouches path (.object fields) (.item path index)
  | slot {path : KeyPath} {fields : List (String × Json)} {key : Nat} {json : Json} {place : Place}
      (noTexts : Wire.staticsKey ∉ names fields) (noItems : Wire.itemsKey ∉ names fields)
      (mem : (toString key, json) ∈ fields) (inner : KeyedTouches (path.child key) json place) :
      KeyedTouches path (.object fields) place

/-- A fragment has a new content for a place. -/
inductive Fragment.Touches (fragment : Fragment) : Place → Prop
  | keyed {path : KeyPath} {place : Place} (address : fragment.id = path.text)
      (kind : fragment.strategy = .keyed) (inner : fragment.payload.KeyedTouches path place) :
      Touches fragment place
  | marker {path : KeyPath} {markers : List Marker} {marker : Marker}
      (address : fragment.id = path.text) (kind : fragment.strategy = .markers)
      (written : fragment.payload = Update.markersPayload markers) (mem : marker ∈ markers) :
      Touches fragment (.text path marker.position)
  | edits {path : KeyPath} (address : fragment.id = path.text) (kind : fragment.strategy = .edits) :
      Touches fragment (.node path)
  | replacement {path : KeyPath} (address : fragment.id = path.text)
      (kind : fragment.strategy = .replacement) : Touches fragment (.node path)

/-- What touches some places touches one at least, and only places that differ. -/
def OnlyChanges (old new : Slot) (touches : Place → Prop) : Prop :=
  (∃ place, touches place) ∧ ∀ place, touches place → place.Differs old new

/-! ## Lists that differ -/

theorem exists_getElem?_ne {α : Type} {olds news : List α} (hl : olds.length = news.length)
    (hne : olds ≠ news) : ∃ (i : Nat) (a b : α), olds[i]? = some a ∧ news[i]? = some b ∧ a ≠ b := by
  by_contra hnone
  refine hne (List.ext_getElem hl fun i ho hn => ?_)
  by_contra hi
  exact hnone ⟨i, _, _, List.getElem?_eq_getElem ho, List.getElem?_eq_getElem hn, hi⟩

/-! ## Markers -/

namespace Slot

/-- Every marker has the number of a text that differs, counted from a position. -/
def MarksChanges (position : Nat) (olds news : List String) (markers : List Marker) : Prop :=
  ∀ marker ∈ markers, ∃ i, marker.position = position + i ∧ Differ olds[i]? news[i]?

theorem MarksChanges.nil {position : Nat} {olds news : List String} :
    MarksChanges position olds news [] :=
  fun _ hm => nomatch hm

theorem MarksChanges.append {position middle : Nat} {olds news olds' news' : List String}
    {markers markers' : List Marker} (hm : middle = position + olds.length)
    (hl : news.length = olds.length) (h : MarksChanges position olds news markers)
    (h' : MarksChanges middle olds' news' markers') :
    MarksChanges position (olds ++ olds') (news ++ news') (markers ++ markers') := by
  intro marker hmem
  rcases List.mem_append.mp hmem with hmem | hmem
  · obtain ⟨i, hi, a, b, ha, hb, hne⟩ := h marker hmem
    refine ⟨i, hi, a, b, ?_, ?_, hne⟩
    · rw [List.getElem?_append_left (List.getElem?_eq_some_iff.mp ha).1, ha]
    · rw [List.getElem?_append_left (List.getElem?_eq_some_iff.mp hb).1, hb]
  · obtain ⟨i, hi, a, b, ha, hb, hne⟩ := h' marker hmem
    refine ⟨olds.length + i, by omega, a, b, ?_, ?_, hne⟩
    · rw [List.getElem?_append_right (Nat.le_add_right _ _), Nat.add_sub_cancel_left, ha]
    · rw [← hl, List.getElem?_append_right (Nat.le_add_right _ _), Nat.add_sub_cancel_left, hb]

mutual

/-- Markers between two nodes have the numbers of texts that differ, and there are some if the nodes
differ. -/
theorem marksChanges_of_textMarkers? {position next : Nat} {markers : List Marker}
    (old new : Slot) (h : textMarkers? position old new = some (next, markers)) :
    MarksChanges position old.texts new.texts markers ∧ (old ≠ new → markers ≠ []) := by
  cases old <;> cases new <;> rw [textMarkers?] at h <;> try cases h
  case empty.empty.refl => exact ⟨.nil, fun hne => absurd rfl hne⟩
  case text.text.refl old new =>
    by_cases he : old = new
    · rw [if_pos he]
      exact ⟨.nil, fun hne => absurd (congrArg Slot.text he) hne⟩
    · rw [if_neg he]
      refine ⟨fun marker hm => ?_, fun _ => List.cons_ne_nil _ _⟩
      rw [List.mem_singleton.mp hm]
      exact ⟨0, rfl, old, new, rfl, rfl, he⟩
  case tree.tree =>
    split at h
    · rename_i hs
      obtain ⟨hmarks, hne⟩ := marksChanges_of_slotMarkers? _ _ h
      exact ⟨hmarks, fun hn => hne fun he => hn (by rw [hs, he])⟩
    · cases h
termination_by structural old

theorem marksChanges_of_slotMarkers? {position next : Nat} {markers : List Marker}
    (olds news : List Slot) (h : slotMarkers? position olds news = some (next, markers)) :
    MarksChanges position (textsOfSlots olds) (textsOfSlots news) markers ∧
      (olds ≠ news → markers ≠ []) := by
  cases olds with
  | nil =>
    cases news with
    | nil =>
      cases h
      exact ⟨.nil, fun hne => absurd rfl hne⟩
    | cons new news => cases h
  | cons old olds =>
    cases news with
    | nil => cases h
    | cons new news =>
      simp only [slotMarkers?, bind, Option.bind_eq_some_iff] at h
      obtain ⟨⟨middle, first⟩, hfirst, ⟨last, others⟩, hothers, he⟩ := h
      cases he
      have htexts := textMarkers?_retexted old new hfirst
      obtain ⟨hmarks, hne⟩ := marksChanges_of_textMarkers? old new hfirst
      obtain ⟨hrest, hnes⟩ := marksChanges_of_slotMarkers? olds news hothers
      refine ⟨hmarks.append htexts.next_eq htexts.length_eq hrest, fun hn hnil => ?_⟩
      obtain ⟨rfl, rfl⟩ := List.append_eq_nil_iff.mp hnil
      by_cases hs : old = new
      · exact hnes (fun he => hn (by rw [hs, he])) rfl
      · exact hne hs rfl
termination_by structural olds

end

end Slot

theorem Update.markersPayload_inj {markers others : List Marker}
    (h : markersPayload markers = markersPayload others) : markers = others := by
  refine List.map_injective_iff.mpr (fun first second he => ?_) (Json.array.inj h)
  obtain ⟨position, text⟩ := first
  obtain ⟨position', text'⟩ := second
  simpa [Marker.toJson, Int.natCast_inj] using he

/-! ## Updates -/

namespace Slot

variable {options : UpdateOptions} {prev next old new : Slot} {update : Update} {path : KeyPath}

/-- A fragment with list edits or a new content for a node that differs. -/
theorem onlyChanges_node {strategy : Strategy} {payload : Json} {fragment : Fragment}
    (hs : strategy = .edits ∨ strategy = .replacement)
    (hf : fragment ∈ [Fragment.of path.text strategy payload])
    (h : Place.Differs prev next (.node path)) : OnlyChanges prev next fragment.Touches := by
  rw [List.mem_singleton.mp hf]
  constructor
  · refine ⟨.node path, ?_⟩
    rcases hs with rfl | rfl
    · exact .edits rfl rfl
    · exact .replacement rfl rfl
  · intro place ht
    cases ht with
    | keyed _ kind | marker _ kind => rcases hs with rfl | rfl <;> cases kind
    | edits address | replacement address =>
      rw [KeyPath.text_inj.mp address] at h
      exact h

theorem onlyChanges_markers {statics : List String} {olds news : List Slot} {count : Nat}
    {found : List Marker} (hm : slotMarkers? 0 olds news = some (count, found))
    (hne : olds ≠ news) (ho : nodeAt? path prev = some (.tree statics olds))
    (hn : nodeAt? path next = some (.tree statics news)) :
    OnlyChanges prev next
      (Fragment.of path.text .markers (Update.markersPayload found)).Touches := by
  obtain ⟨hmarks, hnil⟩ := marksChanges_of_slotMarkers? olds news hm
  constructor
  · obtain ⟨marker, hmem⟩ := List.exists_mem_of_ne_nil found (hnil hne)
    exact ⟨_, .marker rfl rfl rfl hmem⟩
  · intro place ht
    cases ht with
    | keyed _ kind | edits _ kind | replacement _ kind => cases kind
    | @marker other markers marker address kind written mem =>
      obtain rfl := KeyPath.text_inj.mp address
      rw [← Update.markersPayload_inj written] at mem
      obtain ⟨i, hi, hdiffer⟩ := hmarks marker mem
      rw [Nat.zero_add] at hi
      rw [hi, Place.Differs, textAt?, textAt?, ho, hn]
      exact hdiffer

theorem onlyChanges_items {statics : List String} {olds news : List (List Slot)}
    (hl : olds.length = news.length) (hne : olds ≠ news)
    (ho : nodeAt? path prev = some (.list statics olds))
    (hn : nodeAt? path next = some (.list statics news)) :
    OnlyChanges prev next
      ((Update.itemsPayload (Update.changedItems 0 olds news)).KeyedTouches path) := by
  have hperm := Json.sortFields_perm (Update.nodup_names_itemFields 0 olds news)
  have htexts {json : Json} : Wire.staticsKey ∉ Json.names [(Wire.itemsKey, json)] := by
    rw [Json.names_cons, Json.names_nil, List.mem_singleton]
    decide
  constructor
  · obtain ⟨i, a, b, ha, hb, hdiffer⟩ := exists_getElem?_ne hl hne
    have hmem := Update.mem_changedItems.mpr ⟨i, a, (Nat.zero_add i).symm, ha, hb, hdiffer⟩
    exact ⟨_, .item htexts List.mem_cons_self
      (hperm.mem_iff.mpr (List.mem_map_of_mem hmem))⟩
  · intro place ht
    cases ht with
    | content texts => exact absurd texts htexts
    | @item _ _ items index json _ changed mem =>
      cases List.mem_singleton.mp changed
      obtain ⟨⟨found, item⟩, hm, he⟩ := List.mem_map.mp (hperm.mem_iff.mp mem)
      obtain ⟨i, other, hi, ha, hb, hdiffer⟩ := Update.mem_changedItems.mp hm
      have hindex : index = i := by
        rw [Nat.zero_add] at hi
        exact (KeyPath.toString_inj.mp (congrArg Prod.fst he)).symm.trans hi
      subst hindex
      rw [Place.Differs, itemAt?, itemAt?, ho, hn]
      exact ⟨other, item, ha, hb, hdiffer⟩
    | slot _ noItems => exact absurd List.mem_cons_self noItems

/-- The nested parts for several slots touch what each of them touches. -/
theorem onlyChanges_fields {olds news : List Slot}
    (hsome : (Update.inlineFields path (compareSlots options 0 olds news)).1 ≠ [])
    (h : ∀ key update json, (key, update) ∈ compareSlots options 0 olds news →
      (update.inline (path.child key)).1 = some json →
        OnlyChanges prev next (json.KeyedTouches (path.child key))) :
    OnlyChanges prev next ((Json.ofFields
      (Update.inlineFields path (compareSlots options 0 olds news)).1).KeyedTouches path) := by
  have hperm := Json.sortFields_perm (nodup_names_inlineFields options path 0 olds news)
  have hname {name : String} (hn : ∀ key : Nat, toString key ≠ name) : name ∉ Json.names
      (Json.sortFields (Update.inlineFields path (compareSlots options 0 olds news)).1) := by
    intro hm
    obtain ⟨⟨_, json⟩, hf, rfl⟩ := List.mem_map.mp hm
    obtain ⟨key, _, -, -, hkey⟩ := Update.mem_inlineFields_fst.mp (hperm.mem_iff.mp hf)
    exact hn key hkey.symm
  have htexts := hname KeyPath.toString_ne_staticsKey
  have hitems := hname KeyPath.toString_ne_itemsKey
  constructor
  · obtain ⟨⟨name, json⟩, hf⟩ := List.exists_mem_of_ne_nil _ hsome
    obtain ⟨key, update, hm, hn, rfl⟩ := Update.mem_inlineFields_fst.mp hf
    obtain ⟨place, ht⟩ := (h key update json hm hn).1
    exact ⟨place, .slot htexts hitems (hperm.mem_iff.mpr hf) ht⟩
  · intro place ht
    cases ht with
    | content texts => exact absurd texts htexts
    | item _ changed => exact absurd (List.mem_map_of_mem changed) hitems
    | @slot _ _ other json _ _ _ mem inner =>
      obtain ⟨key, update, hm, hn, hkey⟩ :=
        Update.mem_inlineFields_fst.mp (hperm.mem_iff.mp mem)
      obtain rfl := KeyPath.toString_inj.mp hkey
      exact (h other update json hm hn).2 place inner

/-- Two nodes at one path of two renders: whatever is sent for the update between them touches only
places in which the renders differ. -/
theorem Chosen.onlyChanges (h : Chosen options old new update)
    (ho : nodeAt? path prev = some old) (hn : nodeAt? path next = some new) :
    (∀ json, (update.inline path).1 = some json →
      OnlyChanges prev next (json.KeyedTouches path)) ∧
    ∀ fragment ∈ (update.inline path).2, OnlyChanges prev next fragment.Touches := by
  have hnode : Place.Differs prev next (.node path) := ⟨old, new, ho, hn, h.ne⟩
  induction h generalizing path with
  | text =>
    refine ⟨fun json hjson => ?_, fun _ hf => nomatch hf⟩
    cases hjson
    refine ⟨⟨_, .text⟩, fun place ht => ?_⟩
    cases ht
    exact hnode
  | replace =>
    exact ⟨fun _ hjson => (nomatch hjson), fun _ hf => onlyChanges_node (.inr rfl) hf hnode⟩
  | edits =>
    exact ⟨fun _ hjson => (nomatch hjson), fun _ hf => onlyChanges_node (.inl rfl) hf hnode⟩
  | items differ length =>
    refine ⟨fun json hjson => ?_, fun _ hf => nomatch hf⟩
    cases hjson
    exact onlyChanges_items length differ ho hn
  | markers instead marks =>
    refine ⟨fun _ hjson => (nomatch hjson), fun fragment hf => ?_⟩
    rw [List.mem_singleton.mp hf]
    exact onlyChanges_markers marks (fun he => instead.ne (he ▸ rfl)) ho hn
  | @keyed statics olds news _ _ _ inner ih =>
    have hslot (key : Nat) (update : Update)
        (hm : (key, update) ∈ compareSlots options 0 olds news) :
        (∀ json, (update.inline (path.child key)).1 = some json →
          OnlyChanges prev next (json.KeyedTouches (path.child key))) ∧
        ∀ fragment ∈ (update.inline (path.child key)).2,
          OnlyChanges prev next fragment.Touches := by
      obtain ⟨i, a, b, hk, ha, hb, hc⟩ := mem_compareSlots.mp hm
      rw [Nat.zero_add] at hk
      subst hk
      have hold : nodeAt? (path.child key) prev = some a := by
        rw [KeyPath.child, nodeAt?_append, ho, Option.bind_some, nodeAt?, ha]
        rfl
      have hnew : nodeAt? (path.child key) next = some b := by
        rw [KeyPath.child, nodeAt?_append, hn, Option.bind_some, nodeAt?, hb]
        rfl
      exact ih key a b update ha hb hc hold hnew
        ⟨a, b, hold, hnew, (inner key a b update ha hb hc).ne⟩
    constructor
    · intro json hjson
      obtain ⟨hsome, rfl⟩ := Update.inline_keyed_eq_some.mp hjson
      exact onlyChanges_fields hsome fun key update json hm => (hslot key update hm).1 json
    · intro fragment hf
      obtain ⟨key, update, hm, hf⟩ := Update.mem_inlineFields.mp hf
      exact (hslot key update hm).2 fragment hf

/-- Something is sent for every update. -/
theorem Chosen.inline_ne (h : Chosen options old new update) (path : KeyPath)
    (hn : (update.inline path).1 = none) : (update.inline path).2 ≠ [] := by
  induction h generalizing path with
  | text | items => cases hn
  | replace | markers | edits => exact List.cons_ne_nil _ _
  | @keyed statics olds news differ fo fn _ ih =>
    have hl := length_eq_of_slotsFit fo fn
    obtain ⟨key, a, b, ha, hb, hne⟩ := exists_getElem?_ne hl differ
    obtain ⟨update, hm, hc⟩ := exists_change options ha hb hne
    cases hi : (update.inline (path.child key)).1 with
    | none =>
      obtain ⟨fragment, hf⟩ :=
        List.exists_mem_of_ne_nil _ (ih key a b update ha hb hc (path.child key) hi)
      exact List.ne_nil_of_mem (Update.mem_inlineFields.mpr ⟨key, update, hm, hf⟩)
    | some json =>
      have hmem := Update.mem_inlineFields_fst.mpr ⟨key, update, hm, hi, rfl⟩
      exact absurd (Update.inline_keyed_eq_none.mp hn) (List.ne_nil_of_mem hmem)

end Slot

/-! ## Renders -/

namespace RenderTree

open Slot

variable {prev next : RenderTree}

/-- Nothing is sent between two renders if and only if they are the same. -/
theorem fragments_eq_nil_iff (options : UpdateOptions) (hp : prev.sound = true)
    (hn : next.sound = true) : prev.fragments options next = [] ↔ prev = next := by
  constructor
  · intro hnil
    by_contra hne
    have hs : prev.statics = next.statics := by
      by_contra hs
      rw [fragments_of_not_sameRoot fun h => hs h.2.2] at hnil
      cases hnil
    have hroot := sameRoot_of_sound hp hn hs
    have hl := hroot.length_eq
    have hslots : prev.slots ≠ next.slots := by
      intro he
      exact hne (toSlot_inj (by rw [toSlot, toSlot, hs, he]))
    obtain ⟨key, a, b, ha, hb, hdiffer⟩ := exists_getElem?_ne hl hslots
    obtain ⟨update, -, hc⟩ := exists_change options ha hb hdiffer
    have hsent : ∃ fragment, fragment ∈ update.fragments key := by
      cases hi : (update.inline [key]).1 with
      | none =>
        obtain ⟨fragment, hf⟩ :=
          List.exists_mem_of_ne_nil _ ((chosen a b hc).inline_ne [key] hi)
        exact ⟨fragment, Update.mem_fragments.mpr (.inr hf)⟩
      | some json => exact ⟨_, Update.mem_fragments.mpr (.inl ⟨json, hi, rfl⟩)⟩
    obtain ⟨fragment, hf⟩ := hsent
    have hmem : fragment ∈ prev.fragments options next :=
      (mem_fragments hroot).mpr ⟨key, a, b, update, ha, hb, hc, hf⟩
    rw [hnil] at hmem
    cases hmem
  · rintro rfl
    exact fragments_self options hp

/-- Every fragment between two renders touches only places in which they differ. -/
theorem onlyChanges_fragments (options : UpdateOptions) (hp : prev.sound = true)
    (hn : next.sound = true) {fragment : Fragment} (hf : fragment ∈ prev.fragments options next) :
    OnlyChanges prev.toSlot next.toSlot fragment.Touches := by
  by_cases hs : prev.statics = next.statics
  · obtain ⟨key, old, new, update, ho, hnew, hc, hf⟩ :=
      (mem_fragments (sameRoot_of_sound hp hn hs)).mp hf
    have hold : nodeAt? [key] prev.toSlot = some old := by
      rw [toSlot, nodeAt?, ho]
      rfl
    have hnext : nodeAt? [key] next.toSlot = some new := by
      rw [toSlot, nodeAt?, hnew]
      rfl
    obtain ⟨hnested, hothers⟩ := (chosen old new hc).onlyChanges hold hnext
    rcases Update.mem_fragments.mp hf with ⟨json, hjson, rfl⟩ | hf
    · obtain ⟨⟨place, ht⟩, hall⟩ := hnested json hjson
      refine ⟨⟨place, .keyed rfl rfl ht⟩, fun place ht => ?_⟩
      cases ht with
      | keyed address _ inner =>
        obtain rfl := KeyPath.text_inj.mp (show KeyPath.text [key] = _ from address)
        exact hall place inner
      | marker _ kind | edits _ kind | replacement _ kind => cases kind
    · exact hothers fragment hf
  · rw [fragments_of_not_sameRoot fun h => hs h.2.2] at hf
    have hne : prev.toSlot ≠ next.toSlot := fun he => hs (Slot.tree.inj he).1
    have hroot : Place.Differs prev.toSlot next.toSlot (.node []) := ⟨_, _, rfl, rfl, hne⟩
    have hwhole : fragment ∈ [Fragment.of (KeyPath.text []) .replacement next.toJson] := hf
    exact onlyChanges_node (.inr rfl) hwhole hroot

/-- Only what has changed is sent: nothing at all if and only if two renders are the same, and every
fragment touches some place, and only places that exist in both renders and have different contents
there. -/
theorem fragments_minimal (options : UpdateOptions) (hp : prev.sound = true)
    (hn : next.sound = true) :
    (prev.fragments options next = [] ↔ prev = next) ∧
      ∀ fragment ∈ prev.fragments options next,
        (∃ place, fragment.Touches place) ∧
          ∀ place, fragment.Touches place → place.Differs prev.toSlot next.toSlot :=
  ⟨fragments_eq_nil_iff options hp hn, fun _ => onlyChanges_fragments options hp hn⟩

/-- A greeting and the second item of a list change. The first item is not sent. -/
theorem fragments_minimal_list :
    let prev : RenderTree := ⟨["<p>", "</p><ul>", "</ul>"],
      [.text "hi", .list ["<li>", "</li>"] [[.text "a"], [.text "b"]]]⟩
    let next : RenderTree := ⟨["<p>", "</p><ul>", "</ul>"],
      [.text "bye", .list ["<li>", "</li>"] [[.text "a"], [.text "c"]]]⟩
    prev.fragments {} next = [.of "0" .keyed (.text "bye"),
        .of "1" .keyed (.object [("d", .object [("1", .object [("0", .text "c")])])])] ∧
      (prev.fragments {} next = [] ↔ prev = next) ∧
        ∀ fragment ∈ prev.fragments {} next,
          (∃ place, fragment.Touches place) ∧
            ∀ place, fragment.Touches place → place.Differs prev.toSlot next.toSlot := by
  intro prev next
  exact ⟨rfl, fragments_minimal {} (by decide) (by decide)⟩

end RenderTree

end LiveTemplate
