import LiveTemplate.Client.Apply

/-!
# The shape of render trees

* `Slot.sound`: at every level texts and slots fit together. A tree has one text more than it has
  slots, a list has texts, and each of its items has one slot less than there are texts. Validation
  finds nothing wrong with a sound slot (`Slot.validate_of_sound`). `Slot.levelFits` is the same for
  one level.
* `Slot.addressable`: what fragments count fits into words of 32 bits. These are the slots of a
  tree, the text slots below it and the items of a list. Addresses do not lead into items, so that
  nothing is asked of those.
-/

namespace LiveTemplate

namespace Slot

/-! ## Soundness -/

mutual

/-- Whether texts and slots fit together in a slot and at every level of what it holds. -/
def sound : Slot → Bool
  | .empty => true
  | .text _ => true
  | .tree statics slots => slotsFit statics slots && soundSlots slots
  | .list statics items => itemsFit statics items && soundItems items
termination_by structural slot => slot

/-- Whether all of several slots are sound. -/
def soundSlots : List Slot → Bool
  | [] => true
  | slot :: rest => sound slot && soundSlots rest
termination_by structural slots => slots

/-- Whether all slots of several items are sound. -/
def soundItems : List (List Slot) → Bool
  | [] => true
  | item :: rest => soundSlots item && soundItems rest
termination_by structural items => items

end

theorem soundItems_iff {items : List (List Slot)} :
    soundItems items = true ↔ ∀ item ∈ items, soundSlots item = true := by
  induction items with
  | nil => simp [soundItems]
  | cons item rest ih => simp [soundItems, ih]

theorem slotsFit_iff {statics : List String} {slots : List Slot} :
    slotsFit statics slots = true ↔ statics.length = slots.length + 1 :=
  beq_iff_eq

/-- The texts of a tree fix the number of its slots. -/
theorem length_eq_of_slotsFit {statics : List String} {slots others : List Slot}
    (h : slotsFit statics slots = true) (ho : slotsFit statics others = true) :
    slots.length = others.length :=
  Nat.succ.inj ((slotsFit_iff.mp h).symm.trans (slotsFit_iff.mp ho))

theorem itemsFit_iff {statics : List String} {items : List (List Slot)} :
    itemsFit statics items = true ↔
      statics ≠ [] ∧ ∀ item ∈ items, item.length = statics.length - 1 := by
  simp [itemsFit]

theorem sound_tree {statics : List String} {slots : List Slot} :
    (tree statics slots).sound = true ↔
      slotsFit statics slots = true ∧ soundSlots slots = true :=
  Bool.and_eq_true_iff

theorem sound_list {statics : List String} {items : List (List Slot)} :
    (list statics items).sound = true ↔
      itemsFit statics items = true ∧ soundItems items = true :=
  Bool.and_eq_true_iff

theorem soundSlots_cons {slot : Slot} {rest : List Slot} :
    soundSlots (slot :: rest) = true ↔ slot.sound = true ∧ soundSlots rest = true :=
  Bool.and_eq_true_iff

theorem soundItems_cons {item : List Slot} {rest : List (List Slot)} :
    soundItems (item :: rest) = true ↔ soundSlots item = true ∧ soundItems rest = true :=
  Bool.and_eq_true_iff

/-! ## Single levels -/

/-- Whether texts and slots fit together in a node itself, whatever is below it. -/
def levelFits : Slot → Bool
  | .empty => true
  | .text _ => true
  | .tree statics slots => slotsFit statics slots
  | .list statics items => itemsFit statics items

theorem levelFits_of_sound {slot : Slot} (h : slot.sound = true) : slot.levelFits = true := by
  cases slot with
  | empty => rfl
  | text content => rfl
  | tree statics slots => exact (sound_tree.mp h).1
  | list statics items => exact (sound_list.mp h).1

/-! ## Validation -/

mutual

theorem validate_of_sound {slot : Slot} (h : slot.sound = true) (path : KeyPath) :
    validate path slot = .ok () := by
  cases slot with
  | empty => rfl
  | text content => rfl
  | tree statics slots =>
    obtain ⟨hfit, hslots⟩ := sound_tree.mp h
    rw [validate, if_pos hfit]
    exact validateSlots_of_sound hslots path 0
  | list statics items =>
    obtain ⟨hfit, hitems⟩ := sound_list.mp h
    obtain ⟨hne, hwidth⟩ := itemsFit_iff.mp hfit
    have hpos := List.length_pos_iff.mpr hne
    rw [validate]
    exact validateItems_of_sound hitems
      (fun item hm => slotsFit_iff.mpr (by rw [hwidth item hm]; omega)) path 0
termination_by structural slot

theorem validateSlots_of_sound {slots : List Slot} (h : soundSlots slots = true)
    (path : KeyPath) (key : Nat) : validateSlots path key slots = .ok () := by
  cases slots with
  | nil => rfl
  | cons slot rest =>
    obtain ⟨hslot, hrest⟩ := soundSlots_cons.mp h
    rw [validateSlots, validate_of_sound hslot]
    exact validateSlots_of_sound hrest path (key + 1)
termination_by structural slots

theorem validateItems_of_sound {statics : List String} {items : List (List Slot)}
    (h : soundItems items = true) (hfit : ∀ item ∈ items, slotsFit statics item = true)
    (path : KeyPath) (index : Nat) : validateItems path statics index items = .ok () := by
  cases items with
  | nil => rfl
  | cons item rest =>
    obtain ⟨hitem, hrest⟩ := soundItems_cons.mp h
    rw [validateItems, if_pos (hfit item (List.mem_cons_self ..)),
      validateSlots_of_sound hitem]
    exact validateItems_of_sound hrest (fun other hm => hfit other (List.mem_cons_of_mem _ hm))
      path (index + 1)
termination_by structural items

end

/-! ## Addressability -/

mutual

/-- Whether every position that a fragment can name in a slot fits into 32 bits. -/
def addressable : Slot → Bool
  | .empty => true
  | .text _ => true
  | .tree _ slots =>
    slots.length < Json.limit32 && (textsOfSlots slots).length < Json.limit32 &&
      addressableSlots slots
  | .list _ items => items.length < Json.limit32
termination_by structural slot => slot

/-- Whether all of several slots are addressable. -/
def addressableSlots : List Slot → Bool
  | [] => true
  | slot :: rest => addressable slot && addressableSlots rest
termination_by structural slots => slots

end

theorem addressable_tree {statics : List String} {slots : List Slot} :
    (tree statics slots).addressable = true ↔
      slots.length < Json.limit32 ∧ (textsOfSlots slots).length < Json.limit32 ∧
        addressableSlots slots = true := by
  simp [addressable, and_assoc]

theorem addressable_list {statics : List String} {items : List (List Slot)} :
    (list statics items).addressable = true ↔ items.length < Json.limit32 := by
  simp [addressable]

theorem addressableSlots_cons {slot : Slot} {rest : List Slot} :
    addressableSlots (slot :: rest) = true ↔
      slot.addressable = true ∧ addressableSlots rest = true :=
  Bool.and_eq_true_iff

end Slot

namespace RenderTree

theorem toSlot_inj {tree other : RenderTree} (h : tree.toSlot = other.toSlot) : tree = other := by
  cases tree
  cases other
  cases h
  rfl

/-- Whether texts and slots fit together at every level of a render. -/
def sound (tree : RenderTree) : Bool :=
  tree.toSlot.sound

/-- Whether every position that a fragment can name in a render fits into 32 bits. -/
def addressable (tree : RenderTree) : Bool :=
  tree.toSlot.addressable

end RenderTree

end LiveTemplate
