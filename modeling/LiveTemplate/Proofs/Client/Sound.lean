import LiveTemplate.Client.Apply
import LiveTemplate.Proofs.Render.Read
import Mathlib.Data.List.InsertIdx

/-!
# Clients stay sound

Whatever a client is sent, its render tree stays sound. A fragment may fail after it has changed a
part of the tree; every single change keeps the tree sound, so what is left is sound too.

* `Slot.sound_applyKeyed`, `Slot.sound_applyMarkers`, `Slot.sound_applyEdits` and
  `Slot.sound_applyReplacement`: one lemma for each strategy.
* `Client.after`: a client that is sent fragments and goes on after a rejected one.
* `Client.after_sound`: such a client holds a sound tree after every fragment, and so does one that
  stops at the first error.
-/

namespace LiveTemplate

namespace Outcome

variable {α β : Type}

/-- What every change keeps is kept by changes in order, also if one of them stops. -/
theorem all_keeps {P : α → Prop} {change : α → β → Outcome α}
    (hstep : ∀ state step, P state → P (change state step).1) {state : α} (h : P state)
    (steps : List β) : P (all change state steps).1 := by
  induction steps generalizing state with
  | nil => exact h
  | cons step rest ih =>
    have hnext := hstep state step h
    rw [all]
    split
    · rename_i next heq
      rw [heq] at hnext
      exact ih hnext
    · rename_i next e heq
      rw [heq] at hnext
      exact hnext

theorem ofExcept_keeps {P : α → Prop} {before : α} {result : Except ApplyError α}
    (h : P before) (hok : ∀ after, result = .ok after → P after) :
    P (ofExcept before result).1 := by
  cases result with
  | ok after => exact hok after rfl
  | error e => exact h

end Outcome

theorem ApplyError.ofWire_eq_ok {α : Type} {result : Except WireProblem α} {value : α} :
    ApplyError.ofWire result = .ok value ↔ result = .ok value := by
  cases result with
  | ok found =>
    constructor
    · rintro ⟨⟩
      rfl
    · rintro ⟨⟩
      rfl
  | error problem =>
    constructor
    · rintro ⟨⟩
    · rintro ⟨⟩

namespace Slot

theorem sound_tree_iff {statics : List String} {slots : List Slot} :
    (tree statics slots).sound = true ↔ statics ≠ [] ∧ SoundItem (statics.length - 1) slots := by
  rw [sound_tree, slotsFit_iff, SoundItem, ← and_assoc, ← List.length_pos_iff]
  exact and_congr_left' (by omega)

theorem SoundItem.set {width key : Nat} {slots : List Slot} {slot : Slot}
    (h : SoundItem width slots) (hs : slot.sound = true) :
    SoundItem width (slots.set key slot) := by
  refine ⟨List.length_set.trans h.1, soundSlots_iff.mpr fun other hm => ?_⟩
  rcases List.mem_or_eq_of_mem_set hm with hm | rfl
  · exact soundSlots_iff.mp h.2 other hm
  · exact hs

/-! ## Keyed updates -/

theorem soundItem_of_setItem {id : String} {width : Nat} {items after : List (List Slot)}
    {field : String × Json} (h : ∀ item ∈ items, SoundItem width item)
    (hs : setItem id width items field = .ok after) : ∀ item ∈ after, SoundItem width item := by
  rw [setItem] at hs
  split at hs
  · obtain ⟨item, hitem, rfl⟩ := map_eq_ok.mp hs
    intro other hm
    rcases List.mem_or_eq_of_mem_set hm with hm | rfl
    · exact h other hm
    · exact soundItem_of_itemOfJson (ApplyError.ofWire_eq_ok.mp hitem)
  · cases hs

theorem sound_applyItems (id : String) {node : Slot} (h : node.sound = true) (changes : Json) :
    (applyItems id node changes).1.sound = true := by
  cases node with
  | list statics items =>
    cases changes with
    | object fields =>
      obtain ⟨hne, hitems⟩ := sound_list_iff.mp h
      exact sound_list_iff.mpr ⟨hne, Outcome.all_keeps (fun _ _ hs =>
        Outcome.ofExcept_keeps hs fun _ hset => soundItem_of_setItem hs hset) hitems fields⟩
    | _ => exact h
  | _ => exact h

mutual

theorem sound_applyKeyed (id : String) {node : Slot} (h : node.sound = true) (json : Json) :
    (applyKeyed id node json).1.sound = true := by
  cases json with
  | null => rfl
  | text content => rfl
  | object fields =>
    unfold applyKeyed
    split
    · exact Outcome.ofExcept_keeps (P := (sound · = true)) h fun _ hread =>
        sound_of_ofJson (ApplyError.ofWire_eq_ok.mp hread)
    · split
      · exact sound_applyItems id h _
      · cases node with
        | tree statics slots =>
          obtain ⟨hne, hslots⟩ := sound_tree_iff.mp h
          exact sound_tree_iff.mpr ⟨hne, soundItem_applyFields id hslots fields⟩
        | _ => exact h
  | _ => exact h
termination_by structural json

/-- The slots that were changed before a field failed stay changed. -/
theorem soundItem_applyFields (id : String) {width : Nat} {slots : List Slot}
    (h : SoundItem width slots) (fields : List (String × Json)) :
    SoundItem width (applyFields id slots fields).1 := by
  cases fields with
  | nil => exact h
  | cons field rest =>
    obtain ⟨name, value⟩ := field
    rw [applyFields]
    split
    · exact h
    · split
      · exact h
      · rename_i key _ slot hslot
        have hs := soundSlots_iff.mp h.2 slot (List.mem_of_getElem? hslot)
        have hnext := sound_applyKeyed id hs value
        split
        · rename_i next heq
          rw [heq] at hnext
          exact soundItem_applyFields id (h.set hnext) rest
        · rename_i next e heq
          rw [heq] at hnext
          exact h.set hnext
termination_by structural fields

end

/-! ## Markers -/

theorem length_slotsWithTexts (contents : List String) (slots : List Slot) :
    (slotsWithTexts contents slots).1.length = slots.length := by
  induction slots generalizing contents with
  | nil => rfl
  | cons slot rest ih => exact congrArg Nat.succ (ih _)

mutual

theorem sound_withTexts (contents : List String) {slot : Slot} (h : slot.sound = true) :
    (withTexts contents slot).1.sound = true := by
  cases slot with
  | empty => rfl
  | text old => cases contents <;> rfl
  | tree statics slots =>
    obtain ⟨hne, hl, hslots⟩ := sound_tree_iff.mp h
    exact sound_tree_iff.mpr ⟨hne, (length_slotsWithTexts contents slots).trans hl,
      soundSlots_slotsWithTexts contents hslots⟩
  | list statics items =>
    obtain ⟨hfit, hitems⟩ := sound_list_iff.mp h
    exact sound_list_iff.mpr ⟨hfit, soundItem_itemsWithTexts contents hitems⟩
termination_by structural slot

theorem soundSlots_slotsWithTexts (contents : List String) {slots : List Slot}
    (h : soundSlots slots = true) : soundSlots (slotsWithTexts contents slots).1 = true := by
  cases slots with
  | nil => rfl
  | cons slot rest =>
    obtain ⟨hslot, hrest⟩ := soundSlots_cons.mp h
    exact soundSlots_cons.mpr ⟨sound_withTexts contents hslot, soundSlots_slotsWithTexts _ hrest⟩
termination_by structural slots

theorem soundItem_itemsWithTexts (contents : List String) {width : Nat}
    {items : List (List Slot)} (h : ∀ item ∈ items, SoundItem width item) :
    ∀ item ∈ (itemsWithTexts contents items).1, SoundItem width item := by
  cases items with
  | nil => exact h
  | cons item rest =>
    obtain ⟨⟨hl, hitem⟩, hrest⟩ := List.forall_mem_cons.mp h
    exact List.forall_mem_cons.mpr ⟨⟨(length_slotsWithTexts contents item).trans hl,
      soundSlots_slotsWithTexts contents hitem⟩, soundItem_itemsWithTexts _ hrest⟩
termination_by structural items

end

theorem sound_applyMarkers (id : String) {node : Slot} (h : node.sound = true)
    (markers : List Marker) : (applyMarkers id node markers).1.sound = true :=
  sound_withTexts _ h

/-! ## List edits -/

theorem soundItem_of_editItems {id : String} {width : Nat} {items after : List (List Slot)}
    {edit : ListEdit Json} (h : ∀ item ∈ items, SoundItem width item)
    (he : editItems id width items edit = .ok after) : ∀ item ∈ after, SoundItem width item := by
  rw [editItems] at he
  split at he
  · obtain ⟨read, hread, rfl⟩ := map_eq_ok.mp he
    cases edit with
    | insert index value =>
      obtain ⟨item, hitem, rfl⟩ := map_eq_ok.mp hread
      intro other hm
      rcases List.eq_or_mem_of_mem_insertIdx hm with rfl | hm
      · exact soundItem_of_itemOfJson (ApplyError.ofWire_eq_ok.mp hitem)
      · exact h other hm
    | remove index =>
      cases hread
      exact fun other hm => h other (List.mem_of_mem_eraseIdx hm)
    | move source target =>
      cases hread
      rw [ListEdit.apply]
      split
      · rename_i item hitem
        intro other hm
        rcases List.eq_or_mem_of_mem_insertIdx hm with rfl | hm
        · exact h other (List.mem_of_getElem? hitem)
        · exact h other (List.mem_of_mem_eraseIdx hm)
      · exact h
  · cases he

theorem sound_applyEdits (id : String) {node : Slot} (h : node.sound = true)
    (edits : List (ListEdit Json)) : (applyEdits id node edits).1.sound = true := by
  cases node with
  | list statics items =>
    obtain ⟨hne, hitems⟩ := sound_list_iff.mp h
    exact sound_list_iff.mpr ⟨hne, Outcome.all_keeps (fun _ _ hs =>
      Outcome.ofExcept_keeps hs fun _ hedit => soundItem_of_editItems hs hedit) hitems edits⟩
  | _ => exact h

/-! ## Replacement -/

theorem sound_applyReplacement {id : String} {payload : Json} {slot : Slot}
    (h : applyReplacement id payload = .ok slot) : slot.sound = true := by
  obtain ⟨found, hread, h⟩ := bind_eq_ok.mp h
  split at h
  · cases h
  · cases h
    exact sound_of_ofJson (ApplyError.ofWire_eq_ok.mp hread)

/-! ## Fragments -/

theorem sound_applyPayload (fragment : Fragment) {node : Slot} (h : node.sound = true) :
    (applyPayload fragment node).1.sound = true := by
  rw [applyPayload]
  split
  · exact sound_applyKeyed _ h _
  · split
    · exact sound_applyMarkers _ h _
    · exact h
  · split
    · exact sound_applyEdits _ h _
    · exact h
  · exact Outcome.ofExcept_keeps (P := (sound · = true)) h fun _ hread =>
      sound_applyReplacement hread

theorem sound_applyAt {id : String} {change : Slot → Outcome Slot}
    (hchange : ∀ node, node.sound = true → (change node).1.sound = true)
    (segments : List (List Char)) {node : Slot} (h : node.sound = true) :
    (applyAt id change segments node).1.sound = true := by
  induction segments generalizing node with
  | nil => exact hchange node h
  | cons segment rest ih =>
    rw [applyAt]
    split
    · exact h
    · split
      · split
        · rename_i statics slots slot hslot
          obtain ⟨hne, hslots⟩ := sound_tree_iff.mp h
          have hs := soundSlots_iff.mp hslots.2 slot (List.mem_of_getElem? hslot)
          exact sound_tree_iff.mpr ⟨hne, hslots.set (ih hs)⟩
        · exact h
      · exact h

end Slot

namespace Client

/-- The client after fragments in order. It goes on after a fragment that it rejects, with the
changes that the fragment made before. -/
def after (client : Client) (fragments : List Fragment) : Client :=
  fragments.foldl (fun client fragment => (client.apply fragment).1) client

/-- The client holds a tree that is sound at every level. -/
def Sound (client : Client) : Prop :=
  client.root.sound = true

variable {client : Client}

theorem Sound.apply (h : client.Sound) (fragment : Fragment) : (client.apply fragment).1.Sound :=
  Slot.sound_applyAt (fun _ => Slot.sound_applyPayload fragment) _ h

theorem Sound.after (h : client.Sound) (fragments : List Fragment) :
    (client.after fragments).Sound := by
  induction fragments generalizing client with
  | nil => exact h
  | cons fragment rest ih => exact ih (h.apply fragment)

theorem sound_of_ofJson {json : Json} (h : ofJson json = .ok client) : client.Sound := by
  obtain ⟨slot, hread, h⟩ := bind_eq_ok.mp h
  split at h
  · cases h
    exact Slot.sound_of_ofJson hread
  · cases h

/-- A client that was given any tree that it could read holds a sound tree after any fragments,
whether they are applied or rejected, and also if it stops at the first one that is rejected. -/
theorem after_sound {json : Json} (h : ofJson json = .ok client) (fragments : List Fragment) :
    (client.after fragments).Sound ∧ (client.applyAll fragments).1.Sound :=
  have hread := sound_of_ofJson h
  have hstep (client : Client) (fragment : Fragment) (hs : client.Sound) :
      (client.apply fragment).1.Sound := hs.apply fragment
  ⟨hread.after fragments, Outcome.all_keeps hstep hread fragments⟩

/-- A list gets an item before the second edit of the fragment fails, and a keyed update that names
a missing slot after an existing one has changed that one. -/
theorem after_sound_halfway :
    let json : Json := .object [("0", .object [("d", .array [.object [("0", .text "a")]]),
      ("s", .array [.text "<", .text ">"])]), ("1", .text "x"),
      ("s", .array [.text "", .text "", .text "."])]
    let edits : Fragment := .of "0" .edits (.array [
      .object [("index", .integer 0), ("item", .object [("0", .text "b")]), ("op", .text "insert")],
      .object [("index", .integer 9), ("op", .text "remove")]])
    let keyed : Fragment := .of "" .keyed (.object [("1", .text "y"), ("2", .null)])
    ∃ client, ofJson json = .ok client ∧ (client.apply edits).2.isSome ∧
      (client.apply keyed).2.isSome ∧ (client.after [edits, keyed]).text = "<b><a>y." ∧
        (client.after [edits, keyed]).Sound ∧ (client.applyAll [edits, keyed]).1.Sound := by
  intro json edits keyed
  have hread : ofJson json =
    .ok ⟨.tree ["", "", "."] [.list ["<", ">"] [[.text "a"]], .text "x"]⟩ := rfl
  exact ⟨_, hread, by decide, by decide, by decide, after_sound hread _⟩

end Client

end LiveTemplate
