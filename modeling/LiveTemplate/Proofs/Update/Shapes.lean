import LiveTemplate.Proofs.Render.Wire
import LiveTemplate.Proofs.Update.Levels

/-!
# When markers exist, and what they name

There are markers between the slots of two trees if and only if the slots have the same shape
(`Slot.isSome_slotMarkers?_iff`), and a client that has read the first tree and sets the texts by
number has the second one then (`Slot.markers_exact`). Whether markers are shorter than another
update does not matter for either.

`Slot.shape` is what a slot holds but for its texts.
-/

namespace LiveTemplate

namespace Slot

/-! ## Shapes -/

mutual

/-- A slot with blank texts: nothing where there is nothing, a text where there is a text, and the
same texts around the slots of each tree and list. -/
def shape : Slot → Slot
  | .empty => .empty
  | .text _ => .text ""
  | .tree statics slots => .tree statics (shapes slots)
  | .list statics items => .list statics (itemShapes items)
termination_by structural slot => slot

/-- The shapes of several slots. -/
def shapes : List Slot → List Slot
  | [] => []
  | slot :: rest => shape slot :: shapes rest
termination_by structural slots => slots

/-- The shapes of the items of a list. -/
def itemShapes : List (List Slot) → List (List Slot)
  | [] => []
  | item :: rest => shapes item :: itemShapes rest
termination_by structural items => items

end

mutual

/-- There are markers between two slots without lists, whatever the number of the first text, if and
only if the slots have the same shape. -/
theorem isSome_textMarkers?_iff (position : Nat) (old new : Slot) (h : old.hasList = false) :
    (textMarkers? position old new).isSome = true ↔ old.shape = new.shape := by
  cases old with
  | empty => cases new <;> simp [textMarkers?, shape]
  | text content => cases new <;> simp [textMarkers?, shape]
  | list statics items => cases h
  | tree statics slots =>
    cases new with
    | tree newStatics news =>
      have hslots := isSome_slotMarkers?_iff position slots news h
      by_cases hs : statics = newStatics <;> simp [textMarkers?, shape, hs, hslots]
    | _ => simp [textMarkers?, shape]
termination_by structural old

theorem isSome_slotMarkers?_iff (position : Nat) (olds news : List Slot)
    (h : anyList olds = false) :
    (slotMarkers? position olds news).isSome = true ↔ shapes olds = shapes news := by
  cases olds with
  | nil => cases news <;> simp [slotMarkers?, shapes]
  | cons old olds =>
    cases news with
    | nil => simp [slotMarkers?, shapes]
    | cons new news =>
      obtain ⟨hold, holds⟩ := Bool.or_eq_false_iff.mp h
      have hfirst := isSome_textMarkers?_iff position old new hold
      rw [slotMarkers?, shapes, shapes, List.cons.injEq, ← hfirst]
      cases textMarkers? position old new with
      | none => simp
      | some found =>
        -- The later slots count on from the last text of the first one.
        obtain ⟨middle, markers⟩ := found
        have hrest := isSome_slotMarkers?_iff middle olds news holds
        rw [← hrest]
        cases hm : slotMarkers? middle olds news <;> simp [hm]
termination_by structural olds

end

/-! ## Clients -/

/-- Between slots that are sound and hold no list there are markers if and only if the slots have
the same shape. A client that has read the tree with the first slots then has the tree with the
second ones after it has set the texts that the markers name. It also has it after a fragment with
the markers, in which numbers have 32 bits. -/
theorem markers_exact {olds : List Slot} (hs : soundSlots olds = true)
    (hl : anyList olds = false) (news : List Slot) :
    ((slotMarkers? 0 olds news).isSome = true ↔ shapes olds = shapes news) ∧
    ∀ count markers, slotMarkers? 0 olds news = some (count, markers) →
      ∀ statics, slotsFit statics olds = true →
        ∃ before after, ofJson (tree statics olds).toJson = .ok before ∧
          ofJson (tree statics news).toJson = .ok after ∧
          ∀ id, applyMarkers id before markers = (after, none) ∧
            ((textsOfSlots olds).length ≤ Json.limit32 →
              applyPayload (.of id .markers (Update.markersPayload markers)) before =
                (after, none)) := by
  refine ⟨isSome_slotMarkers?_iff 0 olds news hl, fun count markers hm statics hf => ?_⟩
  obtain ⟨hlength, hsound, -, -⟩ := alike_of_slotMarkers? olds news hm
  have hfit : slotsFit statics news = true := by
    rw [slotsFit, ← hlength]
    exact hf
  have htree : textMarkers? 0 (tree statics olds) (tree statics news) = some (count, markers) := by
    rw [textMarkers?, if_pos rfl, hm]
  exact ⟨tree statics olds, tree statics news, ofJson_toJson (sound_tree.mpr ⟨hf, hs⟩),
    ofJson_toJson (sound_tree.mpr ⟨hfit, hsound ▸ hs⟩),
    fun id => ⟨applyMarkers_eq htree id, fun hcount => applyPayload_markers htree hcount id⟩⟩

/-- A text, an empty slot and a tree with two texts, of which the second one changes: it is the
third text of all. -/
theorem markers_exact_nested :
    let olds : List Slot := [.text "a", .empty, .tree ["<", "-", ">"] [.text "b", .text "c"]]
    let news : List Slot := [.text "a", .empty, .tree ["<", "-", ">"] [.text "b", .text "d"]]
    soundSlots olds = true ∧ anyList olds = false ∧ slotsFit ["", "", "", ""] olds = true ∧
      slotMarkers? 0 olds news = some (3, [⟨2, "d"⟩]) ∧ shapes olds = shapes news ∧
      ∃ before after, ofJson (tree ["", "", "", ""] olds).toJson = .ok before ∧
        ofJson (tree ["", "", "", ""] news).toJson = .ok after ∧
        applyMarkers "0" before [⟨2, "d"⟩] = (after, none) := by
  intro olds news
  have hsound : soundSlots olds = true := rfl
  obtain ⟨hiff, hclient⟩ := markers_exact hsound rfl news
  obtain ⟨before, after, hb, ha, happly⟩ := hclient 3 [⟨2, "d"⟩] rfl ["", "", "", ""] rfl
  exact ⟨hsound, rfl, rfl, rfl, hiff.mp rfl, before, after, hb, ha, (happly "0").1⟩

end Slot

end LiveTemplate
