import LiveTemplate.Proofs.Template.Layout
import LiveTemplate.Render.Slot
import Mathlib.Data.List.Basic

/-!
# A layout shows its block

Whatever its slots are filled with, a layout shows what its block shows part by part: the literal
texts as they are, nothing for a binding, and the content of its slot for any other part. The texts
of a layout hold the literals of several parts, so the statement carried through a block is about
the text since the last slot (`Block.interleave_layoutFrom`).

* `Block.layout_flattens`: the texts and the keys of a layout, and what they show together.
-/

namespace LiveTemplate

/-- What a part shows if its slot, should it have one, has the given content. -/
def Part.textWith (content : String) : Part → String
  | .literal text => text
  | .bind _ _ => ""
  | _ => content

theorem Part.textWith_of_hasSlot {part : Part} (h : part.hasSlot = true) (content : String) :
    part.textWith content = content := by
  cases part with
  | literal text => cases h
  | bind pipeline span => cases h
  | _ => rfl

namespace Block

/-- What the parts of a block show one after the other, given a content for each of them. -/
def textWith (contents : Nat → String) (block : Block) : String :=
  String.join (block.mapIdx fun index part => part.textWith (contents index))

theorem textWith_cons (contents : Nat → String) (part : Part) (rest : Block) :
    textWith contents (part :: rest) =
      part.textWith (contents 0) ++ textWith (fun index => contents (index + 1)) rest := by
  rw [textWith, List.mapIdx_cons, String.join_cons, textWith]

/-- The contents by slot key: that of a key belongs to the part which has the key. -/
def contentsByKey (contents : Nat → String) (block : Block) : List String :=
  (List.range (layout block).slotCount).map fun key =>
    contents ((layout block).keys.idxOf (some key))

/-! ## Contents by key, part by part -/

theorem idxOf_keys_raised (keys : List (Option Nat)) (key : Nat) :
    (keys.map (Option.map (· + 1))).idxOf (some (key + 1)) = keys.idxOf (some key) := by
  induction keys with
  | nil => rfl
  | cons first rest ih =>
    rw [List.map_cons, List.idxOf_cons, List.idxOf_cons, ih]
    cases first <;> simp

theorem contentsByKey_cons_silent {part : Part} (h : part.hasSlot = false)
    (contents : Nat → String) (rest : Block) :
    contentsByKey contents (part :: rest) =
      contentsByKey (fun index => contents (index + 1)) rest := by
  have hcount : (layout (part :: rest)).slotCount = (layout rest).slotCount := by
    rw [slotCount_layout, slotCount_layout, List.countP_cons_of_neg (by rw [h]; decide)]
  rw [contentsByKey, contentsByKey, hcount]
  refine List.map_congr_left fun key _ => congrArg contents ?_
  rw [keys_cons_silent h, List.idxOf_cons_ne _ (by nofun)]

theorem contentsByKey_cons_slot {part : Part} (h : part.hasSlot = true)
    (contents : Nat → String) {rest : Block} (hw : rest.countP Part.hasSlot + 1 < wordLimit) :
    contentsByKey contents (part :: rest) =
      contents 0 :: contentsByKey (fun index => contents (index + 1)) rest := by
  have hcount : (layout (part :: rest)).slotCount = (layout rest).slotCount + 1 := by
    rw [slotCount_layout, slotCount_layout, List.countP_cons_of_pos h]
  rw [contentsByKey, contentsByKey, hcount, List.range_succ_eq_map, List.map_cons, List.map_map,
    keys_cons_slot_of_lt h hw, List.idxOf_cons_self]
  -- A key behind the first one is that of a later part, raised by one.
  refine congrArg (contents 0 :: ·) (List.map_congr_left fun key _ => congrArg contents ?_)
  rw [List.idxOf_cons_ne _ (by simp), idxOf_keys_raised]

/-! ## What a layout shows -/

/-- The rest of a block between the texts of its layout, behind the text since the last slot. -/
theorem interleave_layoutFrom (pending : String) (next : Nat) (contents : Nat → String)
    {parts : Block} (hw : parts.countP Part.hasSlot < wordLimit) :
    interleave (layoutFrom pending next parts).statics (contentsByKey contents parts) =
      pending ++ textWith contents parts := by
  induction parts generalizing pending next contents with
  | nil => rfl
  | cons part rest ih =>
    rw [textWith_cons]
    cases part with
    | literal text =>
      rw [contentsByKey_cons_silent rfl, ← String.append_assoc]
      exact ih (pending ++ text) next _ hw
    | bind pipeline span =>
      rw [contentsByKey_cons_silent rfl, Part.textWith, String.empty_append]
      exact ih pending next _ hw
    | _ =>
      rw [List.countP_cons_of_pos rfl] at hw
      rw [contentsByKey_cons_slot rfl _ hw, Part.textWith_of_hasSlot rfl]
      refine congrArg (fun text => pending ++ (contents 0 ++ text)) ?_
      rw [← String.empty_append (s := textWith _ _)]
      exact ih "" (toWord (next + 1)) _ (Nat.lt_of_succ_lt hw)

/-- A layout has a text more than its block has parts with slots, and no other part has a key. The
keys are words: where there is one for each of the parts with slots, these have the keys 0, 1, 2, …
in order, and whatever the contents of the slots are, the texts with the contents between them by
key are what the block shows part by part. -/
theorem layout_flattens (block : Block) (contents : Nat → String) :
    (layout block).statics.length = block.countP Part.hasSlot + 1 ∧
      (layout block).keys.map Option.isSome = block.map Part.hasSlot ∧
      (block.countP Part.hasSlot < wordLimit →
        (layout block).keys.filterMap id = List.range (block.countP Part.hasSlot) ∧
          interleave (layout block).statics (contentsByKey contents block) =
            textWith contents block) := by
  refine ⟨length_statics block, isSome_keys block, fun hw => ⟨?_, ?_⟩⟩
  · rw [filterMap_keys_of_lt hw, slotCount_layout]
  · rw [layout, interleave_layoutFrom "" 0 contents hw, String.empty_append]

/-- Literals merge across a binding, and the second of two slots in a row has no text before it. -/
theorem layout_flattens_binding :
    let dot : Pipeline := ⟨none, [.operand .dot]⟩
    let block : Block := [.literal "a", .bind dot ⟨1, 11⟩, .literal "b", .print dot ⟨12, 17⟩,
      .branch .test dot [.literal "c"] none ⟨17, 35⟩, .literal "d"]
    let contents (index : Nat) : String := if index = 3 then "x" else "c"
    layout block = ⟨["ab", "", "d"], [none, none, none, some 0, some 1, none]⟩ ∧
      contentsByKey contents block = ["x", "c"] ∧
      (layout block).keys.filterMap id = List.range (block.countP Part.hasSlot) ∧
      interleave ["ab", "", "d"] ["x", "c"] = textWith contents block ∧
      textWith contents block = "abxcd" := by
  intro dot block contents
  have hwords : block.countP Part.hasSlot < wordLimit := by decide
  obtain ⟨-, -, hslots⟩ := layout_flattens block contents
  obtain ⟨hkeys, hshown⟩ := hslots hwords
  exact ⟨rfl, rfl, hkeys, hshown, rfl⟩

end Block

end LiveTemplate
