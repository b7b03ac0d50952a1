import LiveTemplate.Proofs.Key.Position
import LiveTemplate.Proofs.Render.Conform
import LiveTemplate.Proofs.Update.Chosen

/-!
# Ids of fragments and positions in a template

A fragment is for a node of the render before it, and every node that a path leads to was rendered
for a part of the template: the path descends through trees only, and each tree holds what a body of
a part or an included definition gave. So the keys that lead to the node are those of the parts that
enclose one position of the template, although two renders may have taken different bodies there.
Keys are words: one key leads to one part where there are words for all of them.

* `SlotsConform.exists_spells`: what a path leads to in the content of a block stands at a position
  of the block, whose keys are the path.
* `Template.fragments_positions`: the ids of the fragments between two renders of a template.
-/

namespace LiveTemplate

open Slot

/-- A tree in the slot of a part was rendered for one of its bodies. -/
theorem SlotConforms.exists_body {env : Environment} {vars after : Variables} {part : Part}
    {statics : List String} {slots : List Slot}
    (h : SlotConforms env vars part (.tree statics slots) after) :
    ∃ step body inner before last, part.bodyAt? step = some body ∧
      SlotsConform inner before body slots last := by
  cases h with
  | body _ _ _ hbody => exact ⟨.body, _, _, _, _, rfl, hbody⟩
  | otherwise _ _ _ helse => exact ⟨.otherwise, _, _, _, _, rfl, helse⟩
  | noItems _ _ helse => exact ⟨.otherwise, _, _, _, _, rfl, helse⟩
  | «include» _ hbody => exact ⟨.body, _, _, _, _, rfl, hbody⟩

/-- The part whose slot has a key. -/
theorem SlotsConform.exists_part {env : Environment} {vars after : Variables} {parts : List Part}
    {slots : List Slot} (h : SlotsConform env vars parts slots after) {key : Nat} {content : Slot}
    (hs : slots[key]? = some content) (ha : Block.addressable parts = true) :
    ∃ (index : Nat) (part : Part) (before next : Variables),
      (Block.layout parts).keys[index]? = some (some key) ∧ parts[index]? = some part ∧
        SlotConforms env before part content next := by
  obtain ⟨states, -, -, hcount, hslot, -⟩ := h
  have hlt := (List.getElem?_eq_some_iff.mp hs).1
  have hwords := Block.countP_lt_of_addressable ha
  obtain ⟨index, hk⟩ := List.getElem?_of_mem ((Block.mem_keys hwords).mpr (hcount ▸ hlt))
  have hlen : index < parts.length := Block.length_keys parts ▸ (List.getElem?_eq_some_iff.mp hk).1
  have hp := List.getElem?_eq_getElem hlen
  exact ⟨index, _, _, _, hk, hp, hslot index _ key content hp hk hs⟩

/-- A node below a block stands at a position of the block, and the keys on the way there are those
of the node. -/
theorem SlotsConform.exists_spells {env : Environment} {vars after : Variables} {parts : List Part}
    {slots : List Slot} (h : SlotsConform env vars parts slots after)
    (ha : Block.addressable parts = true) {statics : List String} {key : Nat} {rest : KeyPath}
    {node : Slot} (hn : nodeAt? (key :: rest) (.tree statics slots) = some node) :
    ∃ position, Block.Spells parts position (key :: rest) := by
  induction rest generalizing env vars after parts slots statics key with
  | nil =>
    obtain ⟨content, hs, -⟩ := Option.bind_eq_some_iff.mp hn
    obtain ⟨index, _, _, _, hk, -, -⟩ := h.exists_part hs ha
    exact ⟨[.part index], .here hk⟩
  | cons next rest ih =>
    obtain ⟨content, hs, hn⟩ := Option.bind_eq_some_iff.mp hn
    obtain ⟨index, part, _, _, hk, hp, hpart⟩ := h.exists_part hs ha
    cases content with
    | tree statics slots =>
      obtain ⟨step, body, _, _, _, hb, hbody⟩ := hpart.exists_body
      have habody := Part.addressable_of_bodyAt?
        (Block.addressable_of_mem ha (List.mem_of_getElem? hp)) hb
      obtain ⟨position, hspells⟩ := ih hbody habody hn
      exact ⟨.part index :: step :: position, .inside hk hp hb hspells⟩
    -- No path leads on from here, into the items of a list neither.
    | empty | text | list => cases hn

namespace Template

variable {template : Template} {before after : Value} {prev next : RenderTree}

/-- A fragment between two renders of a template is for a node of the render before it, below the
root. -/
theorem exists_nodeAt?_of_mem_fragments (hp : template.render before = .ok prev)
    (hn : template.render after = .ok next) {options : UpdateOptions} {fragment : Fragment}
    (hf : fragment ∈ prev.fragments options next) :
    ∃ key rest node, fragment.id = KeyPath.text (key :: rest) ∧
      nodeAt? (key :: rest) prev.toSlot = some node := by
  have hstatics := (statics_of_render hp).trans (statics_of_render hn).symm
  have hroot := RenderTree.sameRoot_of_sound (render_sound hp) (render_sound hn) hstatics
  obtain ⟨path, _, _, hne, hid, hbeside, -⟩ := RenderTree.fragments_beside hroot hf
  obtain ⟨key, rest, rfl⟩ := List.exists_cons_of_ne_nil hne
  exact ⟨key, rest, _, hid, hbeside.nodeAt?_old⟩

/-- The root of a page is never replaced. If there are words for the parts of a template, the id of
every fragment between two renders of it is a position of the template: the keys of the parts that
enclose it, as they are assigned to the template. -/
theorem fragments_positions (hp : template.render before = .ok prev)
    (hn : template.render after = .ok next) (options : UpdateOptions) :
    (∀ fragment ∈ prev.fragments options next, fragment.id ≠ "") ∧
      (template.root.addressable = true →
        ∃ keys, template.root.assignKeys = .ok keys ∧
          ∀ fragment ∈ prev.fragments options next, ∃ position ∈ keys.map Prod.fst, ∃ path,
            position.slotKeys keys = some path ∧ fragment.id = path.text) := by
  refine ⟨fun fragment hf => ?_, fun ha => ?_⟩
  · obtain ⟨key, rest, _, hid, -⟩ := exists_nodeAt?_of_mem_fragments hp hn hf
    exact hid ▸ KeyPath.text_ne_empty (List.cons_ne_nil _ _)
  · obtain ⟨keys, hkeys, hlookup⟩ := Block.assignKeys_eq_ok ha
    refine ⟨keys, hkeys, fun fragment hf => ?_⟩
    obtain ⟨key, rest, _, hid, hnode⟩ := exists_nodeAt?_of_mem_fragments hp hn hf
    obtain ⟨_, hconforms⟩ := slotsConform_of_render ha hp
    obtain ⟨position, hspells⟩ := hconforms.exists_spells ha hnode
    have hfound : (keys.lookup position).isSome := hlookup position ▸ hspells.isSome_keyAt?
    obtain ⟨entry, hm, he⟩ := List.lookup_isSome_iff.mp hfound
    have hposition : position ∈ keys.map Prod.fst := eq_of_beq he ▸ List.mem_map_of_mem hm
    exact ⟨position, hposition, _, hspells.slotKeys hlookup, hid⟩

/-- An included test takes its other body: what is replaced stands in the definition, under the
inclusion. -/
theorem fragments_positions_include :
    let dot : Pipeline := ⟨none, [.operand .dot]⟩
    let template : Template := ⟨[.literal "<p>", .include "state" (some dot)
      [.branch .test dot [.literal "on"] (some [.literal "off"]) ⟨18, 51⟩] ⟨66, 88⟩], [], .empty⟩
    ∃ prev next keys, template.render (.bool true) = .ok prev ∧
      template.render (.bool false) = .ok next ∧
      (prev.fragments {} next).map Fragment.id = ["0.0"] ∧
      template.root.assignKeys = .ok keys ∧
      ∀ fragment ∈ prev.fragments {} next, fragment.id ≠ "" ∧
        ∃ position ∈ keys.map Prod.fst, ∃ path,
          position.slotKeys keys = some path ∧ fragment.id = path.text := by
  intro dot template
  have hp : template.render (.bool true) =
      .ok ⟨["<p>", ""], [.tree ["", ""] [.tree ["on"] []]]⟩ := rfl
  have hn : template.render (.bool false) =
      .ok ⟨["<p>", ""], [.tree ["", ""] [.tree ["off"] []]]⟩ := rfl
  have ha : template.root.addressable = true := rfl
  obtain ⟨hne, hpositions⟩ := fragments_positions hp hn {}
  obtain ⟨keys, hkeys, hids⟩ := hpositions ha
  exact ⟨_, _, keys, hp, hn, rfl, hkeys, fun fragment hf => ⟨hne fragment hf, hids fragment hf⟩⟩

end Template

end LiveTemplate
