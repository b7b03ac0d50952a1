import LiveTemplate.Client.Apply
import LiveTemplate.Proofs.Render.Read
import LiveTemplate.Proofs.Render.Wire
import Mathlib.Logic.Basic

/-!
# What validation accepts

`Slot.Holds` relates a node to everything in it at any depth, also in the items of lists. A node is
sound if and only if every level of it is well formed (`Slot.sound_iff_holds`).

* `Slot.validate_eq_ok_iff`: validation asks this of every node but of a list without texts and
  without items (`Slot.bare`), of which it looks at the items only.
* `Slot.not_holds_bare_of_ofJson`: a client refuses what holds such a list.
* `RenderTree.validate_exact_iff` puts both together; `RenderTree.bare_list_validated` is a render
  that is accepted and cannot be read.
-/

namespace LiveTemplate

namespace Slot

/-! ## Nodes at any depth -/

/-- A node is in another one: it is the same, or in one of its slots. -/
inductive Holds : Slot → Slot → Prop
  | self {slot : Slot} : Holds slot slot
  | tree {statics : List String} {slots : List Slot} {slot node : Slot} (mem : slot ∈ slots)
      (next : Holds slot node) : Holds (.tree statics slots) node
  | list {statics : List String} {items : List (List Slot)} {item : List Slot} {slot node : Slot}
      (itemMem : item ∈ items) (mem : slot ∈ item) (next : Holds slot node) :
      Holds (.list statics items) node

variable {statics : List String} {slots : List Slot} {items : List (List Slot)}

/-- What holds of all nodes in a tree holds of the tree and of all nodes in its slots. -/
theorem forall_holds_tree {P : Slot → Prop} :
    (∀ node, Holds (.tree statics slots) node → P node) ↔
      P (.tree statics slots) ∧ ∀ slot ∈ slots, ∀ node, Holds slot node → P node := by
  constructor
  · exact fun h => ⟨h _ .self, fun slot hm node hn => h node (.tree hm hn)⟩
  · rintro ⟨hself, hslots⟩ node hn
    cases hn with
    | self => exact hself
    | tree mem next => exact hslots _ mem node next

theorem forall_holds_list {P : Slot → Prop} :
    (∀ node, Holds (.list statics items) node → P node) ↔
      P (.list statics items) ∧
        ∀ item ∈ items, ∀ slot ∈ item, ∀ node, Holds slot node → P node := by
  constructor
  · exact fun h => ⟨h _ .self, fun item hi slot hm node hn => h node (.list hi hm hn)⟩
  · rintro ⟨hself, hitems⟩ node hn
    cases hn with
    | self => exact hself
    | list itemMem mem next => exact hitems _ itemMem _ mem node next

/-! ## Soundness -/

mutual

/-- A node is sound if every level in it is well formed. -/
theorem sound_iff_holds (slot : Slot) :
    slot.sound = true ↔ ∀ node, Holds slot node → node.levelFits = true := by
  cases slot with
  | empty => exact ⟨fun _ _ hn => by cases hn; rfl, fun _ => rfl⟩
  | text content => exact ⟨fun _ _ hn => by cases hn; rfl, fun _ => rfl⟩
  | tree statics slots =>
    rw [sound_tree, soundSlots_iff_holds slots, forall_holds_tree]
    rfl
  | list statics items =>
    rw [sound_list, soundItems_iff_holds items, forall_holds_list]
    rfl
termination_by structural slot

theorem soundSlots_iff_holds (slots : List Slot) :
    soundSlots slots = true ↔
      ∀ slot ∈ slots, ∀ node, Holds slot node → node.levelFits = true := by
  cases slots with
  | nil => exact ⟨fun _ => List.forall_mem_nil _, fun _ => rfl⟩
  | cons slot rest =>
    rw [soundSlots_cons, sound_iff_holds slot, soundSlots_iff_holds rest, List.forall_mem_cons]
termination_by structural slots

theorem soundItems_iff_holds (items : List (List Slot)) :
    soundItems items = true ↔
      ∀ item ∈ items, ∀ slot ∈ item, ∀ node, Holds slot node → node.levelFits = true := by
  cases items with
  | nil => exact ⟨fun _ => List.forall_mem_nil _, fun _ => rfl⟩
  | cons item rest =>
    rw [soundItems_cons, soundSlots_iff_holds item, soundItems_iff_holds rest,
      List.forall_mem_cons]
termination_by structural items

end

/-! ## Validation -/

/-- A list without texts and without items, which is not well formed. -/
abbrev bare : Slot := .list [] []

/-- Every item has one slot less than there are texts if and only if the list is well formed or
bare: without items nothing is asked of the texts. -/
theorem forall_slotsFit_iff :
    (∀ item ∈ items, slotsFit statics item = true) ↔
      (Slot.list statics items).levelFits = true ∨ Slot.list statics items = bare := by
  rw [levelFits, itemsFit_iff]
  cases statics with
  | nil =>
    cases items with
    | nil => simp
    | cons item rest =>
      refine iff_of_false (fun h => ?_) (by rintro (⟨hne, -⟩ | ⟨⟨⟩⟩); exact hne rfl)
      cases slotsFit_iff.mp (h item List.mem_cons_self)
  | cons first rest =>
    have hwidth (item : List Slot) : slotsFit (first :: rest) item = true ↔
        item.length = (first :: rest).length - 1 := by
      rw [slotsFit_iff, List.length_cons]
      omega
    simp [hwidth]

mutual

theorem validate_eq_ok_iff (path : KeyPath) (slot : Slot) :
    validate path slot = .ok () ↔
      ∀ node, Holds slot node → node.levelFits = true ∨ node = bare := by
  cases slot with
  | empty => exact ⟨fun _ _ hn => by cases hn; exact .inl rfl, fun _ => rfl⟩
  | text content => exact ⟨fun _ _ hn => by cases hn; exact .inl rfl, fun _ => rfl⟩
  | tree statics slots =>
    rw [forall_holds_tree, ← validateSlots_eq_ok_iff path 0 slots, validate, levelFits]
    split
    · rename_i hfit
      simp [hfit]
    · rename_i hfit
      simp [hfit]
  | list statics items =>
    rw [forall_holds_list, ← forall_slotsFit_iff, validate, validateItems_eq_ok_iff]
    exact forall₂_and
termination_by structural slot

theorem validateSlots_eq_ok_iff (path : KeyPath) (key : Nat) (slots : List Slot) :
    validateSlots path key slots = .ok () ↔
      ∀ slot ∈ slots, ∀ node, Holds slot node → node.levelFits = true ∨ node = bare := by
  cases slots with
  | nil => exact ⟨fun _ => List.forall_mem_nil _, fun _ => rfl⟩
  | cons slot rest =>
    rw [validateSlots, check_bind_eq_ok, validate_eq_ok_iff, validateSlots_eq_ok_iff,
      List.forall_mem_cons]
termination_by structural slots

theorem validateItems_eq_ok_iff (path : KeyPath) (statics : List String) (index : Nat)
    (items : List (List Slot)) :
    validateItems path statics index items = .ok () ↔
      ∀ item ∈ items, slotsFit statics item = true ∧
        ∀ slot ∈ item, ∀ node, Holds slot node → node.levelFits = true ∨ node = bare := by
  cases items with
  | nil => exact ⟨fun _ => List.forall_mem_nil _, fun _ => rfl⟩
  | cons item rest =>
    rw [validateItems, List.forall_mem_cons, ← validateSlots_eq_ok_iff path 0 item,
      ← validateItems_eq_ok_iff path statics (index + 1) rest]
    split
    · rename_i hfit
      rw [check_bind_eq_ok]
      simp [hfit]
    · rename_i hfit
      simp [hfit, bind, Except.bind]
termination_by structural items

end

/-! ## Reading what was validated -/

/-- Nothing that holds a bare list is read, if every other level is well formed. The induction is on
the way to the bare list: whoever reads a node reads its slots. -/
theorem not_holds_bare_of_ofJson {slot other : Slot}
    (hv : ∀ node, Holds slot node → node.levelFits = true ∨ node = bare)
    (hread : ofJson slot.toJson = .ok other) : ¬Holds slot bare := by
  intro h
  generalize hb : bare = node at h
  induction h generalizing other with
  | self =>
    subst hb
    cases hread
  | @tree statics slots slot node mem next ih =>
    obtain ⟨hself, hslots⟩ := forall_holds_tree.mp hv
    have hfit : slotsFit statics slots = true := hself.resolve_right nofun
    rw [ofJson_toJson_tree hfit] at hread
    obtain ⟨found, hfound, -⟩ := map_eq_ok.mp hread
    obtain ⟨inner, hinner⟩ := exists_of_mapM_eq_ok hfound mem
    exact ih (hslots _ mem) hinner hb
  | @list statics items item slot node itemMem mem next ih =>
    obtain ⟨hself, hitems⟩ := forall_holds_list.mp hv
    have hfit : itemsFit statics items = true :=
      hself.resolve_right fun he => by cases he; cases itemMem
    rw [ofJson_toJson_list hfit] at hread
    obtain ⟨found, hfound, -⟩ := map_eq_ok.mp hread
    obtain ⟨inner, hinner⟩ := exists_of_mapM_eq_ok hfound itemMem
    obtain ⟨innermost, hinnermost⟩ := exists_of_mapM_eq_ok hinner mem
    exact ih (hitems _ itemMem _ mem) hinnermost hb

end Slot

namespace RenderTree

/-- Validation accepts a render if every level in it is well formed or a bare list. Of the renders
that it accepts, a client reads those without bare lists, and then it holds the same tree and shows
the same text. So validation accepts exactly the renders that are well formed at every level, as
long as it accepts none with a bare list. -/
theorem validate_exact_iff (tree : RenderTree) :
    (tree.validate = .ok () ↔
      ∀ node, tree.toSlot.Holds node → node.levelFits = true ∨ node = .bare) ∧
    (tree.validate = .ok () →
      ((∃ client, Client.ofJson tree.toJson = .ok client ∧ client.root = tree.toSlot ∧
        client.text = tree.text) ↔ ¬tree.toSlot.Holds .bare)) ∧
    ((tree.validate = .ok () ↔ ∀ node, tree.toSlot.Holds node → node.levelFits = true) ↔
      (tree.validate = .ok () → ¬tree.toSlot.Holds .bare)) := by
  have hvalid := Slot.validate_eq_ok_iff [] tree.toSlot
  have hfits (hv : tree.validate = .ok ()) (hb : ¬tree.toSlot.Holds .bare) :
      ∀ node, tree.toSlot.Holds node → node.levelFits = true := fun node hn =>
    (hvalid.mp hv node hn).resolve_right fun he => hb (he ▸ hn)
  refine ⟨hvalid, fun hv => ⟨?_, fun hb => ?_⟩, fun h hv hb => ?_,
    fun h => ⟨fun hv => ?_, fun h => ?_⟩⟩
  · rintro ⟨client, hread, -, -⟩
    obtain ⟨slot, hslot, -⟩ := bind_eq_ok.mp hread
    exact Slot.not_holds_bare_of_ofJson (hvalid.mp hv) hslot
  · have hsound : tree.sound = true := (Slot.sound_iff_holds _).mpr (hfits hv hb)
    exact ⟨⟨tree.toSlot⟩, Client.ofJson_toJson hsound, rfl, rfl⟩
  · cases h.mp hv _ hb
  · exact hfits hv (h hv)
  · exact hvalid.mpr fun node hn => .inl (h node hn)

/-- A render with a bare list, which is not well formed, is accepted and cannot be read. -/
theorem bare_list_validated :
    let tree : RenderTree := ⟨["", ""], [.list [] []]⟩
    tree.validate = .ok () ∧ tree.toSlot.Holds (.list [] []) ∧
      (Slot.list [] []).levelFits = false ∧
      Client.ofJson tree.toJson = .error .noStatics :=
  ⟨rfl, .tree List.mem_cons_self .self, rfl, rfl⟩

end RenderTree

end LiveTemplate
