import LiveTemplate.Proofs.Client.Sound
import LiveTemplate.Proofs.Update.Places
import LiveTemplate.Proofs.Update.Shapes

/-!
# What a fragment leaves alone

A fragment changes the node that its id leads to, if there is one, and nothing else. It does not
matter whether it is applied in full: `Slot.applyAt_eq` says of any change of a node, complete or
not, that its result is put in place of the node.

* `Slot.setAt`: a node with another node at a path. `Slot.Confined` is what such a replacement
  keeps (`Slot.confined_setAt`).
* `Slot.shape_applyMarkers`, `Slot.applyEdits_cases`: what markers and list edits keep of the node
  itself.
* `Client.apply_confined` puts these together for one fragment, `Client.after_elsewhere` is for any
  number of them.
-/

namespace LiveTemplate

/-- The path that an id spells. -/
def KeyPath.ofId? (id : String) : Option KeyPath :=
  (segments id).mapM keyOfSegment?

namespace Slot

/-! ## Replacing one node -/

/-- A node without what it holds: its kind, and the texts around slots or items. -/
def outline : Slot → Slot
  | .empty => .empty
  | .text _ => .text ""
  | .tree statics _ => .tree statics []
  | .list statics _ => .list statics []

/-- A node in which another one is at the end of a path. Nothing changes if the path leads
nowhere. -/
def setAt : KeyPath → Slot → Slot → Slot
  | [], new, _ => new
  | key :: rest, new, .tree statics slots => .tree statics (slots.modify key (setAt rest new))
  | _ :: _, _, node => node

/-- Whatever is changed between two nodes is at the end of a path or below. -/
structure Confined (path : KeyPath) (old new : Slot) : Prop where
  /-- Other nodes keep their kind and their texts. -/
  outline : ∀ other, ¬path <+: other →
    (nodeAt? other new).map Slot.outline = (nodeAt? other old).map Slot.outline
  /-- Nodes that are not on the way are the same. -/
  node : ∀ other, ¬path <+: other → ¬other <+: path → nodeAt? other new = nodeAt? other old
  /-- Items of other lists are the same. -/
  item : ∀ other index, ¬path <+: other → itemAt? other index new = itemAt? other index old

theorem Confined.refl (path : KeyPath) (slot : Slot) : Confined path slot slot :=
  ⟨fun _ _ => rfl, fun _ _ _ => rfl, fun _ _ _ => rfl⟩

variable {path other : KeyPath} {slot old new : Slot}

/-- A node on the way to a replaced one has the new node below it. -/
theorem nodeAt?_setAt_append (above rest : KeyPath) (new slot : Slot) :
    nodeAt? above (setAt (above ++ rest) new slot) = (nodeAt? above slot).map (setAt rest new) := by
  induction above generalizing slot with
  | nil => rfl
  | cons key above ih =>
    cases slot with
    | tree statics slots =>
      rw [List.cons_append, setAt, nodeAt?, nodeAt?, List.getElem?_modify_eq]
      cases slots[key]? with
      | none => rfl
      | some slot => exact ih slot
    | _ => rfl

theorem nodeAt?_setAt_self (h : nodeAt? path slot = some old) :
    nodeAt? path (setAt path new slot) = some new := by
  have hat := nodeAt?_setAt_append path [] new slot
  rw [List.append_nil, h] at hat
  exact hat

theorem nodeAt?_setAt_of_apart (hp : ¬path <+: other) (ho : ¬other <+: path) :
    nodeAt? other (setAt path new slot) = nodeAt? other slot := by
  induction path generalizing other slot with
  | nil => exact absurd List.nil_prefix hp
  | cons key path ih =>
    cases other with
    | nil => exact absurd List.nil_prefix ho
    | cons key' other =>
      cases slot with
      | tree statics slots =>
        rw [setAt, nodeAt?, nodeAt?]
        by_cases hk : key = key'
        · subst hk
          rw [List.cons_prefix_cons, and_iff_right rfl] at hp ho
          rw [List.getElem?_modify_eq]
          cases slots[key]? with
          | none => rfl
          | some slot => exact ih hp ho
        · rw [List.getElem?_modify_ne _ _ hk]
      | _ => rfl

/-- A node other than the new one and those below it is the same as before or has the new one below
it. -/
theorem nodeAt?_setAt_cases (hp : ¬path <+: other) (new slot : Slot) :
    nodeAt? other (setAt path new slot) = nodeAt? other slot ∨
      ∃ key rest, nodeAt? other (setAt path new slot) =
        (nodeAt? other slot).map (setAt (key :: rest) new) := by
  by_cases ho : other <+: path
  · obtain ⟨rest, rfl⟩ := ho
    cases rest with
    | nil => simp at hp
    | cons key rest => exact .inr ⟨key, rest, nodeAt?_setAt_append other (key :: rest) new slot⟩
  · exact .inl (nodeAt?_setAt_of_apart hp ho)

theorem confined_setAt (path : KeyPath) (new slot : Slot) :
    Confined path slot (setAt path new slot) where
  outline other hp := by
    obtain h | ⟨key, rest, h⟩ := nodeAt?_setAt_cases hp new slot
    · rw [h]
    · rw [h, Option.map_map]
      exact congrArg (Option.map · _) (funext fun node => by cases node <;> rfl)
  node other hp ho := nodeAt?_setAt_of_apart hp ho
  item other index hp := by
    obtain h | ⟨key, rest, h⟩ := nodeAt?_setAt_cases hp new slot
    · rw [itemAt?, itemAt?, h]
    · -- What the path goes on from is no list before and no list after.
      rw [itemAt?, itemAt?, h, Option.bind_map]
      exact congrArg _ (funext fun node => by cases node <;> rfl)

/-! ## Addresses -/

variable {id : String} {change : Slot → Outcome Slot} {segments : List (List Char)}

/-- The node at the path of an id is replaced by what became of it, also if the change stopped. -/
theorem applyAt_eq (hp : segments.mapM KeyPath.keyOfSegment? = some path)
    (hn : nodeAt? path slot = some old) :
    applyAt id change segments slot = Outcome.within (setAt path · slot) (change old) := by
  induction segments generalizing path slot with
  | nil =>
    cases hp
    cases hn
    rfl
  | cons segment segments ih =>
    simp only [List.mapM_cons, bind, Option.bind_eq_some_iff] at hp
    obtain ⟨key, hkey, keys, hkeys, hpath⟩ := hp
    cases hpath
    cases slot with
    | tree statics slots =>
      obtain ⟨child, hchild, hnode⟩ := Option.bind_eq_some_iff.mp hn
      have hset (new : Slot) : slots.modify key (setAt keys new) =
          slots.set key (setAt keys new child) := by
        rw [List.modify_eq_set_getElem?, hchild]
        rfl
      simp only [applyAt, hkey, hchild, ih hkeys hnode, setAt, hset]
      rfl
    | _ => cases hn

/-- An id that leads to no node is rejected. -/
theorem applyAt_missing
    (h : ∀ path, segments.mapM KeyPath.keyOfSegment? = some path → nodeAt? path slot = none) :
    ∃ e, applyAt id change segments slot = (slot, some e) := by
  induction segments generalizing slot with
  | nil => cases h [] rfl
  | cons segment segments ih =>
    rw [applyAt]
    split
    · exact ⟨_, rfl⟩
    · rename_i key hkey
      split
      · rename_i statics slots
        split
        · rename_i child hchild
          have hbelow (path : KeyPath) (hpath : segments.mapM KeyPath.keyOfSegment? = some path) :
              nodeAt? path child = none := by
            have hnode := h (key :: path) (by simp [hkey, hpath])
            rwa [nodeAt?, hchild] at hnode
          obtain ⟨e, he⟩ := ih hbelow
          obtain ⟨hlt, rfl⟩ := List.getElem?_eq_some_iff.mp hchild
          refine ⟨e, ?_⟩
          rw [he, Outcome.within, List.set_getElem_self]
        · exact ⟨_, rfl⟩
      · exact ⟨_, rfl⟩

/-! ## Strategies -/

mutual

/-- Other texts are in the same places. -/
theorem shape_withTexts (contents : List String) (slot : Slot) :
    (withTexts contents slot).1.shape = slot.shape := by
  cases slot with
  | empty => rfl
  | text old => cases contents <;> rfl
  | tree statics slots => exact congrArg (tree statics) (shapes_slotsWithTexts contents slots)
  | list statics items =>
    exact congrArg (list statics) (itemShapes_itemsWithTexts contents items)
termination_by structural slot

theorem shapes_slotsWithTexts (contents : List String) (slots : List Slot) :
    shapes (slotsWithTexts contents slots).1 = shapes slots := by
  cases slots with
  | nil => rfl
  | cons slot rest =>
    exact congrArg₂ List.cons (shape_withTexts contents slot) (shapes_slotsWithTexts _ rest)
termination_by structural slots

theorem itemShapes_itemsWithTexts (contents : List String) (items : List (List Slot)) :
    itemShapes (itemsWithTexts contents items).1 = itemShapes items := by
  cases items with
  | nil => rfl
  | cons item rest =>
    exact congrArg₂ List.cons (shapes_slotsWithTexts contents item)
      (itemShapes_itemsWithTexts _ rest)
termination_by structural items

end

/-- Markers change texts only, however many of them are set. -/
theorem shape_applyMarkers (id : String) (node : Slot) (markers : List Marker) :
    (applyMarkers id node markers).1.shape = node.shape :=
  shape_withTexts _ node

/-- List edits change the items of a list only, however many of them are made. -/
theorem applyEdits_cases (id : String) (node : Slot) (edits : List (ListEdit Json)) :
    (applyEdits id node edits).1 = node ∨ ∃ statics items after,
      node = .list statics items ∧ (applyEdits id node edits).1 = .list statics after := by
  cases node with
  | list statics items => exact .inr ⟨statics, items, _, rfl, rfl⟩
  | _ => exact .inl rfl

variable {fragment : Fragment}

theorem shape_applyPayload (hs : fragment.strategy = .markers) (node : Slot) :
    (applyPayload fragment node).1.shape = node.shape := by
  simp only [applyPayload, hs]
  split
  · exact shape_applyMarkers _ _ _
  · rfl

theorem applyPayload_edits_cases (hs : fragment.strategy = .edits) (node : Slot) :
    (applyPayload fragment node).1 = node ∨ ∃ statics items after,
      node = .list statics items ∧ (applyPayload fragment node).1 = .list statics after := by
  simp only [applyPayload, hs]
  split
  · exact applyEdits_cases _ _ _
  · exact .inl rfl

end Slot

/-! ## Clients -/

namespace Client

open Slot (nodeAt? itemAt? Confined)

theorem apply_of_missing (client : Client) (fragment : Fragment)
    (h : ∀ path, KeyPath.ofId? fragment.id = some path → nodeAt? path client.root = none) :
    ∃ e, client.apply fragment = (client, some e) := by
  obtain ⟨e, he⟩ := Slot.applyAt_missing h
  exact ⟨e, by rw [apply, he]; rfl⟩

theorem apply_of_node {client : Client} {fragment : Fragment} {path : KeyPath} {node : Slot}
    (hp : KeyPath.ofId? fragment.id = some path) (hn : nodeAt? path client.root = some node) :
    client.apply fragment =
      Outcome.within (fun after => ⟨Slot.setAt path after client.root⟩)
        (Slot.applyPayload fragment node) := by
  rw [apply, Slot.applyAt_eq hp hn]
  rfl

/-- A fragment is confined to the node that its id leads to. -/
theorem confined_apply (client : Client) {fragment : Fragment} {path : KeyPath}
    (hp : KeyPath.ofId? fragment.id = some path) :
    Confined path client.root (client.apply fragment).1.root := by
  cases hn : nodeAt? path client.root with
  | none =>
    obtain ⟨e, he⟩ := apply_of_missing client fragment fun other ho => by
      cases hp.symm.trans ho
      exact hn
    rw [he]
    exact .refl path client.root
  | some node =>
    rw [apply_of_node hp hn]
    exact Slot.confined_setAt path _ client.root

/-- A fragment whose id leads to no node changes nothing and is rejected. Any other, applied in full
or rejected at some point, is confined to the node that its id leads to, and makes of that node what
its payload says. Markers leave there what was there but for texts, list edits but for the items of
a list. -/
theorem apply_confined (client : Client) (fragment : Fragment) :
    ((∀ path, KeyPath.ofId? fragment.id = some path → nodeAt? path client.root = none) →
      ∃ e, client.apply fragment = (client, some e)) ∧
    ∀ path node, KeyPath.ofId? fragment.id = some path → nodeAt? path client.root = some node →
      Confined path client.root (client.apply fragment).1.root ∧
      ∃ after, Slot.applyPayload fragment node = (after, (client.apply fragment).2) ∧
        nodeAt? path (client.apply fragment).1.root = some after ∧
        (fragment.strategy = .markers → after.shape = node.shape) ∧
        (fragment.strategy = .edits → after = node ∨ ∃ statics items items',
          node = .list statics items ∧ after = .list statics items') := by
  refine ⟨apply_of_missing client fragment, fun path node hp hn => ?_⟩
  have happly := apply_of_node hp hn
  have hat : nodeAt? path (client.apply fragment).1.root =
      some (Slot.applyPayload fragment node).1 := by
    rw [happly]
    exact Slot.nodeAt?_setAt_self hn
  exact ⟨confined_apply client hp, _, by rw [happly]; rfl, hat,
    fun hs => Slot.shape_applyPayload hs node, fun hs => Slot.applyPayload_edits_cases hs node⟩

/-- The second marker names a text that is not there, and the first one has been set. A fragment for
a slot that is not there changes nothing. -/
theorem apply_confined_halfway :
    let node : Slot := .tree ["<", "-", ">"] [.text "a", .text "b"]
    let client : Client := ⟨.tree ["", "", ""] [node, .text "c"]⟩
    let markers : Fragment := .of "0" .markers (Update.markersPayload [⟨1, "x"⟩, ⟨2, "y"⟩])
    let missing : Fragment := .of "02" .keyed .null
    (client.apply markers).2.isSome ∧ (client.apply markers).1.text = "<a-x>c" ∧
      Confined [0] client.root (client.apply markers).1.root ∧
      (∃ after, nodeAt? [0] (client.apply markers).1.root = some after ∧
        after.shape = node.shape) ∧
      ∃ e, client.apply missing = (client, some e) := by
  intro node client markers missing
  have hid : KeyPath.ofId? markers.id = some [0] := by decide
  have hmissing : KeyPath.ofId? missing.id = some [2] := by decide
  obtain ⟨hconfined, after, -, hafter, hshape, -⟩ :=
    (apply_confined client markers).2 [0] node hid rfl
  refine ⟨by decide, by decide, hconfined, ⟨after, hafter, hshape rfl⟩, ?_⟩
  refine (apply_confined client missing).1 fun path hp => ?_
  cases hmissing.symm.trans hp
  rfl

/-! ### Several fragments -/

/-- What is the same between nodes that differ at the paths of fragments only is the same after all
of the fragments. -/
theorem after_keeps {β : Type} (view : Slot → β) {fragments : List Fragment}
    (h : ∀ fragment ∈ fragments, ∀ path, KeyPath.ofId? fragment.id = some path →
      ∀ old new, Confined path old new → view new = view old) (client : Client) :
    view (client.after fragments).root = view client.root := by
  induction fragments generalizing client with
  | nil => rfl
  | cons fragment rest ih =>
    obtain ⟨hfragment, hrest⟩ := List.forall_mem_cons.mp h
    have hfirst : view (client.apply fragment).1.root = view client.root := by
      cases hp : KeyPath.ofId? fragment.id with
      | none =>
        obtain ⟨e, he⟩ := apply_of_missing client fragment (by simp [hp])
        rw [he]
      | some path => exact hfragment path hp _ _ (confined_apply client hp)
    exact (ih hrest (client.apply fragment).1).trans hfirst

/-- After fragments, each applied or rejected, a node that is not at the path of one of them or
below keeps its kind, its texts and the items that it has as a list. It is the same as before if it
is on the way to none of them either. -/
theorem after_elsewhere {other : KeyPath} {fragments : List Fragment}
    (h : ∀ fragment ∈ fragments, ∀ path, KeyPath.ofId? fragment.id = some path →
      ¬path <+: other) (client : Client) :
    (nodeAt? other (client.after fragments).root).map Slot.outline =
        (nodeAt? other client.root).map Slot.outline ∧
      (∀ index, itemAt? other index (client.after fragments).root =
        itemAt? other index client.root) ∧
      ((∀ fragment ∈ fragments, ∀ path, KeyPath.ofId? fragment.id = some path →
          ¬other <+: path) →
        nodeAt? other (client.after fragments).root = nodeAt? other client.root) := by
  refine ⟨?_, fun index => ?_, fun hway => ?_⟩
  · exact after_keeps (fun root => (nodeAt? other root).map Slot.outline)
      (fun fragment hm path hp _ _ hc => hc.outline other (h fragment hm path hp)) client
  · exact after_keeps (itemAt? other index)
      (fun fragment hm path hp _ _ hc => hc.item other index (h fragment hm path hp)) client
  · exact after_keeps (nodeAt? other)
      (fun fragment hm path hp _ _ hc =>
        hc.node other (h fragment hm path hp) (hway fragment hm path hp)) client

end Client

end LiveTemplate
