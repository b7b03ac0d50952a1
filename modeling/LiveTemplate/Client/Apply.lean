import LiveTemplate.Client.Error
import LiveTemplate.Key.Segment

/-!
# Clients

A `Client` keeps the render tree that it was given first and changes it as fragments arrive. A
fragment that fails midway leaves the changes that it made before.

* `Slot.applyAt` finds the node with an id.
* `Slot.applyKeyed`, `Slot.applyMarkers`, `Slot.applyEdits` and `Slot.applyReplacement` change the
  node, one for each strategy.
-/

namespace LiveTemplate

/-- What became of something that was changed, and why the change stopped if it did. -/
abbrev Outcome (α : Type) := α × Option ApplyError

namespace Outcome

/-- The outcome with what became of something larger. -/
def within {α β : Type} (f : α → β) (outcome : Outcome α) : Outcome β :=
  (f outcome.1, outcome.2)

/-- The outcome of a change that happens in full or not at all. -/
def ofExcept {α : Type} (before : α) : Except ApplyError α → Outcome α
  | .ok after => (after, none)
  | .error e => (before, some e)

/-- Makes changes in order until one stops. -/
def all {α β : Type} (change : α → β → Outcome α) (state : α) : List β → Outcome α
  | [] => (state, none)
  | step :: rest =>
    match change state step with
    | (state, none) => all change state rest
    | (state, some e) => (state, some e)

end Outcome

/-- The result of reading a part of a payload in wire form. -/
def ApplyError.ofWire {α : Type} (result : Except WireProblem α) : Except ApplyError α :=
  result.mapError .malformed

namespace Slot

/-! ## Keyed updates -/

/-- The items of a list with a new item at a position. -/
def setItem (id : String) (width : Nat) (items : List (List Slot)) (field : String × Json) :
    Except ApplyError (List (List Slot)) :=
  match (KeyPath.keyOfSegment? field.1.toList).filter (· < items.length) with
  | some index => items.set index <$> ApplyError.ofWire (itemOfJson width field.2)
  | none => .error (.missingSlot (id ++ "." ++ field.1))

/-- Replaces items of a list by index. -/
def applyItems (id : String) (node : Slot) (changes : Json) : Outcome Slot :=
  match node with
  | .list statics items =>
    match changes with
    | .object fields =>
      Outcome.within (.list statics)
        (Outcome.all
          (fun items field =>
            .ofExcept items (setItem id (statics.length - 1) items field))
          items fields)
    | _ => (node, some (.mismatch id .itemsNotKeyed))
  | _ => (node, some (.mismatch id .itemsForOther))

mutual

/-- Changes a node as a keyed update tells. An object with texts is a new content, one with items
changes a list, any other changes slots of a tree. -/
def applyKeyed (id : String) (node : Slot) : Json → Outcome Slot
  | .null => (.empty, none)
  | .text content => (.text content, none)
  | .object fields =>
    if (fields.lookup Wire.staticsKey).isSome then
      .ofExcept node (ApplyError.ofWire (ofJson (.object fields)))
    else
      match fields.lookup Wire.itemsKey with
      | some changes => applyItems id node changes
      | none =>
        match node with
        | .tree statics slots => Outcome.within (.tree statics) (applyFields id slots fields)
        | _ => (node, some (.mismatch id .slotsForOther))
  | other => (node, some (.mismatch id (.payload other)))
termination_by structural json => json

/-- Changes the slots of a tree by key. -/
def applyFields (id : String) (slots : List Slot) : List (String × Json) → Outcome (List Slot)
  | [] => (slots, none)
  | (name, value) :: rest =>
    match KeyPath.keyOfSegment? name.toList with
    | none => (slots, some (.missingSlot (id ++ "." ++ name)))
    | some key =>
      match slots[key]? with
      | none => (slots, some (.missingSlot (id ++ "." ++ name)))
      | some slot =>
        match applyKeyed id slot value with
        | (slot, none) => applyFields id (slots.set key slot) rest
        | (slot, some e) => (slots.set key slot, some e)
termination_by structural fields => fields

end

/-! ## Markers -/

mutual

/-- The texts in a slot, in the order in which they are shown. -/
def texts : Slot → List String
  | .empty => []
  | .text content => [content]
  | .tree _ slots => textsOfSlots slots
  | .list _ items => textsOfItems items
termination_by structural slot => slot

/-- The texts in several slots. -/
def textsOfSlots : List Slot → List String
  | [] => []
  | slot :: rest => texts slot ++ textsOfSlots rest
termination_by structural slots => slots

/-- The texts in the items of a list. -/
def textsOfItems : List (List Slot) → List String
  | [] => []
  | item :: rest => textsOfSlots item ++ textsOfItems rest
termination_by structural items => items

end

mutual

/-- A slot with other texts, and the texts that are left over. -/
def withTexts (contents : List String) : Slot → Slot × List String
  | .empty => (.empty, contents)
  | .text old =>
    match contents with
    | [] => (.text old, [])
    | content :: rest => (.text content, rest)
  | .tree statics slots =>
    let (slots, rest) := slotsWithTexts contents slots
    (.tree statics slots, rest)
  | .list statics items =>
    let (items, rest) := itemsWithTexts contents items
    (.list statics items, rest)
termination_by structural slot => slot

/-- Slots with other texts, and the texts that are left over. -/
def slotsWithTexts (contents : List String) : List Slot → List Slot × List String
  | [] => ([], contents)
  | slot :: others =>
    let (slot, rest) := withTexts contents slot
    let (others, rest) := slotsWithTexts rest others
    (slot :: others, rest)
termination_by structural slots => slots

/-- Items with other texts, and the texts that are left over. -/
def itemsWithTexts (contents : List String) : List (List Slot) → List (List Slot) × List String
  | [] => ([], contents)
  | item :: others =>
    let (item, rest) := slotsWithTexts contents item
    let (others, rest) := itemsWithTexts rest others
    (item :: others, rest)
termination_by structural items => items

end

/-- The texts with one of them replaced. -/
def setText (id : String) (contents : List String) (marker : Marker) :
    Except ApplyError (List String) :=
  if marker.position < contents.length then .ok (contents.set marker.position marker.text)
  else .error (.mismatch id (.noText marker.position))

/-- Replaces texts in a node by number. -/
def applyMarkers (id : String) (node : Slot) (markers : List Marker) : Outcome Slot :=
  Outcome.within (fun contents => (node.withTexts contents).1)
    (Outcome.all (fun contents marker => .ofExcept contents (setText id contents marker))
      node.texts markers)

/-! ## List edits -/

/-- The items of a list after an edit. The positions are checked before the item is read. -/
def editItems (id : String) (width : Nat) (items : List (List Slot)) (edit : ListEdit Json) :
    Except ApplyError (List (List Slot)) :=
  if edit.inBounds items.length then
    ListEdit.apply items <$> edit.mapItem fun item => ApplyError.ofWire (itemOfJson width item)
  else .error (.outOfBounds id edit)

/-- Makes edits of the items of a list. -/
def applyEdits (id : String) (node : Slot) (edits : List (ListEdit Json)) : Outcome Slot :=
  match node with
  | .list statics items =>
    Outcome.within (.list statics)
      (Outcome.all
        (fun items edit => .ofExcept items (editItems id (statics.length - 1) items edit))
        items edits)
  | _ => (node, some (.mismatch id .editsForOther))

/-! ## Replacement -/

/-- Whether a node is a tree. -/
def isTree : Slot → Bool
  | .tree _ _ => true
  | _ => false

/-- The node that replaces another one. The root stays a tree. -/
def applyReplacement (id : String) (payload : Json) : Except ApplyError Slot := do
  let slot ← ApplyError.ofWire (ofJson payload)
  if id = "" ∧ slot.isTree = false then .error (.mismatch id .rootNotTree) else .ok slot

/-! ## Addresses -/

/-- Changes the node that the segments of an id lead to. Only trees are passed on the way. -/
def applyAt (id : String) (change : Slot → Outcome Slot) : List (List Char) → Slot → Outcome Slot
  | [], node => change node
  | segment :: rest, node =>
    match KeyPath.keyOfSegment? segment with
    | none => (node, some (.invalidId id))
    | some key =>
      match node with
      | .tree statics slots =>
        match slots[key]? with
        | some slot =>
          Outcome.within (fun slot => .tree statics (slots.set key slot))
            (applyAt id change rest slot)
        | none => (node, some (.missingSlot id))
      | _ => (node, some (.missingSlot id))

/-- Changes a node as a fragment for it tells. -/
def applyPayload (fragment : Fragment) (node : Slot) : Outcome Slot :=
  match fragment.strategy with
  | .keyed => applyKeyed fragment.id node fragment.payload
  | .markers =>
    match fragment.payload.listOf? Marker.ofJson? with
    | some markers => applyMarkers fragment.id node markers
    | none => (node, some (.unreadable fragment.id))
  | .edits =>
    match fragment.payload.listOf? ListEdit.ofJson? with
    | some edits => applyEdits fragment.id node edits
    | none => (node, some (.unreadable fragment.id))
  | .replacement => .ofExcept node (applyReplacement fragment.id fragment.payload)

end Slot

/-! ## Clients -/

/-- A client with the node that it shows. -/
structure Client where
  root : Slot

namespace Client

/-- The client that is given a render in wire form. -/
def ofJson (json : Json) : Except WireProblem Client := do
  let slot ← Slot.ofJson json
  if slot.isTree then .ok ⟨slot⟩ else .error .rootNotTree

/-- What a client shows. -/
def text (client : Client) : String :=
  client.root.display

/-- Applies a fragment. -/
def apply (client : Client) (fragment : Fragment) : Outcome Client :=
  Outcome.within Client.mk
    (Slot.applyAt fragment.id (Slot.applyPayload fragment) (KeyPath.segments fragment.id)
      client.root)

/-- Applies fragments in order until one fails. -/
def applyAll (client : Client) (fragments : List Fragment) : Outcome Client :=
  Outcome.all apply client fragments

end Client

end LiveTemplate
