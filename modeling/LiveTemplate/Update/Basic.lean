import LiveTemplate.Json.Compact
import LiveTemplate.Render.Wire
import LiveTemplate.Update.Fragment

/-!
# Updates

What has changed between two renders of a node, and how it is sent. The keyed updates below a
top-level slot are nested in one fragment; every node that is updated in another way gets a fragment
of its own, after that of its top-level slot.

* `Update.inline` is the part of an update that is nested in the update of its parent, and the
  fragments for the rest.
* `Update.size` is the length of all of these, the measure by which updates are compared.
-/

namespace LiveTemplate

/-- The change of a slot: a new text, changes of slots by key, new items by index, new texts by
number, edits of items, or a new content altogether. -/
inductive Update where
  | text (content : String)
  | keyed (changes : List (Nat × Update))
  | items (changes : List (Nat × List Slot))
  | markers (changes : List Marker)
  | edits (changes : List (ListEdit (List Slot)))
  | replace (slot : Slot)

/-- The change of a whole render: a new render, or changes of top-level slots by key. -/
inductive RootUpdate where
  | replace (tree : RenderTree)
  | slots (changes : List (Nat × Update))

namespace Update

/-- The strategy of the fragment that carries an update. -/
def strategy : Update → Strategy
  | .text _ => .keyed
  | .keyed _ => .keyed
  | .items _ => .keyed
  | .markers _ => .markers
  | .edits _ => .edits
  | .replace _ => .replacement

/-! ## Payloads -/

/-- The payload of new items by index. -/
def itemsPayload (changes : List (Nat × List Slot)) : Json :=
  let items := changes.map fun (index, item) => (toString index, Slot.itemToJson item)
  .object [(Wire.itemsKey, Json.ofFields items)]

/-- The wire form of an edit. -/
def editToJson : ListEdit (List Slot) → Json
  | .insert index item => (ListEdit.insert index (Slot.itemToJson item)).toJson
  | .remove index => (ListEdit.remove index : ListEdit Json).toJson
  | .move source target => (ListEdit.move source target : ListEdit Json).toJson

/-- The payload of list edits. -/
def editsPayload (changes : List (ListEdit (List Slot))) : Json :=
  .array (changes.map editToJson)

/-- The payload of markers. -/
def markersPayload (changes : List Marker) : Json :=
  .array (changes.map Marker.toJson)

mutual

/-- The part of the update of a node that is nested in the update of its parent, if there is one,
and the fragments for the rest. -/
def inline (path : KeyPath) : Update → Option Json × List Fragment
  | .text content => (some (.text content), [])
  | .keyed changes =>
    let (fields, fragments) := inlineFields path changes
    (if fields.isEmpty then none else some (Json.ofFields fields), fragments)
  | .items changes => (some (itemsPayload changes), [])
  | .markers changes => (none, [.of path.text .markers (markersPayload changes)])
  | .edits changes => (none, [.of path.text .edits (editsPayload changes)])
  | .replace slot => (none, [.of path.text .replacement slot.toJson])
termination_by structural update => update

/-- The nested parts of the updates of several slots under their keys, and the fragments for the
rest. -/
def inlineFields (path : KeyPath) :
    List (Nat × Update) → List (String × Json) × List Fragment
  | [] => ([], [])
  | (key, update) :: rest =>
    let (nested, fragments) := inline (path.child key) update
    let (fields, others) := inlineFields path rest
    ((nested.map fun json => (toString key, json)).toList ++ fields, fragments ++ others)
termination_by structural changes => changes

end

/-! ## Size -/

/-- The number of bytes of the payloads of fragments. -/
def payloadSize (fragments : List Fragment) : Nat :=
  fragments.foldr (fun fragment total => fragment.payload.size + total) 0

/-- The number of bytes that are sent for an update. A keyed update counts as an empty object if no
part of it can be nested. -/
def size (update : Update) : Nat :=
  let (nested, fragments) := update.inline []
  match update.strategy with
  | .keyed => (nested.getD (.object [])).size + payloadSize fragments
  | _ => payloadSize fragments

/-! ## Fragments -/

/-- The fragments for the update of a top-level slot. -/
def fragments (key : Nat) (update : Update) : List Fragment :=
  let path : KeyPath := [key]
  let (nested, others) := update.inline path
  (nested.map fun json => .of path.text .keyed json).toList ++ others

end Update

/-- The fragments for the update of a render. -/
def RootUpdate.fragments : RootUpdate → List Fragment
  | .replace tree => [.of "" .replacement tree.toJson]
  | .slots changes => changes.flatMap fun (key, update) => update.fragments key

end LiveTemplate
