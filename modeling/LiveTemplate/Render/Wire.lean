import LiveTemplate.Json.Compact
import LiveTemplate.Render.Slot

/-!
# The wire form of render trees

A tree is an object with its texts under `s` and the contents of its slots under their keys; a list
has its items, objects of slots, under `d`; a text is a string, and an empty slot is null.

* `Slot.toJson` writes this form.
* `Slot.ofJson` reads it and accepts no tree in which texts and slots do not fit together.
-/

namespace LiveTemplate

namespace Wire

/-- The key of the texts of a tree or list. -/
def staticsKey : String := "s"

/-- The key of the items of a list. -/
def itemsKey : String := "d"

/-- The texts of a tree or list. -/
def statics (texts : List String) : Json :=
  .array (texts.map .text)

end Wire

/-! ## Writing -/

namespace Slot

mutual

/-- The wire form of a slot. -/
def toJson : Slot → Json
  | .empty => .null
  | .text content => .text content
  | .tree statics slots =>
    Json.ofFields ((Wire.staticsKey, Wire.statics statics) :: slotFields 0 slots)
  | .list statics items =>
    Json.ofFields
      [(Wire.staticsKey, Wire.statics statics), (Wire.itemsKey, .array (itemsToJson items))]
termination_by structural slot => slot

/-- Slots under their keys, the first of which is given. -/
def slotFields (key : Nat) : List Slot → List (String × Json)
  | [] => []
  | slot :: rest => (toString key, toJson slot) :: slotFields (key + 1) rest
termination_by structural slots => slots

/-- The wire forms of the items of a list. -/
def itemsToJson : List (List Slot) → List Json
  | [] => []
  | item :: rest => Json.ofFields (slotFields 0 item) :: itemsToJson rest
termination_by structural items => items

end

/-- The wire form of an item. -/
def itemToJson (item : List Slot) : Json :=
  Json.ofFields (slotFields 0 item)

end Slot

/-- The wire form of a render. -/
def RenderTree.toJson (tree : RenderTree) : Json :=
  tree.toSlot.toJson

/-! ## Reading -/

/-- Why a JSON value is no render tree. -/
inductive WireProblem where
  | missingStatics
  | staticNotText (json : Json)
  | noStatics
  | itemsNotArray (json : Json)
  | itemNotObject (json : Json)
  | missingSlot (key : Nat)
  | unexpected (json : Json)
  | rootNotTree

/-- The wording of a problem. -/
def WireProblem.message : WireProblem → String
  | .missingStatics => "missing statics"
  | .staticNotText json => "static must be a string, got " ++ json.compact
  | .noStatics => "statics must not be empty"
  | .itemsNotArray json => "items must be an array, got " ++ json.compact
  | .itemNotObject json => "item must be an object, got " ++ json.compact
  | .missingSlot key => "missing dynamic `" ++ toString key ++ "`"
  | .unexpected json => "unexpected value " ++ json.compact
  | .rootNotTree => "root must be a tree"

namespace Wire

/-- A list of strings. -/
def readTexts : List Json → Except WireProblem (List String)
  | [] => .ok []
  | .text content :: rest => (content :: ·) <$> readTexts rest
  | other :: _ => .error (.staticNotText other)

/-- The texts among the fields of a tree or list, of which there is at least one. -/
def readStatics (fields : List (String × Json)) : Except WireProblem (List String) := do
  match fields.lookup staticsKey with
  | some (.array items) =>
    let texts ← readTexts items
    if texts.isEmpty then .error .noStatics else .ok texts
  | _ => .error .missingStatics

end Wire

namespace Slot

mutual

/-- The slot that a JSON value describes. -/
def ofJson : Json → Except WireProblem Slot
  | .null => .ok .empty
  | .text content => .ok (.text content)
  | .object fields => do
    let statics ← Wire.readStatics fields
    let width := statics.length - 1
    match itemsOfFields? width fields with
    | some items => .list statics <$> items
    | none =>
      .tree statics <$> (List.range width).mapM fun key =>
        (slotOfFields? (toString key) fields).getD (.error (.missingSlot key))
  | other => .error (.unexpected other)
termination_by structural json => json

/-- The slot that the field of a name describes, if there is such a field. -/
def slotOfFields? (name : String) : List (String × Json) → Option (Except WireProblem Slot)
  | [] => none
  | (key, value) :: rest => if key = name then some (ofJson value) else slotOfFields? name rest
termination_by structural fields => fields

/-- The items among the fields of a list, none if the fields are those of a tree. -/
def itemsOfFields? (width : Nat) :
    List (String × Json) → Option (Except WireProblem (List (List Slot)))
  | [] => none
  | (key, value) :: rest =>
    if key = Wire.itemsKey then
      match value with
      | .array items => some (itemsOfJson width items)
      | other => some (.error (.itemsNotArray other))
    else itemsOfFields? width rest
termination_by structural fields => fields

/-- The items that JSON values describe, each with so many slots. -/
def itemsOfJson (width : Nat) : List Json → Except WireProblem (List (List Slot))
  | [] => .ok []
  | item :: rest => do
    let first ← itemOfJson width item
    let others ← itemsOfJson width rest
    .ok (first :: others)
termination_by structural items => items

/-- The item with so many slots that a JSON value describes. -/
def itemOfJson (width : Nat) : Json → Except WireProblem (List Slot)
  | .object fields =>
    (List.range width).mapM fun key =>
      (slotOfFields? (toString key) fields).getD (.error (.missingSlot key))
  | other => .error (.itemNotObject other)
termination_by structural json => json

end

end Slot

end LiveTemplate
