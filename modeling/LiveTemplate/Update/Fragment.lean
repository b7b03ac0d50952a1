import LiveTemplate.Json.Basic
import LiveTemplate.Update.ListEdit

/-!
# Fragments

What a server sends to bring a client up to date. A `Fragment` addresses a node of the client's
render tree by its id and carries a payload, which its strategy explains:

* a keyed update has the new contents of the slots that changed, nested by key;
* markers have the new texts of text slots, which they count through the whole subtree;
* list edits change the items of a list;
* a replacement is the wire form of the whole subtree.
-/

namespace LiveTemplate

/-- How the payload of a fragment is to be read, in the order of preference. -/
inductive Strategy where
  | keyed
  | markers
  | edits
  | replacement
  deriving DecidableEq, Repr

namespace Strategy

/-- The place of a strategy in the order of preference. -/
def rank : Strategy → Nat
  | .keyed => 1
  | .markers => 2
  | .edits => 3
  | .replacement => 4

/-- The name of a strategy in a fragment. -/
def name : Strategy → String
  | .keyed => "static_dynamic"
  | .markers => "markers"
  | .edits => "granular"
  | .replacement => "replacement"

/-- All strategies. -/
def all : List Strategy :=
  [.keyed, .markers, .edits, .replacement]

/-- The strategy of a name. -/
def ofName? (text : String) : Option Strategy :=
  all.find? (·.name == text)

end Strategy

/-- What a client is told to do with a fragment. -/
inductive FragmentAction where
  | update
  | setText
  | applyEdits
  | replace
  deriving DecidableEq, Repr

namespace FragmentAction

/-- The name of an action in a fragment. -/
def name : FragmentAction → String
  | .update => "update"
  | .setText => "set_text"
  | .applyEdits => "apply_ops"
  | .replace => "replace"

/-- All actions. -/
def all : List FragmentAction :=
  [.update, .setText, .applyEdits, .replace]

/-- The action of a name. -/
def ofName? (text : String) : Option FragmentAction :=
  all.find? (·.name == text)

end FragmentAction

/-- The action that goes with a strategy. -/
def Strategy.action : Strategy → FragmentAction
  | .keyed => .update
  | .markers => .setText
  | .edits => .applyEdits
  | .replacement => .replace

/-- A payload for the node with an id. The empty id is the root. -/
structure Fragment where
  id : String
  strategy : Strategy
  action : FragmentAction
  payload : Json

namespace Fragment

/-- The fragment with the action that goes with its strategy. -/
def of (id : String) (strategy : Strategy) (payload : Json) : Fragment :=
  ⟨id, strategy, strategy.action, payload⟩

/-- The JSON form of a fragment. -/
def toJson (fragment : Fragment) : Json :=
  Json.ofFields
    [("id", .text fragment.id), ("strategy", .text fragment.strategy.name),
      ("action", .text fragment.action.name), ("data", fragment.payload)]

/-- The fragment that a JSON value describes. -/
def ofJson? (json : Json) : Option Fragment := do
  let fields ← json.recordOf? ["id", "strategy", "action", "data"]
  let id ← (← fields.lookup "id").text?
  let strategy ← Strategy.ofName? (← (← fields.lookup "strategy").constant?)
  let action ← FragmentAction.ofName? (← (← fields.lookup "action").constant?)
  let payload ← fields.lookup "data"
  some ⟨id, strategy, action, payload⟩

end Fragment

/-! ## Payloads -/

/-- The new text of the text slot with a number. -/
structure Marker where
  position : Nat
  text : String
  deriving DecidableEq, Repr

namespace Marker

/-- The JSON form of a marker. -/
def toJson (marker : Marker) : Json :=
  .array [.integer marker.position, .text marker.text]

/-- The marker that a JSON value describes. -/
def ofJson? : Json → Option Marker
  | .array [position, .text text] => do
    let position ← position.natBelow? Json.limit32
    some ⟨position, text⟩
  | _ => none

end Marker

namespace ListEdit

/-- The JSON form of an edit. -/
def toJson : ListEdit Json → Json
  | .insert index item =>
    Json.ofFields [("op", .text "insert"), ("index", .integer index), ("item", item)]
  | .remove index => Json.ofFields [("op", .text "remove"), ("index", .integer index)]
  | .move source target =>
    Json.ofFields [("op", .text "move"), ("from", .integer source), ("to", .integer target)]

/-- A position in an edit. -/
def position? (name : String) (fields : List (String × Json)) : Option Nat := do
  (← fields.lookup name).natBelow? Json.limit32

/-- The edit that a JSON value describes. -/
def ofJson? (json : Json) : Option (ListEdit Json) := do
  let (kind, content) ← json.tagged? "op"
  match kind with
  | "insert" =>
    let fields ← content.recordOf? ["index", "item"]
    some (.insert (← position? "index" fields) (← fields.lookup "item"))
  | "remove" =>
    let fields ← content.recordOf? ["index"]
    some (.remove (← position? "index" fields))
  | "move" =>
    let fields ← content.recordOf? ["from", "to"]
    some (.move (← position? "from" fields) (← position? "to" fields))
  | _ => none

end ListEdit

end LiveTemplate
