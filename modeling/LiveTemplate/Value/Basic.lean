import LiveTemplate.Json.Basic

/-!
# Data values

What a template is applied to: scalars, lists, and maps from strings.

* `Value.truthy`: zeros and everything empty are false.
* `Value.display`: how a value is printed, a map with its keys in order.
* `Value.equals`: equality, for which the order of a map's entries does not matter.
* `Value.sortedEntries?`: the entries of a map in the order in which they are walked.
-/

namespace LiveTemplate

/-- A data value. The entries of a map stand in the order in which they were added; a well-formed
map has each key once. -/
inductive Value where
  | null
  | bool (value : Bool)
  | int (value : Int)
  | float (value : Double)
  | text (value : String)
  | list (items : List Value)
  | map (entries : List (String × Value))
  deriving Inhabited

namespace Value

/-! ## Views -/

/-- The name of a value's type in messages. -/
def typeName : Value → String
  | .null => "nil"
  | .bool _ => "bool"
  | .int _ => "int"
  | .float _ => "float"
  | .text _ => "string"
  | .list _ => "list"
  | .map _ => "map"

/-- Zero values, empty strings and empty aggregates are false. -/
def truthy : Value → Bool
  | .null => false
  | .bool b => b
  | .int i => i != 0
  | .float x => !x.isZero
  | .text s => s != ""
  | .list items => !items.isEmpty
  | .map entries => !entries.isEmpty

/-- A truth value. -/
def bool? : Value → Option Bool
  | .bool b => some b
  | _ => none

/-- An integer. -/
def int? : Value → Option Int
  | .int i => some i
  | _ => none

/-- A number as a double. -/
def float? : Value → Option Double
  | .int i => some (.ofInt i)
  | .float x => some x
  | _ => none

/-- A string. -/
def text? : Value → Option String
  | .text s => some s
  | _ => none

/-- The items of a list. -/
def list? : Value → Option (List Value)
  | .list items => some items
  | _ => none

/-- The value of a map's entry. -/
def get? (key : String) : Value → Option Value
  | .map entries => entries.lookup key
  | _ => none

/-! ## Order of entries -/

/-- Entries in increasing order of their keys. -/
def sortEntries {α : Type} (entries : List (String × α)) : List (String × α) :=
  entries.mergeSort fun x y => x.1 ≤ y.1

/-- The entries of a map in increasing order of their keys. -/
def sortedEntries? : Value → Option (List (String × Value))
  | .map entries => some (sortEntries entries)
  | _ => none

/-! ## Printing -/

mutual

/-- How a value is printed: nil as nothing, aggregates in brackets, a map by increasing key. -/
def display : Value → String
  | .null => ""
  | .bool true => "true"
  | .bool false => "false"
  | .int i => toString i
  | .float x => x.display
  | .text s => s
  | .list items => "[" ++ " ".intercalate (displayItems items) ++ "]"
  | .map entries =>
    "map[" ++ " ".intercalate ((sortEntries (displayEntries entries)).map (·.2)) ++ "]"
termination_by structural value => value

/-- The texts of the items of a list. -/
def displayItems : List Value → List String
  | [] => []
  | item :: rest => display item :: displayItems rest
termination_by structural items => items

/-- The texts of the entries of a map, each under its key. -/
def displayEntries : List (String × Value) → List (String × String)
  | [] => []
  | (key, value) :: rest => (key, key ++ ":" ++ display value) :: displayEntries rest
termination_by structural entries => entries

end

/-! ## Equality -/

mutual

/-- Equality of values: numbers of different types differ, a NaN differs from itself, and maps are
equal if they have the same keys with equal values. -/
def equals : Value → Value → Bool
  | .null, .null => true
  | .bool a, .bool b => a == b
  | .int a, .int b => a == b
  | .float a, .float b => a.equals b
  | .text a, .text b => a == b
  | .list as, .list bs => equalItems as bs
  | .map as, .map bs => as.length == bs.length && equalEntries as bs
  | _, _ => false
termination_by structural value => value

/-- Equality of lists, item by item. -/
def equalItems : List Value → List Value → Bool
  | [], [] => true
  | a :: as, b :: bs => equals a b && equalItems as bs
  | _, _ => false
termination_by structural items => items

/-- Every entry of the first list has an equal entry in the second. -/
def equalEntries : List (String × Value) → List (String × Value) → Bool
  | [], _ => true
  | (key, value) :: rest, others =>
    match others.lookup key with
    | some other => equals value other && equalEntries rest others
    | none => false
termination_by structural entries => entries

end

/-! ## Reading -/

mutual

/-- The value of a JSON text. An integer outside the range of 64 bits becomes a float. -/
def ofJson : Json → Value
  | .null => .null
  | .bool b => .bool b
  | .integer i =>
    if -0x8000000000000000 ≤ i && i < 0x8000000000000000 then .int i else .float (.ofInt i)
  | .real x => .float x
  | .text s => .text s
  | .array items => .list (ofItems items)
  | .object fields => .map (ofFields fields)
termination_by structural json => json

/-- The values of the items of an array. -/
def ofItems : List Json → List Value
  | [] => []
  | item :: rest => ofJson item :: ofItems rest
termination_by structural items => items

/-- The values of the fields of an object. -/
def ofFields : List (String × Json) → List (String × Value)
  | [] => []
  | (key, field) :: rest => (key, ofJson field) :: ofFields rest
termination_by structural fields => fields

end

end Value

end LiveTemplate
