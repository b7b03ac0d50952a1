import LiveTemplate.Number.Decimal

/-!
# JSON values

The values that travel between a server and its clients. The fields of an object stand in
increasing order of their keys, each key once: `Json.ofFields` brings any list of fields into that
form, the last field of a key winning. A number is an integer or a double, as its text decides.

A record is read from an object with its fields by name, or from an array with their values in order
(`Json.recordOf?`); one that comes in several kinds also tells its kind (`Json.tagged?`).
-/

namespace LiveTemplate

/-- A JSON value. -/
inductive Json where
  | null
  | bool (value : Bool)
  | integer (value : Int)
  | real (value : Double)
  | text (value : String)
  | array (items : List Json)
  | object (fields : List (String × Json))
  deriving Inhabited

namespace Json

/-! ## Objects -/

/-- Puts a field in its place among fields sorted by key, replacing a field of the same key. -/
def insertField (key : String) (value : Json) : List (String × Json) → List (String × Json)
  | [] => [(key, value)]
  | (k, v) :: rest =>
    if key < k then (key, value) :: (k, v) :: rest
    else if key = k then (key, value) :: rest
    else (k, v) :: insertField key value rest

/-- The sorted form of a list of fields. -/
def sortFields (fields : List (String × Json)) : List (String × Json) :=
  fields.foldl (fun sorted (key, value) => insertField key value sorted) []

/-- The object with the given fields, the last one winning among fields of one key. -/
def ofFields (fields : List (String × Json)) : Json :=
  .object (sortFields fields)

/-- The value of a field of an object. -/
def field? (key : String) : Json → Option Json
  | .object fields => fields.lookup key
  | _ => none

/-! ## Readers -/

/-- The number of values of an unsigned integer of 32 bits. -/
def limit32 : Nat := 0x100000000

/-- The number of values of an unsigned integer of 64 bits. -/
def limit64 : Nat := 0x10000000000000000

/-- A natural number below a limit. -/
def natBelow? (limit : Nat) : Json → Option Nat
  | .integer (.ofNat n) => if n < limit then some n else none
  | _ => none

/-- A string. -/
def text? : Json → Option String
  | .text s => some s
  | _ => none

/-- A truth value. -/
def bool? : Json → Option Bool
  | .bool b => some b
  | _ => none

/-- A list, each item of which is read in the same way. -/
def listOf? {α : Type} (read : Json → Option α) : Json → Option (List α)
  | .array items => items.mapM read
  | _ => none

/-- The fields of a record: those of an object, or the values of an array under the given names in
order. An array may leave out names at the end but has no value beyond them. -/
def recordOf? (names : List String) : Json → Option (List (String × Json))
  | .object fields => some fields
  | .array values => if values.length ≤ names.length then some (names.zip values) else none
  | _ => none

/-- The kind of a tagged record and the record without it: an object with the kind in a field, or an
array with the kind in front. -/
def tagged? (tag : String) : Json → Option (String × Json)
  | .object fields => do
    let kind ← (← fields.lookup tag).text?
    some (kind, .object fields)
  | .array (.text kind :: values) => some (kind, .array values)
  | _ => none

/-- The value of a field, with a default if there is no such field. -/
def fieldOr {α : Type} (read : Json → Option α) (default : α) (name : String)
    (fields : List (String × Json)) : Option α :=
  match fields.lookup name with
  | some json => read json
  | none => some default

/-- The name of a constant: the name itself, or an object with that one key and no content. -/
def constant? : Json → Option String
  | .text name => some name
  | .object [(name, .null)] => some name
  | _ => none

end Json

end LiveTemplate
