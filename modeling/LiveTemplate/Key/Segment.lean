import LiveTemplate.Key.Path
import LiveTemplate.Number.Decimal

/-!
# Reading ids

The id of a fragment is a path of keys with dots between them. `KeyPath.segments` cuts an id at its
dots; `KeyPath.keyOfSegment?` reads one key.
-/

namespace LiveTemplate.KeyPath

/-- The pieces of a text between its dots. -/
def splitDots : List Char → List (List Char)
  | [] => [[]]
  | c :: rest =>
    if c = '.' then [] :: splitDots rest
    else
      match splitDots rest with
      | [] => [[c]]
      | segment :: others => (c :: segment) :: others

/-- The segments of an id. The empty id has none. -/
def segments (id : String) : List (List Char) :=
  if id = "" then [] else splitDots id.toList

/-- The number of keys: a client counts slots in words of 64 bits. -/
def keyLimit : Nat := 0x10000000000000000

/-- The key that a segment denotes: a decimal number, leading zeros allowed. -/
def keyOfSegment? (segment : List Char) : Option Nat :=
  if segment.isEmpty || !segment.all Char.isDigit then none
  else
    let key := Double.digitsValue segment
    if key < keyLimit then some key else none

end LiveTemplate.KeyPath
