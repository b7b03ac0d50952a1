/-!
# Slot keys and paths of them

The slots of a block have the keys 0, 1, 2, …, which are words of 32 bits. A path of keys, from the
top-level slots inwards, addresses a node of a render tree.
-/

namespace LiveTemplate

/-- The number of words. Slot keys are words, and so are the indexes of parts in positions. -/
def wordLimit : Nat := 0x100000000

/-- A number as a word. Behind the last word the count starts again at 0. -/
def toWord (n : Nat) : Nat :=
  n % wordLimit

/-- One slot key for each level of nesting. The empty path is the root. -/
abbrev KeyPath := List Nat

namespace KeyPath

/-- The path of a slot of the node that a path leads to. -/
def child (path : KeyPath) (key : Nat) : KeyPath :=
  path ++ [key]

/-- Whether a path leads to the root. -/
def isRoot (path : KeyPath) : Bool :=
  path.isEmpty

/-- A path as the id of a fragment: the keys with dots between them. -/
def text (path : KeyPath) : String :=
  ".".intercalate (path.map toString)

end KeyPath

end LiveTemplate
