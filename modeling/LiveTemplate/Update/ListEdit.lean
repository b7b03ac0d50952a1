/-!
# Edits of lists

An edit inserts, removes or moves one item of a list. `ListEdit.between?` finds the edits that turn
one list into another: items that both have are kept and moved into place, so that only new items
have to be sent.

* Each old item takes the first equal new item that no old item before it has taken.
* Old items without a partner are removed from the back to the front.
* Then the new list is built from the front: an item that is kept moves to its place, any other is
  inserted. A list of the new positions is changed along with the items, to find what is to move.
-/

namespace LiveTemplate

/-- One change of a list. Positions are those of the list as it stands when the edit is made. -/
inductive ListEdit (α : Type) where
  | insert (index : Nat) (item : α)
  | remove (index : Nat)
  | move (source target : Nat)
  deriving DecidableEq, Repr

namespace ListEdit

variable {α β : Type}

/-! ## Making edits -/

/-- Whether the positions of an edit exist in a list of the given length. -/
def inBounds (length : Nat) : ListEdit α → Bool
  | .insert index _ => index ≤ length
  | .remove index => index < length
  | .move source target => source < length && target < length

/-- The list after an edit whose positions exist. -/
def apply (items : List α) : ListEdit α → List α
  | .insert index item => items.insertIdx index item
  | .remove index => items.eraseIdx index
  | .move source target =>
    match items[source]? with
    | some item => (items.eraseIdx source).insertIdx target item
    | none => items

/-- The edit with its item read or written in another form, which may fail. -/
def mapItem {ε : Type} (f : α → Except ε β) : ListEdit α → Except ε (ListEdit β)
  | .insert index item => .insert index <$> f item
  | .remove index => .ok (.remove index)
  | .move source target => .ok (.move source target)

/-! ## Finding edits -/

/-- The new position of each old item, none for an item without a partner. The new items that may
still be taken are given with their positions. -/
def matchItems [DecidableEq α] (free : List (α × Nat)) : List α → List (Option Nat)
  | [] => []
  | item :: rest =>
    match free.find? (·.1 == item) with
    | some (_, index) => some index :: matchItems (free.eraseP (·.1 == item)) rest
    | none => none :: matchItems free rest

/-- The removals of the items without a new position, the last item first. The first item has the
given index. -/
def removals (index : Nat) : List (Option Nat) → List (ListEdit α)
  | [] => []
  | target :: rest =>
    removals (index + 1) rest ++ if target.isNone then [.remove index] else []

/-- The list after an edit, none if a position of the edit does not exist. -/
def applyOne? (items : List α) (edit : ListEdit α) : Option (List α) :=
  if edit.inBounds items.length then some (apply items edit) else none

/-- Bringing the next new item to its index. `kept` are the new positions of all items that are
kept, the working list those of the items as they stand, with the edits so far. -/
def place (kept : List Nat) (state : List Nat × List (ListEdit α)) (entry : α × Nat) :
    Option (List Nat × List (ListEdit α)) :=
  let (working, edits) := state
  let (item, index) := entry
  if index ∈ kept then do
    let source ← working.idxOf? index
    if source = index then some state
    else do
      let working ← applyOne? working (.move source index)
      some (working, edits ++ [.move source index])
  else do
    let working ← applyOne? working (.insert index index)
    some (working, edits ++ [.insert index item])

/-- Whether each of so many positions stands in its place. -/
def settled (length : Nat) (working : List Nat) : Bool :=
  working.length = length && working.zipIdx.all fun (target, index) => index = target

/-- The edits that turn one list into another when they are made in order. -/
def between? [DecidableEq α] (old new : List α) : Option (List (ListEdit α)) := do
  let targets := matchItems new.zipIdx old
  let kept := targets.filterMap id
  let (working, edits) ← new.zipIdx.foldlM (place kept) (kept, removals 0 targets)
  if settled new.length working then some edits else none

end ListEdit

end LiveTemplate
