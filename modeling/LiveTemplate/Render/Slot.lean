import LiveTemplate.Key.Path

/-!
# Render trees

What a template becomes for some data: fixed texts with slots between them. A server compares two
render trees of one template, and a client keeps one to bring it up to date.

* `Slot.text`: the texts and the contents of the slots in turn.
* `Slot.decEq`: render trees can be told apart.
* `RenderTree.validate`: at every level there is one text more than there are slots.
-/

namespace LiveTemplate

/-- What a slot holds: nothing, a text, a tree of its own, or a list of items that share the texts
around their slots. -/
inductive Slot where
  | empty
  | text (content : String)
  | tree (statics : List String) (slots : List Slot)
  | list (statics : List String) (items : List (List Slot))
  deriving Inhabited

/-- The render of a whole template. -/
structure RenderTree where
  statics : List String
  slots : List Slot

/-- A render tree as the content of a slot. -/
def RenderTree.toSlot (tree : RenderTree) : Slot :=
  .tree tree.statics tree.slots

namespace Slot

/-! ## Equality -/

mutual

/-- Whether two slots hold the same. -/
def same : Slot → Slot → Bool
  | .empty, .empty => true
  | .text a, .text b => a == b
  | .tree s a, .tree t b => s == t && sameSlots a b
  | .list s a, .list t b => s == t && sameItems a b
  | _, _ => false
termination_by structural slot => slot

/-- Whether the slots of two trees or items hold the same. -/
def sameSlots : List Slot → List Slot → Bool
  | [], [] => true
  | a :: as, b :: bs => same a b && sameSlots as bs
  | _, _ => false
termination_by structural slots => slots

/-- Whether the items of two lists hold the same. -/
def sameItems : List (List Slot) → List (List Slot) → Bool
  | [], [] => true
  | a :: as, b :: bs => sameSlots a b && sameItems as bs
  | _, _ => false
termination_by structural items => items

end

mutual

theorem same_iff (a b : Slot) : same a b = true ↔ a = b := by
  cases a <;> cases b <;>
    simp [same, sameSlots_iff, sameItems_iff]
termination_by structural a

theorem sameSlots_iff (as bs : List Slot) : sameSlots as bs = true ↔ as = bs := by
  cases as <;> cases bs <;> simp [sameSlots, same_iff, sameSlots_iff]
termination_by structural as

theorem sameItems_iff (as bs : List (List Slot)) : sameItems as bs = true ↔ as = bs := by
  cases as <;> cases bs <;> simp [sameItems, sameSlots_iff, sameItems_iff]
termination_by structural as

end

instance decEq : DecidableEq Slot := fun a b =>
  decidable_of_iff (same a b = true) (same_iff a b)

end Slot

deriving instance DecidableEq for RenderTree

/-! ## Text -/

/-- Texts with the contents of slots between them, for as long as there are texts. -/
def interleave : List String → List String → String
  | [], _ => ""
  | static :: statics, [] => static ++ interleave statics []
  | static :: statics, content :: contents => static ++ (content ++ interleave statics contents)

namespace Slot

mutual

/-- What a slot shows. -/
def display : Slot → String
  | .empty => ""
  | .text content => content
  | .tree statics slots => interleave statics (displaySlots slots)
  | .list statics items => String.join (displayItems statics items)
termination_by structural slot => slot

/-- What each of several slots shows. -/
def displaySlots : List Slot → List String
  | [] => []
  | slot :: rest => display slot :: displaySlots rest
termination_by structural slots => slots

/-- What each item of a list shows. -/
def displayItems (statics : List String) : List (List Slot) → List String
  | [] => []
  | item :: rest => interleave statics (displaySlots item) :: displayItems statics rest
termination_by structural items => items

end

/-! ## Lists inside -/

mutual

/-- Whether a slot holds a list at any depth. -/
def hasList : Slot → Bool
  | .empty => false
  | .text _ => false
  | .tree _ slots => anyList slots
  | .list _ _ => true
termination_by structural slot => slot

/-- Whether one of several slots holds a list at any depth. -/
def anyList : List Slot → Bool
  | [] => false
  | slot :: rest => hasList slot || anyList rest
termination_by structural slots => slots

end

/-- Whether the items of a list all have as many slots as the texts around them ask for. -/
def itemsFit (statics : List String) (items : List (List Slot)) : Bool :=
  !statics.isEmpty && items.all fun item => item.length == statics.length - 1

/-- Whether a tree has one text more than it has slots. -/
def slotsFit (statics : List String) (slots : List Slot) : Bool :=
  statics.length == slots.length + 1

end Slot

/-! ## Validation -/

/-- A level of a render tree at which texts and slots do not fit together. -/
inductive ShapeViolation where
  | treeMismatch (path : KeyPath) (statics slots : Nat)
  | itemMismatch (path : KeyPath) (item statics slots : Nat)
  deriving DecidableEq, Repr

/-- The wording of a violation. -/
def ShapeViolation.message : ShapeViolation → String
  | .treeMismatch path statics slots =>
    toString statics ++ " statics for " ++ toString slots ++ " dynamics at `" ++ path.text ++ "`"
  | .itemMismatch path item statics slots =>
    "comprehension item " ++ toString item ++ " at `" ++ path.text ++ "` has " ++ toString slots ++
      " dynamics for " ++ toString statics ++ " statics"

namespace Slot

mutual

/-- Checks a slot and all that it holds. -/
def validate (path : KeyPath) : Slot → Except ShapeViolation Unit
  | .empty => .ok ()
  | .text _ => .ok ()
  | .tree statics slots =>
    if slotsFit statics slots then validateSlots path 0 slots
    else .error (.treeMismatch path statics.length slots.length)
  | .list statics items => validateItems path statics 0 items
termination_by structural slot => slot

/-- Checks slots, the first of which has the given key. -/
def validateSlots (path : KeyPath) (key : Nat) : List Slot → Except ShapeViolation Unit
  | [] => .ok ()
  | slot :: rest => do
    validate (path.child key) slot
    validateSlots path (key + 1) rest
termination_by structural slots => slots

/-- Checks the items of a list, the first of which has the given index. -/
def validateItems (path : KeyPath) (statics : List String) (index : Nat) :
    List (List Slot) → Except ShapeViolation Unit
  | [] => .ok ()
  | item :: rest => do
    if slotsFit statics item then validateSlots path 0 item
    else .error (.itemMismatch path index statics.length item.length)
    validateItems path statics (index + 1) rest
termination_by structural items => items

end

end Slot

namespace RenderTree

/-- What a render shows. -/
def text (tree : RenderTree) : String :=
  tree.toSlot.display

/-- Checks a render tree at every level. -/
def validate (tree : RenderTree) : Except ShapeViolation Unit :=
  tree.toSlot.validate []

/-- Whether the top level of a render tree has one text more than it has slots. -/
def wellFormed (tree : RenderTree) : Bool :=
  Slot.slotsFit tree.statics tree.slots

/-- Whether a render tree holds a list. -/
def hasList (tree : RenderTree) : Bool :=
  Slot.anyList tree.slots

end RenderTree

end LiveTemplate
