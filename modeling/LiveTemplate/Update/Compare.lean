import LiveTemplate.Update.Basic
import LiveTemplate.Update.Options

/-!
# Comparing renders

`RenderTree.compare` finds, for every node that differs between two renders, the smallest update
that a client can make.

* A slot whose content has another shape is replaced. The shape of a tree or list is its texts.
* The slots of a tree are compared one by one; the changes are sent by key, or as markers where only
  texts changed and markers are shorter.
* A list is sent as new items by index, as list edits or as a whole, whichever is shortest.
* A node in which texts and slots do not fit together is replaced.
-/

namespace LiveTemplate

/-! ## Markers -/

namespace Slot

mutual

/-- The markers for the texts that differ between two slots of one shape, with the number of the
first text slot given, and the number of the next one. -/
def textMarkers? (position : Nat) : Slot → Slot → Option (Nat × List Marker)
  | .empty, .empty => some (position, [])
  | .text old, .text new =>
    some (position + 1, if old = new then [] else [⟨position, new⟩])
  | .tree oldStatics old, .tree newStatics new =>
    if oldStatics = newStatics then slotMarkers? position old new else none
  | _, _ => none
termination_by structural slot => slot

/-- The markers for the texts that differ between the slots of two trees of one shape. -/
def slotMarkers? (position : Nat) : List Slot → List Slot → Option (Nat × List Marker)
  | [], [] => some (position, [])
  | old :: olds, new :: news => do
    let (position, markers) ← textMarkers? position old new
    let (position, others) ← slotMarkers? position olds news
    some (position, markers ++ others)
  | _, _ => none
termination_by structural slots => slots

end

end Slot

/-! ## Choice -/

namespace Update

/-- Whether an update is sent rather than another: it is shorter, or as long and of a strategy that
comes before. -/
def preferred (first second : Update) : Bool :=
  let sizes := (first.size, second.size)
  sizes.1 < sizes.2 || (sizes.1 == sizes.2 && first.strategy.rank < second.strategy.rank)

/-- The best of some updates. -/
def best (first : Update) (others : List Update) : Update :=
  others.foldl (fun chosen update => if update.preferred chosen then update else chosen) first

/-- The update of a tree whose changed slots are known. -/
def ofTree (options : UpdateOptions) (statics : List String) (old new : List Slot)
    (changes : List (Nat × Update)) : Update :=
  if !Slot.slotsFit statics old || !Slot.slotsFit statics new then .replace (.tree statics new)
  else if !options.markers || Slot.anyList old || Slot.anyList new then .keyed changes
  else
    match Slot.slotMarkers? 0 old new with
    | none => .keyed changes
    | some (_, found) =>
      if (Update.markers found).size < (Update.keyed changes).size then .markers found
      else .keyed changes

/-- The items of a list that differ from those of another list, with the index of the first one
given. -/
def changedItems (index : Nat) : List (List Slot) → List (List Slot) → List (Nat × List Slot)
  | old :: olds, new :: news =>
    let rest := changedItems (index + 1) olds news
    if old = new then rest else (index, new) :: rest
  | _, _ => []

/-- The updates by which a list can be sent other than as a whole. -/
def listCandidates (options : UpdateOptions) (old new : List (List Slot)) : List Update :=
  let byIndex :=
    if old.length = new.length then [.items (changedItems 0 old new)] else []
  let byEdits :=
    if options.edits then
      match ListEdit.between? old new with
      | some found =>
        if options.budget.allows found.length old.length new.length then [.edits found] else []
      | none => []
    else []
  byIndex ++ byEdits

/-- The update of a list. -/
def ofList (options : UpdateOptions) (statics : List String) (old new : List (List Slot)) :
    Update :=
  let whole := .replace (.list statics new)
  if !Slot.itemsFit statics old || !Slot.itemsFit statics new then whole
  else best whole (listCandidates options old new)

end Update

/-! ## Comparison -/

namespace Slot

mutual

/-- The update from one content of a slot to another, none if they are equal. -/
def compare (options : UpdateOptions) (old new : Slot) : Option Update :=
  if old = new then none
  else
    match old, new with
    | .text _, .text content => some (.text content)
    | .tree oldStatics oldSlots, .tree newStatics newSlots =>
      if oldStatics = newStatics then
        some (.ofTree options newStatics oldSlots newSlots
          (compareSlots options 0 oldSlots newSlots))
      else some (.replace new)
    | .list oldStatics oldItems, .list newStatics newItems =>
      if oldStatics = newStatics then some (.ofList options newStatics oldItems newItems)
      else some (.replace new)
    | _, _ => some (.replace new)
termination_by structural old

/-- The updates of the slots that differ, the first of which has the given key. -/
def compareSlots (options : UpdateOptions) (key : Nat) (olds news : List Slot) :
    List (Nat × Update) :=
  match olds, news with
  | old :: olds, new :: news =>
    ((compare options old new).map fun update => (key, update)).toList ++
      compareSlots options (key + 1) olds news
  | _, _ => []
termination_by structural olds

end

end Slot

namespace RenderTree

/-- The update from one render to another. -/
def compare (options : UpdateOptions) (old new : RenderTree) : RootUpdate :=
  if !old.wellFormed || !new.wellFormed || old.statics != new.statics then .replace new
  else .slots (Slot.compareSlots options 0 old.slots new.slots)

/-- The fragments that bring a client from one render to another. -/
def fragments (options : UpdateOptions) (old new : RenderTree) : List Fragment :=
  (compare options old new).fragments

end RenderTree

end LiveTemplate
