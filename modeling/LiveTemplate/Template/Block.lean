import LiveTemplate.Action.Pipeline
import LiveTemplate.Key.Path
import LiveTemplate.Source.Span
import LiveTemplate.Template.Node

/-!
# Blocks and their layout

A block is a body without its definitions, in which each invocation holds the block that it
includes. Each block is laid out on its own by `Block.layout`: the literals between slots merge into
statics, and the parts that print something get the slot keys 0, 1, 2, … in order. Keys are counted
in words, so that they start again at 0 in a block of more slots than there are words.
-/

namespace LiveTemplate

/-- A part of a block. A `bind` gives names to a value and prints nothing. -/
inductive Part where
  | literal (text : String)
  | print (pipeline : Pipeline) (span : Span)
  | bind (pipeline : Pipeline) (span : Span)
  | branch (kind : BranchKind) (head : Pipeline) (body : List Part)
      (otherwise : Option (List Part)) (span : Span)
  | include (name : String) (argument : Option Pipeline) (body : List Part) (span : Span)

/-- Parts in order. -/
abbrev Block := List Part

/-! ## Layout -/

/-- The texts around the slots of a block, and the slot key of each of its parts that has one. -/
structure Layout where
  statics : List String
  keys : List (Option Nat)
  deriving DecidableEq, Repr

namespace Layout

/-- The number of slots: there is one text more. -/
def slotCount (layout : Layout) : Nat :=
  layout.statics.length - 1

end Layout

namespace Part

/-- Whether a part has a slot. -/
def hasSlot : Part → Bool
  | .literal _ => false
  | .bind _ _ => false
  | _ => true

end Part

namespace Block

/-- The layout of the rest of a block: `pending` is the text since the last slot, `next` the key of
the next one. -/
def layoutFrom (pending : String) (next : Nat) : Block → Layout
  | [] => ⟨[pending], []⟩
  | .literal text :: rest =>
    let layout := layoutFrom (pending ++ text) next rest
    ⟨layout.statics, none :: layout.keys⟩
  | .bind _ _ :: rest =>
    let layout := layoutFrom pending next rest
    ⟨layout.statics, none :: layout.keys⟩
  | _ :: rest =>
    let layout := layoutFrom "" (toWord (next + 1)) rest
    ⟨pending :: layout.statics, some next :: layout.keys⟩

/-- The layout of a block. -/
def layout (block : Block) : Layout :=
  layoutFrom "" 0 block

/-- The texts around the slots of a block. -/
def statics (block : Block) : List String :=
  (layout block).statics

end Block

end LiveTemplate
