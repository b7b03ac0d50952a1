import LiveTemplate.Template.Block

/-!
# The slot keys of a template by position

A `Position` leads from the root of a template to a part of it, through the bodies of branches and
of included definitions. `Block.assignKeys` lists every part that has a slot with its key, in the
order of the document: a part, then its body, then its second body, then the parts after it.
-/

namespace LiveTemplate

/-- A step from a block to one of its parts, or from a part to one of its bodies. -/
inductive PositionStep where
  | part (index : Nat)
  | body
  | otherwise
  deriving DecidableEq, Repr

/-- The step to the part at an index of a block, which is kept as a word. -/
def PositionStep.toPart (index : Nat) : PositionStep :=
  .part (toWord index)

/-- How a step is written. -/
def PositionStep.text : PositionStep → String
  | .part index => toString index
  | .body => "body"
  | .otherwise => "else"

/-- Steps from the root of a template. -/
abbrev Position := List PositionStep

/-- How a position is written. -/
def Position.text (position : Position) : String :=
  "/".intercalate (position.map PositionStep.text)

/-- A slot key that two parts of one block have, and the position of the second one. -/
structure KeyCollision where
  position : Position
  key : Nat
  deriving DecidableEq, Repr

/-- The wording of a collision. -/
def KeyCollision.message (collision : KeyCollision) : String :=
  "slot key " ++ toString collision.key ++ " assigned twice at `" ++ collision.position.text ++ "`"

/-- The keys of the parts that have slots. -/
abbrev KeyList := List (Position × Nat)

mutual

/-- The keys inside a part. -/
def Part.innerKeys (position : Position) : Part → Except KeyCollision KeyList
  | .branch _ _ body otherwise _ => do
    let inBody ← blockKeys (position ++ [.body]) 0 [] (Block.layout body).keys body
    let inElse ← elseKeys (position ++ [.otherwise]) otherwise
    .ok (inBody ++ inElse)
  | .include _ _ body _ =>
    blockKeys (position ++ [.body]) 0 [] (Block.layout body).keys body
  | .literal _ => .ok []
  | .print _ _ => .ok []
  | .bind _ _ => .ok []
termination_by structural part => part

/-- The keys in the parts of a block from an index on. `seen` are the keys of the parts before them,
`keys` those of the parts themselves. -/
def blockKeys (position : Position) (index : Nat) (seen : List Nat) (keys : List (Option Nat)) :
    List Part → Except KeyCollision KeyList
  | [] => .ok []
  | part :: rest => do
    let here := position ++ [.toPart index]
    let own ← match keys.head?.join with
      | none => .ok []
      | some key =>
        if key ∈ seen then .error ⟨here, key⟩ else .ok [(here, key)]
    let inner ← part.innerKeys here
    let others ← blockKeys position (index + 1) (own.map (·.2) ++ seen) keys.tail rest
    .ok (own ++ inner ++ others)
termination_by structural parts => parts

/-- The keys in the second body of a branch, if it has one. -/
def elseKeys (position : Position) : Option (List Part) → Except KeyCollision KeyList
  | none => .ok []
  | some parts => blockKeys position 0 [] (Block.layout parts).keys parts
termination_by structural parts => parts

end

/-- The keys of all parts of a template that have slots, by position. -/
def Block.assignKeys (root : Block) : Except KeyCollision KeyList :=
  blockKeys [] 0 [] (Block.layout root).keys root

end LiveTemplate
