import LiveTemplate.Template.Directive

/-!
# Building the tree of a template

The pieces of a source are its literals and directives in order. `Builder.place` puts one piece into
the innermost open construct, and `Builder.finish` asks that none is left open.

* `else` opens the second body of a branch; a chain does so and opens another branch in it.
* `end` closes a construct, and with it the branches whose second bodies hold the chain.
-/

namespace LiveTemplate

/-! ## Pieces -/

/-- A literal, or a directive with the span of its action. -/
inductive Piece where
  | literal (slice : Slice)
  | directive (directive : Directive) (span : Span)

namespace Scan

/-- The literal that a gap leaves, as a list of at most one piece. -/
def gapPieces (gap : Gap) (trimBefore trimAfter : Bool) : List (Except Rejection Piece) :=
  ((gap.literal? trimBefore trimAfter).map fun slice => .ok (.literal slice)).toList

/-- The pieces after an action that trims or does not. -/
def piecesAfter (trimBefore : Bool) (last : Except ParseError Gap) :
    List (Gap × Action) → List (Except Rejection Piece)
  | [] =>
    match last with
    | .ok gap => gapPieces gap trimBefore false
    | .error e => [.error (.known e)]
  | (gap, action) :: rest =>
    gapPieces gap trimBefore action.trimBefore ++
      (Directive.ofAction action).map (.directive · action.span) ::
        piecesAfter action.trimAfter last rest

/-- The pieces of a source. What cannot be read stands as an error at its place. -/
def pieces (scan : Scan) : List (Except Rejection Piece) :=
  piecesAfter false scan.last scan.actions

end Scan

/-! ## Open constructs -/

/-- A construct without its `end` so far. Its bodies are in reverse order; `chained` tells that it
goes on with the chain of the construct around it. -/
structure OpenConstruct where
  head : Head
  span : Span
  body : List Node
  otherwise : Option (List Node)
  chained : Bool

namespace OpenConstruct

/-- A construct whose opener has just been read. -/
def start (head : Head) (span : Span) (chained : Bool) : OpenConstruct :=
  ⟨head, span, [], none, chained⟩

/-- The construct with a node added to the body that is being read. -/
def add (opened : OpenConstruct) (node : Node) : OpenConstruct :=
  match opened.otherwise with
  | some nodes => { opened with otherwise := some (node :: nodes) }
  | none => { opened with body := node :: opened.body }

/-- The nodes that a construct becomes when its `end` is read. A block is a definition and an
invocation of it. -/
def close (opened : OpenConstruct) (stop : Span) : List Node :=
  let span := opened.span.through stop
  let body := opened.body.reverse
  match opened.head with
  | .branch kind head => [.branch kind head body (opened.otherwise.map List.reverse) span]
  | .define name => [.define name body span]
  | .block name argument => [.define name body span, .invoke name argument span]

end OpenConstruct

/-- Closes the innermost construct, which the given nodes end, and all constructs that it continues.
Gives the nodes for the body around them, and the constructs that stay open. -/
def closeChain? (stop : Span) (last : List Node) :
    List OpenConstruct → Option (List Node × List OpenConstruct)
  | [] => none
  | opened :: outer =>
    let nodes := (last.foldl OpenConstruct.add opened).close stop
    if opened.chained then closeChain? stop nodes outer else some (nodes, outer)

/-! ## Building -/

/-- A tree under construction: the top-level nodes in reverse order, and the open constructs, the
innermost first. -/
structure Builder where
  root : List Node
  opened : List OpenConstruct

namespace Builder

/-- Nothing read yet. -/
def start : Builder :=
  ⟨[], []⟩

/-- Adds a node to the innermost body. -/
def add (builder : Builder) (node : Node) : Builder :=
  match builder.opened with
  | [] => ⟨node :: builder.root, []⟩
  | innermost :: outer => ⟨builder.root, innermost.add node :: outer⟩

/-- Opens a construct. -/
def enter (builder : Builder) (head : Head) (span : Span) (chained : Bool) : Builder :=
  ⟨builder.root, .start head span chained :: builder.opened⟩

/-- Goes on with the second body of the innermost branch. -/
def otherwise (builder : Builder) (span : Span) : Except ParseError Builder :=
  match builder.opened with
  | [] => .error ⟨.strayElse, span⟩
  | innermost :: outer =>
    let construct := innermost.head.construct
    match construct with
    | .branch _ =>
      if innermost.otherwise.isSome then .error ⟨.duplicateElse construct, span⟩
      else .ok ⟨builder.root, { innermost with otherwise := some [] } :: outer⟩
    | _ => .error ⟨.elseNotAllowed construct, span⟩

/-- Goes on with another branch of the same kind in the second body of the innermost one. -/
def chain (builder : Builder) (kind : BranchKind) (pipeline : Pipeline) (span : Span) :
    Except ParseError Builder :=
  if (builder.opened.head?.map fun opened => opened.head.construct) = some (.branch kind) then do
    let builder ← builder.otherwise span
    .ok (builder.enter (.branch kind pipeline) span true)
  else .error ⟨.strayChain kind, span⟩

/-- Closes the innermost construct together with its chain. -/
def close (builder : Builder) (span : Span) : Except ParseError Builder :=
  match closeChain? span [] builder.opened with
  | none => .error ⟨.strayEnd, span⟩
  | some (nodes, outer) => .ok (nodes.foldl add ⟨builder.root, outer⟩)

/-- Opens a construct where it is allowed: a definition stands at the top level only. -/
def opener (builder : Builder) (head : Head) (span : Span) : Except ParseError Builder :=
  if head.construct = .define ∧ builder.opened ≠ [] then .error ⟨.nestedDefine, span⟩
  else .ok (builder.enter head span false)

/-- Does what a directive asks for. -/
def direct (builder : Builder) (directive : Directive) (span : Span) : Except ParseError Builder :=
  match directive with
  | .comment => .ok builder
  | .print pipeline => .ok (builder.add (.print pipeline span))
  | .invoke name argument => .ok (builder.add (.invoke name argument span))
  | .opener head => builder.opener head span
  | .otherwise => builder.otherwise span
  | .chain kind pipeline => builder.chain kind pipeline span
  | .close => builder.close span

/-- Puts a piece in its place. -/
def place (builder : Builder) : Piece → Except ParseError Builder
  | .literal slice => .ok (builder.add (.literal slice))
  | .directive directive span => builder.direct directive span

/-- Puts a piece in its place if it could be read. -/
def placeRead (builder : Builder) (piece : Except Rejection Piece) : Except Rejection Builder := do
  (builder.place (← piece)).mapError .known

@[simp] theorem placeRead_ok (builder : Builder) (piece : Piece) :
    builder.placeRead (.ok piece) = (builder.place piece).mapError .known :=
  rfl

/-- The finished tree. Nothing may be open. -/
def finish (builder : Builder) : Except ParseError (List Node) :=
  match builder.opened with
  | [] => .ok builder.root.reverse
  | innermost :: _ => .error ⟨.unterminated innermost.head.construct, innermost.span⟩

end Builder

/-- The tree that pieces form, or the first error in their order. -/
def treeOfPieces (pieces : List (Except Rejection Piece)) : Except Rejection (List Node) := do
  let builder ← pieces.foldlM Builder.placeRead .start
  builder.finish.mapError .known

/-- The tree of a source. -/
def parse (source : String) : Except Rejection (List Node) :=
  treeOfPieces (Scan.ofSource source.toList).pieces

end LiveTemplate
