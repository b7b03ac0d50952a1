import LiveTemplate.Action.Pipeline
import LiveTemplate.Source.Span

/-!
# Template trees

What a source is before its definitions are looked up: literal text, printed pipelines, branches
with their bodies, definitions, and invocations of definitions.
-/

namespace LiveTemplate

/-- What a branching node does with the value of its head. -/
inductive BranchKind where
  | test
  | loop
  | scope
  deriving DecidableEq, Repr

/-- The constructs that an `end` closes. -/
inductive Construct where
  | branch (kind : BranchKind)
  | define
  | block
  deriving DecidableEq, Repr

namespace BranchKind

/-- The word that opens a branch. -/
def text : BranchKind → String
  | .test => "if"
  | .loop => "range"
  | .scope => "with"

end BranchKind

namespace Construct

/-- The word that opens a construct. -/
def text : Construct → String
  | .branch kind => kind.text
  | .define => "define"
  | .block => "block"

end Construct

/-- A node of a template tree. The `otherwise` body of a branch is what follows its `else`. -/
inductive Node where
  | literal (slice : Slice)
  | print (pipeline : Pipeline) (span : Span)
  | branch (kind : BranchKind) (head : Pipeline) (body : List Node)
      (otherwise : Option (List Node)) (span : Span)
  | define (name : String) (body : List Node) (span : Span)
  | invoke (name : String) (argument : Option Pipeline) (span : Span)

namespace Node

/-- The bytes of the source that a node covers, from its opening action to its `end`. -/
def span : Node → Span
  | .literal slice => slice.span
  | .print _ span => span
  | .branch _ _ _ _ span => span
  | .define _ _ span => span
  | .invoke _ _ span => span

end Node

end LiveTemplate
