import LiveTemplate.Action.Pipeline
import LiveTemplate.Eval.Function
import LiveTemplate.Source.Span
import LiveTemplate.Text.Quoted

/-!
# Why a template cannot be applied

An `EvaluationError` is a problem and the node in which it arose; `EvaluationProblem.message` is its
wording.
-/

namespace LiveTemplate

/-- A reason for which a pipeline has no value or a loop no items. -/
inductive EvaluationProblem where
  | missingField (field : String)
  | notAMap (field : String) (typeName : String)
  | cannotIterate (typeName : String)
  | notCallable (operand : String)
  | undefinedVariable (name : String)
  | unknownFunction (name : String)
  | call (function : String) (error : FunctionError)
  deriving DecidableEq, Repr

namespace EvaluationProblem

/-- The wording of a problem. -/
def message : EvaluationProblem → String
  | .missingField field => "map has no entry for key `" ++ field ++ "`"
  | .notAMap field typeName => "can't evaluate field `" ++ field ++ "` in type " ++ typeName
  | .cannotIterate typeName => "range can't iterate over " ++ typeName
  | .notCallable operand => "can't give argument to non-function " ++ operand
  | .undefinedVariable name => "undefined variable `$" ++ name ++ "`"
  | .unknownFunction name => "function `" ++ name ++ "` is not defined"
  | .call function (.arity expected found) =>
    "wrong number of args for " ++ function ++ ": want " ++ expected ++ " got " ++ toString found
  | .call function error => "error calling " ++ function ++ ": " ++ error.message

end EvaluationProblem

/-- A problem and where it arose. -/
structure EvaluationError where
  problem : EvaluationProblem
  span : Span
  deriving DecidableEq, Repr

/-! ## Operands in messages -/

/-- How a constant is named in a message. -/
def Literal.describe : Literal → String
  | .nil => "nil"
  | .bool true => "true"
  | .bool false => "false"
  | .int i => toString i
  | .float x => x.display
  | .text s => Text.quote s

/-- How an operand is named in a message. -/
def Operand.describe : Operand → String
  | .dot => "."
  | .field path => "." ++ ".".intercalate path
  | .variable name path => "$" ++ ".".intercalate (name :: path)
  | .literal value => value.describe
  | .function name => name
  | .group _ => "(pipeline)"

end LiveTemplate
