import LiveTemplate.Action.Literal
import LiveTemplate.Action.Token
import LiveTemplate.Template.Node

/-!
# Why a source is no template

A `ParseError` is a problem and the bytes that it concerns; `ParseProblem.message` is its wording.
The wording of a problem that a parser reports is its own.
-/

namespace LiveTemplate

/-- A reason for which a source cannot be compiled. -/
inductive ParseProblem where
  | unclosedAction
  | unclosedComment
  | emptyAction
  | reported (message : String)
  | literal (problem : LiteralProblem)
  | trailingComment
  | trailingToken (token : Token) (head : String)
  | tooManyNames
  | strayEnd
  | strayElse
  | strayChain (kind : BranchKind)
  | missingPipeline (head : String)
  | missingName (head : String)
  | duplicateElse (construct : Construct)
  | elseNotAllowed (construct : Construct)
  | nestedDefine
  | unterminated (construct : Construct)
  | duplicateDefinition (name : String)
  | unknownTemplate (name : String)
  | cyclicTemplate (chain : List String)
  | depthExceeded (limit : Nat)
  | unknownFunction (name : String)
  | undefinedVariable (name : String)
  deriving DecidableEq, Repr

namespace ParseProblem

/-- The wording of a problem. -/
def message : ParseProblem → String
  | .unclosedAction => "unclosed action"
  | .unclosedComment => "unclosed comment"
  | .emptyAction => "missing value for command"
  | .reported message => message
  | .literal problem => problem.message
  | .trailingComment => "comment ends before closing delimiter"
  | .trailingToken token head => "unexpected `" ++ token.display ++ "` in " ++ head
  | .tooManyNames => "too many declarations in command"
  | .strayEnd => "unexpected `end`"
  | .strayElse => "unexpected `else`"
  | .strayChain kind => "unexpected `else " ++ kind.text ++ "`"
  | .missingPipeline head => "`" ++ head ++ "` requires a pipeline"
  | .missingName head => "`" ++ head ++ "` requires a quoted template name"
  | .duplicateElse construct => "`else` after `else` in " ++ construct.text
  | .elseNotAllowed construct => "`else` is not allowed in " ++ construct.text
  | .nestedDefine => "`define` is only allowed at the top level"
  | .unterminated construct => "unterminated " ++ construct.text ++ ", missing `end`"
  | .duplicateDefinition name => "template `" ++ name ++ "` is defined more than once"
  | .unknownTemplate name => "no template named `" ++ name ++ "`"
  | .cyclicTemplate chain => "template cycle: " ++ " -> ".intercalate chain
  | .depthExceeded limit => "templates nested deeper than " ++ toString limit ++ " levels"
  | .unknownFunction name => "function `" ++ name ++ "` is not defined"
  | .undefinedVariable name => "undefined variable `$" ++ name ++ "`"

end ParseProblem

/-- A problem and where it is. -/
structure ParseError where
  problem : ParseProblem
  span : Span
  deriving DecidableEq, Repr

end LiveTemplate
