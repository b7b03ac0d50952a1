import LiveTemplate.Template.Error

/-!
# Names in scope

Which functions and variables a pipeline may use where it stands. `Scope.afterPipeline` checks a
pipeline and gives the scope for what follows it in the same body.
-/

namespace LiveTemplate

/-- The functions that exist and the variables that are declared, the innermost first. -/
structure Scope where
  hasFunction : String → Bool
  declared : List String

namespace Scope

/-- The scope with one more variable. -/
def declare (scope : Scope) (name : String) : Scope :=
  { scope with declared := name :: scope.declared }

/-- A function is defined. -/
def checkFunction (scope : Scope) (name : String) : Except ParseProblem Unit :=
  if scope.hasFunction name then .ok () else .error (.unknownFunction name)

/-- A variable is declared. -/
def checkVariable (scope : Scope) (name : String) : Except ParseProblem Unit :=
  if scope.declared.contains name then .ok () else .error (.undefinedVariable name)

mutual

/-- All names in an operand are in scope. -/
def checkOperand (scope : Scope) : Operand → Except ParseProblem Unit
  | .function name => scope.checkFunction name
  | .variable name _ => if name = "" then .ok () else scope.checkVariable name
  | .group commands => checkCommands scope commands
  | .dot => .ok ()
  | .field _ => .ok ()
  | .literal _ => .ok ()
termination_by structural operand => operand

/-- All names in a command are in scope. -/
def checkCommand (scope : Scope) : Command → Except ParseProblem Unit
  | .call function arguments => do
    scope.checkFunction function
    checkOperands scope arguments
  | .operand value => checkOperand scope value
termination_by structural command => command

/-- All names in operands are in scope. -/
def checkOperands (scope : Scope) : List Operand → Except ParseProblem Unit
  | [] => .ok ()
  | operand :: rest => do
    checkOperand scope operand
    checkOperands scope rest
termination_by structural operands => operands

/-- All names in commands are in scope. -/
def checkCommands (scope : Scope) : List Command → Except ParseProblem Unit
  | [] => .ok ()
  | command :: rest => do
    checkCommand scope command
    checkCommands scope rest
termination_by structural commands => commands

end

/-- The scope after a binding of at most one name. -/
def afterBinding (scope : Scope) (binding : Binding) : Except ParseProblem Scope :=
  match binding.names with
  | [] => .ok scope
  | [name] =>
    match binding.kind with
    | .declare => .ok (scope.declare name)
    | .assign => do
      scope.checkVariable name
      .ok scope
  | _ => .error .tooManyNames

/-- The scope after a pipeline whose names are all in scope. -/
def afterPipeline (scope : Scope) (pipeline : Pipeline) : Except ParseProblem Scope := do
  scope.checkCommands pipeline.commands
  match pipeline.binding with
  | none => .ok scope
  | some binding => scope.afterBinding binding

/-- The scope of the items of a loop. Its names are new there, whatever their mark. -/
def inLoop (scope : Scope) (head : Pipeline) : Except ParseProblem Scope := do
  scope.checkCommands head.commands
  match head.binding with
  | none => .ok scope
  | some binding => .ok (binding.names.foldl declare scope)

end Scope

end LiveTemplate
