import LiveTemplate.Eval.Error
import LiveTemplate.Eval.Variables

/-!
# Evaluating pipelines

* `commandsValue`: each command takes the value of the one before it as its last argument.
* `applyFunction`: a function applied to the results of its arguments. The names `and` and `or` stop
  at the first argument that decides, so that a failure after it does not count.
* `Pipeline.run`: the value of a pipeline and the variables after its binding.
* `loopEntries`: what a loop walks over.
-/

namespace LiveTemplate

/-- What a pipeline is evaluated against: the data of the whole template, the current data and the
functions. -/
structure Environment where
  root : Value
  dot : Value
  functions : FunctionTable

/-! ## Fields and functions -/

/-- The value at the end of a path of fields. -/
def follow (value : Value) : List String → Except EvaluationProblem Value
  | [] => .ok value
  | field :: path =>
    match value with
    | .map entries =>
      match entries.lookup field with
      | some inner => follow inner path
      | none => .error (.missingField field)
    | other => .error (.notAMap field other.typeName)

/-- The truth value at which a name stops looking at its arguments, if it is `and` or `or`. -/
def decisive? (name : String) : Option Bool :=
  if name = "and" then some false else if name = "or" then some true else none

/-- The first argument with the decisive truth value; if none has it, the piped value or else the
last argument. -/
def firstDecisive (decisive : Bool) (piped : Option Value) (last : Value) :
    List (Except EvaluationProblem Value) → Except EvaluationProblem Value
  | [] => .ok (piped.getD last)
  | result :: rest => do
    let value ← result
    if value.truthy = decisive then .ok value else firstDecisive decisive piped value rest

/-- The value of a function for the results of its arguments and the piped value. -/
def applyFunction (functions : FunctionTable) (name : String)
    (results : List (Except EvaluationProblem Value)) (piped : Option Value) :
    Except EvaluationProblem Value :=
  match decisive? name with
  | some decisive =>
    if results.isEmpty && piped.isNone then .error (.call name (.arity "at least 1" 0))
    else firstDecisive decisive piped .null results
  | none =>
    match functions.get? name with
    | none => .error (.unknownFunction name)
    | some function => do
      let arguments ← results.mapM id
      (function (arguments ++ piped.toList)).mapError (.call name)

/-! ## Operands and commands -/

/-- The value of a constant. -/
def Literal.value : Literal → Value
  | .nil => .null
  | .bool b => .bool b
  | .int i => .int i
  | .float x => .float x
  | .text s => .text s

mutual

/-- The value of an operand. -/
def operandValue (env : Environment) (vars : Variables) :
    Operand → Except EvaluationProblem Value
  | .dot => .ok env.dot
  | .field path => follow env.dot path
  | .variable name path =>
    if name = "" then follow env.root path
    else
      match vars.lookup name with
      | some value => follow value path
      | none => .error (.undefinedVariable name)
  | .literal constant => .ok constant.value
  | .function name => applyFunction env.functions name [] none
  | .group commands => commandsValue env vars none commands
termination_by structural operand => operand

/-- The value of a command that gets a piped value, or none if it is the first one. -/
def commandValue (env : Environment) (vars : Variables) (piped : Option Value) :
    Command → Except EvaluationProblem Value
  | .call function arguments =>
    applyFunction env.functions function (operandResults env vars arguments) piped
  | .operand operand =>
    match operand, piped with
    | .function name, _ => applyFunction env.functions name [] piped
    | _, none => operandValue env vars operand
    | _, some _ => .error (.notCallable operand.describe)
termination_by structural command => command

/-- What evaluating each of several operands gives. -/
def operandResults (env : Environment) (vars : Variables) :
    List Operand → List (Except EvaluationProblem Value)
  | [] => []
  | operand :: rest =>
    operandValue env vars operand :: operandResults env vars rest
termination_by structural operands => operands

/-- The value of the last command, each one being given the value of the one before it. -/
def commandsValue (env : Environment) (vars : Variables) (piped : Option Value) :
    List Command → Except EvaluationProblem Value
  | [] => .ok (piped.getD .null)
  | command :: rest => do
    let value ← commandValue env vars piped command
    commandsValue env vars (some value) rest
termination_by structural commands => commands

end

/-! ## Pipelines -/

namespace Pipeline

/-- The value of a pipeline, its binding aside. -/
def value (pipeline : Pipeline) (env : Environment) (vars : Variables) :
    Except EvaluationProblem Value :=
  commandsValue env vars none pipeline.commands

/-- Gives a value to a name. -/
def bind (kind : BindingKind) (value : Value) (vars : Variables) (name : String) :
    Except EvaluationProblem Variables :=
  match kind with
  | .declare => .ok (vars.declare name value)
  | .assign =>
    match vars.assign? name value with
    | some vars => .ok vars
    | none => .error (.undefinedVariable name)

/-- The variables after a binding of a value. -/
def bindAll (binding : Option Binding) (value : Value) (vars : Variables) :
    Except EvaluationProblem Variables :=
  match binding with
  | none => .ok vars
  | some binding => binding.names.foldlM (bind binding.kind value) vars

/-- The value of a pipeline and the variables after it. -/
def run (pipeline : Pipeline) (env : Environment) (vars : Variables) :
    Except EvaluationProblem (Value × Variables) := do
  let value ← pipeline.value env vars
  let vars ← bindAll pipeline.binding value vars
  .ok (value, vars)

end Pipeline

/-! ## Loops -/

/-- The keys and items that a loop walks over. A number counts from zero up to itself. -/
def loopEntries : Value → Except EvaluationProblem (List (Value × Value))
  | .null => .ok []
  | .list items => .ok (items.zipIdx.map fun (item, i) => (.int i, item))
  | .map entries => .ok ((Value.sortEntries entries).map fun (key, item) => (.text key, item))
  | .int count => .ok ((List.range count.toNat).map fun (i : Nat) => (.int i, .int i))
  | other => .error (.cannotIterate other.typeName)

/-- The variables for one round of a loop: a single name is the item, two names are the key and the
item. -/
def bindRound (binding : Option Binding) (key item : Value) (vars : Variables) : Variables :=
  match binding.map Binding.names with
  | some [name] => vars.declare name item
  | some (keyName :: name :: _) => (vars.declare keyName key).declare name item
  | _ => vars

end LiveTemplate
