import LiveTemplate.Eval.Pipeline

/-!
# Evaluation with variables

An `Evaluating` computation reads and changes the variables that are declared where it runs, and may
fail with an error that has a place.

* `inScope` drops what a computation declares; the values that it assigns to variables from outside
  stay.
* `isolated` runs a computation without variables and brings back all of them.
-/

namespace LiveTemplate

/-- A computation with variables. -/
abbrev Evaluating := StateT Variables (Except EvaluationError)

namespace Evaluating

/-- The result of a step in the node that a span covers. -/
def check {α : Type} (span : Span) (result : Except EvaluationProblem α) : Evaluating α :=
  match result with
  | .ok value => pure value
  | .error problem => throw ⟨problem, span⟩

/-- Evaluates a pipeline and binds its names. -/
def run (env : Environment) (pipeline : Pipeline) (span : Span) : Evaluating Value := do
  let (value, vars) ← check span (pipeline.run env (← get))
  set vars
  pure value

/-- The keys and items of a loop. Its names are not bound yet. -/
def entries (env : Environment) (head : Pipeline) (span : Span) :
    Evaluating (List (Value × Value)) := do
  let value ← check span (head.value env (← get))
  check span (loopEntries value)

/-- Evaluates the argument of an inclusion, nil if it has none. -/
def argument (env : Environment) (pipeline : Option Pipeline) (span : Span) : Evaluating Value :=
  match pipeline with
  | some pipeline => run env pipeline span
  | none => pure .null

/-- Drops the variables that a computation declares. -/
def inScope {α : Type} (computation : Evaluating α) : Evaluating α := do
  let count := (← get).length
  let result ← computation
  modify (Variables.keepOuter count)
  pure result

/-- Runs a computation without the variables around it. -/
def isolated {α : Type} (computation : Evaluating α) : Evaluating α := do
  let outer ← get
  set ([] : Variables)
  let result ← computation
  set outer
  pure result

/-- Runs a round of a loop for each of its entries. -/
def rounds {α : Type} (binding : Option Binding) (entries : List (Value × Value))
    (round : Value → Evaluating α) : Evaluating (List α) :=
  entries.mapM fun (key, item) => inScope do
    modify (bindRound binding key item)
    round item

/-- The result of a computation that starts without variables. -/
def result {α : Type} (computation : Evaluating α) : Except EvaluationError α :=
  computation.run' []

end Evaluating

end LiveTemplate
