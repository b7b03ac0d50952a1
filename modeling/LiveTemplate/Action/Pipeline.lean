import LiveTemplate.Number.Double

/-!
# Pipelines

What an action computes. A pipeline is a list of commands, each of which hands its value to the
next one as a last argument; it may give its result a name.
-/

namespace LiveTemplate

/-- A constant. -/
inductive Literal where
  | nil
  | bool (value : Bool)
  | int (value : Int)
  | float (value : Double)
  | text (value : String)
  deriving DecidableEq, Repr

mutual

/-- Something with a value: the current data, a path into it, a variable and a path into that (the
variable without a name is the data of the whole template), a constant, a function that is called
without arguments, or a pipeline in parentheses. -/
inductive Operand where
  | dot
  | field (path : List String)
  | variable (name : String) (path : List String)
  | literal (value : Literal)
  | function (name : String)
  | group (commands : List Command)

/-- One step of a pipeline: a function with its arguments, or a single operand. -/
inductive Command where
  | call (function : String) (arguments : List Operand)
  | operand (value : Operand)

end

/-- Whether a name is new or known already. -/
inductive BindingKind where
  | declare
  | assign
  deriving DecidableEq, Repr

/-- The names that a pipeline gives to its result. -/
structure Binding where
  kind : BindingKind
  names : List String
  deriving DecidableEq, Repr

/-- Commands in order, and the names for their result. -/
structure Pipeline where
  binding : Option Binding
  commands : List Command

end LiveTemplate
