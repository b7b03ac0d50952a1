import LiveTemplate.Value.Basic

/-!
# Functions

What a template can call: a function takes a list of values and gives a value or a reason why there
is none. A `FunctionTable` holds functions by name.
-/

namespace LiveTemplate

/-- What is wrong with a format or with the arguments for it. -/
inductive FormatProblem where
  | notText
  | precisionOutOfRange
  | unfinished
  | missingArgument (verb : Char)
  | mismatch (verb : Char) (typeName : String)
  | unsupported (verb : Char)
  | tooManyArguments
  deriving DecidableEq, Repr

/-- The wording of a problem with a format. -/
def FormatProblem.message : FormatProblem → String
  | .notText => "format must be a string"
  | .precisionOutOfRange => "precision out of range"
  | .unfinished => "format ends with %"
  | .missingArgument verb => "missing argument for %" ++ verb.toString
  | .mismatch verb typeName => "%" ++ verb.toString ++ " of " ++ typeName
  | .unsupported verb => "unsupported verb %" ++ verb.toString
  | .tooManyArguments => "too many arguments for format"

/-- Why a function has no value for its arguments. -/
inductive FunctionError where
  | arity (expected : String) (found : Nat)
  | noLength (typeName : String)
  | outOfRange (position : Int)
  | indexOfNil
  | notIndexed (collection key : String)
  | notOrdered
  | notComparable
  | incompatible (left right : String)
  | format (problem : FormatProblem)
  | custom (message : String)
  deriving DecidableEq, Repr

/-- The wording of a function's error. -/
def FunctionError.message : FunctionError → String
  | .arity expected found => "want " ++ expected ++ " arguments, got " ++ toString found
  | .noLength typeName => "len of type " ++ typeName
  | .outOfRange position => "index out of range: " ++ toString position
  | .indexOfNil => "index of untyped nil"
  | .notIndexed collection key => "can't index item of type " ++ collection ++ " with " ++ key
  | .notOrdered => "NaN is not ordered"
  | .notComparable => "non-comparable type"
  | .incompatible left right =>
    "incompatible types for comparison: " ++ left ++ " and " ++ right
  | .format problem => problem.message
  | .custom message => message

/-- A function of any number of arguments. -/
abbrev Function := List Value → Except FunctionError Value

/-- Functions by name, each name once. -/
structure FunctionTable where
  entries : List (String × Function)

namespace FunctionTable

/-- No functions. -/
def empty : FunctionTable :=
  ⟨[]⟩

/-- The table with a function under a name, in place of one that it had. -/
def register (table : FunctionTable) (name : String) (function : Function) : FunctionTable :=
  ⟨(name, function) :: table.entries.filter (·.1 != name)⟩

/-- The table with several functions, the last one winning among those of one name. -/
def registerAll (table : FunctionTable) (functions : List (String × Function)) : FunctionTable :=
  functions.foldl (fun table (name, function) => table.register name function) table

/-- The function of a name. -/
def get? (table : FunctionTable) (name : String) : Option Function :=
  table.entries.lookup name

/-- Whether a name has a function. -/
def contains (table : FunctionTable) (name : String) : Bool :=
  (table.get? name).isSome

/-- The names in increasing order. -/
def names (table : FunctionTable) : List String :=
  (table.entries.map (·.1)).mergeSort

end FunctionTable

end LiveTemplate
