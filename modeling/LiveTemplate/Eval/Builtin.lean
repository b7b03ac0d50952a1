import LiveTemplate.Eval.Format
import LiveTemplate.Text.Escape

/-!
# Builtin functions

The functions that every template may call unless it gets a table of its own: logic, lengths and
items of collections, comparison, printing and escaping.
-/

namespace LiveTemplate

namespace Builtin

/-! ## Arity -/

/-- Exactly so many arguments. -/
def exactly (count : Nat) (arguments : List Value) : Except FunctionError Unit :=
  if arguments.length = count then .ok () else .error (.arity (toString count) arguments.length)

/-- At least so many arguments. -/
def atLeast (count : Nat) (arguments : List Value) : Except FunctionError Unit :=
  if count ≤ arguments.length then .ok ()
  else .error (.arity ("at least " ++ toString count) arguments.length)

/-! ## Logic -/

/-- The first argument with a truth value, the last argument if none has it. -/
def firstDeciding (decisive : Bool) : Function := fun arguments => do
  atLeast 1 arguments
  .ok (((arguments.find? (·.truthy == decisive)).or arguments.getLast?).getD .null)

/-- The first false argument, or the last one. -/
def and : Function := firstDeciding false

/-- The first true argument, or the last one. -/
def or : Function := firstDeciding true

/-- Whether the argument is false. -/
def not : Function := fun arguments => do
  exactly 1 arguments
  .ok (.bool (!((arguments.head?).getD .null).truthy))

/-! ## Collections -/

/-- The length of a string in bytes, or the number of items or entries. -/
def lengthOf : Value → Except FunctionError Nat
  | .text s => .ok s.utf8ByteSize
  | .list items => .ok items.length
  | .map entries => .ok entries.length
  | other => .error (.noLength other.typeName)

/-- The length of a collection. -/
def len : Function := fun arguments => do
  exactly 1 arguments
  let n ← lengthOf ((arguments.head?).getD .null)
  .ok (.int n)

/-- The item of a collection under a key. A map has nil for a key that it lacks. -/
def item (collection key : Value) : Except FunctionError Value :=
  match collection, key with
  | .list items, .int (.ofNat position) =>
    match items[position]? with
    | some item => .ok item
    | none => .error (.outOfRange position)
  | .list _, .int position => .error (.outOfRange position)
  | .map entries, .text key => .ok ((entries.lookup key).getD .null)
  | .null, _ => .error .indexOfNil
  | collection, key => .error (.notIndexed collection.typeName key.typeName)

/-- The item that a path of keys leads to. -/
def index : Function := fun arguments => do
  atLeast 1 arguments
  arguments.tail.foldlM item ((arguments.head?).getD .null)

/-! ## Comparison -/

/-- Whether a value is a list or a map. -/
def isCollection : Value → Bool
  | .list _ => true
  | .map _ => true
  | _ => false

/-- The order of two numbers or of two strings. -/
def compareValues (left right : Value) : Except FunctionError Ordering :=
  match left, right with
  | .int i, .int j => .ok (compare i j)
  | .text s, .text t => .ok (compare s t)
  | _, _ =>
    match left.float?, right.float? with
    | some x, some y =>
      match x.compare? y with
      | some order => .ok order
      | none => .error .notOrdered
    | _, _ => .error (.incompatible left.typeName right.typeName)

/-- Whether two values are equal. Nil equals nil only. -/
def equalValues (left right : Value) : Except FunctionError Bool :=
  if isCollection left || isCollection right then .error .notComparable
  else
    match left, right with
    | .null, .null => .ok true
    | .null, _ => .ok false
    | _, .null => .ok false
    | .bool a, .bool b => .ok (a == b)
    | _, _ => (compareValues left right).map (· == .eq)

/-- Whether one of the values equals the first one. -/
def equalsAny (first : Value) : List Value → Except FunctionError Bool
  | [] => .ok false
  | other :: rest => do
    if ← equalValues first other then .ok true else equalsAny first rest

/-- Whether the first argument equals one of the others. -/
def eq : Function := fun arguments => do
  atLeast 2 arguments
  .ok (.bool (← equalsAny ((arguments.head?).getD .null) arguments.tail))

/-- A function of two arguments. -/
def binary (f : Value → Value → Except FunctionError Bool) : Function := fun arguments => do
  exactly 2 arguments
  match arguments with
  | [left, right] => .ok (.bool (← f left right))
  | _ => .ok .null

/-- Whether two values differ. -/
def ne : Function :=
  binary fun left right => (equalValues left right).map (!·)

/-- Whether the order of two values is accepted. -/
def ordered (accept : Ordering → Bool) : Function :=
  binary fun left right => (compareValues left right).map accept

/-! ## Printing -/

/-- Whether a value is a string. -/
def isText (value : Value) : Bool :=
  value.text?.isSome

/-- The texts of values one after the other, with a space between two that are no strings. -/
def printed : List Value → String
  | [] => ""
  | [value] => value.display
  | value :: next :: rest =>
    let space := if isText value || isText next then "" else " "
    value.display ++ space ++ printed (next :: rest)

/-- The arguments one after the other. -/
def print : Function := fun arguments =>
  .ok (.text (printed arguments))

/-- The arguments with spaces between them, on a line of their own. -/
def println : Function := fun arguments =>
  .ok (.text (" ".intercalate (arguments.map Value.display) ++ "\n"))

/-- The other arguments in the format that the first one gives. -/
def printf : Function := fun arguments => do
  atLeast 1 arguments
  match arguments with
  | .text format :: values =>
    match Format.apply format values with
    | .ok text => .ok (.text text)
    | .error problem => .error (.format problem)
  | _ => .error (.format .notText)

/-- The printed arguments without meaning in markup. -/
def html : Function := fun arguments =>
  .ok (.text (Text.escapeHtml (printed arguments)))

/-- The printed arguments as a value in a query. -/
def urlquery : Function := fun arguments =>
  .ok (.text (Text.escapeQuery (printed arguments)))

end Builtin

/-- The table of the builtin functions. -/
def FunctionTable.builtins : FunctionTable :=
  FunctionTable.empty.registerAll
    [("and", Builtin.and), ("or", Builtin.or), ("not", Builtin.not), ("len", Builtin.len),
      ("index", Builtin.index), ("eq", Builtin.eq), ("ne", Builtin.ne),
      ("lt", Builtin.ordered Ordering.isLT), ("le", Builtin.ordered Ordering.isLE),
      ("gt", Builtin.ordered Ordering.isGT), ("ge", Builtin.ordered Ordering.isGE),
      ("print", Builtin.print), ("println", Builtin.println), ("printf", Builtin.printf),
      ("html", Builtin.html), ("urlquery", Builtin.urlquery)]

end LiveTemplate
