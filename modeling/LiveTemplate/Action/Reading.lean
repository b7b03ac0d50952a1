import LiveTemplate.Action.Lexer
import LiveTemplate.Action.Literal

/-!
# From tokens to pipelines

`Pipeline.ofLexemes` reads the tokens of one action from left to right, with one `Level` of
unfinished commands for each parenthesis that is open. It gives up at the first token after which no
pipeline could follow, a number without a value or a string with a wrong escape among them. What is
reported then, and where, is not its to say (`SyntaxReports`).
-/

namespace LiveTemplate

/-! ## Operands -/

/-- The operand that a single token is, or the problem of a literal that has no value. -/
def Operand.ofToken? : Token → Option (Except LiteralProblem Operand)
  | .dot => some (.ok .dot)
  | .field path => some (.ok (.field path))
  | .variable name path => some (.ok (.variable name path))
  | .identifier name => some (.ok (.function name))
  | .number numeral =>
    match Literal.ofNumeral? numeral.toList with
    | some value => some (.ok (.literal value))
    | none => some (.error (.numberOutOfRange numeral))
  | .text body =>
    match Literal.unescape body.toList with
    | .ok cs => some (.ok (.literal (.text (String.ofList cs))))
    | .error problem => some (.error problem)
  | .raw body => some (.ok (.literal (.text body)))
  | .keyword .trueWord => some (.ok (.literal (.bool true)))
  | .keyword .falseWord => some (.ok (.literal (.bool false)))
  | .keyword .nilWord => some (.ok (.literal .nil))
  | _ => none

/-! ## Commands under construction -/

/-- A command of which some operands have been read. A function's name alone may still become a
call; any other operand is a command by itself. -/
inductive Unfinished where
  | empty
  | named (function : String)
  | call (function : String) (arguments : List Operand)
  | operand (value : Operand)

namespace Unfinished

/-- Whether another operand may follow. -/
def takesOperand : Unfinished → Bool
  | .operand _ => false
  | _ => true

/-- The command with one more operand. -/
def add (operand : Operand) : Unfinished → Unfinished
  | .empty =>
    match operand with
    | .function name => .named name
    | _ => .operand operand
  | .named function => .call function [operand]
  | .call function arguments => .call function (arguments ++ [operand])
  | .operand value => .operand value

/-- The command if it ends here. -/
def command? : Unfinished → Option Command
  | .empty => none
  | .named function => some (.operand (.function function))
  | .call function arguments => some (.call function arguments)
  | .operand value => some (.operand value)

end Unfinished

/-- The commands read so far inside one pair of parentheses, or outside of all. -/
structure Level where
  finished : List Command
  current : Unfinished

namespace Level

/-- Nothing read yet. -/
def start : Level :=
  ⟨[], .empty⟩

/-- The level with one more operand of the current command. -/
def add (operand : Operand) (level : Level) : Level :=
  ⟨level.finished, level.current.add operand⟩

/-- The commands if the current one ends here. -/
def commands? (level : Level) : Option (List Command) :=
  level.current.command?.map fun command => level.finished ++ [command]

end Level

/-! ## Commands and bindings -/

/-- Reads commands up to the end. The levels around the current one, the innermost first, belong to
open parentheses. -/
def readCommands (outer : List Level) (level : Level) : List Lexeme → Option (List Command)
  | [] =>
    match outer with
    | [] => level.commands?
    | _ => none
  | lexeme :: rest =>
    match lexeme.token with
    | .pipe =>
      match level.commands? with
      | some commands => readCommands outer ⟨commands, .empty⟩ rest
      | none => none
    | .parenClose =>
      match outer, level.commands? with
      | parent :: outer, some commands => readCommands outer (parent.add (.group commands)) rest
      | _, _ => none
    | token =>
      if level.current.takesOperand then
        if token = .parenOpen then readCommands (level :: outer) .start rest
        else
          match Operand.ofToken? token with
          | some (.ok operand) => readCommands outer (level.add operand) rest
          | _ => none
      else none

/-- The name of a variable that can be bound: it has a name and no path. -/
def bindable? : Token → Option String
  | .variable name [] => if name = "" then none else some name
  | _ => none

/-- The kind of binding that a token marks. -/
def bindingKind? : Token → Option BindingKind
  | .declare => some .declare
  | .assign => some .assign
  | _ => none

/-- The end of a binding of two names: the second name and the mark. -/
def splitSecondName (first : String) : List Lexeme → Option (Option Binding × List Lexeme)
  | lexeme :: mark :: rest => do
    let second ← bindable? lexeme.token
    let kind ← bindingKind? mark.token
    some (some ⟨kind, [first, second]⟩, rest)
  | _ => none

/-- The binding at the start of a pipeline, if there is one, and the tokens of its commands. A
comma can only stand between two names that are bound. -/
def splitBinding (lexemes : List Lexeme) : Option (Option Binding × List Lexeme) :=
  match lexemes with
  | lexeme :: mark :: rest =>
    match bindable? lexeme.token with
    | none => some (none, lexemes)
    | some first =>
      match bindingKind? mark.token with
      | some kind => some (some ⟨kind, [first]⟩, rest)
      | none => if mark.token = .comma then splitSecondName first rest else some (none, lexemes)
  | _ => some (none, lexemes)

/-- The pipeline that the tokens of an action form. -/
def Pipeline.ofLexemes (lexemes : List Lexeme) : Option Pipeline := do
  let (binding, rest) ← splitBinding lexemes
  let commands ← readCommands [] .start rest
  some ⟨binding, commands⟩

end LiveTemplate
