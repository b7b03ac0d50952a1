import LiveTemplate.Source.Span
import LiveTemplate.Text.Letter

/-!
# Tokens of an action

A token keeps what it means and all that is needed to write it again: `Token.chars` is its source
text. A quoted text keeps its escapes as written.
-/

namespace LiveTemplate

/-- A word with a meaning of its own. -/
inductive Keyword where
  | ifWord
  | elseWord
  | endWord
  | rangeWord
  | withWord
  | defineWord
  | templateWord
  | blockWord
  | trueWord
  | falseWord
  | nilWord
  deriving DecidableEq, Repr

namespace Keyword

/-- How a keyword is written. -/
def text : Keyword → String
  | .ifWord => "if"
  | .elseWord => "else"
  | .endWord => "end"
  | .rangeWord => "range"
  | .withWord => "with"
  | .defineWord => "define"
  | .templateWord => "template"
  | .blockWord => "block"
  | .trueWord => "true"
  | .falseWord => "false"
  | .nilWord => "nil"

/-- All keywords. -/
def all : List Keyword :=
  [.ifWord, .elseWord, .endWord, .rangeWord, .withWord, .defineWord, .templateWord, .blockWord,
    .trueWord, .falseWord, .nilWord]

/-- The keyword that a word is. -/
def ofText? (word : String) : Option Keyword :=
  all.find? fun keyword => keyword.text == word

theorem ofText?_text (keyword : Keyword) : ofText? keyword.text = some keyword := by
  cases keyword <;> decide

end Keyword

/-- A token. A variable without a name is the data of the whole template; `text` is a string in
double quotes with its escapes in place, `raw` one in backquotes. -/
inductive Token where
  | parenOpen
  | parenClose
  | pipe
  | comma
  | declare
  | assign
  | dot
  | field (path : List String)
  | variable (name : String) (path : List String)
  | identifier (name : String)
  | number (numeral : String)
  | text (body : String)
  | raw (body : String)
  | keyword (keyword : Keyword)
  deriving DecidableEq, Repr

namespace Token

/-- A path of names, each after a dot. -/
def pathChars (path : List String) : List Char :=
  path.flatMap fun name => '.' :: name.toList

/-- The source text of a token. -/
def chars : Token → List Char
  | .parenOpen => ['(']
  | .parenClose => [')']
  | .pipe => ['|']
  | .comma => [',']
  | .declare => [':', '=']
  | .assign => ['=']
  | .dot => ['.']
  | .field path => pathChars path
  | .variable name path => '$' :: name.toList ++ pathChars path
  | .identifier name => name.toList
  | .number numeral => numeral.toList
  | .text body => '"' :: body.toList ++ ['"']
  | .raw body => '\x60' :: body.toList ++ ['\x60']
  | .keyword word => word.text.toList

/-- The source text of a token, as a string. -/
def display (token : Token) : String :=
  String.ofList token.chars

end Token

/-- A token at its place. -/
structure Lexeme where
  token : Token
  span : Span
  deriving DecidableEq, Repr

end LiveTemplate
