import LiveTemplate.Template.Scan

/-!
# Rejections

Most problems of a source are found together with their place, which makes a `ParseError`. Where the
body of an action is no row of tokens, or tokens are no pipeline, the wording and the place are what
the parsers report, a library that is not part of this development: `SyntaxReports` stands for it,
and only `Rejection.error` depends on it. Whether a source is rejected does not.
-/

namespace LiveTemplate

/-- What a parser reports of input that it does not accept: a wording, and bytes of the input. -/
structure SyntaxReport where
  message : String
  span : Span
  deriving DecidableEq, Repr

/-- The first report, if there is any, on a body that is no row of tokens, and on tokens that are no
pipeline, which are given with the position where they end. -/
structure SyntaxReports where
  lexing (body : List Char) : Option SyntaxReport
  parsing (lexemes : List Lexeme) (stop : Nat) : Option SyntaxReport

/-- Why a source is rejected: for a problem with a known place, or because the body of an action is
no row of tokens, or because tokens of an action are no pipeline. -/
inductive Rejection where
  | known (error : ParseError)
  | lexing (action : Action)
  | parsing (action : Action) (lexemes : List Lexeme)
  deriving DecidableEq, Repr

namespace Action

/-- A problem with an action as a whole. -/
def problem (action : Action) (problem : ParseProblem) : ParseError :=
  ⟨problem, action.span⟩

/-- A problem with a part of an action's body. -/
def problemAt (action : Action) (problem : ParseProblem) (part : Span) : ParseError :=
  ⟨problem, part.shift action.offset⟩

end Action

/-- The error that a rejected source leads to, given what the parsers report. -/
def Rejection.error (reports : SyntaxReports) : Rejection → ParseError
  | .known error => error
  | .lexing action =>
    match reports.lexing action.body with
    | some report => action.problemAt (.reported report.message) report.span
    | none => action.problem (.reported "invalid action")
  | .parsing action lexemes =>
    let stop := Text.byteLength action.body
    match reports.parsing lexemes stop with
    | some report => action.problemAt (.reported report.message) report.span
    | none => action.problemAt (.reported "invalid pipeline") ⟨0, stop⟩

end LiveTemplate
