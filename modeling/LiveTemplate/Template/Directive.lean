import LiveTemplate.Action.Reading
import LiveTemplate.Template.Rejection

/-!
# Directives

What one action asks for, told by its first word. `Directive.ofAction` reads an action on its own;
whether the directive may stand where it stands is decided when the tree is built.
-/

namespace LiveTemplate

/-- What opens a construct. -/
inductive Head where
  | branch (kind : BranchKind) (pipeline : Pipeline)
  | define (name : String)
  | block (name : String) (argument : Option Pipeline)

/-- The construct that a head opens. -/
def Head.construct : Head → Construct
  | .branch kind _ => .branch kind
  | .define _ => .define
  | .block _ _ => .block

/-- What an action asks for. A chain goes on with another test, or another scope, in the `else` of
the construct before it. -/
inductive Directive where
  | comment
  | print (pipeline : Pipeline)
  | invoke (name : String) (argument : Option Pipeline)
  | opener (head : Head)
  | otherwise
  | chain (kind : BranchKind) (pipeline : Pipeline)
  | close

namespace Action

/-- Whether the body of an action begins like a comment. -/
def opensComment (action : Action) : Bool :=
  ['/', '*'].isPrefixOf action.body

/-- Whether the body of an action is closed like a comment. -/
def closesComment (action : Action) : Bool :=
  4 ≤ action.body.length && ['*', '/'].isSuffixOf action.body

/-- The tokens of an action. -/
def lexemes (action : Action) : Except Rejection (List Lexeme) :=
  match Lexer.lex action.body with
  | some lexemes => .ok lexemes
  | none => .error (.lexing action)

/-- The pipeline that tokens of an action form. -/
def pipeline (action : Action) (lexemes : List Lexeme) : Except Rejection Pipeline :=
  match Pipeline.ofLexemes lexemes with
  | some pipeline => .ok pipeline
  | none => .error (.parsing action lexemes)

/-- The pipeline after a word that needs one. -/
def neededPipeline (action : Action) (head : String) (lexemes : List Lexeme) :
    Except Rejection Pipeline :=
  if lexemes.isEmpty then .error (.known (action.problem (.missingPipeline head)))
  else action.pipeline lexemes

/-- The pipeline after a word that may have one. -/
def optionalPipeline (action : Action) (lexemes : List Lexeme) :
    Except Rejection (Option Pipeline) :=
  if lexemes.isEmpty then .ok none else some <$> action.pipeline lexemes

/-- The quoted name after a word, and the tokens after the name. -/
def quotedName (action : Action) (head : String) :
    List Lexeme → Except Rejection (String × List Lexeme)
  | ⟨.text body, span⟩ :: rest =>
    match Literal.unescape body.toList with
    | .ok name => .ok (String.ofList name, rest)
    | .error problem => .error (.known (action.problemAt (.literal problem) span))
  | ⟨.raw body, _⟩ :: rest => .ok (body, rest)
  | _ => .error (.known (action.problem (.missingName head)))

/-- No tokens are left after a complete directive. -/
def requireEnd (action : Action) (head : String) : List Lexeme → Except Rejection Unit
  | [] => .ok ()
  | lexeme :: _ =>
    .error (.known (action.problemAt (.trailingToken lexeme.token head) lexeme.span))

end Action

namespace Directive

/-- The directive after the word `else`. -/
def ofElse (action : Action) (lexemes : List Lexeme) : Except Rejection Directive :=
  match lexemes with
  | [] => .ok .otherwise
  | ⟨.keyword .ifWord, _⟩ :: rest => .chain .test <$> action.neededPipeline "else if" rest
  | ⟨.keyword .withWord, _⟩ :: rest => .chain .scope <$> action.neededPipeline "else with" rest
  | _ => do
    action.requireEnd "else" lexemes
    .ok .otherwise

/-- The directive after a word that opens a branch. -/
def ofBranch (action : Action) (kind : BranchKind) (lexemes : List Lexeme) :
    Except Rejection Directive :=
  (fun pipeline => .opener (.branch kind pipeline)) <$> action.neededPipeline kind.text lexemes

/-- The directive after the word `define`. -/
def ofDefine (action : Action) (lexemes : List Lexeme) : Except Rejection Directive := do
  let (name, rest) ← action.quotedName "define" lexemes
  action.requireEnd "define" rest
  .ok (.opener (.define name))

/-- The directive after a word that a name and maybe a pipeline follow. -/
def ofNamed (action : Action) (head : String) (make : String → Option Pipeline → Directive)
    (lexemes : List Lexeme) : Except Rejection Directive := do
  let (name, rest) ← action.quotedName head lexemes
  make name <$> action.optionalPipeline rest

/-- The directive that the tokens of an action form. -/
def ofLexemes (action : Action) (lexemes : List Lexeme) : Except Rejection Directive :=
  match lexemes with
  | [] => .error (.known (action.problem .emptyAction))
  | ⟨.keyword .ifWord, _⟩ :: rest => ofBranch action .test rest
  | ⟨.keyword .rangeWord, _⟩ :: rest => ofBranch action .loop rest
  | ⟨.keyword .withWord, _⟩ :: rest => ofBranch action .scope rest
  | ⟨.keyword .elseWord, _⟩ :: rest => ofElse action rest
  | ⟨.keyword .endWord, _⟩ :: rest => do
    action.requireEnd "end" rest
    .ok .close
  | ⟨.keyword .defineWord, _⟩ :: rest => ofDefine action rest
  | ⟨.keyword .blockWord, _⟩ :: rest =>
    ofNamed action "block" (fun name argument => .opener (.block name argument)) rest
  | ⟨.keyword .templateWord, _⟩ :: rest => ofNamed action "template" .invoke rest
  | _ => .print <$> action.pipeline lexemes

/-- What an action asks for. -/
def ofAction (action : Action) : Except Rejection Directive :=
  if action.opensComment then
    if action.closesComment then .ok .comment
    else .error (.known (action.problem .trailingComment))
  else do ofLexemes action (← action.lexemes)

end Directive

end LiveTemplate
