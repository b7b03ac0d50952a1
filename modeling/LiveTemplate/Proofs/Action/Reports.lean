import LiveTemplate.Proofs.Action.Lexemes
import LiveTemplate.Proofs.Source.Inside
import LiveTemplate.Proofs.Success
import LiveTemplate.Template.Directive

/-!
# Where an action cannot be read

Whatever is wrong with an action, the error points at the action as a whole or at a span inside its
body (`Action.Blames`). Of the parsers this takes one thing: what they report is about an item of
their input, or about its end (`SyntaxReports.AboutInput`).

* `Lexer.isIn_of_lex`: the tokens of a body stand inside it.
* `Action.blames_lexing` and `Action.blames_parsing`: a report on a body, or on tokens inside it,
  points into the body.
* `Directive.ofAction_failsWithin` puts both together, with one rule for each step of the reading.
-/

namespace LiveTemplate

/-! ## Reports -/

/-- The span of a character of a text, or the empty span at its end. -/
inductive Span.IsItemOf (text : List Char) : Span → Prop
  | char {before after : List Char} {c : Char} (here : text = before ++ c :: after) :
      IsItemOf text ⟨Text.byteLength before, Text.byteLength before + c.utf8Size⟩
  | stop : IsItemOf text ⟨Text.byteLength text, Text.byteLength text⟩

theorem Span.IsItemOf.isIn {text : List Char} {span : Span} (h : span.IsItemOf text) :
    span.IsIn text := by
  cases h with
  | @char before after c here =>
    rw [here]
    exact .of_append before [c] after
  | stop =>
    have hstop := IsIn.of_append text [] []
    rwa [List.append_nil, List.append_nil] at hstop

/-- What is reported is about an item of the input, a character or a token, or about its end. -/
structure SyntaxReports.AboutInput (reports : SyntaxReports) : Prop where
  lexing : ∀ body report, reports.lexing body = some report → report.span.IsItemOf body
  parsing : ∀ lexemes stop report, reports.parsing lexemes stop = some report →
    report.span ∈ lexemes.map (·.span) ∨ report.span = ⟨stop, stop⟩

/-- The error is inside a source, whatever is reported about the input. -/
def Rejection.IsIn (rejection : Rejection) (source : List Char) : Prop :=
  ∀ reports : SyntaxReports, reports.AboutInput → (rejection.error reports).span.IsIn source

theorem Rejection.isIn_known {error : ParseError} {source : List Char}
    (h : error.span.IsIn source) : (known error).IsIn source :=
  fun _ _ => h

/-! ## Actions that cannot be read -/

/-- The tokens of a text stand inside it. -/
theorem Lexer.isIn_of_lex {body : List Char} {found : List Lexeme} (h : lex body = some found) :
    ∀ lexeme ∈ found, lexeme.span.IsIn body := by
  intro lexeme hm
  obtain ⟨before, after, rfl, hspan, -⟩ := (lex_eq_some_iff.mp h).1.cut lexeme hm
  rw [hspan, Nat.zero_add]
  exact .of_append _ _ _

namespace Action

variable {action : Action} {α β : Type} {lexemes : List Lexeme} {head : String}

/-- The error points at the action as a whole or at a span inside its body, whatever is reported
about the input. -/
def Blames (action : Action) (rejection : Rejection) : Prop :=
  ∀ reports : SyntaxReports, reports.AboutInput →
    (rejection.error reports).span = action.span ∨
      ∃ part : Span, part.IsIn action.body ∧
        (rejection.error reports).span = part.shift action.offset

/-- What is read of an action fails with errors about the action only. -/
def FailsWithin (action : Action) (result : Except Rejection α) : Prop :=
  ∀ rejection, result = .error rejection → action.Blames rejection

/-- Tokens inside the body of an action. -/
def Covers (action : Action) (lexemes : List Lexeme) : Prop :=
  ∀ lexeme ∈ lexemes, lexeme.span.IsIn action.body

theorem Covers.mono {others : List Lexeme} (h : action.Covers lexemes) (hs : others ⊆ lexemes) :
    action.Covers others :=
  fun lexeme hm => h lexeme (hs hm)

theorem Covers.tail {lexeme : Lexeme} (h : action.Covers (lexeme :: lexemes)) :
    action.Covers lexemes :=
  h.mono (List.subset_cons_self _ _)

theorem blames_problem (problem : ParseProblem) : action.Blames (.known (action.problem problem)) :=
  fun _ _ => .inl rfl

theorem blames_problemAt {part : Span} (h : part.IsIn action.body) (problem : ParseProblem) :
    action.Blames (.known (action.problemAt problem part)) :=
  fun _ _ => .inr ⟨part, h, rfl⟩

theorem blames_lexing : action.Blames (.lexing action) := by
  intro reports hr
  rw [Rejection.error]
  split
  · rename_i report hreport
    exact .inr ⟨report.span, (hr.lexing _ _ hreport).isIn, rfl⟩
  · exact .inl rfl

theorem blames_parsing (hc : action.Covers lexemes) :
    action.Blames (.parsing action lexemes) := by
  intro reports hr
  rw [Rejection.error]
  split
  · rename_i report hreport
    refine .inr ⟨report.span, ?_, rfl⟩
    rcases hr.parsing _ _ _ hreport with hm | hstop
    · obtain ⟨lexeme, hlexeme, hspan⟩ := List.mem_map.mp hm
      exact hspan ▸ hc lexeme hlexeme
    · exact hstop ▸ Span.IsItemOf.stop.isIn
  · -- Without a report the whole body is blamed.
    have hwhole := Span.IsIn.of_append [] action.body []
    rw [Text.byteLength_nil, List.nil_append, List.append_nil, Nat.zero_add] at hwhole
    exact .inr ⟨_, hwhole, rfl⟩

namespace FailsWithin

theorem ok (value : α) : action.FailsWithin (.ok value) :=
  fun _ h => nomatch h

theorem error {rejection : Rejection} (h : action.Blames rejection) :
    action.FailsWithin (.error rejection : Except Rejection α) := by
  rintro _ ⟨⟩
  exact h

theorem map {result : Except Rejection α} (h : action.FailsWithin result) (f : α → β) :
    action.FailsWithin (f <$> result) :=
  fun rejection he => h rejection (map_eq_error.mp he)

theorem bind {first : Except Rejection α} {next : α → Except Rejection β}
    (h : action.FailsWithin first)
    (hn : ∀ value, first = .ok value → action.FailsWithin (next value)) :
    action.FailsWithin (first >>= next) := by
  intro rejection he
  rcases bind_eq_error.mp he with hfirst | ⟨value, hvalue, hnext⟩
  · exact h rejection hfirst
  · exact hn value hvalue rejection hnext

end FailsWithin

theorem lexemes_failsWithin : action.FailsWithin action.lexemes := by
  unfold Action.lexemes
  split
  · exact .ok _
  · exact .error blames_lexing

theorem covers_of_lexemes (h : action.lexemes = .ok lexemes) : action.Covers lexemes := by
  unfold Action.lexemes at h
  split at h
  · rename_i found hfound
    cases h
    exact Lexer.isIn_of_lex hfound
  · cases h

theorem pipeline_failsWithin (hc : action.Covers lexemes) :
    action.FailsWithin (action.pipeline lexemes) := by
  unfold Action.pipeline
  split
  · exact .ok _
  · exact .error (blames_parsing hc)

theorem neededPipeline_failsWithin (hc : action.Covers lexemes) :
    action.FailsWithin (action.neededPipeline head lexemes) := by
  unfold Action.neededPipeline
  split
  · exact .error (blames_problem _)
  · exact pipeline_failsWithin hc

theorem optionalPipeline_failsWithin (hc : action.Covers lexemes) :
    action.FailsWithin (action.optionalPipeline lexemes) := by
  unfold Action.optionalPipeline
  split
  · exact .ok _
  · exact (pipeline_failsWithin hc).map _

theorem quotedName_failsWithin (hc : action.Covers lexemes) :
    action.FailsWithin (action.quotedName head lexemes) := by
  unfold Action.quotedName
  split
  · split
    · exact .ok _
    · exact .error (blames_problemAt (hc _ List.mem_cons_self) _)
  · exact .ok _
  · exact .error (blames_problem _)

theorem covers_of_quotedName (hc : action.Covers lexemes) {name : String} {rest : List Lexeme}
    (h : action.quotedName head lexemes = .ok (name, rest)) : action.Covers rest := by
  unfold Action.quotedName at h
  split at h
  · split at h
    · cases h
      exact hc.tail
    · cases h
  · cases h
    exact hc.tail
  · cases h

theorem requireEnd_failsWithin (hc : action.Covers lexemes) :
    action.FailsWithin (action.requireEnd head lexemes) := by
  unfold Action.requireEnd
  split
  · exact .ok _
  · exact .error (blames_problemAt (hc _ List.mem_cons_self) _)

end Action

namespace Directive

open LiveTemplate.Action

variable {action : Action} {lexemes : List Lexeme}

theorem ofElse_failsWithin (hc : action.Covers lexemes) :
    action.FailsWithin (ofElse action lexemes) := by
  unfold ofElse
  split
  · exact .ok _
  · exact (neededPipeline_failsWithin hc.tail).map _
  · exact (neededPipeline_failsWithin hc.tail).map _
  · exact (requireEnd_failsWithin hc).bind fun _ _ => .ok _

theorem ofBranch_failsWithin (hc : action.Covers lexemes) (kind : BranchKind) :
    action.FailsWithin (ofBranch action kind lexemes) :=
  (neededPipeline_failsWithin hc).map _

theorem ofDefine_failsWithin (hc : action.Covers lexemes) :
    action.FailsWithin (ofDefine action lexemes) :=
  (quotedName_failsWithin hc).bind fun _ hname =>
    (requireEnd_failsWithin (covers_of_quotedName hc hname)).bind fun _ _ => .ok _

theorem ofNamed_failsWithin (hc : action.Covers lexemes) (head : String)
    (make : String → Option Pipeline → Directive) :
    action.FailsWithin (ofNamed action head make lexemes) :=
  (quotedName_failsWithin hc).bind fun _ hname =>
    (optionalPipeline_failsWithin (covers_of_quotedName hc hname)).map _

theorem ofLexemes_failsWithin (hc : action.Covers lexemes) :
    action.FailsWithin (ofLexemes action lexemes) := by
  unfold ofLexemes
  split
  · exact .error (blames_problem _)
  · exact ofBranch_failsWithin hc.tail _
  · exact ofBranch_failsWithin hc.tail _
  · exact ofBranch_failsWithin hc.tail _
  · exact ofElse_failsWithin hc.tail
  · exact (requireEnd_failsWithin hc.tail).bind fun _ _ => .ok _
  · exact ofDefine_failsWithin hc.tail
  · exact ofNamed_failsWithin hc.tail _ _
  · exact ofNamed_failsWithin hc.tail _ _
  · exact (pipeline_failsWithin hc).map _

/-- An action that asks for nothing fails at itself, or inside its body. -/
theorem ofAction_failsWithin (action : Action) : action.FailsWithin (ofAction action) := by
  unfold ofAction
  split
  · split
    · exact .ok _
    · exact .error (blames_problem _)
  · exact lexemes_failsWithin.bind fun _ hlexemes =>
      ofLexemes_failsWithin (covers_of_lexemes hlexemes)

end Directive

end LiveTemplate
