import LiveTemplate.Action.Reading

/-!
# The grammar of pipelines

Which tokens are a pipeline, as a grammar: a `Phrase` derives a whole pipeline, a `Phrase.Step` one
command of it and a `Phrase.Term` one operand. `tokens` are the tokens that are derived, `pipeline`
is the pipeline that they stand for.

* `Phrase.tokens_inj`: no tokens are derived in two ways.
-/

namespace LiveTemplate

/-- The operand that a single token stands for. A number and a quoted text have a value only if the
text of the token has one. -/
inductive Token.Denotes : Token → Operand → Prop
  | dot : Denotes .dot .dot
  | field {path : List String} : Denotes (.field path) (.field path)
  | variable {name : String} {path : List String} :
      Denotes (.variable name path) (.variable name path)
  | function {name : String} : Denotes (.identifier name) (.function name)
  | number {numeral : String} {value : Literal}
      (valued : Literal.ofNumeral? numeral.toList = some value) :
      Denotes (.number numeral) (.literal value)
  | text {body : String} {cs : List Char} (unescaped : Literal.unescape body.toList = .ok cs) :
      Denotes (.text body) (.literal (.text (String.ofList cs)))
  | raw {body : String} : Denotes (.raw body) (.literal (.text body))
  | trueWord : Denotes (.keyword .trueWord) (.literal (.bool true))
  | falseWord : Denotes (.keyword .falseWord) (.literal (.bool false))
  | nilWord : Denotes (.keyword .nilWord) (.literal .nil)

namespace Phrase

/-! ## Derivations -/

mutual

/-- An operand: a single token, or commands in parentheses. -/
inductive Term where
  | token (token : Token) (operand : Operand) (denotes : token.Denotes operand)
  | group (first : Step) (rest : List Step)

/-- A command: the name of a function with one operand or more behind it, or one operand. -/
inductive Step where
  | call (function : String) (first : Term) (rest : List Term)
  | operand (term : Term)

end

/-- The names that a pipeline gives to its result. -/
structure Naming where
  first : {name : String // name ≠ ""}
  second : Option {name : String // name ≠ ""}
  kind : BindingKind

end Phrase

/-- A pipeline: commands, and maybe names before them. -/
structure Phrase where
  naming : Option Phrase.Naming
  first : Phrase.Step
  rest : List Phrase.Step

namespace Phrase

/-! ## Tokens -/

mutual

/-- The tokens of an operand. -/
def Term.tokens : Term → List Token
  | .token token _ _ => [token]
  | .group first rest => .parenOpen :: (first.tokens ++ (tokensAfter rest ++ [.parenClose]))
termination_by structural term => term

/-- The tokens of a command. -/
def Step.tokens : Step → List Token
  | .call function first rest => .identifier function :: (first.tokens ++ tokensOf rest)
  | .operand term => term.tokens
termination_by structural step => step

/-- The tokens of operands. -/
def tokensOf : List Term → List Token
  | [] => []
  | term :: rest => term.tokens ++ tokensOf rest
termination_by structural terms => terms

/-- The tokens of commands that go on with a pipeline, each of them behind a bar. -/
def tokensAfter : List Step → List Token
  | [] => []
  | step :: rest => .pipe :: (step.tokens ++ tokensAfter rest)
termination_by structural steps => steps

end

/-- The mark between names and commands. -/
def markOf : BindingKind → Token
  | .declare => .declare
  | .assign => .assign

/-- The tokens of names with the mark behind them. -/
def Naming.tokens (naming : Naming) : List Token :=
  match naming.second with
  | none => [.variable naming.first [], markOf naming.kind]
  | some second => [.variable naming.first [], .comma, .variable second [], markOf naming.kind]

/-- The tokens of a pipeline. -/
def tokens (phrase : Phrase) : List Token :=
  (phrase.naming.elim [] Naming.tokens) ++ (phrase.first.tokens ++ tokensAfter phrase.rest)

/-! ## Pipelines -/

mutual

/-- The operand that is derived. -/
def Term.value : Term → Operand
  | .token _ operand _ => operand
  | .group first rest => .group (first.command :: commandsOf rest)
termination_by structural term => term

/-- The command that is derived. -/
def Step.command : Step → Command
  | .call function first rest => .call function (first.value :: valuesOf rest)
  | .operand term => .operand term.value
termination_by structural step => step

/-- The operands that are derived. -/
def valuesOf : List Term → List Operand
  | [] => []
  | term :: rest => term.value :: valuesOf rest
termination_by structural terms => terms

/-- The commands that are derived. -/
def commandsOf : List Step → List Command
  | [] => []
  | step :: rest => step.command :: commandsOf rest
termination_by structural steps => steps

end

/-- The binding that names stand for. -/
def Naming.binding (naming : Naming) : Binding :=
  ⟨naming.kind, naming.first :: (naming.second.elim [] fun second => [second.val])⟩

/-- The pipeline that is derived. -/
def pipeline (phrase : Phrase) : Pipeline :=
  ⟨phrase.naming.map Naming.binding, phrase.first.command :: commandsOf phrase.rest⟩

/-! ## No tokens have two derivations -/

end Phrase

theorem Token.Denotes.unique {token : Token} {operand other : Operand}
    (h : token.Denotes operand) (ho : token.Denotes other) : operand = other := by
  cases h with
  | number valued =>
    cases ho with
    | number valued' =>
      cases valued.symm.trans valued'
      rfl
  | text unescaped =>
    cases ho with
    | text unescaped' =>
      cases unescaped.symm.trans unescaped'
      rfl
  | _ =>
    cases ho
    rfl

namespace Phrase

/-- No command goes on with these tokens. -/
def EndsStep (tokens : List Token) : Prop :=
  ∀ token ∈ tokens.head?, token = .pipe ∨ token = .parenClose

/-- No command goes on with these tokens, and none follows. -/
def EndsSteps (tokens : List Token) : Prop :=
  ∀ token ∈ tokens.head?, token = .parenClose

theorem EndsSteps.endsStep {tokens : List Token} (h : EndsSteps tokens) : EndsStep tokens :=
  fun token hm => .inr (h token hm)

theorem endsSteps_parenClose (rest : List Token) : EndsSteps (.parenClose :: rest) := by
  rintro _ ⟨⟩
  rfl

theorem endsStep_tokensAfter (steps : List Step) {rest : List Token} (h : EndsSteps rest) :
    EndsStep (tokensAfter steps ++ rest) := by
  cases steps with
  | nil => exact h.endsStep
  | cons step steps =>
    rintro _ ⟨⟩
    exact .inl rfl

/-- An operand ends no command. -/
theorem not_endsStep_append (term : Term) (rest : List Token) :
    ¬EndsStep (term.tokens ++ rest) := by
  intro h
  cases term with
  | token token operand denotes =>
    rcases h token rfl with rfl | rfl <;> cases denotes
  | group first steps => rcases h .parenOpen rfl with h | h <;> cases h

/-- A function's name is an operand only where no operand follows. -/
theorem not_endsStep_of_call {function : String} {first term : Term} {rest others : List Token}
    (h : .identifier function :: (first.tokens ++ rest) = term.tokens ++ others) :
    ¬EndsStep others := by
  cases term with
  | token token operand denotes =>
    obtain rfl : first.tokens ++ rest = others := (List.cons.inj h).2
    exact not_endsStep_append first rest
  | group => cases (List.cons.inj h).1

mutual

/-- An operand tells by itself where it ends. -/
theorem Term.tokens_append_inj (left right : Term) {after others : List Token}
    (h : left.tokens ++ after = right.tokens ++ others) : left = right ∧ after = others := by
  cases left with
  | token token operand denotes =>
    cases right with
    | token token' operand' denotes' =>
      obtain ⟨rfl, rfl⟩ := List.cons.inj h
      obtain rfl := denotes.unique denotes'
      exact ⟨rfl, rfl⟩
    | group =>
      cases (List.cons.inj h).1
      cases denotes
  | group first rest =>
    cases right with
    | token _ _ denotes =>
      cases (List.cons.inj h).1
      cases denotes
    | group otherFirst otherRest =>
      simp only [Term.tokens, List.cons_append, List.append_assoc, List.cons.injEq, true_and,
        List.nil_append] at h
      obtain ⟨rfl, hrest⟩ := first.tokens_append_inj otherFirst
        (endsStep_tokensAfter rest (endsSteps_parenClose _))
        (endsStep_tokensAfter otherRest (endsSteps_parenClose _)) h
      obtain ⟨rfl, hclose⟩ := tokensAfter_append_inj rest otherRest (endsSteps_parenClose _)
        (endsSteps_parenClose _) hrest
      cases hclose
      exact ⟨rfl, rfl⟩
termination_by structural left

/-- A command tells where it ends together with what ends it. -/
theorem Step.tokens_append_inj (left right : Step) {after others : List Token}
    (ha : EndsStep after) (ho : EndsStep others)
    (h : left.tokens ++ after = right.tokens ++ others) : left = right ∧ after = others := by
  cases left with
  | call function first rest =>
    cases right with
    | call otherFunction otherFirst otherRest =>
      simp only [Step.tokens, List.cons_append, List.append_assoc, List.cons.injEq] at h
      obtain ⟨⟨⟩, h⟩ := h
      obtain ⟨rfl, hrest⟩ := first.tokens_append_inj otherFirst h
      obtain ⟨rfl, rfl⟩ := tokensOf_append_inj rest otherRest ha ho hrest
      exact ⟨rfl, rfl⟩
    | operand term =>
      rw [Step.tokens, Step.tokens, List.cons_append, List.append_assoc] at h
      exact absurd ho (not_endsStep_of_call h)
  | operand term =>
    cases right with
    | call function first rest =>
      rw [Step.tokens, Step.tokens, List.cons_append, List.append_assoc] at h
      exact absurd ha (not_endsStep_of_call h.symm)
    | operand other =>
      obtain ⟨rfl, rfl⟩ := term.tokens_append_inj other h
      exact ⟨rfl, rfl⟩
termination_by structural left

theorem tokensOf_append_inj (left right : List Term) {after others : List Token}
    (ha : EndsStep after) (ho : EndsStep others)
    (h : tokensOf left ++ after = tokensOf right ++ others) : left = right ∧ after = others := by
  cases left with
  | nil =>
    cases right with
    | nil => exact ⟨rfl, h⟩
    | cons term rest =>
      rw [tokensOf, tokensOf, List.nil_append, List.append_assoc] at h
      exact absurd (h ▸ ha) (not_endsStep_append term _)
  | cons first rest =>
    cases right with
    | nil =>
      rw [tokensOf, tokensOf, List.nil_append, List.append_assoc] at h
      exact absurd (h ▸ ho) (not_endsStep_append first _)
    | cons other more =>
      rw [tokensOf, tokensOf, List.append_assoc, List.append_assoc] at h
      obtain ⟨rfl, hrest⟩ := first.tokens_append_inj other h
      obtain ⟨rfl, rfl⟩ := tokensOf_append_inj rest more ha ho hrest
      exact ⟨rfl, rfl⟩
termination_by structural left

theorem tokensAfter_append_inj (left right : List Step) {after others : List Token}
    (ha : EndsSteps after) (ho : EndsSteps others)
    (h : tokensAfter left ++ after = tokensAfter right ++ others) :
    left = right ∧ after = others := by
  cases left with
  | nil =>
    cases right with
    | nil => exact ⟨rfl, h⟩
    | cons step rest =>
      rw [tokensAfter, tokensAfter, List.nil_append, List.cons_append] at h
      cases ha .pipe (h ▸ rfl)
  | cons first rest =>
    cases right with
    | nil =>
      rw [tokensAfter, tokensAfter, List.nil_append, List.cons_append] at h
      cases ho .pipe (h ▸ rfl)
    | cons other more =>
      simp only [tokensAfter, List.cons_append, List.append_assoc, List.cons.injEq, true_and] at h
      obtain ⟨rfl, hrest⟩ := first.tokens_append_inj other (endsStep_tokensAfter rest ha)
        (endsStep_tokensAfter more ho) h
      obtain ⟨rfl, rfl⟩ := tokensAfter_append_inj rest more ha ho hrest
      exact ⟨rfl, rfl⟩
termination_by structural left

end

theorem markOf_inj {left right : BindingKind} (h : markOf left = markOf right) : left = right := by
  cases left <;> cases right <;> first | rfl | cases h

/-- Behind a name that is given stands a token that no command goes on with and that ends none. -/
theorem Naming.exists_tokens (naming : Naming) :
    ∃ mark rest, naming.tokens = .variable naming.first [] :: mark :: rest ∧
      mark ≠ .pipe ∧ mark ≠ .parenClose := by
  obtain ⟨first, second, kind⟩ := naming
  cases second with
  | none => exact ⟨_, _, rfl, by cases kind <;> nofun, by cases kind <;> nofun⟩
  | some second => exact ⟨_, _, rfl, nofun, nofun⟩

/-- No command goes on behind a variable at its start. -/
theorem endsStep_of_variable {first : Step} {name : String} {path : List String}
    {rest others : List Token} (hr : EndsStep rest)
    (h : .variable name path :: others = first.tokens ++ rest) : EndsStep others := by
  cases first with
  | call => cases (List.cons.inj h).1
  | operand term =>
    cases term with
    | token =>
      obtain rfl : others = rest := (List.cons.inj h).2
      exact hr
    | group => cases (List.cons.inj h).1

theorem naming_tokens_ne {naming : Naming} {first : Step} {rest others : List Token}
    (hr : EndsStep rest) : naming.tokens ++ others ≠ first.tokens ++ rest := by
  obtain ⟨mark, more, htokens, hpipe, hclose⟩ := naming.exists_tokens
  rw [htokens]
  intro h
  rcases endsStep_of_variable hr h mark rfl with hmark | hmark
  · exact hpipe hmark
  · exact hclose hmark

theorem Naming.tokens_append_inj {left right : Naming} {after others : List Token}
    (h : left.tokens ++ after = right.tokens ++ others) : left = right ∧ after = others := by
  obtain ⟨⟨first, hfirst⟩, second, kind⟩ := left
  obtain ⟨⟨otherFirst, hotherFirst⟩, otherSecond, otherKind⟩ := right
  cases second with
  | none =>
    cases otherSecond with
    | none =>
      simp only [tokens, List.cons_append, List.nil_append, List.cons.injEq, Token.variable.injEq,
        and_true] at h
      obtain ⟨rfl, hmark, rfl⟩ := h
      obtain rfl := markOf_inj hmark
      exact ⟨rfl, rfl⟩
    | some otherSecond => cases kind <;> cases (List.cons.inj (List.cons.inj h).2).1
  | some second =>
    cases otherSecond with
    | none => cases otherKind <;> cases (List.cons.inj (List.cons.inj h).2).1
    | some otherSecond =>
      obtain ⟨second, hsecond⟩ := second
      obtain ⟨otherSecond, hotherSecond⟩ := otherSecond
      simp only [tokens, List.cons_append, List.nil_append, List.cons.injEq, Token.variable.injEq,
        and_true, true_and] at h
      obtain ⟨rfl, rfl, hmark, rfl⟩ := h
      obtain rfl := markOf_inj hmark
      exact ⟨rfl, rfl⟩

theorem endsStep_tokensAfter_nil (steps : List Step) : EndsStep (tokensAfter steps) := by
  have hends := endsStep_tokensAfter steps (show EndsSteps [] from nofun)
  rwa [List.append_nil] at hends

theorem steps_tokens_inj {left right : Step} {steps others : List Step}
    (h : left.tokens ++ tokensAfter steps = right.tokens ++ tokensAfter others) :
    left = right ∧ steps = others := by
  obtain ⟨rfl, htail⟩ := left.tokens_append_inj right (endsStep_tokensAfter_nil steps)
    (endsStep_tokensAfter_nil others) h
  have hends : EndsSteps [] := nofun
  exact ⟨rfl, (tokensAfter_append_inj steps others hends hends (by rw [htail])).1⟩

/-- The grammar is unambiguous. -/
theorem tokens_inj {left right : Phrase} (h : left.tokens = right.tokens) : left = right := by
  obtain ⟨naming, first, rest⟩ := left
  obtain ⟨otherNaming, otherFirst, otherRest⟩ := right
  cases naming with
  | none =>
    cases otherNaming with
    | none =>
      obtain ⟨rfl, rfl⟩ := steps_tokens_inj h
      rfl
    | some naming => exact absurd h.symm (naming_tokens_ne (endsStep_tokensAfter_nil _))
  | some naming =>
    cases otherNaming with
    | none => exact absurd h (naming_tokens_ne (endsStep_tokensAfter_nil _))
    | some other =>
      obtain ⟨rfl, htail⟩ := Naming.tokens_append_inj h
      obtain ⟨rfl, rfl⟩ := steps_tokens_inj htail
      rfl

end Phrase

end LiveTemplate
