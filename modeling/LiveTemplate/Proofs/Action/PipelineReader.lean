import LiveTemplate.Proofs.Action.Reader
import LiveTemplate.Proofs.Action.Reading

/-!
# Pipelines by ordered choice

`Reader.pipeline` reads a pipeline by recursive descent: names are tried first and given up if no
mark follows them, a call is tried before an operand, and operands and commands are repeated for as
long as another one can be read.

* `Reader.commands_sound`: what is read is derived by the grammar.
* `Phrase.Term.run_operand` and `Phrase.Step.run_command`: what the grammar derives is read.
* `Pipeline.ofLexemes_spec`: `Pipeline.ofLexemes` accepts what the grammar derives, in one way only,
  and gives the pipelines that ordered choice gives.
-/

namespace LiveTemplate

open Phrase

namespace Reader

/-! ## The readers -/

/-- A literal. A number or a quoted text that has no value is none. -/
def literal : Reader Token Literal :=
  (item fun
      | .keyword .trueWord => some (.bool true)
      | _ => none) <|>
    (item fun
      | .keyword .falseWord => some (.bool false)
      | _ => none) <|>
    (item fun
      | .keyword .nilWord => some .nil
      | _ => none) <|>
    (item fun
      | .number numeral => Literal.ofNumeral? numeral.toList
      | _ => none) <|>
    (item fun
      | .text body => (Literal.unescape body.toList).toOption.map (.text ∘ String.ofList)
      | _ => none) <|>
    item fun
      | .raw body => some (.text body)
      | _ => none

/-- The name of a function. -/
def function : Reader Token String :=
  item fun
    | .identifier name => some name
    | _ => none

/-- An operand of a single token. -/
def single : Reader Token Operand :=
  (item fun
      | .dot => some .dot
      | _ => none) <|>
    (item fun
      | .field path => some (.field path)
      | _ => none) <|>
    (item fun
      | .variable name path => some (.variable name path)
      | _ => none) <|>
    (Operand.literal <$> literal) <|>
    (Operand.function <$> function)

/-- An operand, where `group` reads what stands in parentheses. -/
def operand (group : Reader Token (List Command)) : Reader Token Operand :=
  single <|> do
    just .parenOpen
    let commands ← group
    just .parenClose
    pure (.group commands)

/-- The name of a function with at least one operand behind it. -/
def call (group : Reader Token (List Command)) : Reader Token Command := do
  let name ← function
  let first ← operand group
  let rest ← many (operand group)
  pure (.call name (first :: rest))

/-- A command. -/
def command (group : Reader Token (List Command)) : Reader Token Command :=
  call group <|> Command.operand <$> operand group

/-- A bar, and the command behind it. -/
def nextCommand (group : Reader Token (List Command)) : Reader Token Command := do
  just .pipe
  command group

/-- One command or more, with a bar between any two, in which parentheses are nested less than
`depth` deep. -/
def commands : Nat → Reader Token (List Command)
  | 0 => failure
  | depth + 1 => do
    let first ← command (commands depth)
    let rest ← many (nextCommand (commands depth))
    pure (first :: rest)

/-- A comma, and the name behind it. -/
def secondName : Reader Token String := do
  just .comma
  item bindable?

/-- One or two names, and the mark behind them. -/
def binding : Reader Token Binding := do
  let first ← item bindable?
  let second ← maybe secondName
  let kind ← item bindingKind?
  pure ⟨kind, first :: second.toList⟩

/-- A pipeline in which parentheses are nested less than `depth` deep. -/
def pipeline (depth : Nat) : Reader Token Pipeline := do
  let binding ← maybe binding
  let commands ← commands depth
  pure ⟨binding, commands⟩

/-! ## Single tokens -/

/-- The choices between kinds of tokens exclude each other. -/
theorem run_single_cons (token : Token) (rest : List Token) :
    single.run (token :: rest) =
      ((Operand.ofToken? token).bind Except.toOption).map (·, rest) := by
  cases token with
  | number numeral =>
    cases h : Literal.ofNumeral? numeral.toList <;>
      simp [single, literal, function, Operand.ofToken?, h, Except.toOption]
  | text body =>
    cases h : Literal.unescape body.toList <;>
      simp [single, literal, function, Operand.ofToken?, h, Except.toOption]
  | keyword keyword =>
    cases keyword <;> simp [single, literal, function, Operand.ofToken?, Except.toOption]
  | _ => simp [single, literal, function, Operand.ofToken?, Except.toOption]

theorem run_single_eq_some_iff {tokens rest : List Token} {value : Operand} :
    single.run tokens = some (value, rest) ↔
      ∃ token, tokens = token :: rest ∧ token.Denotes value := by
  cases tokens with
  | nil => exact ⟨nofun, nofun⟩
  | cons token tokens =>
    rw [run_single_cons, Option.map_eq_some_iff]
    constructor
    · rintro ⟨_, h, ⟨⟩⟩
      obtain ⟨result, hresult, h⟩ := Option.bind_eq_some_iff.mp h
      cases result with
      | error => cases h
      | ok operand =>
        cases h
        exact ⟨token, rfl, Operand.ofToken?_eq_ok_iff.mp hresult⟩
    · rintro ⟨_, ⟨⟩, h⟩
      refine ⟨value, ?_, rfl⟩
      rw [Operand.ofToken?_eq_ok_iff.mpr h]
      rfl

theorem run_function_eq_some_iff {tokens rest : List Token} {name : String} :
    function.run tokens = some (name, rest) ↔ tokens = .identifier name :: rest := by
  rw [function, run_item_eq_some_iff]
  constructor
  · rintro ⟨token, rfl, h⟩
    split at h
    · cases h
      rfl
    · cases h
  · rintro rfl
    exact ⟨.identifier name, rfl, rfl⟩

/-! ## What is read is derived -/

/-- What `group` reads is derived by the grammar. -/
def ReadsSteps (group : Reader Token (List Command)) : Prop :=
  ∀ tokens commands rest, group.run tokens = some (commands, rest) →
    ∃ (first : Step) (steps : List Step), tokens = first.tokens ++ (tokensAfter steps ++ rest) ∧
      first.command :: commandsOf steps = commands

section Sound

variable {group : Reader Token (List Command)} {tokens rest : List Token}

theorem exists_term_of_operand (hg : ReadsSteps group) {value : Operand}
    (h : (operand group).run tokens = some (value, rest)) :
    ∃ term : Term, tokens = term.tokens ++ rest ∧ term.value = value := by
  rcases run_orElse_eq_some h with h | ⟨-, h⟩
  · obtain ⟨token, rfl, denotes⟩ := run_single_eq_some_iff.mp h
    exact ⟨.token token value denotes, rfl, rfl⟩
  · obtain ⟨_, inner, hopen, h⟩ := run_bind_eq_some_iff.mp h
    obtain ⟨commands, after, hgroup, h⟩ := run_bind_eq_some_iff.mp h
    obtain ⟨_, left, hclose, h⟩ := run_bind_eq_some_iff.mp h
    cases h
    obtain rfl := run_just_eq_some_iff.mp hopen
    obtain rfl := run_just_eq_some_iff.mp hclose
    obtain ⟨first, steps, rfl, rfl⟩ := hg _ _ _ hgroup
    refine ⟨.group first steps, ?_, rfl⟩
    simp only [Term.tokens, List.cons_append, List.append_assoc, List.nil_append]

theorem exists_terms_of_repeats (hg : ReadsSteps group) {values : List Operand}
    (h : Repeats (operand group) tokens values rest) :
    ∃ terms : List Term, tokens = tokensOf terms ++ rest ∧ valuesOf terms = values := by
  induction h with
  | nil => exact ⟨[], rfl, rfl⟩
  | cons first _ ih =>
    obtain ⟨term, rfl, rfl⟩ := exists_term_of_operand hg first
    obtain ⟨terms, rfl, rfl⟩ := ih
    exact ⟨term :: terms, (List.append_assoc ..).symm, rfl⟩

theorem exists_step_of_command (hg : ReadsSteps group) {value : Command}
    (h : (command group).run tokens = some (value, rest)) :
    ∃ step : Step, tokens = step.tokens ++ rest ∧ step.command = value := by
  rcases run_orElse_eq_some h with h | ⟨-, h⟩
  · obtain ⟨name, behind, hname, h⟩ := run_bind_eq_some_iff.mp h
    obtain ⟨first, after, hfirst, h⟩ := run_bind_eq_some_iff.mp h
    obtain ⟨others, left, hothers, h⟩ := run_bind_eq_some_iff.mp h
    cases h
    obtain rfl := run_function_eq_some_iff.mp hname
    obtain ⟨term, rfl, rfl⟩ := exists_term_of_operand hg hfirst
    obtain ⟨terms, rfl, rfl⟩ := exists_terms_of_repeats hg (repeats_of_many hothers)
    refine ⟨.call name term terms, ?_, rfl⟩
    rw [Step.tokens, List.cons_append, List.append_assoc]
  · obtain ⟨value, hvalue, rfl⟩ := run_map_eq_some_iff.mp h
    obtain ⟨term, rfl, rfl⟩ := exists_term_of_operand hg hvalue
    exact ⟨.operand term, rfl, rfl⟩

theorem exists_steps_of_repeats (hg : ReadsSteps group) {values : List Command}
    (h : Repeats (nextCommand group) tokens values rest) :
    ∃ steps : List Step, tokens = tokensAfter steps ++ rest ∧ commandsOf steps = values := by
  induction h with
  | nil => exact ⟨[], rfl, rfl⟩
  | cons first _ ih =>
    obtain ⟨_, behind, hpipe, hcommand⟩ := run_bind_eq_some_iff.mp first
    obtain rfl := run_just_eq_some_iff.mp hpipe
    obtain ⟨step, rfl, rfl⟩ := exists_step_of_command hg hcommand
    obtain ⟨steps, rfl, rfl⟩ := ih
    refine ⟨step :: steps, ?_, rfl⟩
    rw [tokensAfter, List.cons_append, List.append_assoc]

theorem commands_sound (depth : Nat) : ReadsSteps (commands depth) := by
  induction depth with
  | zero => exact fun _ _ _ => nofun
  | succ depth ih =>
    intro tokens values rest h
    obtain ⟨first, after, hfirst, h⟩ := run_bind_eq_some_iff.mp h
    obtain ⟨others, left, hothers, h⟩ := run_bind_eq_some_iff.mp h
    cases h
    obtain ⟨step, rfl, rfl⟩ := exists_step_of_command ih hfirst
    obtain ⟨steps, rfl, rfl⟩ := exists_steps_of_repeats ih (repeats_of_many hothers)
    exact ⟨step, steps, rfl, rfl⟩

end Sound

theorem exists_naming_of_binding {tokens rest : List Token} {value : Binding}
    (h : binding.run tokens = some (value, rest)) :
    ∃ naming : Naming, tokens = naming.tokens ++ rest ∧ naming.binding = value := by
  obtain ⟨first, behind, hfirst, h⟩ := run_bind_eq_some_iff.mp h
  obtain ⟨second, after, hsecond, h⟩ := run_bind_eq_some_iff.mp h
  obtain ⟨kind, left, hkind, h⟩ := run_bind_eq_some_iff.mp h
  cases h
  obtain ⟨token, rfl, htoken⟩ := run_item_eq_some_iff.mp hfirst
  obtain ⟨rfl, hne⟩ := bindable?_eq_some_iff.mp htoken
  obtain ⟨mark, rfl, hmark⟩ := run_item_eq_some_iff.mp hkind
  obtain rfl := bindingKind?_eq_some_iff.mp hmark
  rcases run_maybe_eq_some hsecond with ⟨rfl, rfl⟩ | ⟨name, rfl, hname⟩
  · exact ⟨⟨⟨first, hne⟩, none, kind⟩, rfl, rfl⟩
  · obtain ⟨_, more, hcomma, hname⟩ := run_bind_eq_some_iff.mp hname
    obtain rfl := run_just_eq_some_iff.mp hcomma
    obtain ⟨other, rfl, hother⟩ := run_item_eq_some_iff.mp hname
    obtain ⟨rfl, hne'⟩ := bindable?_eq_some_iff.mp hother
    exact ⟨⟨⟨first, hne⟩, some ⟨name, hne'⟩, kind⟩, rfl, rfl⟩

theorem exists_phrase_of_pipeline {depth : Nat} {tokens rest : List Token} {value : Pipeline}
    (h : (pipeline depth).run tokens = some (value, rest)) :
    ∃ phrase : Phrase, tokens = phrase.tokens ++ rest ∧ phrase.pipeline = value := by
  obtain ⟨names, behind, hnames, h⟩ := run_bind_eq_some_iff.mp h
  obtain ⟨values, left, hvalues, h⟩ := run_bind_eq_some_iff.mp h
  cases h
  obtain ⟨first, steps, rfl, rfl⟩ := commands_sound depth _ _ _ hvalues
  rcases run_maybe_eq_some hnames with ⟨rfl, rfl⟩ | ⟨value, rfl, hbinding⟩
  · exact ⟨⟨none, first, steps⟩, (List.append_assoc ..).symm, rfl⟩
  · obtain ⟨naming, rfl, rfl⟩ := exists_naming_of_binding hbinding
    refine ⟨⟨some naming, first, steps⟩, ?_, rfl⟩
    simp only [Phrase.tokens, Option.elim_some, List.append_assoc]

/-! ## What is derived is read -/

section Complete

variable {group : Reader Token (List Command)} {tokens rest : List Token}

/-- No operand is read where a command ends. -/
theorem run_operand_of_endsStep (h : EndsStep tokens) : (operand group).run tokens = none := by
  refine Option.eq_none_iff_forall_ne_some.mpr fun ⟨value, rest⟩ hrun => ?_
  rcases run_orElse_eq_some hrun with hrun | ⟨-, hrun⟩
  · obtain ⟨token, rfl, denotes⟩ := run_single_eq_some_iff.mp hrun
    rcases h token rfl with rfl | rfl <;> cases denotes
  · obtain ⟨_, inner, hopen, -⟩ := run_bind_eq_some_iff.mp hrun
    obtain rfl := run_just_eq_some_iff.mp hopen
    rcases h .parenOpen rfl with h | h <;> cases h

/-- A function's name with no operand behind it is no call. -/
theorem run_call_of_endsStep (term : Term) (h : EndsStep rest) :
    (call group).run (term.tokens ++ rest) = none := by
  refine Option.eq_none_iff_forall_ne_some.mpr fun ⟨value, left⟩ hrun => ?_
  obtain ⟨name, behind, hname, hrun⟩ := run_bind_eq_some_iff.mp hrun
  obtain ⟨first, after, hfirst, -⟩ := run_bind_eq_some_iff.mp hrun
  have htokens := run_function_eq_some_iff.mp hname
  cases term with
  | token token operand denotes =>
    obtain rfl : rest = behind := (List.cons.inj htokens).2
    cases (run_operand_of_endsStep h).symm.trans hfirst
  | group => cases (List.cons.inj htokens).1

/-- No command follows where all commands end. -/
theorem run_nextCommand_of_endsSteps (h : EndsSteps tokens) :
    (nextCommand group).run tokens = none := by
  refine Option.eq_none_iff_forall_ne_some.mpr fun ⟨value, rest⟩ hrun => ?_
  obtain ⟨_, behind, hpipe, -⟩ := run_bind_eq_some_iff.mp hrun
  obtain rfl := run_just_eq_some_iff.mp hpipe
  cases h .pipe rfl

theorem run_commands_succ {depth : Nat} {behind : List Token} {first : Command}
    {others : List Command} (hfirst : (command (commands depth)).run tokens = some (first, behind))
    (hothers : (many (nextCommand (commands depth))).run behind = some (others, rest)) :
    (commands (depth + 1)).run tokens = some (first :: others, rest) :=
  run_bind_eq_some_iff.mpr ⟨_, _, hfirst, run_bind_eq_some_iff.mpr ⟨_, _, hothers, rfl⟩⟩

end Complete

end Reader

open Reader

theorem Phrase.Term.length_tokens_pos (term : Term) : 0 < term.tokens.length := by
  cases term <;> exact Nat.succ_pos _

-- Parentheses are tokens themselves, so the number of tokens bounds how deep they are nested.
mutual

theorem Phrase.Term.run_operand (term : Term) {depth : Nat} (hdepth : term.tokens.length ≤ depth)
    (rest : List Token) :
    (operand (commands depth)).run (term.tokens ++ rest) = some (term.value, rest) := by
  cases term with
  | token token value denotes =>
    have hsingle : single.run (token :: rest) = some (value, rest) :=
      run_single_eq_some_iff.mpr ⟨token, rfl, denotes⟩
    rw [operand, run_orElse]
    simp only [Term.tokens, Term.value, List.cons_append, List.nil_append, hsingle, Option.some_or]
  | group first steps =>
    simp only [Term.tokens, List.length_cons, List.length_append] at hdepth
    obtain ⟨depth, rfl⟩ : ∃ n, depth = n + 1 := ⟨depth - 1, by omega⟩
    have hfirst : first.tokens.length ≤ depth := by omega
    have hsteps : (tokensAfter steps).length ≤ depth := by omega
    have hends := endsSteps_parenClose rest
    have hcommands := run_commands_succ
      (first.run_command hfirst (endsStep_tokensAfter steps hends))
      (run_tokensAfter steps hsteps hends)
    have hsingle : single.run (.parenOpen :: (first.tokens ++ (tokensAfter steps ++
        .parenClose :: rest))) = none := by
      rw [run_single_cons]
      rfl
    rw [operand, run_orElse]
    simp only [Term.tokens, List.cons_append, List.append_assoc, List.nil_append, hsingle,
      Option.none_or]
    exact run_bind_eq_some_iff.mpr ⟨(), _, run_just_eq_some_iff.mpr rfl, run_bind_eq_some_iff.mpr
      ⟨_, _, hcommands, run_bind_eq_some_iff.mpr
        ⟨(), _, run_just_eq_some_iff.mpr rfl, rfl⟩⟩⟩
termination_by structural term

theorem Phrase.Step.run_command (step : Step) {depth : Nat} (hdepth : step.tokens.length ≤ depth)
    {rest : List Token} (hr : EndsStep rest) :
    (command (commands depth)).run (step.tokens ++ rest) = some (step.command, rest) := by
  cases step with
  | call name first terms =>
    simp only [Step.tokens, List.length_cons, List.length_append] at hdepth
    have hfirst : first.tokens.length ≤ depth := by omega
    have hterms : (tokensOf terms).length ≤ depth := by omega
    have hcall : (call (commands depth)).run
        (.identifier name :: (first.tokens ++ (tokensOf terms ++ rest))) =
          some (.call name (first.value :: valuesOf terms), rest) :=
      run_bind_eq_some_iff.mpr ⟨name, _, run_function_eq_some_iff.mpr rfl,
        run_bind_eq_some_iff.mpr ⟨_, _, first.run_operand hfirst _, run_bind_eq_some_iff.mpr
          ⟨_, _, run_tokensOf terms hterms hr, rfl⟩⟩⟩
    rw [command, run_orElse]
    simp only [Step.tokens, Step.command, List.cons_append, List.append_assoc, hcall,
      Option.some_or]
  | operand term =>
    rw [command, run_orElse, Step.tokens, run_call_of_endsStep term hr, Option.none_or]
    exact run_map_eq_some_iff.mpr ⟨_, term.run_operand hdepth rest, rfl⟩
termination_by structural step

theorem run_tokensOf (terms : List Term) {depth : Nat} (hdepth : (tokensOf terms).length ≤ depth)
    {rest : List Token} (hr : EndsStep rest) :
    (many (operand (commands depth))).run (tokensOf terms ++ rest) =
      some (valuesOf terms, rest) := by
  cases terms with
  | nil => exact run_many_of_none (run_operand_of_endsStep hr)
  | cons term terms =>
    simp only [tokensOf, List.length_append] at hdepth
    have hpos := term.length_tokens_pos
    have hfirst : term.tokens.length ≤ depth := by omega
    rw [tokensOf, List.append_assoc]
    refine run_many_of_some (term.run_operand hfirst _) ?_ (run_tokensOf terms (by omega) hr)
    simp only [List.length_append]
    omega
termination_by structural terms

theorem run_tokensAfter (steps : List Step) {depth : Nat}
    (hdepth : (tokensAfter steps).length ≤ depth) {rest : List Token} (hr : EndsSteps rest) :
    (many (nextCommand (commands depth))).run (tokensAfter steps ++ rest) =
      some (commandsOf steps, rest) := by
  cases steps with
  | nil => exact run_many_of_none (run_nextCommand_of_endsSteps hr)
  | cons step steps =>
    simp only [tokensAfter, List.length_cons, List.length_append] at hdepth
    have hfirst : (nextCommand (commands depth)).run
        (.pipe :: (step.tokens ++ (tokensAfter steps ++ rest))) =
          some (step.command, tokensAfter steps ++ rest) :=
      run_bind_eq_some_iff.mpr ⟨(), _, run_just_eq_some_iff.mpr rfl,
        step.run_command (by omega) (endsStep_tokensAfter steps hr)⟩
    rw [tokensAfter, List.cons_append, List.append_assoc]
    refine run_many_of_some hfirst ?_ (run_tokensAfter steps (by omega) hr)
    simp only [List.length_cons, List.length_append]
    omega
termination_by structural steps

end

theorem Phrase.Naming.run_binding (naming : Naming) (rest : List Token) :
    Reader.binding.run (naming.tokens ++ rest) = some (naming.binding, rest) := by
  obtain ⟨⟨first, hfirst⟩, second, kind⟩ := naming
  have hbind {name : String} (hne : name ≠ "") (rest : List Token) :
      (item bindable?).run (.variable name [] :: rest) = some (name, rest) :=
    run_item_eq_some_iff.mpr ⟨_, rfl, bindable?_eq_some_iff.mpr ⟨rfl, hne⟩⟩
  have hmark : (item bindingKind?).run (markOf kind :: rest) = some (kind, rest) :=
    run_item_eq_some_iff.mpr ⟨_, rfl, bindingKind?_eq_some_iff.mpr rfl⟩
  cases second with
  | none =>
    have hsecond : secondName.run (markOf kind :: rest) = none := by cases kind <;> rfl
    exact run_bind_eq_some_iff.mpr ⟨_, _, hbind hfirst _, run_bind_eq_some_iff.mpr
      ⟨_, _, run_maybe_of_none hsecond, run_bind_eq_some_iff.mpr ⟨_, _, hmark, rfl⟩⟩⟩
  | some second =>
    have hsecond : secondName.run (.comma :: .variable second [] :: markOf kind :: rest) =
        some (second.val, markOf kind :: rest) :=
      run_bind_eq_some_iff.mpr ⟨(), _, run_just_eq_some_iff.mpr rfl, hbind second.2 _⟩
    exact run_bind_eq_some_iff.mpr ⟨_, _, hbind hfirst _, run_bind_eq_some_iff.mpr
      ⟨_, _, run_maybe_of_some hsecond, run_bind_eq_some_iff.mpr ⟨_, _, hmark, rfl⟩⟩⟩

/-- Names are given up where commands stand. -/
theorem run_binding_of_steps (first : Step) (steps : List Step) :
    binding.run (first.tokens ++ tokensAfter steps) = none := by
  refine Option.eq_none_iff_forall_ne_some.mpr fun ⟨value, rest⟩ hrun => ?_
  obtain ⟨naming, htokens, -⟩ := exists_naming_of_binding hrun
  exact naming_tokens_ne (endsStep_tokensAfter_nil steps) htokens.symm

theorem Phrase.run_pipeline (phrase : Phrase) {depth : Nat}
    (hdepth : phrase.tokens.length < depth) :
    (Reader.pipeline depth).run phrase.tokens = some (phrase.pipeline, []) := by
  obtain ⟨naming, first, steps⟩ := phrase
  simp only [Phrase.tokens, List.length_append] at hdepth
  obtain ⟨depth, rfl⟩ : ∃ n, depth = n + 1 := ⟨depth - 1, by omega⟩
  have hfirst : first.tokens.length ≤ depth := by omega
  have hsteps : (tokensAfter steps).length ≤ depth := by omega
  have hrest := run_tokensAfter steps hsteps (show EndsSteps [] from nofun)
  rw [List.append_nil] at hrest
  have hcommands := run_commands_succ
    (first.run_command hfirst (endsStep_tokensAfter_nil steps)) hrest
  cases naming with
  | none =>
    exact run_bind_eq_some_iff.mpr ⟨none, _, run_maybe_of_none (run_binding_of_steps first steps),
      run_bind_eq_some_iff.mpr ⟨_, _, hcommands, rfl⟩⟩
  | some naming =>
    exact run_bind_eq_some_iff.mpr ⟨some naming.binding, _,
      run_maybe_of_some (naming.run_binding _), run_bind_eq_some_iff.mpr ⟨_, _, hcommands, rfl⟩⟩

/-- All of the tokens are read as a pipeline, if parentheses may be nested as deep as they can, if
and only if the grammar derives them. -/
theorem Reader.readAll?_pipeline_eq_some_iff {depth : Nat} {tokens : List Token}
    {pipeline : Pipeline} (hdepth : tokens.length < depth) :
    (Reader.pipeline depth).readAll? tokens = some pipeline ↔
      ∃ phrase : Phrase, phrase.tokens = tokens ∧ phrase.pipeline = pipeline := by
  rw [readAll?_eq_some_iff]
  constructor
  · intro h
    obtain ⟨phrase, htokens, hpipeline⟩ := exists_phrase_of_pipeline h
    rw [List.append_nil] at htokens
    exact ⟨phrase, htokens.symm, hpipeline⟩
  · rintro ⟨phrase, rfl, rfl⟩
    exact phrase.run_pipeline hdepth

/-- The pipeline that all of the tokens are by ordered choice. No parentheses are nested deeper than
there are tokens. -/
def Pipeline.byChoice? (tokens : List Token) : Option Pipeline :=
  (Reader.pipeline (tokens.length + 1)).readAll? tokens

/-- Reading from left to right and ordered choice give the same pipelines. -/
theorem Pipeline.byChoice?_eq (lexemes : List Lexeme) :
    Pipeline.byChoice? (lexemes.map (·.token)) = Pipeline.ofLexemes lexemes := by
  refine Option.ext fun pipeline => ?_
  rw [Pipeline.byChoice?, readAll?_pipeline_eq_some_iff (Nat.lt_succ_self _)]
  constructor
  · rintro ⟨phrase, htokens, rfl⟩
    exact phrase.read htokens.symm
  · exact exists_phrase

/-- Tokens are read as a pipeline if and only if the grammar derives them, in one way only, and the
pipeline is the one that is derived. Ordered choice gives the same. -/
theorem Pipeline.ofLexemes_spec (lexemes : List Lexeme) :
    ((∃ pipeline, Pipeline.ofLexemes lexemes = some pipeline) ↔
        ∃ phrase : Phrase, phrase.tokens = lexemes.map (·.token)) ∧
      (∀ pipeline, Pipeline.ofLexemes lexemes = some pipeline →
        ∃ phrase : Phrase, phrase.tokens = lexemes.map (·.token) ∧
          (∀ other : Phrase, other.tokens = lexemes.map (·.token) → other = phrase) ∧
            phrase.pipeline = pipeline) ∧
      Pipeline.ofLexemes lexemes = Pipeline.byChoice? (lexemes.map (·.token)) := by
  refine ⟨⟨?_, ?_⟩, fun pipeline h => ?_, (Pipeline.byChoice?_eq lexemes).symm⟩
  · rintro ⟨pipeline, h⟩
    obtain ⟨phrase, htokens, -⟩ := exists_phrase h
    exact ⟨phrase, htokens⟩
  · rintro ⟨phrase, htokens⟩
    exact ⟨phrase.pipeline, phrase.read htokens.symm⟩
  · obtain ⟨phrase, htokens, rfl⟩ := exists_phrase h
    exact ⟨phrase, htokens, fun other ho => tokens_inj (ho.trans htokens.symm), rfl⟩

/-- Two names, a call with a group and a quoted text among its operands, and a bare function. -/
theorem Pipeline.ofLexemes_spec_group :
    let tokens : List Token := [.variable "x" [], .comma, .variable "y" [], .declare,
      .identifier "f", .parenOpen, .dot, .pipe, .identifier "g", .parenClose, .text "a\\n",
      .number "-1", .pipe, .identifier "h"]
    let lexemes : List Lexeme := tokens.mapIdx fun place token => ⟨token, ⟨place, place + 1⟩⟩
    let pipeline : Pipeline := ⟨some ⟨.declare, ["x", "y"]⟩,
      [.call "f" [.group [.operand .dot, .operand (.function "g")], .literal (.text "a\n"),
        .literal (.int (-1))], .operand (.function "h")]⟩
    Pipeline.ofLexemes lexemes = some pipeline ∧
      ∃ phrase : Phrase, phrase.tokens = lexemes.map (·.token) ∧
        (∀ other : Phrase, other.tokens = lexemes.map (·.token) → other = phrase) ∧
          phrase.pipeline = pipeline := by
  intro tokens lexemes pipeline
  have hread : Pipeline.ofLexemes lexemes = some pipeline := by
    unfold lexemes tokens pipeline
    with_unfolding_all rfl
  exact ⟨hread, (Pipeline.ofLexemes_spec lexemes).2.1 pipeline hread⟩

end LiveTemplate
