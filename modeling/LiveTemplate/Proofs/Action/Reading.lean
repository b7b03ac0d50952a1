import LiveTemplate.Proofs.Action.Grammar

/-!
# Pipelines are read by their grammar

`Pipeline.ofLexemes` reads tokens as a pipeline if and only if the grammar derives them, and then
the pipeline is that of the derivation.

* `Phrase.Term.read` and `Phrase.Step.read`: what the grammar derives is read, whatever follows it.
  `Phrase.read` is the same of a pipeline.
* `Opened`: what has been read so far is derived, in parts, within parentheses that are still open.
  `exists_steps`: whatever is read up to the end is derived. `exists_phrase` is the same of a
  pipeline.
-/

namespace LiveTemplate

open Phrase

theorem Operand.ofToken?_eq_ok_iff {token : Token} {operand : Operand} :
    Operand.ofToken? token = some (.ok operand) ↔ token.Denotes operand := by
  constructor
  · intro h
    unfold Operand.ofToken? at h
    split at h
    case h_5 numeral =>
      split at h
      · rename_i value hvalue
        cases h
        exact .number hvalue
      · cases h
    case h_6 body =>
      split at h
      · rename_i cs hcs
        cases h
        exact .text hcs
      · cases h
    all_goals
      cases h
    all_goals constructor
  · intro h
    cases h with
    | number valued => simp [Operand.ofToken?, valued]
    | text unescaped => simp [Operand.ofToken?, unescaped]
    | _ => rfl

/-! ## One token -/

section

variable {outer : List Level} {level : Level} {lexeme : Lexeme} {commands : List Command}

theorem readCommands_pipe (ht : lexeme.token = .pipe) (hc : level.commands? = some commands)
    (rest : List Lexeme) :
    readCommands outer level (lexeme :: rest) = readCommands outer ⟨commands, .empty⟩ rest := by
  simp only [readCommands, ht, hc]

theorem readCommands_open (ht : lexeme.token = .parenOpen)
    (takes : level.current.takesOperand = true) (rest : List Lexeme) :
    readCommands outer level (lexeme :: rest) = readCommands (level :: outer) .start rest := by
  simp [readCommands, ht, takes]

theorem readCommands_close (ht : lexeme.token = .parenClose) (hc : level.commands? = some commands)
    (parent : Level) (rest : List Lexeme) :
    readCommands (parent :: outer) level (lexeme :: rest) =
      readCommands outer (parent.add (.group commands)) rest := by
  simp only [readCommands, ht, hc]

theorem readCommands_operand {operand : Operand} (ht : lexeme.token.Denotes operand)
    (takes : level.current.takesOperand = true) (rest : List Lexeme) :
    readCommands outer level (lexeme :: rest) = readCommands outer (level.add operand) rest := by
  have hread := Operand.ofToken?_eq_ok_iff.mpr ht
  obtain ⟨token, span⟩ := lexeme
  dsimp only at ht hread
  cases ht <;> simp [readCommands, takes, hread]

end

/-! ## What is derived is read -/

mutual

theorem Phrase.Term.read (term : Term) {lexemes : List Lexeme}
    (h : lexemes.map (·.token) = term.tokens) (outer : List Level) {level : Level}
    (takes : level.current.takesOperand = true) (rest : List Lexeme) :
    readCommands outer level (lexemes ++ rest) =
      readCommands outer (level.add term.value) rest := by
  cases term with
  | token token operand denotes =>
    obtain ⟨lexeme, rfl, rfl⟩ := List.map_eq_singleton_iff.mp h
    exact readCommands_operand denotes takes rest
  | group first steps =>
    rw [Term.tokens] at h
    obtain ⟨opening, others, rfl, hopening, hothers⟩ := List.map_eq_cons_iff.mp h
    obtain ⟨firstLexemes, others, rfl, hfirst, hothers⟩ := List.map_eq_append_iff.mp hothers
    obtain ⟨stepLexemes, others, rfl, hsteps, hothers⟩ := List.map_eq_append_iff.mp hothers
    obtain ⟨closing, rfl, hclosing⟩ := List.map_eq_singleton_iff.mp hothers
    obtain ⟨current, hcurrent, hread⟩ := first.read hfirst []
    obtain ⟨inner, hinner, hmore⟩ := read_tokensAfter steps hsteps hcurrent
    rw [List.cons_append, readCommands_open hopening takes, List.append_assoc, Level.start, hread,
      List.append_assoc, hmore, List.singleton_append, readCommands_close hclosing hinner]
    rfl
termination_by structural term

theorem Phrase.Step.read (step : Step) {lexemes : List Lexeme}
    (h : lexemes.map (·.token) = step.tokens) (finished : List Command) :
    ∃ current : Unfinished,
      Level.commands? ⟨finished, current⟩ = some (finished ++ [step.command]) ∧
      ∀ outer rest, readCommands outer ⟨finished, .empty⟩ (lexemes ++ rest) =
        readCommands outer ⟨finished, current⟩ rest := by
  cases step with
  | call function first terms =>
    rw [Step.tokens] at h
    obtain ⟨name, others, rfl, hname, hothers⟩ := List.map_eq_cons_iff.mp h
    obtain ⟨firstLexemes, others, rfl, hfirst, hterms⟩ := List.map_eq_append_iff.mp hothers
    refine ⟨.call function ([first.value] ++ valuesOf terms), rfl, fun outer rest => ?_⟩
    have hfunction : name.token.Denotes (.function function) := hname ▸ .function
    rw [List.cons_append, readCommands_operand hfunction rfl, List.append_assoc,
      first.read hfirst outer rfl]
    exact read_tokensOf terms hterms outer finished function [first.value] rest
  | operand term =>
    refine ⟨Unfinished.empty.add term.value, ?_, fun outer rest => term.read h outer rfl rest⟩
    cases hvalue : term.value <;>
      simp [Level.commands?, Unfinished.add, Unfinished.command?, Step.command, hvalue]
termination_by structural step

theorem read_tokensOf (terms : List Term) {lexemes : List Lexeme}
    (h : lexemes.map (·.token) = tokensOf terms) (outer : List Level) (finished : List Command)
    (function : String) (arguments : List Operand) (rest : List Lexeme) :
    readCommands outer ⟨finished, .call function arguments⟩ (lexemes ++ rest) =
      readCommands outer ⟨finished, .call function (arguments ++ valuesOf terms)⟩ rest := by
  cases terms with
  | nil =>
    obtain rfl := List.map_eq_nil_iff.mp h
    rw [valuesOf, List.append_nil]
    rfl
  | cons term terms =>
    rw [tokensOf] at h
    obtain ⟨first, others, rfl, hfirst, hothers⟩ := List.map_eq_append_iff.mp h
    rw [List.append_assoc, term.read hfirst outer rfl, valuesOf, List.append_cons]
    exact read_tokensOf terms hothers outer finished function _ rest
termination_by structural terms

theorem read_tokensAfter (steps : List Step) {lexemes : List Lexeme}
    (h : lexemes.map (·.token) = tokensAfter steps) {level : Level} {commands : List Command}
    (hc : level.commands? = some commands) :
    ∃ inner : Level, inner.commands? = some (commands ++ commandsOf steps) ∧
      ∀ outer rest, readCommands outer level (lexemes ++ rest) = readCommands outer inner rest := by
  cases steps with
  | nil =>
    obtain rfl := List.map_eq_nil_iff.mp h
    refine ⟨level, ?_, fun _ _ => rfl⟩
    rw [hc, commandsOf, List.append_nil]
  | cons step steps =>
    rw [tokensAfter] at h
    obtain ⟨bar, others, rfl, hbar, hothers⟩ := List.map_eq_cons_iff.mp h
    obtain ⟨first, others, rfl, hfirst, hothers⟩ := List.map_eq_append_iff.mp hothers
    obtain ⟨current, hcurrent, hread⟩ := step.read hfirst commands
    obtain ⟨inner, hinner, hmore⟩ := read_tokensAfter steps hothers hcurrent
    refine ⟨inner, ?_, fun outer rest => ?_⟩
    · rw [hinner, commandsOf, List.append_assoc]
      rfl
    · rw [List.cons_append, readCommands_pipe hbar hc, List.append_assoc, hread, hmore]
termination_by structural steps

end

/-! ## What is read is derived -/

theorem Phrase.tokensOf_concat (terms : List Term) (term : Term) :
    tokensOf (terms ++ [term]) = tokensOf terms ++ term.tokens := by
  induction terms with
  | nil => exact List.append_nil _
  | cons first rest ih => rw [List.cons_append, tokensOf, tokensOf, ih, List.append_assoc]

theorem Phrase.tokensAfter_concat (steps : List Step) (step : Step) :
    tokensAfter (steps ++ [step]) = tokensAfter steps ++ .pipe :: step.tokens := by
  induction steps with
  | nil => exact congrArg (Token.pipe :: ·) (List.append_nil _)
  | cons first rest ih =>
    rw [List.cons_append, tokensAfter, tokensAfter, ih, List.cons_append, List.append_assoc]

theorem Phrase.valuesOf_concat (terms : List Term) (term : Term) :
    valuesOf (terms ++ [term]) = valuesOf terms ++ [term.value] := by
  induction terms with
  | nil => rfl
  | cons first rest ih => rw [List.cons_append, valuesOf, valuesOf, ih, List.cons_append]

theorem Phrase.commandsOf_concat (steps : List Step) (step : Step) :
    commandsOf (steps ++ [step]) = commandsOf steps ++ [step.command] := by
  induction steps with
  | nil => rfl
  | cons first rest ih => rw [List.cons_append, commandsOf, commandsOf, ih, List.cons_append]

theorem Phrase.Term.tokens_of_value_eq_function {term : Term} {name : String}
    (h : term.value = .function name) : term.tokens = [.identifier name] := by
  cases term with
  | token token operand denotes =>
    obtain rfl : operand = .function name := h
    cases denotes
    rfl
  | group => cases h

/-- The tokens of an unfinished command are those of the operands that it has. -/
inductive Unfinished.Reads : List Token → Unfinished → Prop
  | empty : Reads [] .empty
  | named {name : String} : Reads [.identifier name] (.named name)
  | call {function : String} {first : Term} {rest : List Term} :
      Reads (.identifier function :: (first.tokens ++ tokensOf rest))
        (.call function (first.value :: valuesOf rest))
  | operand {term : Term} : Reads term.tokens (.operand term.value)

namespace Unfinished.Reads

variable {tokens : List Token} {current : Unfinished}

theorem add (h : Reads tokens current) (takes : current.takesOperand = true) (term : Term) :
    Reads (tokens ++ term.tokens) (current.add term.value) := by
  cases h with
  | empty =>
    rw [List.nil_append]
    cases hvalue : term.value with
    | function name =>
      rw [Term.tokens_of_value_eq_function hvalue]
      exact .named
    | _ =>
      have hoperand := @operand term
      rw [hvalue] at hoperand
      exact hoperand
  | named =>
    have hcall {function : String} := @call function term []
    rw [tokensOf, List.append_nil] at hcall
    exact hcall
  | @call function first rest =>
    have hcall := @call function first (rest ++ [term])
    rw [tokensOf_concat, valuesOf_concat, ← List.append_assoc] at hcall
    exact hcall
  | operand => cases takes

theorem exists_step {command : Command} (h : Reads tokens current)
    (hc : current.command? = some command) :
    ∃ step : Step, step.tokens = tokens ∧ step.command = command := by
  cases h with
  | empty => cases hc
  | named =>
    cases hc
    exact ⟨.operand (.token _ _ .function), rfl, rfl⟩
  | call =>
    cases hc
    exact ⟨.call _ _ _, rfl, rfl⟩
  | operand =>
    cases hc
    exact ⟨.operand _, rfl, rfl⟩

end Unfinished.Reads

/-- The tokens of a level are those of its commands, with bars between them. -/
inductive Level.Reads : List Token → Level → Prop
  | first {unread : List Token} {current : Unfinished} (reads : current.Reads unread) :
      Reads unread ⟨[], current⟩
  | later {first : Step} {rest : List Step} {unread : List Token} {current : Unfinished}
      (reads : current.Reads unread) :
      Reads (first.tokens ++ tokensAfter rest ++ .pipe :: unread)
        ⟨first.command :: commandsOf rest, current⟩

namespace Level.Reads

variable {tokens : List Token} {level : Level}

theorem add (h : Reads tokens level) (takes : level.current.takesOperand = true) (term : Term) :
    Reads (tokens ++ term.tokens) (level.add term.value) := by
  cases h with
  | first reads => exact .first (reads.add takes term)
  | later reads =>
    rw [List.append_assoc]
    exact .later (reads.add takes term)

theorem exists_steps {commands : List Command} (h : Reads tokens level)
    (hc : level.commands? = some commands) :
    ∃ (first : Step) (rest : List Step), first.tokens ++ tokensAfter rest = tokens ∧
      first.command :: commandsOf rest = commands := by
  obtain ⟨command, hcommand, rfl⟩ := Option.map_eq_some_iff.mp hc
  cases h with
  | first reads =>
    obtain ⟨step, rfl, rfl⟩ := reads.exists_step hcommand
    exact ⟨step, [], List.append_nil _, rfl⟩
  | @later first rest _ _ reads =>
    obtain ⟨step, rfl, rfl⟩ := reads.exists_step hcommand
    refine ⟨first, rest ++ [step], ?_, ?_⟩
    · rw [tokensAfter_concat, List.append_assoc]
    · rw [commandsOf_concat]
      rfl

theorem pipe {commands : List Command} (h : Reads tokens level)
    (hc : level.commands? = some commands) : Reads (tokens ++ [.pipe]) ⟨commands, .empty⟩ := by
  obtain ⟨first, rest, rfl, rfl⟩ := h.exists_steps hc
  exact .later .empty

end Level.Reads

/-- The tokens that have been read: those of the innermost level behind those of the levels around
it, each of which goes on with an operand in parentheses. -/
inductive Opened : List Token → List Level → Level → Prop
  | top {tokens : List Token} {level : Level} (inside : level.Reads tokens) :
      Opened tokens [] level
  | group {before tokens : List Token} {outer : List Level} {parent level : Level}
      (outside : Opened before outer parent) (takes : parent.current.takesOperand = true)
      (inside : level.Reads tokens) :
      Opened (before ++ .parenOpen :: tokens) (parent :: outer) level

namespace Opened

variable {tokens : List Token} {outer : List Level} {level : Level} {commands : List Command}

/-- What is read next is read on the innermost level. -/
theorem exists_inside (h : Opened tokens outer level) :
    ∃ before inner, tokens = before ++ inner ∧ level.Reads inner ∧
      ∀ more next, Level.Reads more next → Opened (before ++ more) outer next := by
  cases h with
  | top inside => exact ⟨[], tokens, rfl, inside, fun _ _ => .top⟩
  | @group before inner _ _ _ outside takes inside =>
    refine ⟨before ++ [.parenOpen], inner, List.append_cons _ _ _, inside,
      fun more next hnext => ?_⟩
    rw [← List.append_cons]
    exact .group outside takes hnext

theorem add (h : Opened tokens outer level) (takes : level.current.takesOperand = true)
    (term : Term) : Opened (tokens ++ term.tokens) outer (level.add term.value) := by
  obtain ⟨before, inner, rfl, hinner, hnext⟩ := h.exists_inside
  rw [List.append_assoc]
  exact hnext _ _ (hinner.add takes term)

theorem pipe (h : Opened tokens outer level) (hc : level.commands? = some commands) :
    Opened (tokens ++ [.pipe]) outer ⟨commands, .empty⟩ := by
  obtain ⟨before, inner, rfl, hinner, hnext⟩ := h.exists_inside
  rw [List.append_assoc]
  exact hnext _ _ (hinner.pipe hc)

theorem close {parent : Level} (h : Opened tokens (parent :: outer) level)
    (hc : level.commands? = some commands) :
    Opened (tokens ++ [.parenClose]) outer (parent.add (.group commands)) := by
  cases h with
  | group outside takes inside =>
    obtain ⟨first, rest, rfl, rfl⟩ := inside.exists_steps hc
    have hadd := outside.add takes (.group first rest)
    rw [Term.tokens] at hadd
    rw [List.append_assoc, List.cons_append, List.append_assoc]
    exact hadd

end Opened

/-- What can happen to a token where commands are read to the end. -/
theorem readCommands_cons_eq_some {outer : List Level} {level : Level} {lexeme : Lexeme}
    {rest : List Lexeme} {commands : List Command}
    (h : readCommands outer level (lexeme :: rest) = some commands) :
    (∃ done, lexeme.token = .pipe ∧ level.commands? = some done ∧
        readCommands outer ⟨done, .empty⟩ rest = some commands) ∨
      (∃ parent others done, lexeme.token = .parenClose ∧ outer = parent :: others ∧
        level.commands? = some done ∧
          readCommands others (parent.add (.group done)) rest = some commands) ∨
      (lexeme.token = .parenOpen ∧ level.current.takesOperand = true ∧
        readCommands (level :: outer) .start rest = some commands) ∨
      ∃ operand, lexeme.token.Denotes operand ∧ level.current.takesOperand = true ∧
        readCommands outer (level.add operand) rest = some commands := by
  unfold readCommands at h
  split at h
  · rename_i ht
    split at h
    · rename_i done hc
      exact .inl ⟨done, ht, hc, h⟩
    · cases h
  · rename_i ht
    split at h
    · rename_i parent others done hc
      exact .inr (.inl ⟨parent, others, done, ht, rfl, hc, h⟩)
    · cases h
  · split at h
    · rename_i takes
      split at h
      · rename_i ht
        exact .inr (.inr (.inl ⟨ht, takes, h⟩))
      · split at h
        · rename_i operand ht
          exact .inr (.inr (.inr ⟨operand, Operand.ofToken?_eq_ok_iff.mp ht, takes, h⟩))
        · cases h
    · cases h

/-- What is read up to the end is derived. -/
theorem exists_steps {lexemes : List Lexeme} {tokens : List Token} {outer : List Level}
    {level : Level} {commands : List Command} (ho : Opened tokens outer level)
    (h : readCommands outer level lexemes = some commands) :
    ∃ (first : Step) (rest : List Step),
      first.tokens ++ tokensAfter rest = tokens ++ lexemes.map (·.token) ∧
      first.command :: commandsOf rest = commands := by
  induction lexemes generalizing tokens outer level with
  | nil =>
    cases ho with
    | top inside =>
      rw [List.map_nil, List.append_nil]
      exact inside.exists_steps h
    | group => cases h
  | cons lexeme rest ih =>
    rw [List.map_cons, List.append_cons]
    rcases readCommands_cons_eq_some h with ⟨done, ht, hc, h⟩ |
      ⟨parent, others, done, ht, rfl, hc, h⟩ | ⟨ht, takes, h⟩ | ⟨operand, ht, takes, h⟩
    · rw [ht]
      exact ih (ho.pipe hc) h
    · rw [ht]
      exact ih (ho.close hc) h
    · rw [ht]
      exact ih (.group ho takes (.first .empty)) h
    · exact ih (ho.add takes (.token _ _ ht)) h

/-! ## Bindings -/

theorem bindable?_eq_some_iff {token : Token} {name : String} :
    bindable? token = some name ↔ token = .variable name [] ∧ name ≠ "" := by
  constructor
  · intro h
    unfold bindable? at h
    split at h
    · split at h
      · cases h
      · rename_i hne
        cases h
        exact ⟨rfl, hne⟩
    · cases h
  · rintro ⟨rfl, hne⟩
    exact if_neg hne

theorem bindingKind?_eq_some_iff {token : Token} {kind : BindingKind} :
    bindingKind? token = some kind ↔ token = markOf kind := by
  constructor
  · intro h
    unfold bindingKind? at h
    split at h <;> cases h <;> rfl
  · rintro rfl
    cases kind <;> rfl

theorem exists_second_of_splitSecondName {first : String} {lexemes rest : List Lexeme}
    {binding : Option Binding} (h : splitSecondName first lexemes = some (binding, rest)) :
    ∃ second kind, second ≠ "" ∧ binding = some ⟨kind, [first, second]⟩ ∧
      lexemes.map (·.token) =
        .variable second [] :: markOf kind :: rest.map (·.token) := by
  unfold splitSecondName at h
  split at h
  · obtain ⟨second, hsecond, h⟩ := Option.bind_eq_some_iff.mp h
    obtain ⟨kind, hkind, h⟩ := Option.bind_eq_some_iff.mp h
    cases h
    obtain ⟨ht, hne⟩ := bindable?_eq_some_iff.mp hsecond
    refine ⟨second, kind, hne, rfl, ?_⟩
    rw [List.map_cons, List.map_cons, ht, bindingKind?_eq_some_iff.mp hkind]
  · cases h

theorem naming_of_splitBinding {lexemes rest : List Lexeme} {binding : Option Binding}
    (h : splitBinding lexemes = some (binding, rest)) :
    (binding = none ∧ rest = lexemes) ∨ ∃ naming : Naming, binding = some naming.binding ∧
      lexemes.map (·.token) = naming.tokens ++ rest.map (·.token) := by
  unfold splitBinding at h
  split at h
  · split at h
    · cases h
      exact .inl ⟨rfl, rfl⟩
    · rename_i first hfirst
      obtain ⟨ht, hne⟩ := bindable?_eq_some_iff.mp hfirst
      split at h
      · rename_i kind hkind
        cases h
        refine .inr ⟨⟨⟨first, hne⟩, none, kind⟩, rfl, ?_⟩
        rw [List.map_cons, List.map_cons, ht, bindingKind?_eq_some_iff.mp hkind]
        rfl
      · split at h
        · rename_i hcomma
          obtain ⟨second, kind, hsecond, rfl, htokens⟩ := exists_second_of_splitSecondName h
          refine .inr ⟨⟨⟨first, hne⟩, some ⟨second, hsecond⟩, kind⟩, rfl, ?_⟩
          rw [List.map_cons, List.map_cons, ht, hcomma, htokens]
          rfl
        · cases h
          exact .inl ⟨rfl, rfl⟩
  · cases h
    exact .inl ⟨rfl, rfl⟩

theorem splitBinding_naming (naming : Naming) {lexemes : List Lexeme}
    (h : lexemes.map (·.token) = naming.tokens) (rest : List Lexeme) :
    splitBinding (lexemes ++ rest) = some (some naming.binding, rest) := by
  obtain ⟨⟨first, hfirst⟩, second, kind⟩ := naming
  have hmark : bindingKind? (markOf kind) = some kind := bindingKind?_eq_some_iff.mpr rfl
  have hbind {name : String} (hne : name ≠ "") : bindable? (.variable name []) = some name :=
    bindable?_eq_some_iff.mpr ⟨rfl, hne⟩
  cases second with
  | none =>
    obtain ⟨lexeme, others, rfl, hlexeme, hothers⟩ := List.map_eq_cons_iff.mp h
    obtain ⟨mark, rfl, hkind⟩ := List.map_eq_singleton_iff.mp hothers
    simp only [List.cons_append, List.nil_append, splitBinding, hlexeme, hbind hfirst, hkind, hmark]
    rfl
  | some second =>
    obtain ⟨second, hsecond⟩ := second
    obtain ⟨lexeme, others, rfl, hlexeme, hothers⟩ := List.map_eq_cons_iff.mp h
    obtain ⟨comma, others, rfl, hcomma, hothers⟩ := List.map_eq_cons_iff.mp hothers
    obtain ⟨other, others, rfl, hother, hothers⟩ := List.map_eq_cons_iff.mp hothers
    obtain ⟨mark, rfl, hkind⟩ := List.map_eq_singleton_iff.mp hothers
    have hnone : bindingKind? .comma = none := rfl
    simp only [List.cons_append, List.nil_append, splitBinding, hlexeme, hbind hfirst, hcomma,
      hnone, if_true, splitSecondName, hother, hbind hsecond, hkind, hmark]
    rfl

theorem splitBinding_steps {first : Step} {steps : List Step} {lexemes : List Lexeme}
    (h : lexemes.map (·.token) = first.tokens ++ tokensAfter steps) :
    splitBinding lexemes = some (none, lexemes) := by
  unfold splitBinding
  split
  · rename_i lexeme mark rest
    split
    · rfl
    · rename_i name hname
      rw [List.map_cons, (bindable?_eq_some_iff.mp hname).1] at h
      have hmark := endsStep_of_variable (endsStep_tokensAfter_nil steps) h mark.token rfl
      rcases hmark with hmark | hmark <;> rw [hmark] <;> rfl
  · rfl

/-- What the grammar derives is read. -/
theorem Phrase.read (phrase : Phrase) {lexemes : List Lexeme}
    (h : lexemes.map (·.token) = phrase.tokens) :
    Pipeline.ofLexemes lexemes = some phrase.pipeline := by
  obtain ⟨naming, first, steps⟩ := phrase
  have hsteps {lexemes : List Lexeme}
      (h : lexemes.map (·.token) = first.tokens ++ tokensAfter steps) :
      readCommands [] .start lexemes = some (first.command :: commandsOf steps) := by
    obtain ⟨firstLexemes, others, rfl, hfirst, hothers⟩ := List.map_eq_append_iff.mp h
    obtain ⟨current, hcurrent, hread⟩ := first.read hfirst []
    obtain ⟨level, hlevel, hmore⟩ := read_tokensAfter steps hothers hcurrent
    rw [Level.start, hread, ← List.append_nil others, hmore]
    simp only [readCommands, hlevel]
    rfl
  cases naming with
  | none =>
    exact Option.bind_eq_some_iff.mpr
      ⟨_, splitBinding_steps h, Option.bind_eq_some_iff.mpr ⟨_, hsteps h, rfl⟩⟩
  | some naming =>
    obtain ⟨names, others, rfl, hnames, hothers⟩ := List.map_eq_append_iff.mp h
    exact Option.bind_eq_some_iff.mpr
      ⟨_, splitBinding_naming naming hnames others,
        Option.bind_eq_some_iff.mpr ⟨_, hsteps hothers, rfl⟩⟩

/-- What is read is derived. -/
theorem exists_phrase {lexemes : List Lexeme} {pipeline : Pipeline}
    (h : Pipeline.ofLexemes lexemes = some pipeline) :
    ∃ phrase : Phrase, phrase.tokens = lexemes.map (·.token) ∧ phrase.pipeline = pipeline := by
  obtain ⟨⟨binding, rest⟩, hbinding, h⟩ := Option.bind_eq_some_iff.mp h
  obtain ⟨commands, hcommands, ⟨⟩⟩ := Option.bind_eq_some_iff.mp h
  obtain ⟨first, steps, htokens, rfl⟩ := exists_steps (.top (.first .empty)) hcommands
  rw [List.nil_append] at htokens
  rcases naming_of_splitBinding hbinding with ⟨rfl, rfl⟩ | ⟨naming, rfl, hnaming⟩
  · exact ⟨⟨none, first, steps⟩, htokens, rfl⟩
  · refine ⟨⟨some naming, first, steps⟩, ?_, rfl⟩
    rw [hnaming, ← htokens]
    rfl

end LiveTemplate
