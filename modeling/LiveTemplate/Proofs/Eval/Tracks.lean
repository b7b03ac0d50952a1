import LiveTemplate.Proofs.Eval.Runs
import LiveTemplate.Proofs.Template.Names

/-!
# Names while evaluating

A pipeline whose names are in scope does not fail for a name that is not known, and the names that
are declared after it are those that its scope says. `Evaluating.Tracks` says both of a computation,
with one rule for each way in which computations are put together.
-/

namespace LiveTemplate

/-! ## Variables -/

namespace Variables

/-- The names of variables. -/
def names (vars : Variables) : List String :=
  vars.map Prod.fst

@[simp] theorem names_declare (name : String) (value : Value) (vars : Variables) :
    (vars.declare name value).names = name :: vars.names := rfl

theorem length_names (vars : Variables) : vars.names.length = vars.length :=
  List.length_map _

theorem exists_lookup {name : String} {vars : Variables} (h : name ∈ vars.names) :
    ∃ value, vars.lookup name = some value := by
  induction vars with
  | nil => cases h
  | cons first rest ih =>
    obtain ⟨declared, value⟩ := first
    rw [List.lookup_cons]
    split
    · exact ⟨value, rfl⟩
    · rename_i hne
      refine ih ((List.mem_cons.mp h).resolve_left fun he => ?_)
      simp [he] at hne

/-- A variable that is declared can be assigned to, and the names stay. -/
theorem exists_assign {name : String} {vars : Variables} (h : name ∈ vars.names) (value : Value) :
    ∃ after, vars.assign? name value = some after ∧ after.names = vars.names := by
  induction vars with
  | nil => cases h
  | cons first rest ih =>
    obtain ⟨declared, old⟩ := first
    rw [assign?]
    split
    · exact ⟨_, rfl, rfl⟩
    · rename_i hne
      obtain ⟨after, hafter, hnames⟩ := ih ((List.mem_cons.mp h).resolve_left (Ne.symm hne))
      exact ⟨_, congrArg _ hafter, congrArg (declared :: ·) hnames⟩

/-- Keeping the outer variables drops what was declared since. -/
theorem names_keepOuter {extra outer : List String} {vars : Variables}
    (h : vars.names = extra ++ outer) : (vars.keepOuter outer.length).names = outer := by
  have hlen : vars.length = extra.length + outer.length := by
    rw [← length_names, h, List.length_append]
  rw [keepOuter, names, List.map_drop, hlen, Nat.add_sub_cancel]
  exact (congrArg _ h).trans List.drop_left

/-- A loop of at most two names declares all of them. -/
theorem names_bindRound {head : Pipeline} (h : head.boundNames.length ≤ 2) (key item : Value)
    (vars : Variables) :
    (bindRound head.binding key item vars).names = head.boundNames.reverse ++ vars.names := by
  obtain ⟨binding, commands⟩ := head
  match binding with
  | none => rfl
  | some ⟨_, []⟩ => rfl
  | some ⟨_, [_]⟩ => rfl
  | some ⟨_, [_, _]⟩ => rfl
  | some ⟨_, _ :: _ :: _ :: _⟩ => simp [Pipeline.boundNames] at h

end Variables

/-! ## Values -/

/-- A name is used that is not known. -/
def EvaluationProblem.isNaming : EvaluationProblem → Bool
  | .undefinedVariable _ => true
  | .unknownFunction _ => true
  | _ => false

/-- A result that does not fail for a name that is not known. -/
def Named {α : Type} (result : Except EvaluationProblem α) : Prop :=
  ∀ problem, result = .error problem → problem.isNaming = false

namespace Named

variable {α β : Type}

theorem ok (value : α) : Named (.ok value : Except EvaluationProblem α) :=
  nofun

theorem error {problem : EvaluationProblem} (h : problem.isNaming = false) :
    Named (.error problem : Except EvaluationProblem α) := by
  rintro _ ⟨⟩
  exact h

theorem bind {first : Except EvaluationProblem α} {next : α → Except EvaluationProblem β}
    (hf : Named first) (hn : ∀ value, Named (next value)) : Named (first >>= next) := by
  cases first with
  | error problem => exact error (hf problem rfl)
  | ok value => exact hn value

theorem mapM_id {results : List (Except EvaluationProblem α)}
    (h : ∀ result ∈ results, Named result) : Named (results.mapM id) := by
  induction results with
  | nil => exact ok []
  | cons result rest ih =>
    obtain ⟨hfirst, hrest⟩ := List.forall_mem_cons.mp h
    rw [List.mapM_cons]
    exact hfirst.bind fun _ => (ih hrest).bind fun _ => ok _

end Named

theorem follow_named (value : Value) (path : List String) : Named (follow value path) := by
  induction path generalizing value with
  | nil => exact .ok value
  | cons field path ih =>
    cases value with
    | map entries =>
      rw [follow]
      split
      · exact ih _
      · exact .error rfl
    | _ => exact .error rfl

theorem firstDecisive_named (decisive : Bool) (piped : Option Value) (last : Value)
    {results : List (Except EvaluationProblem Value)} (h : ∀ result ∈ results, Named result) :
    Named (firstDecisive decisive piped last results) := by
  induction results generalizing last with
  | nil => exact .ok _
  | cons result rest ih =>
    obtain ⟨hfirst, hrest⟩ := List.forall_mem_cons.mp h
    rw [firstDecisive]
    refine hfirst.bind fun value => ?_
    split
    · exact .ok value
    · exact ih value hrest

/-- What a function itself fails with is wrapped, whatever it is. -/
theorem applyFunction_named {functions : FunctionTable} {name : String}
    (hname : functions.contains name = true) {results : List (Except EvaluationProblem Value)}
    (h : ∀ result ∈ results, Named result) (piped : Option Value) :
    Named (applyFunction functions name results piped) := by
  rw [applyFunction]
  split
  · split
    · exact .error rfl
    · exact firstDecisive_named _ _ _ h
  · split
    · rename_i hnone
      rw [FunctionTable.contains, hnone] at hname
      cases hname
    · refine (Named.mapM_id h).bind fun arguments => ?_
      rename_i function _
      cases function (arguments ++ piped.toList) with
      | ok value => exact .ok value
      | error e => exact .error rfl

/-- The names that are known while something is evaluated. -/
def Environment.scope (env : Environment) (vars : Variables) : Scope :=
  ⟨env.functions.contains, vars.names⟩

section Values

variable {env : Environment} {vars : Variables}

mutual

theorem operandValue_named (operand : Operand)
    (h : ∀ mention ∈ mentionsOfOperand operand, (env.scope vars).Allows mention) :
    Named (operandValue env vars operand) := by
  cases operand with
  | dot => exact .ok _
  | field path => exact follow_named _ _
  | «variable» name path =>
    rw [mentionsOfOperand] at h
    rw [operandValue]
    split
    · exact follow_named _ _
    · rename_i hname
      rw [if_neg hname] at h
      obtain ⟨value, hvalue⟩ := Variables.exists_lookup (h _ (List.mem_singleton_self _))
      rw [hvalue]
      exact follow_named _ _
  | literal value => exact .ok _
  | function name =>
    exact applyFunction_named (h _ (List.mem_singleton_self _)) (List.forall_mem_nil _) _
  | group commands => exact commandsValue_named commands h none
termination_by structural operand

theorem commandValue_named (command : Command)
    (h : ∀ mention ∈ mentionsOfCommand command, (env.scope vars).Allows mention)
    (piped : Option Value) :
    Named (commandValue env vars piped command) := by
  cases command with
  | call function arguments =>
    rw [mentionsOfCommand, List.forall_mem_cons] at h
    exact applyFunction_named h.1 (operandResults_named arguments h.2) _
  | operand operand =>
    rw [commandValue.eq_def]
    dsimp only
    split
    · exact applyFunction_named (h _ (List.mem_singleton_self _)) (List.forall_mem_nil _) _
    · exact operandValue_named operand h
    · exact .error rfl
termination_by structural command

theorem operandResults_named (operands : List Operand)
    (h : ∀ mention ∈ mentionsOfOperands operands, (env.scope vars).Allows mention) :
    ∀ result ∈ operandResults env vars operands, Named result := by
  cases operands with
  | nil => exact fun _ hm => nomatch hm
  | cons operand rest =>
    rw [mentionsOfOperands, List.forall_mem_append] at h
    exact List.forall_mem_cons.mpr
      ⟨operandValue_named operand h.1, operandResults_named rest h.2⟩
termination_by structural operands

/-- Commands whose names are in scope do not fail for a name. -/
theorem commandsValue_named (commands : List Command)
    (h : ∀ mention ∈ mentionsOfCommands commands, (env.scope vars).Allows mention)
    (piped : Option Value) :
    Named (commandsValue env vars piped commands) := by
  cases commands with
  | nil => exact .ok _
  | cons command rest =>
    rw [mentionsOfCommands, List.forall_mem_append] at h
    rw [commandsValue]
    exact (commandValue_named command h.1 piped).bind fun value =>
      commandsValue_named rest h.2 (some value)
termination_by structural commands

end

end Values

/-! ## Pipelines -/

/-- A binding of a value to a name that is known, or to one new name, does not fail. -/
theorem Site.InScope.exists_bindAll {hasFunction : String → Bool} {pipeline : Pipeline}
    {vars : Variables} (h : Site.InScope hasFunction ⟨pipeline, vars.names, false⟩)
    (value : Value) :
    ∃ after, Pipeline.bindAll pipeline.binding value vars = .ok after ∧
      after.names = pipeline.declares ++ vars.names := by
  obtain ⟨binding, commands⟩ := pipeline
  match binding with
  | none => exact ⟨vars, rfl, rfl⟩
  | some ⟨.declare, []⟩ => exact ⟨vars, rfl, rfl⟩
  | some ⟨.assign, []⟩ => exact ⟨vars, rfl, rfl⟩
  | some ⟨.declare, [name]⟩ => exact ⟨vars.declare name value, rfl, rfl⟩
  | some ⟨.assign, [name]⟩ =>
    have hname := h.assigned rfl [name] rfl name (List.mem_singleton_self _)
    obtain ⟨after, hafter, hnames⟩ := Variables.exists_assign hname value
    refine ⟨after, ?_, hnames⟩
    simp [Pipeline.bindAll, Pipeline.bind, hafter]
  | some ⟨_, _ :: _ :: _⟩ =>
    -- Only the head of a loop may bind two names.
    have := h.single rfl
    simp [Pipeline.boundNames] at this

section Pipelines

variable {env : Environment} {vars : Variables} {pipeline : Pipeline} {isLoopHead : Bool}

theorem Site.InScope.value_named
    (h : Site.InScope env.functions.contains ⟨pipeline, vars.names, isLoopHead⟩) :
    Named (pipeline.value env vars) := by
  refine commandsValue_named pipeline.commands ?_ none
  rintro (name | name) hm
  · exact h.functions name hm
  · exact h.used name hm

theorem Site.InScope.run_named
    (h : Site.InScope env.functions.contains ⟨pipeline, vars.names, false⟩) :
    Named (pipeline.run env vars) := by
  refine h.value_named.bind fun value => ?_
  obtain ⟨after, hafter, -⟩ := h.exists_bindAll value
  rw [hafter]
  exact .ok _

theorem Site.InScope.names_of_run
    (h : Site.InScope env.functions.contains ⟨pipeline, vars.names, false⟩) {value : Value}
    {last : Variables} (hrun : pipeline.run env vars = .ok (value, last)) :
    last.names = pipeline.declares ++ vars.names := by
  obtain ⟨found, -, hrun⟩ := bind_eq_ok.mp hrun
  obtain ⟨after, hafter, hnames⟩ := h.exists_bindAll found
  rw [hafter] at hrun
  cases hrun
  exact hnames

theorem loopEntries_named (value : Value) : Named (loopEntries value) := by
  cases value with
  | null => exact .ok _
  | list items => exact .ok _
  | map entries => exact .ok _
  | int count => exact .ok _
  | _ => exact .error rfl

end Pipelines

/-! ## Computations -/

namespace Evaluating

/-- Started with variables of the names `before`, a computation does not fail for a name that is not
known, and ends with variables of the names `after` if it does not fail at all. -/
structure Tracks {α : Type} (before after : List String) (computation : Evaluating α) : Prop where
  named : ∀ vars : Variables, vars.names = before → ∀ error,
    StateT.run computation vars = .error error → error.problem.isNaming = false
  names : ∀ vars : Variables, vars.names = before → ∀ value last,
    StateT.run computation vars = .ok (value, last) → last.names = after

/-- Likewise for a computation that ends with more names than those it was started with. -/
def TracksMore {α : Type} (before : List String) (computation : Evaluating α) : Prop :=
  ∃ extra, Tracks before (extra ++ before) computation

namespace Tracks

variable {α β : Type} {before middle after : List String} {computation : Evaluating α}
  {env : Environment} {span : Span}

theorem more (h : Tracks before before computation) : TracksMore before computation :=
  ⟨[], h⟩

theorem pure (value : α) : Tracks before before (Pure.pure value) where
  named _ _ _ := nofun
  names _ hvars _ _ hrun := by
    cases hrun
    exact hvars

theorem bind {first : Evaluating β} {next : β → Evaluating α} (hf : Tracks before middle first)
    (hn : ∀ value, Tracks middle after (next value)) : Tracks before after (first >>= next) where
  named vars hvars error hrun := by
    rcases run_bind_eq_error.mp hrun with hfirst | ⟨value, state, hfirst, hnext⟩
    · exact hf.named vars hvars error hfirst
    · exact (hn value).named state (hf.names vars hvars _ _ hfirst) error hnext
  names vars hvars value last hrun := by
    obtain ⟨found, state, hfirst, hnext⟩ := run_bind_eq_ok.mp hrun
    exact (hn found).names state (hf.names vars hvars _ _ hfirst) value last hnext

theorem map (f : α → β) (h : Tracks before after computation) :
    Tracks before after (f <$> computation) := by
  rw [← bind_pure_comp]
  exact h.bind fun value => pure (f value)

/-- What comes next may depend on the values of the variables. -/
theorem read {next : Variables → Evaluating α}
    (h : ∀ vars, vars.names = before → Tracks before after (next vars)) :
    Tracks before after (get >>= next) where
  named vars hvars := (h vars hvars).named vars hvars
  names vars hvars := (h vars hvars).names vars hvars

theorem changes {change : Variables → Variables}
    (h : ∀ vars : Variables, vars.names = before → (change vars).names = after) :
    Tracks before after (modify change) where
  named _ _ _ := nofun
  names vars hvars _ _ hrun := by
    cases hrun
    exact h vars hvars

theorem check {result : Except EvaluationProblem α} (h : Named result) :
    Tracks before before (check span result) where
  named _ _ _ hrun := h _ (run_check_eq_error.mp hrun).1
  names _ hvars _ _ hrun := (run_check_eq_ok.mp hrun).2 ▸ hvars

/-- A scope drops what is declared in it. -/
theorem inScope (h : TracksMore before computation) :
    Tracks before before (Evaluating.inScope computation) := by
  obtain ⟨extra, h⟩ := h
  refine ⟨fun vars hvars error hrun => ?_, fun vars hvars value last hrun => ?_⟩
  · rw [run_inScope] at hrun
    rcases bind_eq_error.mp hrun with hc | ⟨_, -, ⟨⟩⟩
    exact h.named vars hvars error hc
  · obtain ⟨inner, hc, rfl⟩ := run_inScope_eq_ok.mp hrun
    rw [← Variables.length_names vars, hvars]
    exact Variables.names_keepOuter (h.names vars hvars _ _ hc)

theorem isolated (h : Tracks [] after computation) :
    Tracks before before (Evaluating.isolated computation) where
  named vars hvars error hrun := by
    rw [run_isolated] at hrun
    rcases bind_eq_error.mp hrun with hc | ⟨_, -, ⟨⟩⟩
    exact h.named [] rfl error hc
  names vars hvars value last hrun := by
    obtain ⟨-, rfl⟩ := run_isolated_eq_ok.mp hrun
    exact hvars

theorem mapM {round : β → Evaluating α} (h : ∀ entry, Tracks before before (round entry))
    (entries : List β) : Tracks before before (entries.mapM round) := by
  induction entries with
  | nil => exact pure []
  | cons entry rest ih =>
    rw [List.mapM_cons]
    exact (h entry).bind fun _ => ih.bind fun _ => pure _

/-- Each round starts with the names of the loop. -/
theorem rounds {head : Pipeline} {round : Value → Evaluating α} (hb : head.boundNames.length ≤ 2)
    (h : ∀ item, TracksMore (head.boundNames.reverse ++ before) (round item))
    (entries : List (Value × Value)) :
    Tracks before before (Evaluating.rounds head.binding entries round) := by
  refine mapM (fun entry => ?_) entries
  obtain ⟨key, item⟩ := entry
  obtain ⟨extra, h⟩ := h item
  -- For the round as a whole, the names of the loop are among those that it leaves behind.
  rw [← List.append_assoc] at h
  have hbind : Tracks before (head.boundNames.reverse ++ before)
      (modify (bindRound head.binding key item)) :=
    changes fun vars hvars => hvars ▸ Variables.names_bindRound hb key item vars
  exact inScope ⟨_, hbind.bind fun _ => h⟩

/-- A pipeline whose names are in scope declares the names that follow from its binding. -/
theorem run {pipeline : Pipeline}
    (h : Site.InScope env.functions.contains ⟨pipeline, before, false⟩) :
    Tracks before (pipeline.declares ++ before) (Evaluating.run env pipeline span) where
  named vars hvars error hrun := by
    subst hvars
    exact h.run_named _ (run_run_eq_error.mp hrun).1
  names vars hvars value last hrun := by
    subst hvars
    exact h.names_of_run (run_run_eq_ok.mp hrun)

theorem entries {head : Pipeline} {isLoopHead : Bool}
    (h : Site.InScope env.functions.contains ⟨head, before, isLoopHead⟩) :
    Tracks before before (Evaluating.entries env head span) := by
  refine read fun vars hvars => ?_
  subst hvars
  exact (check h.value_named).bind fun value => check (loopEntries_named value)

theorem argument {pipeline : Option Pipeline}
    (h : ∀ given, pipeline = some given →
      Site.InScope env.functions.contains ⟨given, before, false⟩) :
    Tracks before ((pipeline.map Pipeline.declares).getD [] ++ before)
      (Evaluating.argument env pipeline span) := by
  cases pipeline with
  | none => exact pure _
  | some given => exact run (h given rfl)

theorem result (h : Tracks [] after computation) {error : EvaluationError}
    (he : computation.result = .error error) : error.problem.isNaming = false :=
  h.named [] rfl error (result_eq_error.mp he)

end Tracks

end Evaluating

end LiveTemplate
