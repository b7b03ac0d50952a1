import LiveTemplate.Proofs.Success
import LiveTemplate.Template.Resolve

/-!
# Names in templates

Which names a body uses and declares, and where. `sitesIn` lists the pipelines of a body, each with
the variables that are declared before it: those of the bodies around it and those of the earlier
nodes of its own body. Bodies of definitions inside are not part of a body.

* `Site.InScope`: what is asked of the names of a pipeline at its place.
* `Scope.afterPipeline_eq_ok`, `Scope.inLoop_eq_ok`: the checks of a pipeline ask for the same.
* `ParseProblem.OfNames`: the problems that these checks find.
-/

namespace LiveTemplate

/-! ## Uses -/

/-- A use of a function or of a variable. -/
inductive Mention where
  | function (name : String)
  | variable (name : String)
  deriving DecidableEq, Repr

mutual

/-- The names that an operand uses. The variable without a name is the data of the whole template,
which is always there. -/
def mentionsOfOperand : Operand → List Mention
  | .function name => [.function name]
  | .variable name _ => if name = "" then [] else [.variable name]
  | .group commands => mentionsOfCommands commands
  | .dot => []
  | .field _ => []
  | .literal _ => []
termination_by structural operand => operand

/-- The names that a command uses. -/
def mentionsOfCommand : Command → List Mention
  | .call function arguments => .function function :: mentionsOfOperands arguments
  | .operand value => mentionsOfOperand value
termination_by structural command => command

/-- The names that operands use. -/
def mentionsOfOperands : List Operand → List Mention
  | [] => []
  | operand :: rest => mentionsOfOperand operand ++ mentionsOfOperands rest
termination_by structural operands => operands

/-- The names that commands use. -/
def mentionsOfCommands : List Command → List Mention
  | [] => []
  | command :: rest => mentionsOfCommand command ++ mentionsOfCommands rest
termination_by structural commands => commands

end

namespace Scope

/-- A name is in scope. -/
def Allows (scope : Scope) : Mention → Prop
  | .function name => scope.hasFunction name = true
  | .variable name => name ∈ scope.declared

variable {scope after : Scope}

theorem checkFunction_eq_ok {name : String} :
    scope.checkFunction name = .ok () ↔ scope.Allows (.function name) := by
  rw [checkFunction, Allows]
  split <;> simp [*]

theorem checkVariable_eq_ok {name : String} :
    scope.checkVariable name = .ok () ↔ scope.Allows (.variable name) := by
  simp only [checkVariable, Allows, List.contains_iff_mem]
  split <;> simp [*]

mutual

theorem checkOperand_eq_ok (operand : Operand) :
    scope.checkOperand operand = .ok () ↔
      ∀ mention ∈ mentionsOfOperand operand, scope.Allows mention := by
  cases operand with
  | function name => simp [checkOperand, mentionsOfOperand, checkFunction_eq_ok]
  | «variable» name path =>
    rw [checkOperand, mentionsOfOperand]
    split
    · simp
    · simp [checkVariable_eq_ok]
  | group commands => rw [checkOperand, mentionsOfOperand, checkCommands_eq_ok commands]
  | _ => simp [checkOperand, mentionsOfOperand]
termination_by structural operand

theorem checkCommand_eq_ok (command : Command) :
    scope.checkCommand command = .ok () ↔
      ∀ mention ∈ mentionsOfCommand command, scope.Allows mention := by
  cases command with
  | call function arguments =>
    rw [checkCommand, check_bind_eq_ok, mentionsOfCommand, List.forall_mem_cons,
      checkFunction_eq_ok, checkOperands_eq_ok arguments]
  | operand value => rw [checkCommand, mentionsOfCommand, checkOperand_eq_ok value]
termination_by structural command

theorem checkOperands_eq_ok (operands : List Operand) :
    scope.checkOperands operands = .ok () ↔
      ∀ mention ∈ mentionsOfOperands operands, scope.Allows mention := by
  cases operands with
  | nil => simp [checkOperands, mentionsOfOperands]
  | cons operand rest =>
    rw [checkOperands, check_bind_eq_ok, mentionsOfOperands, List.forall_mem_append,
      checkOperand_eq_ok operand, checkOperands_eq_ok rest]
termination_by structural operands

theorem checkCommands_eq_ok (commands : List Command) :
    scope.checkCommands commands = .ok () ↔
      ∀ mention ∈ mentionsOfCommands commands, scope.Allows mention := by
  cases commands with
  | nil => simp [checkCommands, mentionsOfCommands]
  | cons command rest =>
    rw [checkCommands, check_bind_eq_ok, mentionsOfCommands, List.forall_mem_append,
      checkCommand_eq_ok command, checkCommands_eq_ok rest]
termination_by structural commands

end

end Scope

/-! ## Declarations -/

namespace Pipeline

/-- The names that a pipeline binds. -/
def boundNames (pipeline : Pipeline) : List String :=
  (pipeline.binding.map Binding.names).getD []

/-- The variables that a pipeline declares for what follows it, the innermost first. -/
def declares (pipeline : Pipeline) : List String :=
  match pipeline.binding with
  | some ⟨.declare, names⟩ => names.reverse
  | _ => []

end Pipeline

/-- The variables that a node declares for the nodes that follow it in its body. -/
def Node.declares : Node → List String
  | .print pipeline _ => pipeline.declares
  | .invoke _ argument _ => (argument.map Pipeline.declares).getD []
  | _ => []

namespace BranchKind

/-- The variables that the head of a branch declares for its body. A loop declares all names of its
head, whatever their mark. -/
def declaresInBody (kind : BranchKind) (head : Pipeline) : List String :=
  if kind = .loop then head.boundNames.reverse else head.declares

/-- The variables that the head of a branch declares for its second body. -/
def declaresInElse (kind : BranchKind) (head : Pipeline) : List String :=
  if kind = .loop then [] else head.declares

end BranchKind

/-! ## Places -/

/-- A pipeline at its place: the variables that are declared before it, and whether it is the head
of a loop. -/
structure Site where
  pipeline : Pipeline
  declared : List String
  isLoopHead : Bool

/-- The names of a pipeline are known where it stands, and it binds not more than one name, or any
number of new ones if it is the head of a loop. -/
structure Site.InScope (hasFunction : String → Bool) (site : Site) : Prop where
  functions : ∀ name, .function name ∈ mentionsOfCommands site.pipeline.commands →
    hasFunction name = true
  used : ∀ name, .variable name ∈ mentionsOfCommands site.pipeline.commands →
    name ∈ site.declared
  assigned : site.isLoopHead = false → ∀ names, site.pipeline.binding = some ⟨.assign, names⟩ →
    ∀ name ∈ names, name ∈ site.declared
  single : site.isLoopHead = false → site.pipeline.boundNames.length ≤ 1

mutual

/-- The pipelines of a node with their places. -/
def Node.sites (declared : List String) : Node → List Site
  | .literal _ => []
  | .print pipeline _ => [⟨pipeline, declared, false⟩]
  | .branch kind head body otherwise _ =>
    ⟨head, declared, kind = .loop⟩ ::
      (sitesIn (kind.declaresInBody head ++ declared) body ++
        sitesInElse (kind.declaresInElse head ++ declared) otherwise)
  | .define _ _ _ => []
  | .invoke _ argument _ => (argument.map fun pipeline => ⟨pipeline, declared, false⟩).toList
termination_by structural node => node

/-- The pipelines of a body with their places. -/
def sitesIn (declared : List String) : List Node → List Site
  | [] => []
  | node :: rest => node.sites declared ++ sitesIn (node.declares ++ declared) rest
termination_by structural nodes => nodes

/-- The pipelines of the second body of a branch with their places. -/
def sitesInElse (declared : List String) : Option (List Node) → List Site
  | none => []
  | some nodes => sitesIn declared nodes
termination_by structural nodes => nodes

end

/-! ## Checks -/

namespace Scope

variable {hasFunction : String → Bool} {declared : List String} {pipeline : Pipeline}
  {after : Scope}

theorem checkCommands_iff {commands : List Command} :
    (Scope.mk hasFunction declared).checkCommands commands = .ok () ↔
      (∀ name, .function name ∈ mentionsOfCommands commands → hasFunction name = true) ∧
        ∀ name, .variable name ∈ mentionsOfCommands commands → name ∈ declared := by
  rw [checkCommands_eq_ok]
  constructor
  · exact fun h => ⟨fun name hm => h _ hm, fun name hm => h _ hm⟩
  · rintro ⟨hf, hv⟩ (name | name) hm
    · exact hf name hm
    · exact hv name hm

/-- Outside of the heads of loops a pipeline binds at most one name, which is known if the pipeline
assigns to it. -/
theorem afterPipeline_eq_ok :
    (Scope.mk hasFunction declared).afterPipeline pipeline = .ok after ↔
      Site.InScope hasFunction ⟨pipeline, declared, false⟩ ∧
        after = ⟨hasFunction, pipeline.declares ++ declared⟩ := by
  obtain ⟨binding, commands⟩ := pipeline
  have hsite : Site.InScope hasFunction ⟨⟨binding, commands⟩, declared, false⟩ ↔
      ((∀ name, .function name ∈ mentionsOfCommands commands → hasFunction name = true) ∧
        ∀ name, .variable name ∈ mentionsOfCommands commands → name ∈ declared) ∧
      (∀ names, binding = some ⟨.assign, names⟩ → ∀ name ∈ names, name ∈ declared) ∧
        ((binding.map Binding.names).getD []).length ≤ 1 :=
    ⟨fun ⟨f, v, a, s⟩ => ⟨⟨f, v⟩, a rfl, s rfl⟩,
      fun ⟨⟨f, v⟩, a, s⟩ => ⟨f, v, fun _ => a, fun _ => s⟩⟩
  rw [afterPipeline, check_bind_eq_ok, checkCommands_iff, hsite]
  refine Iff.trans (and_congr_right fun _ => ?_) and_assoc.symm
  match binding with
  | none => simp [Pipeline.declares, eq_comm]
  | some ⟨kind, []⟩ => cases kind <;> simp [afterBinding, Pipeline.declares, eq_comm]
  | some ⟨.declare, [name]⟩ => simp [afterBinding, declare, Pipeline.declares, eq_comm]
  | some ⟨.assign, [name]⟩ =>
    simp [afterBinding, check_bind_eq_ok, checkVariable_eq_ok, Allows, Pipeline.declares,
      eq_comm (a := after)]
  | some ⟨kind, _ :: _ :: _⟩ => simp [afterBinding]

theorem foldl_declare (names : List String) (scope : Scope) :
    names.foldl declare scope = ⟨scope.hasFunction, names.reverse ++ scope.declared⟩ := by
  induction names generalizing scope with
  | nil => rfl
  | cons name rest ih =>
    rw [List.foldl_cons, ih, List.reverse_cons, List.append_assoc]
    rfl

/-- The head of a loop binds any names anew. -/
theorem inLoop_eq_ok :
    (Scope.mk hasFunction declared).inLoop pipeline = .ok after ↔
      Site.InScope hasFunction ⟨pipeline, declared, true⟩ ∧
        after = ⟨hasFunction, pipeline.boundNames.reverse ++ declared⟩ := by
  obtain ⟨binding, commands⟩ := pipeline
  have hsite : Site.InScope hasFunction ⟨⟨binding, commands⟩, declared, true⟩ ↔
      (∀ name, .function name ∈ mentionsOfCommands commands → hasFunction name = true) ∧
        ∀ name, .variable name ∈ mentionsOfCommands commands → name ∈ declared :=
    ⟨fun ⟨f, v, _, _⟩ => ⟨f, v⟩, fun ⟨f, v⟩ => ⟨f, v, nofun, nofun⟩⟩
  rw [inLoop, check_bind_eq_ok, checkCommands_iff, hsite]
  refine and_congr_right fun _ => ?_
  cases binding with
  | none => simp [Pipeline.boundNames, eq_comm]
  | some binding => simp [foldl_declare, Pipeline.boundNames, eq_comm]

end Scope

/-! ## Problems with names -/

/-- A problem that the check of a pipeline finds. -/
inductive ParseProblem.OfNames : ParseProblem → Prop
  | unknownFunction (name : String) : OfNames (.unknownFunction name)
  | undefinedVariable (name : String) : OfNames (.undefinedVariable name)
  | tooManyNames : OfNames .tooManyNames

namespace Scope

variable {scope : Scope} {problem : ParseProblem}

theorem ofNames_of_checkFunction {name : String} (h : scope.checkFunction name = .error problem) :
    problem.OfNames := by
  unfold checkFunction at h
  split at h
  · cases h
  · cases h
    exact .unknownFunction name

theorem ofNames_of_checkVariable {name : String} (h : scope.checkVariable name = .error problem) :
    problem.OfNames := by
  unfold checkVariable at h
  split at h
  · cases h
  · cases h
    exact .undefinedVariable name

mutual

theorem ofNames_of_checkOperand (operand : Operand)
    (h : scope.checkOperand operand = .error problem) : problem.OfNames := by
  cases operand with
  | function name => exact ofNames_of_checkFunction h
  | «variable» name path =>
    rw [checkOperand] at h
    split at h
    · cases h
    · exact ofNames_of_checkVariable h
  | group commands => exact ofNames_of_checkCommands commands h
  | dot => cases h
  | field path => cases h
  | literal value => cases h
termination_by structural operand

theorem ofNames_of_checkCommand (command : Command)
    (h : scope.checkCommand command = .error problem) : problem.OfNames := by
  cases command with
  | call function arguments =>
    rcases bind_eq_error.mp h with h | ⟨_, -, h⟩
    · exact ofNames_of_checkFunction h
    · exact ofNames_of_checkOperands arguments h
  | operand value => exact ofNames_of_checkOperand value h
termination_by structural command

theorem ofNames_of_checkOperands (operands : List Operand)
    (h : scope.checkOperands operands = .error problem) : problem.OfNames := by
  cases operands with
  | nil => cases h
  | cons operand rest =>
    rcases bind_eq_error.mp h with h | ⟨_, -, h⟩
    · exact ofNames_of_checkOperand operand h
    · exact ofNames_of_checkOperands rest h
termination_by structural operands

theorem ofNames_of_checkCommands (commands : List Command)
    (h : scope.checkCommands commands = .error problem) : problem.OfNames := by
  cases commands with
  | nil => cases h
  | cons command rest =>
    rcases bind_eq_error.mp h with h | ⟨_, -, h⟩
    · exact ofNames_of_checkCommand command h
    · exact ofNames_of_checkCommands rest h
termination_by structural commands

end

theorem ofNames_of_afterPipeline {pipeline : Pipeline}
    (h : scope.afterPipeline pipeline = .error problem) : problem.OfNames := by
  rcases bind_eq_error.mp h with h | ⟨_, -, h⟩
  · exact ofNames_of_checkCommands _ h
  · split at h
    · cases h
    · unfold afterBinding at h
      split at h
      · cases h
      · split at h
        · cases h
        · rcases bind_eq_error.mp h with h | ⟨_, -, h⟩
          · exact ofNames_of_checkVariable h
          · cases h
      · cases h
        exact .tooManyNames

theorem ofNames_of_inLoop {head : Pipeline} (h : scope.inLoop head = .error problem) :
    problem.OfNames := by
  rcases bind_eq_error.mp h with h | ⟨_, -, h⟩
  · exact ofNames_of_checkCommands _ h
  · split at h <;> cases h

end Scope

end LiveTemplate
