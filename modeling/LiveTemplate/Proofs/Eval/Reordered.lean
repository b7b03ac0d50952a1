import LiveTemplate.Eval.Pipeline
import LiveTemplate.Proofs.Value.Reordered

/-!
# Pipelines and the order of entries

The value of a pipeline does not tell in which order the entries of maps stand: for data and
variables that differ in this order only, the values differ in it only, and the problems are the
same (`Pipeline.run_agree`). It is enough that the functions that may be called are insensitive to
the order (`FunctionTable.Insensitive`).

`Agree` relates two results that may be problems. There is one rule for each way in which such
results are put together.
-/

namespace LiveTemplate

/-- Two results agree: they are values that are related, or the same error. -/
inductive Agree {ε α β : Type} (R : α → β → Prop) : Except ε α → Except ε β → Prop
  | ok {value : α} {other : β} (related : R value other) : Agree R (.ok value) (.ok other)
  | error (problem : ε) : Agree R (.error problem) (.error problem)

namespace Agree

variable {ε ε' α β γ δ : Type} {R : α → β → Prop} {S : γ → δ → Prop} {result : Except ε α}
  {other : Except ε β}

theorem bind {next : α → Except ε γ} {next' : β → Except ε δ} (h : Agree R result other)
    (hn : ∀ value found, R value found → Agree S (next value) (next' found)) :
    Agree S (result >>= next) (other >>= next') := by
  cases h with
  | ok related => exact hn _ _ related
  | error problem => exact .error problem

theorem mapError (h : Agree R result other) (f : ε → ε') :
    Agree R (result.mapError f) (other.mapError f) := by
  cases h with
  | ok related => exact .ok related
  | error problem => exact .error _

theorem refl (result : Except ε α) : Agree Eq result result := by
  cases result with
  | ok value => exact .ok rfl
  | error problem => exact .error problem

theorem mapM_id {results : List (Except ε α)} {others : List (Except ε β)}
    (h : List.Forall₂ (Agree R) results others) :
    Agree (List.Forall₂ R) (results.mapM id) (others.mapM id) := by
  induction h with
  | nil => exact .ok .nil
  | cons first _ ih =>
    rw [List.mapM_cons, List.mapM_cons]
    exact first.bind fun _ _ hv => ih.bind fun _ _ hvs => .ok (.cons hv hvs)

/-- A fold over related inputs. -/
theorem foldlM {σ τ : Type} {T : σ → τ → Prop} {step : α → σ → Except ε α}
    {step' : β → τ → Except ε β}
    (h : ∀ {value found input input'}, R value found → T input input' →
      Agree R (step value input) (step' found input'))
    {inputs : List σ} {inputs' : List τ} (hi : List.Forall₂ T inputs inputs') {value : α}
    {found : β} (hv : R value found) :
    Agree R (inputs.foldlM step value) (inputs'.foldlM step' found) := by
  induction hi generalizing value found with
  | nil => exact .ok hv
  | cons first _ ih =>
    rw [List.foldlM_cons, List.foldlM_cons]
    exact (h hv first).bind fun _ _ hv => ih hv

end Agree

open Value

/-! ## Functions -/

/-- Values that are equal but for the order of entries have results that are, or the same error. -/
def Function.Insensitive (function : Function) : Prop :=
  ∀ arguments others, List.Forall₂ Reordered arguments others →
    Agree Reordered (function arguments) (function others)

/-- No function of a table tells in which order entries stand. -/
def FunctionTable.Insensitive (functions : FunctionTable) : Prop :=
  ∀ name function, functions.get? name = some function → Function.Insensitive function

/-- Two environments with the same insensitive functions and the same data but for the order of
entries. -/
structure Environment.Reordered (env env' : Environment) : Prop where
  root : env.root.Reordered env'.root
  dot : env.dot.Reordered env'.dot
  functions_eq : env.functions = env'.functions
  insensitive : env.functions.Insensitive

theorem follow_agree {value other : Value} (h : value.Reordered other) (path : List String) :
    Agree Reordered (follow value path) (follow other path) := by
  induction path generalizing value other with
  | nil => exact .ok h
  | cons field path ih =>
    cases h with
    | @map entries _ others unique reorder each =>
      have hfield := (Reordered.map unique reorder each).lookup field
      rw [follow, follow]
      generalize entries.lookup field = found, others.lookup field = found' at hfield
      cases hfield with
      | none => exact .error _
      | some related => exact ih related
    | _ => exact .error _

theorem firstDecisive_agree (decisive : Bool) {piped piped' : Option Value}
    (hp : Option.Rel Reordered piped piped') {last last' : Value} (hl : last.Reordered last')
    {results others : List (Except EvaluationProblem Value)}
    (h : List.Forall₂ (Agree Reordered) results others) :
    Agree Reordered (firstDecisive decisive piped last results)
      (firstDecisive decisive piped' last' others) := by
  induction h generalizing last last' with
  | nil =>
    cases hp with
    | none => exact .ok hl
    | some related => exact .ok related
  | cons first _ ih =>
    rw [firstDecisive, firstDecisive]
    refine first.bind fun value other hv => ?_
    rw [hv.truthy_eq]
    split
    · exact .ok hv
    · exact ih hv

theorem applyFunction_agree {functions : FunctionTable} (hf : functions.Insensitive)
    (name : String) {results others : List (Except EvaluationProblem Value)}
    (h : List.Forall₂ (Agree Reordered) results others) {piped piped' : Option Value}
    (hp : Option.Rel Reordered piped piped') :
    Agree Reordered (applyFunction functions name results piped)
      (applyFunction functions name others piped') := by
  have hempty : (results.isEmpty && piped.isNone) = (others.isEmpty && piped'.isNone) := by
    cases h <;> cases hp <;> rfl
  rw [applyFunction, applyFunction, hempty]
  split
  · split
    · exact .error _
    · exact firstDecisive_agree _ hp .null h
  · split
    · exact .error _
    · rename_i function hfound
      refine (Agree.mapM_id h).bind fun arguments found ha => ?_
      have hall : List.Forall₂ Reordered (arguments ++ piped.toList) (found ++ piped'.toList) := by
        cases hp with
        | none => simpa using ha
        | some related => exact List.rel_append ha (.cons related .nil)
      exact (hf name function hfound _ _ hall).mapError _

/-! ## Operands and commands -/

theorem Literal.value_reordered (literal : Literal) : literal.value.Reordered literal.value := by
  cases literal with
  | nil => exact .null
  | bool b => exact .bool b
  | int i => exact .int i
  | float x => exact .float x
  | text s => exact .text s

/-- Two lists of variables with the same names and the same values but for the order of entries. -/
abbrev Variables.Reordered (vars vars' : Variables) : Prop :=
  List.Forall₂ (SameKey Value.Reordered) vars vars'

section Commands

variable {env env' : Environment} {vars vars' : Variables}

mutual

theorem operandValue_agree (he : env.Reordered env') (hv : vars.Reordered vars')
    (operand : Operand) :
    Agree Reordered (operandValue env vars operand) (operandValue env' vars' operand) := by
  cases operand with
  | dot => exact .ok he.dot
  | field path => exact follow_agree he.dot path
  | «variable» name path =>
    rw [operandValue, operandValue]
    split
    · exact follow_agree he.root path
    · have hname := lookup_rel hv name
      generalize vars.lookup name = found, vars'.lookup name = found' at hname
      cases hname with
      | none => exact .error _
      | some related => exact follow_agree related path
  | literal constant => exact .ok constant.value_reordered
  | function name =>
    rw [operandValue, operandValue, ← he.functions_eq]
    exact applyFunction_agree he.insensitive name .nil .none
  | group commands => exact commandsValue_agree he hv commands .none
termination_by structural operand

theorem commandValue_agree (he : env.Reordered env') (hv : vars.Reordered vars')
    (command : Command) {piped piped' : Option Value} (hp : Option.Rel Reordered piped piped') :
    Agree Reordered (commandValue env vars piped command)
      (commandValue env' vars' piped' command) := by
  cases command with
  | call function arguments =>
    rw [commandValue, commandValue, ← he.functions_eq]
    exact applyFunction_agree he.insensitive function (operandResults_agree he hv arguments) hp
  | operand operand =>
    have hoperand := operandValue_agree he hv operand
    cases operand with
    | function name =>
      rw [commandValue, commandValue, ← he.functions_eq]
      exact applyFunction_agree he.insensitive name .nil hp
    | _ =>
      cases hp with
      | none => exact hoperand
      | some related => exact .error _
termination_by structural command

theorem operandResults_agree (he : env.Reordered env') (hv : vars.Reordered vars')
    (operands : List Operand) :
    List.Forall₂ (Agree Reordered) (operandResults env vars operands)
      (operandResults env' vars' operands) := by
  cases operands with
  | nil => exact .nil
  | cons operand rest =>
    exact .cons (operandValue_agree he hv operand) (operandResults_agree he hv rest)
termination_by structural operands

theorem commandsValue_agree (he : env.Reordered env') (hv : vars.Reordered vars')
    (commands : List Command) {piped piped' : Option Value}
    (hp : Option.Rel Reordered piped piped') :
    Agree Reordered (commandsValue env vars piped commands)
      (commandsValue env' vars' piped' commands) := by
  cases commands with
  | nil =>
    cases hp with
    | none => exact .ok .null
    | some related => exact .ok related
  | cons command rest =>
    rw [commandsValue, commandsValue]
    exact (commandValue_agree he hv command hp).bind fun _ _ hvalue =>
      commandsValue_agree he hv rest (.some hvalue)
termination_by structural commands

end

end Commands

/-! ## Pipelines -/

section Pipelines

variable {env env' : Environment} {vars vars' : Variables} {value other : Value}

theorem Variables.Reordered.assign? (h : vars.Reordered vars') (name : String)
    (hv : value.Reordered other) :
    Option.Rel Variables.Reordered (vars.assign? name value) (vars'.assign? name other) := by
  induction h with
  | nil => exact .none
  | @cons first first' outer outer' hfirst hrest ih =>
    cases hfirst with
    | intro related =>
      rw [Variables.assign?, Variables.assign?]
      split
      · exact .some (.cons ⟨hv⟩ hrest)
      · generalize Variables.assign? name value outer = after,
          Variables.assign? name other outer' = after' at ih
        cases ih with
        | none => exact .none
        | some inner => exact .some (.cons ⟨related⟩ inner)

namespace Pipeline

theorem bind_agree (kind : BindingKind) (hv : value.Reordered other) (h : vars.Reordered vars')
    (name : String) :
    Agree Variables.Reordered (bind kind value vars name) (bind kind other vars' name) := by
  cases kind with
  | declare => exact .ok (.cons ⟨hv⟩ h)
  | assign =>
    have hassign := h.assign? name hv
    rw [bind, bind]
    generalize vars.assign? name value = after, vars'.assign? name other = after' at hassign
    cases hassign with
    | none => exact .error _
    | some hafter => exact .ok hafter

theorem bindAll_agree (binding : Option Binding) (hv : value.Reordered other)
    (h : vars.Reordered vars') :
    Agree Variables.Reordered (bindAll binding value vars) (bindAll binding other vars') := by
  cases binding with
  | none => exact .ok h
  | some binding =>
    refine Agree.foldlM (T := Eq) (fun hvars hname => ?_) (List.forall₂_refl _) h
    rw [← hname]
    exact bind_agree binding.kind hv hvars _

theorem value_agree (pipeline : Pipeline) (he : env.Reordered env') (h : vars.Reordered vars') :
    Agree Value.Reordered (pipeline.value env vars) (pipeline.value env' vars') :=
  commandsValue_agree he h pipeline.commands .none

/-- A pipeline has the same value but for the order of entries, and leaves the same variables but
for the order of entries. -/
theorem run_agree (pipeline : Pipeline) (he : env.Reordered env') (h : vars.Reordered vars') :
    Agree (fun p p' => p.1.Reordered p'.1 ∧ p.2.Reordered p'.2) (pipeline.run env vars)
      (pipeline.run env' vars') :=
  (pipeline.value_agree he h).bind fun _ _ hv =>
    (bindAll_agree pipeline.binding hv h).bind fun _ _ hafter => .ok ⟨hv, hafter⟩

end Pipeline

/-! ## Loops -/

/-- The keys and the items of two rounds are equal but for the order of entries. -/
def SameRound (round other : Value × Value) : Prop :=
  round.1.Reordered other.1 ∧ round.2.Reordered other.2

theorem forall₂_zipIdx {items others : List Value} (h : List.Forall₂ Value.Reordered items others)
    (start : Nat) :
    List.Forall₂ SameRound
      ((items.zipIdx start).map fun (item, i) => (.int i, item))
      ((others.zipIdx start).map fun (item, i) => (.int i, item)) := by
  induction h generalizing start with
  | nil => exact .nil
  | cons hfirst _ ih => exact .cons ⟨.int _, hfirst⟩ (ih (start + 1))

/-- A loop walks over the same rounds: those of a map are in the order of its keys. -/
theorem loopEntries_agree (h : value.Reordered other) :
    Agree (List.Forall₂ SameRound) (loopEntries value) (loopEntries other) := by
  cases h with
  | null => exact .ok .nil
  | list each => exact .ok (forall₂_zipIdx each 0)
  | map unique reorder each =>
    have hsorted := (Value.Reordered.map unique reorder each).sortEntries
    refine .ok ?_
    rw [List.forall₂_map_left_iff, List.forall₂_map_right_iff]
    refine hsorted.imp fun entry entry' hentry => ?_
    cases hentry with
    | intro related => exact ⟨.text _, related⟩
  | int count =>
    refine .ok ?_
    rw [List.forall₂_map_left_iff, List.forall₂_map_right_iff, List.forall₂_same]
    exact fun i _ => ⟨.int i, .int i⟩
  | _ => exact .error _

namespace Variables

theorem Reordered.bindRound (h : vars.Reordered vars') (binding : Option Binding)
    {round round' : Value × Value} (hr : SameRound round round') :
    Variables.Reordered (bindRound binding round.1 round.2 vars)
      (bindRound binding round'.1 round'.2 vars') := by
  unfold LiveTemplate.bindRound
  split
  · exact .cons ⟨hr.2⟩ h
  · exact .cons ⟨hr.2⟩ (.cons ⟨hr.1⟩ h)
  · exact h

theorem Reordered.keepOuter (h : vars.Reordered vars') (count : Nat) :
    Variables.Reordered (vars.keepOuter count) (vars'.keepOuter count) := by
  rw [Variables.keepOuter, Variables.keepOuter, h.length_eq]
  exact List.forall₂_drop _ h

end Variables

end Pipelines

end LiveTemplate
