import LiveTemplate.Eval.Builtin
import LiveTemplate.Eval.Pipeline
import LiveTemplate.Proofs.Success
import Mathlib.Data.List.Forall2

/-!
# Piping

A value that is piped into a function is its last argument: `c | f a` is `f a (c)`, whatever `f`
does with its arguments. This goes for the functions that look at their arguments one by one as
well (`firstDecisive_piped`).

* `Command.Calls`: which function a command calls, and with which arguments.
* `Pipeline.nest`: a pipeline of calls as one call inside the other.
* `Pipeline.value_nest`: a pipeline has the value of the nested call, or fails with the same
  problem.
-/

namespace LiveTemplate

/-! ## Calls -/

/-- A command calls a function with arguments. The bare name of a function calls it with none. -/
inductive Command.Calls (function : String) : List Operand → Command → Prop
  | call (arguments : List Operand) : Calls function arguments (.call function arguments)
  | bare : Calls function [] (.operand (.function function))

section Values

variable {env : Environment} {vars : Variables}

theorem operandResults_eq_map (operands : List Operand) :
    operandResults env vars operands = operands.map (operandValue env vars) := by
  induction operands with
  | nil => rfl
  | cons operand rest ih => rw [operandResults, ih, List.map_cons]

/-- Both forms of a call have the value of the function for the results of the arguments. -/
theorem Command.Calls.commandValue_eq {command : Command} {function : String}
    {arguments : List Operand} (h : command.Calls function arguments) (piped : Option Value) :
    commandValue env vars piped command =
      applyFunction env.functions function (arguments.map (operandValue env vars)) piped := by
  cases h with
  | call => rw [commandValue, operandResults_eq_map]
  | bare => rfl

/-! ## A piped value is a last argument -/

/-- At the end, the piped value and a last argument are the same: the one counts as it is, the other
counts whether or not it decides. -/
theorem firstDecisive_piped (decisive : Bool) (value last : Value)
    (results : List (Except EvaluationProblem Value)) :
    firstDecisive decisive (some value) last results =
      firstDecisive decisive none last (results ++ [.ok value]) := by
  induction results generalizing last with
  | nil =>
    simp [firstDecisive, bind, Except.bind]
  | cons result rest ih =>
    rw [List.cons_append, firstDecisive, firstDecisive]
    cases result with
    | error problem => rfl
    | ok found =>
      show (if _ then _ else _) = if _ then _ else _
      rw [ih found]

theorem applyFunction_piped (functions : FunctionTable) (name : String)
    (results : List (Except EvaluationProblem Value)) (value : Value) :
    applyFunction functions name results (some value) =
      applyFunction functions name (results ++ [.ok value]) none := by
  unfold applyFunction
  cases decisive? name with
  | some decisive => simp [firstDecisive_piped]
  | none =>
    cases functions.get? name with
    | none => rfl
    | some function =>
      have hlast : [(.ok value : Except EvaluationProblem Value)].mapM id = .ok [value] := rfl
      simp only [List.mapM_append, hlast, bind_assoc, Option.toList_some, Option.toList_none,
        List.append_nil]
      rfl

/-! ## Pipelines -/

theorem commandsValue_singleton (piped : Option Value) (command : Command) :
    commandsValue env vars piped [command] = commandValue env vars piped command := by
  rw [commandsValue]
  cases commandValue env vars piped command <;> rfl

/-- The commands after some others take the value of these. -/
theorem commandsValue_append {commands : List Command} (hc : commands ≠ [])
    (rest : List Command) (piped : Option Value) :
    commandsValue env vars piped (commands ++ rest) =
      commandsValue env vars piped commands >>= fun value =>
        commandsValue env vars (some value) rest := by
  induction commands generalizing piped with
  | nil => exact absurd rfl hc
  | cons command others ih =>
    rw [List.cons_append, commandsValue, commandsValue, bind_assoc]
    congr 1
    funext value
    cases others with
    | nil => rfl
    | cons next others => exact ih (List.cons_ne_nil _ _) (some value)

/-- One more command in a pipeline, written as a call with the pipeline as its last argument. -/
theorem commandsValue_snoc {commands : List Command} {inner : Operand} {value : Value}
    (hc : commands ≠ []) (hvalue : commandsValue env vars none commands = .ok value)
    (hinner : operandValue env vars inner = .ok value) {command : Command} {function : String}
    {arguments : List Operand} (hcalls : command.Calls function arguments) :
    commandsValue env vars none (commands ++ [command]) =
      commandsValue env vars none [.call function (arguments ++ [inner])] := by
  rw [commandsValue_append hc, hvalue, commandsValue_singleton]
  show commandsValue env vars (some value) [command] = _
  rw [commandsValue_singleton, hcalls.commandValue_eq,
    (Command.Calls.call (arguments ++ [inner])).commandValue_eq, applyFunction_piped,
    List.map_append, List.map_singleton, hinner]

end Values

namespace Pipeline

/-- An operand that is handed through calls: each of them takes what is before it as its last
argument, in parentheses. -/
def nest (inner : Operand) : List (String × List Operand) → Operand
  | [] => inner
  | (function, arguments) :: rest => nest (.group [.call function (arguments ++ [inner])]) rest

/-- Commands call the functions of a list with the arguments there. -/
abbrev Calls (commands : List Command) (calls : List (String × List Operand)) : Prop :=
  List.Forall₂ (fun command call => Command.Calls call.1 call.2 command) commands calls

variable {env : Environment} {vars : Variables}

/-- If all commands of a pipeline succeed, the nested call has its value. -/
theorem operandValue_nest {steps : List Command} {calls : List (String × List Operand)}
    (hsteps : Calls steps calls) {commands : List Command} {inner : Operand} {value last : Value}
    (hc : commands ≠ []) (hvalue : commandsValue env vars none commands = .ok value)
    (hinner : operandValue env vars inner = .ok value)
    (hlast : commandsValue env vars none (commands ++ steps) = .ok last) :
    operandValue env vars (nest inner calls) = .ok last := by
  induction hsteps generalizing commands inner value with
  | nil =>
    rw [List.append_nil, hvalue] at hlast
    exact hinner.trans hlast
  | @cons step call steps calls hstep _ ih =>
    have hsnoc := commandsValue_snoc hc hvalue hinner hstep
    have hne : commands ++ [step] ≠ [] :=
      List.append_ne_nil_of_right_ne_nil _ (List.cons_ne_nil _ _)
    rw [List.append_cons] at hlast
    have hmiddle := hlast
    rw [commandsValue_append hne] at hmiddle
    obtain ⟨middle, hmiddle, -⟩ := bind_eq_ok.mp hmiddle
    exact ih hne hmiddle (hsnoc.symm.trans hmiddle) hlast

/-- A call at the end of a pipeline is the call with the pipeline before it as its last argument:
it has the same value, or fails with the same problem. If all commands before the last one succeed,
they may be nested as well, each in the one after it. -/
theorem value_nest (binding : Option Binding) {commands : List Command} (hc : commands ≠ [])
    {value : Value} (hvalue : (Pipeline.mk binding commands).value env vars = .ok value) :
    (∀ last function arguments, Command.Calls function arguments last →
      (Pipeline.mk binding (commands ++ [last])).value env vars =
        (Pipeline.mk binding [.call function (arguments ++ [.group commands])]).value env vars) ∧
    ∀ steps calls found last function arguments, Calls steps calls →
      (Pipeline.mk binding (commands ++ steps)).value env vars = .ok found →
      Command.Calls function arguments last →
        (Pipeline.mk binding (commands ++ steps ++ [last])).value env vars =
          (Pipeline.mk binding
            [.call function (arguments ++ [nest (.group commands) calls])]).value env vars := by
  have hgroup : operandValue env vars (.group commands) = .ok value := hvalue
  constructor
  · intro last function arguments hlast
    exact commandsValue_snoc hc hvalue hgroup hlast
  · intro steps calls found last function arguments hsteps hfound hlast
    have hne : commands ++ steps ≠ [] := List.append_ne_nil_of_left_ne_nil hc _
    exact commandsValue_snoc hne hfound (operandValue_nest hsteps hc hvalue hgroup hfound) hlast

/-- A position is piped through `and`, which gives it back since it comes last, and found in the
list of the data. -/
theorem value_nest_index :
    let env : Environment :=
      ⟨.null, .map [("at", .int 1), ("names", .list [.text "ada", .text "bob"])], .builtins⟩
    let position : Command := .operand (.field ["at"])
    let both : Command := .call "and" [.literal (.bool true)]
    let piped : Pipeline := ⟨none, [position, both, .call "index" [.field ["names"]]]⟩
    let nested : Pipeline := ⟨none, [.call "index" [.field ["names"],
      .group [.call "and" [.literal (.bool true), .group [position]]]]]⟩
    Pipeline.value ⟨none, [position, both]⟩ env [] = .ok (.int 1) ∧
      piped.value env [] = nested.value env [] ∧ piped.value env [] = .ok (.text "bob") := by
  intro env position both piped nested
  have hposition : (Pipeline.mk none [position]).value env [] = .ok (.int 1) := rfl
  have hboth : (Pipeline.mk none ([position] ++ [both])).value env [] = .ok (.int 1) := rfl
  have hnest := (value_nest none (List.cons_ne_nil position []) hposition).2 [both]
    [("and", [.literal (.bool true)])] _ _ "index" [.field ["names"]] (.cons (.call _) .nil) hboth
    (.call _)
  exact ⟨hboth, hnest, rfl⟩

end Pipeline

end LiveTemplate
