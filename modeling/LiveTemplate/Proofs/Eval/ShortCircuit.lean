import LiveTemplate.Proofs.Eval.Piping

/-!
# Calls that stop early

`and` and `or` look at their arguments one by one and stop at the first one that decides. The
functions of the same names in the table of builtin functions are given all arguments at once.

* `firstDecisive_append`: what comes of arguments that have values, whatever follows them.
* `applyFunction_values`: if all arguments have values, stopping early makes no difference.
* `applyFunction_failing`: an argument that fails counts only if none before it decides.
-/

namespace LiveTemplate

/-! ## Results of arguments -/

/-- Either all computations have values, or there is a first one that fails. -/
theorem exists_values_or_first_error {ε α : Type} (results : List (Except ε α)) :
    (∃ values : List α, results = values.map .ok) ∨
      ∃ (values : List α) (error : ε) (rest : List (Except ε α)),
        results = values.map .ok ++ .error error :: rest := by
  induction results with
  | nil => exact .inl ⟨[], rfl⟩
  | cons result rest ih =>
    cases result with
    | error e => exact .inr ⟨[], e, rest, rfl⟩
    | ok value =>
      rcases ih with ⟨values, h⟩ | ⟨values, e, others, h⟩
      · exact .inl ⟨value :: values, by rw [h, List.map_cons]⟩
      · exact .inr ⟨value :: values, e, others, by rw [h, List.map_cons, List.cons_append]⟩

section Decisions

variable (decisive : Bool) (piped : Option Value)

/-- Arguments that have values: the first one that decides is the result, and if none does, the last
one is taken along. -/
theorem firstDecisive_append (last : Value) (values : List Value)
    (rest : List (Except EvaluationProblem Value)) :
    firstDecisive decisive piped last (values.map .ok ++ rest) =
      match values.find? (·.truthy == decisive) with
      | some value => .ok value
      | none => firstDecisive decisive piped (values.getLast?.getD last) rest := by
  induction values generalizing last with
  | nil => rfl
  | cons value values ih =>
    have hstep : firstDecisive decisive piped last ((value :: values).map .ok ++ rest) =
        if value.truthy = decisive then .ok value
        else firstDecisive decisive piped value (values.map .ok ++ rest) := rfl
    rw [hstep, ih value]
    by_cases hd : value.truthy = decisive
    · simp [hd]
    · simp [hd, List.getLast?_cons]

/-- The function of the table for any arguments of which there is at least one. -/
theorem firstDeciding_of_ne_nil {arguments : List Value} (h : arguments ≠ []) :
    Builtin.firstDeciding decisive arguments =
      .ok (((arguments.find? (·.truthy == decisive)).or arguments.getLast?).getD .null) := by
  have hlength : 1 ≤ arguments.length := List.length_pos_iff.mpr h
  simp [Builtin.firstDeciding, Builtin.atLeast, hlength, bind, Except.bind]

end Decisions

/-! ## Calls -/

section Calls

variable {functions : FunctionTable} {name : String} {decisive : Bool}

/-- Of at least one argument, the piped one included, they look for the first that decides. -/
theorem applyFunction_decisive (h : decisive? name = some decisive) (piped : Option Value)
    {results : List (Except EvaluationProblem Value)} (hne : results ≠ [] ∨ piped ≠ none) :
    applyFunction functions name results piped = firstDecisive decisive piped .null results := by
  have hempty : ¬((results.isEmpty && piped.isNone) = true) := by
    rw [Bool.and_eq_true, List.isEmpty_iff, Option.isNone_iff_eq_none, not_and_or]
    exact hne
  rw [applyFunction, h]
  exact if_neg hempty

/-- If all arguments have values, `and` and `or` give what the functions of the table give for these
values and the piped one. This includes the failure for no arguments. -/
theorem applyFunction_values (h : decisive? name = some decisive) (values : List Value)
    (piped : Option Value) :
    applyFunction functions name (values.map .ok) piped =
      (Builtin.firstDeciding decisive (values ++ piped.toList)).mapError (.call name) := by
  by_cases hne : values ++ piped.toList = []
  · obtain ⟨rfl, hpiped⟩ := List.append_eq_nil_iff.mp hne
    obtain rfl : piped = none := by simpa using hpiped
    rw [applyFunction, h]
    rfl
  have hsome : (values.map .ok : List (Except EvaluationProblem Value)) ≠ [] ∨ piped ≠ none := by
    simpa [imp_iff_not_or] using hne
  have hwalk := firstDecisive_append decisive piped .null values []
  rw [List.append_nil] at hwalk
  rw [applyFunction_decisive h piped hsome, hwalk, firstDeciding_of_ne_nil decisive hne]
  cases hfind : values.find? (·.truthy == decisive) with
  | some value => simp [hfind, Except.mapError]
  | none =>
    cases piped with
    | none => simp [hfind, firstDecisive, Except.mapError]
    | some last =>
      -- The piped value is the result whether or not it decides.
      by_cases hd : last.truthy = decisive
      · simp [hfind, hd, firstDecisive, Except.mapError]
      · simp [hfind, hd, firstDecisive, Except.mapError]

/-- An argument fails after some that have values: the first one of these that decides is the
result, and if none does, the call fails in the same way. -/
theorem applyFunction_failing (h : decisive? name = some decisive) (values : List Value)
    (problem : EvaluationProblem) (rest : List (Except EvaluationProblem Value))
    (piped : Option Value) :
    applyFunction functions name (values.map .ok ++ .error problem :: rest) piped =
      match values.find? (·.truthy == decisive) with
      | some value => .ok value
      | none => .error problem := by
  rw [applyFunction_decisive h piped (.inl (List.append_ne_nil_of_right_ne_nil _ (by simp)))]
  exact firstDecisive_append decisive piped .null values (.error problem :: rest)

/-- A call that stops early is the call of the builtin function of its name, as far as arguments
have values: if all have, it gives what that function gives for the values and the piped one, or
fails as it does. If some argument fails, the call fails with the first such failure if and only if
no value before it decides, and otherwise gives the first value that does. -/
theorem shortCircuit_eager
    (hname : name = "and" ∧ decisive = false ∨ name = "or" ∧ decisive = true) (env : Environment)
    (vars : Variables) {operands : List Operand} {command : Command}
    (hc : command.Calls name operands) (piped : Option Value) :
    (∀ values : List Value, operands.map (operandValue env vars) = values.map .ok →
      ∃ function, FunctionTable.builtins.get? name = some function ∧
        commandValue env vars piped command =
          (function (values ++ piped.toList)).mapError (.call name)) ∧
    ((∃ operand ∈ operands, ∃ problem, operandValue env vars operand = .error problem) →
      ∃ (values : List Value) (problem : EvaluationProblem)
        (rest : List (Except EvaluationProblem Value)),
        operands.map (operandValue env vars) = values.map .ok ++ .error problem :: rest ∧
        (commandValue env vars piped command = .error problem ↔
          ∀ value ∈ values, value.truthy ≠ decisive) ∧
        ((∃ value ∈ values, value.truthy = decisive) →
          ∃ value, values.find? (·.truthy == decisive) = some value ∧
            commandValue env vars piped command = .ok value)) := by
  have hdecisive : decisive? name = some decisive := by
    rcases hname with ⟨rfl, rfl⟩ | ⟨rfl, rfl⟩
    · rfl
    · rfl
  have hbuiltin : FunctionTable.builtins.get? name = some (Builtin.firstDeciding decisive) := by
    rcases hname with ⟨rfl, rfl⟩ | ⟨rfl, rfl⟩
    · rfl
    · rfl
  rw [hc.commandValue_eq]
  constructor
  · intro values hvalues
    rw [hvalues]
    exact ⟨_, hbuiltin, applyFunction_values hdecisive values piped⟩
  · rintro ⟨operand, hm, problem, hproblem⟩
    rcases exists_values_or_first_error (operands.map (operandValue env vars)) with
      ⟨values, hvalues⟩ | ⟨values, first, rest, hresults⟩
    · have hm' : operandValue env vars operand ∈ values.map .ok :=
        hvalues ▸ List.mem_map_of_mem hm
      rw [hproblem] at hm'
      simp at hm'
    · refine ⟨values, first, rest, hresults, ?_⟩
      rw [hresults, applyFunction_failing hdecisive]
      cases hfind : values.find? (·.truthy == decisive) with
      | none =>
        have hnone : ∀ value ∈ values, value.truthy ≠ decisive := by
          simpa using List.find?_eq_none.mp hfind
        refine ⟨iff_of_true rfl hnone, ?_⟩
        rintro ⟨value, hv, hd⟩
        exact absurd hd (hnone value hv)
      | some value =>
        have hv := List.mem_of_find?_eq_some hfind
        have hd : value.truthy = decisive := by simpa using List.find?_some hfind
        exact ⟨iff_of_false nofun fun hnone => hnone value hv hd, fun _ => ⟨value, rfl, rfl⟩⟩

/-- The text decides, so that the missing field after it does not count. Without the text, the call
fails for the field, although the piped value would decide. -/
theorem shortCircuit_eager_missing :
    let env : Environment := ⟨.null, .map [], .empty⟩
    let operands : List Operand := [.literal (.int 0), .literal (.text "x"), .field ["missing"]]
    let early : Command := .call "or" operands
    let late : Command := .call "or" [.literal (.int 0), .field ["missing"]]
    operandValue env [] (.field ["missing"]) = .error (.missingField "missing") ∧
      commandValue env [] none early = .ok (.text "x") ∧
      commandValue env [] (some (.int 1)) late = .error (.missingField "missing") ∧
      ∃ (values : List Value) (problem : EvaluationProblem)
        (rest : List (Except EvaluationProblem Value)),
        operands.map (operandValue env []) = values.map .ok ++ .error problem :: rest ∧
          ∃ value, values.find? (·.truthy == true) = some value ∧
            commandValue env [] none early = .ok value := by
  intro env operands early late
  have hmissing : operandValue env [] (.field ["missing"]) = .error (.missingField "missing") := rfl
  obtain ⟨values, problem, rest, hresults, hfails, hfound⟩ :=
    (shortCircuit_eager (.inr ⟨rfl, rfl⟩) env [] (.call operands) none).2
      ⟨.field ["missing"], by simp [operands], _, hmissing⟩
  refine ⟨hmissing, rfl, rfl, values, problem, rest, hresults, hfound ?_⟩
  by_contra hnone
  have herror : commandValue env [] none early = .error problem :=
    hfails.mpr fun value hv hd => hnone ⟨value, hv, hd⟩
  cases herror

end Calls

end LiveTemplate
