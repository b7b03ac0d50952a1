import LiveTemplate.Proofs.Eval.Scopes
import LiveTemplate.Proofs.Success

/-!
# Evaluations that succeed

What an evaluating computation did to the variables if it gave a result, one rule for each way in
which computations are put together.
-/

namespace LiveTemplate

/-- The value of the argument of an inclusion, nil if it has none, and the variables after it. -/
def Environment.argument (env : Environment) (argument : Option Pipeline) (vars : Variables) :
    Except EvaluationProblem (Value × Variables) :=
  match argument with
  | some pipeline => pipeline.run env vars
  | none => .ok (.null, vars)

namespace Evaluating

variable {α : Type} {env : Environment} {span : Span} {vars after : Variables}

theorem run_check_eq_ok {result : Except EvaluationProblem α} {value : α} :
    StateT.run (check span result) vars = .ok (value, after) ↔
      result = .ok value ∧ after = vars := by
  cases result with
  | error problem =>
    constructor
    · rintro ⟨⟩
    · rintro ⟨⟨⟩, -⟩
  | ok found =>
    rw [check, run_pure_eq_ok, Prod.mk.injEq, Except.ok.injEq, eq_comm (a := value)]

theorem run_check_eq_error {result : Except EvaluationProblem α} {error : EvaluationError} :
    StateT.run (check span result) vars = .error error ↔
      result = .error error.problem ∧ error.span = span := by
  cases result with
  | error problem =>
    constructor
    · rintro ⟨⟩
      exact ⟨rfl, rfl⟩
    · rintro ⟨⟨⟩, rfl⟩
      rfl
  | ok found =>
    constructor
    · rintro ⟨⟩
    · rintro ⟨⟨⟩, -⟩

theorem run_run (pipeline : Pipeline) :
    StateT.run (run env pipeline span) vars =
      StateT.run (check span (pipeline.run env vars)) vars >>= fun p => .ok p.1 := rfl

theorem run_run_eq_ok {pipeline : Pipeline} {value : Value} :
    StateT.run (run env pipeline span) vars = .ok (value, after) ↔
      pipeline.run env vars = .ok (value, after) := by
  rw [run_run, bind_eq_ok]
  constructor
  · rintro ⟨⟨found, state⟩, hc, ⟨⟩⟩
    exact (run_check_eq_ok.mp hc).1
  · intro h
    exact ⟨_, run_check_eq_ok.mpr ⟨h, rfl⟩, rfl⟩

theorem run_run_eq_error {pipeline : Pipeline} {error : EvaluationError} :
    StateT.run (run env pipeline span) vars = .error error ↔
      pipeline.run env vars = .error error.problem ∧ error.span = span := by
  rw [run_run, bind_eq_error, run_check_eq_error]
  exact or_iff_left fun ⟨_, _, h⟩ => nomatch h

theorem run_argument_eq_ok {pipeline : Option Pipeline} {value : Value} :
    StateT.run (argument env pipeline span) vars = .ok (value, after) ↔
      env.argument pipeline vars = .ok (value, after) := by
  cases pipeline with
  | some pipeline => exact run_run_eq_ok
  | none => rw [argument, run_pure_eq_ok, Environment.argument, Except.ok.injEq, eq_comm]

theorem run_entries_eq_ok {head : Pipeline} {entries : List (Value × Value)} :
    StateT.run (Evaluating.entries env head span) vars = .ok (entries, after) ↔
      (∃ value, head.value env vars = .ok value ∧ loopEntries value = .ok entries) ∧
        after = vars := by
  have hrun : StateT.run (Evaluating.entries env head span) vars =
      StateT.run (check span (head.value env vars) >>= fun value =>
        check span (loopEntries value)) vars := rfl
  rw [hrun, run_bind_eq_ok]
  simp only [run_check_eq_ok]
  constructor
  · rintro ⟨value, _, ⟨hv, rfl⟩, he, rfl⟩
    exact ⟨⟨value, hv, he⟩, rfl⟩
  · rintro ⟨⟨value, hv, he⟩, rfl⟩
    exact ⟨value, _, ⟨hv, rfl⟩, he, rfl⟩

theorem run_inScope_eq_ok {computation : Evaluating α} {value : α} :
    StateT.run (inScope computation) vars = .ok (value, after) ↔
      ∃ last, StateT.run computation vars = .ok (value, last) ∧
        after = last.keepOuter vars.length := by
  rw [run_inScope, bind_eq_ok]
  constructor
  · rintro ⟨⟨found, last⟩, hc, ⟨⟩⟩
    exact ⟨last, hc, rfl⟩
  · rintro ⟨last, hc, rfl⟩
    exact ⟨_, hc, rfl⟩

theorem run_isolated_eq_ok {computation : Evaluating α} {value : α} :
    StateT.run (isolated computation) vars = .ok (value, after) ↔
      (∃ last, StateT.run computation [] = .ok (value, last)) ∧ after = vars := by
  rw [run_isolated, bind_eq_ok]
  constructor
  · rintro ⟨⟨found, last⟩, hc, ⟨⟩⟩
    exact ⟨⟨last, hc⟩, rfl⟩
  · rintro ⟨⟨last, hc⟩, rfl⟩
    exact ⟨_, hc, rfl⟩

theorem run_rounds_nil {binding : Option Binding} {round : Value → Evaluating α}
    {values : List α} :
    StateT.run (rounds binding [] round) vars = .ok (values, after) ↔
      values = [] ∧ after = vars := by
  rw [rounds, run_mapM_nil]

theorem run_rounds_cons {binding : Option Binding} {round : Value → Evaluating α} {key item : Value}
    {rest : List (Value × Value)} {values : List α} :
    StateT.run (rounds binding ((key, item) :: rest) round) vars = .ok (values, after) ↔
      ∃ value others last,
        StateT.run (round item) (bindRound binding key item vars) = .ok (value, last) ∧
          StateT.run (rounds binding rest round) (last.keepOuter vars.length) =
            .ok (others, after) ∧ values = value :: others := by
  rw [rounds, run_mapM_cons]
  simp only [run_bind_eq_ok, run_inScope_eq_ok, run_modify_eq_ok]
  constructor
  · rintro ⟨value, _, others, ⟨last, ⟨_, _, rfl, hround⟩, rfl⟩, hrest, rfl⟩
    exact ⟨value, others, last, hround, hrest, rfl⟩
  · rintro ⟨value, others, last, hround, hrest, rfl⟩
    exact ⟨value, _, others, ⟨last, ⟨(), _, rfl, hround⟩, rfl⟩, hrest, rfl⟩

theorem result_eq_ok {computation : Evaluating α} {value : α} :
    computation.result = .ok value ↔ ∃ last, StateT.run computation [] = .ok (value, last) := by
  rw [result, StateT.run'_eq, map_eq_ok]
  constructor
  · rintro ⟨⟨_, last⟩, hrun, rfl⟩
    exact ⟨last, hrun⟩
  · rintro ⟨last, hrun⟩
    exact ⟨_, hrun, rfl⟩

theorem result_eq_error {computation : Evaluating α} {error : EvaluationError} :
    computation.result = .error error ↔ StateT.run computation [] = .error error := by
  rw [result, StateT.run'_eq, map_eq_error]

end Evaluating

end LiveTemplate
