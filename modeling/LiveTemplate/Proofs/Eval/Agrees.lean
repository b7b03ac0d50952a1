import LiveTemplate.Proofs.Eval.Reordered
import LiveTemplate.Proofs.Eval.Scopes

/-!
# Computations and the order of entries

`Evaluating.Agrees R` says of two computations that they have results related by `R`, or fail with
the same error in the same node, whenever the variables that they start with are equal but for the
order of entries; and that the variables that they leave are so again. One rule for each way in
which computations are put together.
-/

namespace LiveTemplate

namespace Evaluating

variable {α β γ δ : Type}

/-- Two computations have related results and leave the same variables but for the order of entries,
or fail with the same error. -/
def Agrees (R : α → β → Prop) (computation : Evaluating α) (other : Evaluating β) : Prop :=
  ∀ ⦃vars vars' : Variables⦄, vars.Reordered vars' →
    Agree (fun p p' => R p.1 p'.1 ∧ p.2.Reordered p'.2) (StateT.run computation vars)
      (StateT.run other vars')

namespace Agrees

variable {R : α → β → Prop} {S : γ → δ → Prop} {computation : Evaluating α} {other : Evaluating β}
  {env env' : Environment} {span : Span}

theorem pure {value : α} {found : β} (h : R value found) :
    Agrees R (Pure.pure value) (Pure.pure found) :=
  fun _ _ hv => .ok ⟨h, hv⟩

theorem bind {next : α → Evaluating γ} {next' : β → Evaluating δ}
    (hf : Agrees R computation other)
    (hn : ∀ value found, R value found → Agrees S (next value) (next' found)) :
    Agrees S (computation >>= next) (other >>= next') := by
  intro vars vars' hv
  rw [StateT.run_bind, StateT.run_bind]
  exact (hf hv).bind fun p p' hp => hn p.1 p'.1 hp.1 hp.2

/-- A function of results that are equal. -/
theorem map {computation other : Evaluating α} (h : Agrees Eq computation other) (f : α → γ) :
    Agrees Eq (computation >>= fun value => Pure.pure (f value))
      (other >>= fun value => Pure.pure (f value)) :=
  h.bind fun _ _ he => .pure (congrArg f he)

theorem check {result : Except EvaluationProblem α} {result' : Except EvaluationProblem β}
    (h : Agree R result result') :
    Agrees R (Evaluating.check span result) (Evaluating.check span result') := by
  cases h with
  | ok related => exact .pure related
  | error problem => exact fun _ _ _ => .error _

theorem run (he : env.Reordered env') (pipeline : Pipeline) :
    Agrees Value.Reordered (Evaluating.run env pipeline span)
      (Evaluating.run env' pipeline span) := by
  intro vars vars' hv
  have hrun : Agrees (fun p p' => p.1.Reordered p'.1 ∧ p.2.Reordered p'.2)
      (Evaluating.check span (pipeline.run env vars))
      (Evaluating.check span (pipeline.run env' vars')) := check (pipeline.run_agree he hv)
  -- The variables are those that the pipeline leaves, not those of the check.
  exact (hrun hv).bind fun _ _ hp => .ok hp.1

theorem entries (he : env.Reordered env') (head : Pipeline) :
    Agrees (List.Forall₂ SameRound) (Evaluating.entries env head span)
      (Evaluating.entries env' head span) := by
  intro vars vars' hv
  have hvalue : Agrees Value.Reordered (Evaluating.check span (head.value env vars))
      (Evaluating.check span (head.value env' vars')) := check (head.value_agree he hv)
  exact (hvalue.bind fun _ _ h => check (loopEntries_agree h)) hv

theorem argument (he : env.Reordered env') (pipeline : Option Pipeline) :
    Agrees Value.Reordered (Evaluating.argument env pipeline span)
      (Evaluating.argument env' pipeline span) := by
  cases pipeline with
  | none => exact .pure .null
  | some pipeline => exact .run he pipeline

theorem modify {change change' : Variables → Variables}
    (h : ∀ ⦃vars vars' : Variables⦄, vars.Reordered vars' →
      (change vars).Reordered (change' vars')) :
    Agrees Eq (modify change : Evaluating Unit) (modify change') :=
  fun _ _ hv => .ok ⟨rfl, h hv⟩

theorem inScope (h : Agrees R computation other) :
    Agrees R (Evaluating.inScope computation) (Evaluating.inScope other) := by
  intro vars vars' hv
  rw [run_inScope, run_inScope, hv.length_eq]
  exact (h hv).bind fun _ _ hp => .ok ⟨hp.1, hp.2.keepOuter vars'.length⟩

theorem isolated (h : Agrees R computation other) :
    Agrees R (Evaluating.isolated computation) (Evaluating.isolated other) := by
  intro vars vars' hv
  rw [run_isolated, run_isolated]
  exact (h .nil).bind fun _ _ hp => .ok ⟨hp.1, hv⟩

/-- The rounds of two loops one by one. -/
theorem rounds {round round' : Value → Evaluating γ}
    (h : ∀ item item', item.Reordered item' → Agrees Eq (round item) (round' item'))
    (binding : Option Binding) {entries entries' : List (Value × Value)}
    (he : List.Forall₂ SameRound entries entries') :
    Agrees Eq (Evaluating.rounds binding entries round)
      (Evaluating.rounds binding entries' round') := by
  induction he with
  | nil => exact .pure rfl
  | @cons entry entry' _ _ first _ ih =>
    have hround := (Agrees.modify fun _ _ hv => hv.bindRound binding first).bind fun _ _ _ =>
      h entry.2 entry'.2 first.2
    rw [Evaluating.rounds, Evaluating.rounds, List.mapM_cons, List.mapM_cons]
    refine hround.inScope.bind fun value _ hv => ih.bind fun values _ hvs => .pure ?_
    rw [hv, hvs]

/-- From no variables, computations with equal results give equal results. -/
theorem result {computation other : Evaluating α} (h : Agrees Eq computation other) :
    computation.result = other.result := by
  rw [Evaluating.result, Evaluating.result, StateT.run'_eq, StateT.run'_eq]
  have hrun := h .nil
  generalize StateT.run computation [] = found, StateT.run other [] = found' at hrun
  cases hrun with
  | error error => rfl
  | ok related => exact congrArg Except.ok related.1

end Agrees

end Evaluating

end LiveTemplate
