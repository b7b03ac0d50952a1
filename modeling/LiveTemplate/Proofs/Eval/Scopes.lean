import LiveTemplate.Eval.Evaluating

/-!
# Scopes of evaluating computations

What `inScope`, `isolated` and `rounds` do to a run, and how they go together with a function that
is applied to the result. A scope inside a scope in which names are declared makes no difference to
what is left after both (`inScope_inScope`).
-/

namespace LiveTemplate

namespace Variables

/-- Keeping fewer variables after keeping more of them. -/
theorem keepOuter_keepOuter {count middle : Nat} (h : count ≤ middle) (vars : Variables) :
    keepOuter count (keepOuter middle vars) = keepOuter count vars := by
  rw [keepOuter, keepOuter, keepOuter, List.drop_drop, List.length_drop]
  congr 1
  omega

theorem length_bindRound (binding : Option Binding) (key item : Value) (vars : Variables) :
    vars.length ≤ (bindRound binding key item vars).length := by
  unfold bindRound
  split
  · exact Nat.le_succ _
  · exact Nat.le_add_right _ 2
  · exact Nat.le_refl _

end Variables

namespace Evaluating

variable {α β : Type}

/-! ## Runs -/

theorem run_inScope (computation : Evaluating α) (vars : Variables) :
    StateT.run (inScope computation) vars =
      StateT.run computation vars >>= fun p =>
        pure (p.1, Variables.keepOuter vars.length p.2) := rfl

theorem run_isolated (computation : Evaluating α) (vars : Variables) :
    StateT.run (isolated computation) vars =
      StateT.run computation [] >>= fun p => pure (p.1, vars) := rfl

theorem run_modify (change : Variables → Variables) (vars : Variables) :
    StateT.run (modify change : Evaluating Unit) vars = pure ((), change vars) := rfl

/-! ## Functions of the result -/

theorem map_inScope (f : α → β) (computation : Evaluating α) :
    f <$> inScope computation = inScope (f <$> computation) := by
  refine StateT.ext fun vars => ?_
  rw [StateT.run_map, run_inScope, run_inScope, StateT.run_map]
  simp only [map_bind, map_pure, bind_map_left]

theorem map_isolated (f : α → β) (computation : Evaluating α) :
    f <$> isolated computation = isolated (f <$> computation) := by
  refine StateT.ext fun vars => ?_
  rw [StateT.run_map, run_isolated, run_isolated, StateT.run_map]
  simp only [map_bind, map_pure, bind_map_left]

theorem map_mapM {γ : Type} (f : α → β) (round : γ → Evaluating α) (entries : List γ) :
    List.map f <$> entries.mapM round = entries.mapM fun entry => f <$> round entry := by
  induction entries with
  | nil => rfl
  | cons entry rest ih =>
    rw [List.mapM_cons, List.mapM_cons, ← ih]
    simp only [map_bind, map_pure, bind_map_left, List.map_cons]

theorem map_rounds (f : α → β) (binding : Option Binding) (entries : List (Value × Value))
    (round : Value → Evaluating α) :
    List.map f <$> rounds binding entries round =
      rounds binding entries fun item => f <$> round item := by
  rw [rounds, map_mapM, rounds]
  simp only [map_inScope, map_bind]

theorem map_result (f : α → β) (computation : Evaluating α) :
    (f <$> computation).result = computation.result.map f := by
  rw [result, result, StateT.run'_eq, StateT.run'_eq, StateT.run_map]
  rcases StateT.run computation [] with e | ⟨value, vars⟩ <;> rfl

/-! ## Scopes in scopes -/

/-- A scope ends what is declared in it, whether or not a part of it is a scope of its own. -/
theorem inScope_inScope {declare : Variables → Variables}
    (h : ∀ vars, vars.length ≤ (declare vars).length) (computation : Evaluating α) :
    inScope (do modify declare; inScope computation) =
      inScope (do modify declare; computation) := by
  refine StateT.ext fun vars => ?_
  rw [run_inScope, run_inScope, StateT.run_bind, StateT.run_bind, run_modify]
  simp only [pure_bind, run_inScope, bind_assoc, Variables.keepOuter_keepOuter (h vars)]

theorem rounds_inScope (binding : Option Binding) (entries : List (Value × Value))
    (round : Value → Evaluating α) :
    rounds binding entries (fun item => inScope (round item)) = rounds binding entries round := by
  rw [rounds, rounds]
  congr 1
  funext ⟨key, item⟩
  exact inScope_inScope (Variables.length_bindRound binding key item) (round item)

end Evaluating

end LiveTemplate
