import LiveTemplate.Proofs.Eval.Frames
import LiveTemplate.Proofs.Render.Parity

/-!
# What blocks and inclusions leave of the variables

A block leaves the variables around it, of which only those may have other values to which something
in the block assigns (`renderParts_keeps`). An inclusion starts without variables, so that what it
gives follows from the definition, the argument, the data of the whole template and the functions
alone (`run_inclusion`). Both hold for rendering to a tree and for writing text
(`interpreters_tidy`).
-/

namespace LiveTemplate

open Evaluating

/-! ## Assignments in a block -/

mutual

/-- The names of the variables that a part assigns to, what it includes aside. A loop declares the
names of its head, whatever their mark. -/
def Part.assigned : Part → List String
  | .literal _ => []
  | .print pipeline _ => pipeline.assigned
  | .bind pipeline _ => pipeline.assigned
  | .branch kind head body otherwise _ =>
    (if kind = .loop then [] else head.assigned) ++ (assignedIn body ++ assignedInElse otherwise)
  | .include _ argument _ _ => (argument.map Pipeline.assigned).getD []
termination_by structural part => part

/-- The names of the variables that the parts of a block assign to. -/
def assignedIn : List Part → List String
  | [] => []
  | part :: rest => part.assigned ++ assignedIn rest
termination_by structural parts => parts

/-- The names of the variables that the second body of a branch assigns to, if it has one. -/
def assignedInElse : Option (List Part) → List String
  | none => []
  | some parts => assignedIn parts
termination_by structural parts => parts

end

/-! ## Blocks -/

open Variables (Kept Grown)

/-- A branch changes what its head and its bodies change. -/
theorem renderBranch_keeps {names : List String} {env : Environment} {kind : BranchKind}
    {head : Pipeline} {body : List Part} {otherwise : Option (List Part)} {span : Span}
    (hhead : kind ≠ .loop → head.assigned ⊆ names)
    (hbody : ∀ inner : Environment, Keeps (Grown names) (renderParts inner body))
    (helse : Keeps (Grown names) (renderElse env otherwise)) :
    Keeps (Grown names) (renderPart env (.branch kind head body otherwise span)) := by
  by_cases hk : kind = .loop
  · subst hk
    rw [renderPart]
    refine (Keeps.entries head).bind fun entries => ?_
    split
    · exact helse.map some
    · have hrounds := Keeps.rounds (fun item => hbody { env with dot := item }) head.binding entries
      exact hrounds.grown.bind fun _ => .pure _
  · rw [renderPart]
    · refine (Keeps.inScope (((Keeps.run head).mono (hhead hk)).bind fun value => ?_)).grown
      split
      · exact (hbody (env.enter kind value)).inScope.grown.bind fun _ => .pure _
      · exact helse.map some
    · exact hk

mutual

/-- A part may declare variables for the parts after it, and changes those only that it assigns
to. -/
theorem renderPart_keeps (env : Environment) (part : Part) :
    Keeps (Grown part.assigned) (renderPart env part) := by
  cases part with
  | literal text =>
    rw [renderPart]
    exact .pure _
  | bind pipeline span =>
    rw [renderPart]
    exact (Keeps.run pipeline).bind fun _ => .pure _
  | print pipeline span =>
    rw [renderPart]
    exact (Keeps.run pipeline).bind fun _ => .pure _
  | branch kind head body otherwise span =>
    have hinner : assignedIn body ++ assignedInElse otherwise ⊆
        (Part.branch kind head body otherwise span).assigned := List.subset_append_right _ _
    refine renderBranch_keeps ?_ (fun inner => ?_) ?_
    · intro hk
      rw [Part.assigned, if_neg hk]
      exact List.subset_append_left _ _
    · have hbody := renderParts_keeps inner body
      exact hbody.mono (List.Subset.trans (List.subset_append_left _ _) hinner)
    · have helse := (renderElse_keeps env otherwise).grown
      exact helse.mono (List.Subset.trans (List.subset_append_right _ _) hinner)
  | «include» name argument body span =>
    rw [renderPart]
    exact (Keeps.argument argument).bind fun _ => (Keeps.isolated _).bind fun _ => .pure _
termination_by structural part

/-- Each part starts with the variables that the parts before it leave. -/
theorem renderParts_keeps (env : Environment) (parts : List Part) :
    Keeps (Grown (assignedIn parts)) (renderParts env parts) := by
  cases parts with
  | nil =>
    rw [renderParts]
    exact .pure _
  | cons part rest =>
    have hpart := (renderPart_keeps env part).mono (List.subset_append_left _ (assignedIn rest))
    have hrest := (renderParts_keeps env rest).mono (List.subset_append_right part.assigned _)
    rw [renderParts]
    exact hpart.bind fun _ => hrest.bind fun _ => .pure _
termination_by structural parts

theorem renderElse_keeps (env : Environment) (otherwise : Option (List Part)) :
    Keeps (Kept (assignedInElse otherwise)) (renderElse env otherwise) := by
  cases otherwise with
  | none =>
    rw [renderElse]
    exact .pure _
  | some parts =>
    rw [renderElse]
    exact (renderParts_keeps env parts).inScope.bind fun _ => .pure _
termination_by structural otherwise

end

/-- Writing a block is rendering it, as far as variables go. -/
theorem writeParts_keeps (env : Environment) (parts : List Part) :
    Keeps (Grown (assignedIn parts)) (writeParts env parts) := by
  rw [← (shown_parts env parts).statics]
  exact (renderParts_keeps env parts).map _

/-! ## Inclusions -/

/-- An inclusion evaluates its argument, and then something for its value that knows no variables.
Afterwards the variables are those that the argument left. -/
theorem run_inclusion {α : Type} (env : Environment) (argument : Option Pipeline) (span : Span)
    (inner : Value → Evaluating α) (vars : Variables) :
    StateT.run (Evaluating.argument env argument span >>= fun value => isolated (inner value))
        vars =
      (env.argument argument vars).mapError (⟨·, span⟩) >>= fun p =>
        (inner p.1).result.map (·, p.2) := by
  have hargument : StateT.run (Evaluating.argument env argument span) vars =
      (env.argument argument vars).mapError (⟨·, span⟩) := by
    cases argument with
    | none => rfl
    | some pipeline =>
      rw [Evaluating.argument, run_run, Environment.argument]
      cases pipeline.run env vars <;> rfl
  rw [StateT.run_bind, hargument]
  congr 1
  funext p
  obtain ⟨value, after⟩ := p
  rw [run_isolated, result, StateT.run'_eq]
  cases StateT.run (inner value) [] <;> rfl

/-! ## Interpreters -/

/-- How an interpreter of parts and of blocks treats variables. -/
structure Tidy {α β : Type} (part : Environment → Part → Evaluating α)
    (block : Environment → List Part → Evaluating β) : Prop where
  /-- A block in a scope leaves the same variables in the same order. -/
  names : ∀ env parts vars value after,
    StateT.run (inScope (block env parts)) vars = .ok (value, after) →
      after.length = vars.length ∧ after.names = vars.names
  /-- A variable has another value after it only if the block assigns to that name. -/
  values : ∀ env parts vars value after,
    StateT.run (inScope (block env parts)) vars = .ok (value, after) →
      ∀ (position : Nat) (name : String) (old new : Value), vars[position]? = some (name, old) →
        after[position]? = some (name, new) → new ≠ old → name ∈ assignedIn parts
  /-- An inclusion leaves all variables and their values as its argument left them. -/
  argument : ∀ env name argument body span vars value after,
    StateT.run (part env (.include name argument body span)) vars = .ok (value, after) →
      ∃ given, env.argument argument vars = .ok (given, after)
  /-- What an inclusion gives, or its failure, is the same wherever the definition is included with
  the same argument, data of the whole template and functions. -/
  inclusion : ∀ body given (env env' : Environment), env.root = env'.root →
    env.functions = env'.functions → ∀ name name' argument argument' span span' vars vars' after
      after', env.argument argument vars = .ok (given, after) →
        env'.argument argument' vars' = .ok (given, after') →
          ∃ result : Except EvaluationError α,
            StateT.run (part env (.include name argument body span)) vars =
              result.map (·, after) ∧
            StateT.run (part env' (.include name' argument' body span')) vars' =
              result.map (·, after')

/-- An interpreter is tidy if its blocks change nothing but what they assign to, and if it includes
a definition by evaluating the argument and then, without variables, the body. -/
theorem tidy_of_keeps {α β : Type} {part : Environment → Part → Evaluating α}
    {block : Environment → List Part → Evaluating β} (finish : List Part → β → α)
    (hblock : ∀ env parts, Keeps (Grown (assignedIn parts)) (block env parts))
    (hinclude : ∀ env name argument body span, part env (.include name argument body span) =
      Evaluating.argument env argument span >>= fun value =>
        isolated (finish body <$> inScope (block { env with dot := value } body))) :
    Tidy part block where
  names env parts vars value after h := by
    have hkept := (hblock env parts).inScope vars value after h
    exact ⟨hkept.length_eq, hkept.names_eq⟩
  values env parts vars value after h _ _ _ _ hold hnew hne :=
    ((hblock env parts).inScope vars value after h).mem_of_ne hold hnew hne
  argument env name argument body span vars value after h := by
    rw [hinclude] at h
    obtain ⟨given, middle, hargument, hinner⟩ := run_bind_eq_ok.mp h
    obtain ⟨-, rfl⟩ := run_isolated_eq_ok.mp hinner
    exact ⟨given, run_argument_eq_ok.mp hargument⟩
  inclusion body given env env' hroot hfunctions name name' argument argument' span span' vars vars'
      after after' hargument hargument' := by
    have hsame : ({ env with dot := given } : Environment) = { env' with dot := given } := by
      rw [hroot, hfunctions]
    refine ⟨(finish body <$> inScope (block { env with dot := given } body)).result, ?_, ?_⟩
    · rw [hinclude, run_inclusion, hargument]
      rfl
    · rw [hinclude, run_inclusion, hargument', hsame]
      rfl

/-- Rendering to a tree and writing text leave the variables around a block in place, with the
values that they had unless the block assigns to their names. An inclusion leaves them as its
argument does, and depends on nothing else around it but the data of the whole template and the
functions. -/
theorem interpreters_tidy : Tidy renderPart renderParts ∧ Tidy writePart writeParts := by
  constructor
  · refine tidy_of_keeps (fun body slots => some (.tree (Block.statics body) slots))
      renderParts_keeps fun env name argument body span => ?_
    rw [renderPart]
    simp only [← map_isolated, bind_pure_comp]
  · refine tidy_of_keeps (fun _ text => text) writeParts_keeps
      fun env name argument body span => ?_
    rw [writePart]
    simp only [id_map']

/-- A loop assigns to a variable from outside and declares another one of a name that is taken. The
variable of that name outside keeps its value. -/
theorem interpreters_tidy_loop :
    let env : Environment := ⟨.null, .list [.int 1, .int 2], .empty⟩
    let dot : List Command := [.operand .dot]
    let body : Block := [.bind ⟨some ⟨.assign, ["last"]⟩, dot⟩ ⟨0, 0⟩,
      .bind ⟨some ⟨.declare, ["title"]⟩, dot⟩ ⟨0, 0⟩]
    let block : Block := [.branch .loop ⟨none, dot⟩ body none ⟨0, 0⟩]
    let vars : Variables := [("title", .text "t"), ("last", .null)]
    let after : Variables := [("title", .text "t"), ("last", .int 2)]
    ∃ slots, StateT.run (inScope (renderParts env block)) vars = .ok (slots, after) ∧
      after.names = vars.names ∧ "last" ∈ assignedIn block := by
  intro env dot body block vars after
  have hrun : StateT.run (inScope (renderParts env block)) vars =
    .ok ([.list [""] [[], []]], after) := rfl
  have htidy := interpreters_tidy.1
  exact ⟨_, hrun, (htidy.names env block vars _ after hrun).2,
    htidy.values env block vars _ after hrun 1 "last" .null (.int 2) rfl rfl nofun⟩

end LiveTemplate
