import LiveTemplate.Proofs.Template.Resolves

/-!
# What resolving finds

Resolving keeps the definitions that are finished, and a definition that is invoked again is looked
up. Its results do not depend on what is kept (`Finished`), nor on the definitions in progress:

* what is found is the block of the body (`resolveNodes_sound`, `ResolveContext.definition_sound`),
* a block is found if there is one and the definitions in progress leave room for it
  (`Resolves.run`).
-/

namespace LiveTemplate

/-! ## Steps -/

section Steps

variable {α : Type} {span : Span} {done after : List (String × Resolved)}

theorem Resolving.run_check_eq_ok {result : Except ParseProblem α} {value : α} :
    StateT.run (Resolving.check span result) done = .ok (value, after) ↔
      result = .ok value ∧ after = done := by
  cases result with
  | error problem =>
    constructor
    · rintro ⟨⟩
    · rintro ⟨⟨⟩, -⟩
  | ok found => rw [check, run_pure_eq_ok, Prod.mk.injEq, Except.ok.injEq, eq_comm (a := value)]

variable {visit : String → Span → Resolving Resolved} {scope : Scope} {resolved : Resolved}
  {rest : List Node} {hasFunction : String → Bool} {declared : List String} {first : ResolvedNode}

theorem run_resolveNode_literal {slice : Slice} :
    StateT.run (resolveNode visit scope (.literal slice)) done = .ok (first, after) ↔
      first = ⟨scope, some (.literal (String.ofList slice.text)), 0⟩ ∧ after = done := by
  rw [resolveNode, run_pure_eq_ok, Prod.mk.injEq]

theorem run_resolveNode_define {name : String} {body : List Node} :
    StateT.run (resolveNode visit scope (.define name body span)) done = .ok (first, after) ↔
      first = ⟨scope, none, 0⟩ ∧ after = done := by
  rw [resolveNode, run_pure_eq_ok, Prod.mk.injEq]

theorem run_resolveNode_print {pipeline : Pipeline} :
    StateT.run (resolveNode visit ⟨hasFunction, declared⟩ (.print pipeline span)) done =
        .ok (first, after) ↔
      Site.InScope hasFunction ⟨pipeline, declared, false⟩ ∧
        first = ⟨⟨hasFunction, pipeline.declares ++ declared⟩,
          some (if pipeline.binding.isSome then .bind pipeline span else .print pipeline span), 0⟩ ∧
        after = done := by
  simp only [resolveNode, run_bind_eq_ok, Resolving.run_check_eq_ok, Scope.afterPipeline_eq_ok,
    run_pure_eq_ok, Prod.mk.injEq]
  constructor
  · rintro ⟨_, _, ⟨⟨hsite, rfl⟩, rfl⟩, rfl, rfl⟩
    exact ⟨hsite, rfl, rfl⟩
  · rintro ⟨hsite, rfl, rfl⟩
    exact ⟨_, _, ⟨⟨hsite, rfl⟩, rfl⟩, rfl, rfl⟩

/-- The checks of a head give the scopes of both bodies. -/
theorem run_resolveNode_branch {kind : BranchKind} {head : Pipeline} {body : List Node}
    {otherwise : Option (List Node)} :
    StateT.run (resolveNode visit ⟨hasFunction, declared⟩ (.branch kind head body otherwise span))
        done = .ok (first, after) ↔
      Site.InScope hasFunction ⟨head, declared, kind = .loop⟩ ∧
        ∃ inner middle block height,
          StateT.run (resolveNodes visit ⟨hasFunction, kind.declaresInBody head ++ declared⟩ body)
            done = .ok (inner, middle) ∧
          StateT.run (resolveElse visit ⟨hasFunction, kind.declaresInElse head ++ declared⟩
            otherwise) middle = .ok ((block, height), after) ∧
          first = ⟨⟨hasFunction, declared⟩, some (.branch kind head inner.block block span),
            max inner.height height⟩ := by
  have hhead (inside : Scope) :
      (if kind = .loop then (Scope.mk hasFunction declared).inLoop head
        else (Scope.mk hasFunction declared).afterPipeline head) = .ok inside ↔
      Site.InScope hasFunction ⟨head, declared, kind = .loop⟩ ∧
        inside = ⟨hasFunction, kind.declaresInBody head ++ declared⟩ := by
    rw [BranchKind.declaresInBody]
    by_cases hk : kind = .loop
    · simp only [hk, if_true, decide_true, Scope.inLoop_eq_ok]
    · simp only [hk, if_false, decide_false, Scope.afterPipeline_eq_ok]
  have helse : (if kind = .loop then Scope.mk hasFunction declared
      else ⟨hasFunction, kind.declaresInBody head ++ declared⟩) =
      ⟨hasFunction, kind.declaresInElse head ++ declared⟩ := by
    rw [BranchKind.declaresInBody, BranchKind.declaresInElse]
    split <;> rfl
  simp only [resolveNode, run_bind_eq_ok, Resolving.run_check_eq_ok, hhead, run_pure_eq_ok,
    Prod.mk.injEq, Prod.exists]
  constructor
  · rintro ⟨_, _, ⟨⟨hsite, rfl⟩, rfl⟩, inner, middle, hbody, block, height, _, hrest, rfl, rfl⟩
    exact ⟨hsite, inner, middle, block, height, hbody, helse ▸ hrest, rfl⟩
  · rintro ⟨hsite, inner, middle, block, height, hbody, hrest, rfl⟩
    exact ⟨_, _, ⟨⟨hsite, rfl⟩, rfl⟩, inner, middle, hbody, block, height, _, helse ▸ hrest, rfl,
      rfl⟩

theorem run_resolveNode_invoke {name : String} {argument : Option Pipeline} :
    StateT.run (resolveNode visit ⟨hasFunction, declared⟩ (.invoke name argument span)) done =
        .ok (first, after) ↔
      (∀ pipeline, argument = some pipeline →
        Site.InScope hasFunction ⟨pipeline, declared, false⟩) ∧
        ∃ inner, StateT.run (visit name span) done = .ok (inner, after) ∧
          first = ⟨⟨hasFunction, (argument.map Pipeline.declares).getD [] ++ declared⟩,
            some (.include name argument inner.block span), inner.height + 1⟩ := by
  have hargument (inside : Scope) :
      argument.elim (.ok (Scope.mk hasFunction declared))
          (Scope.mk hasFunction declared).afterPipeline = .ok inside ↔
        (∀ pipeline, argument = some pipeline →
          Site.InScope hasFunction ⟨pipeline, declared, false⟩) ∧
          inside = ⟨hasFunction, (argument.map Pipeline.declares).getD [] ++ declared⟩ := by
    cases argument with
    | none => simp [eq_comm]
    | some pipeline => simp [Scope.afterPipeline_eq_ok]
  simp only [resolveNode, run_bind_eq_ok, Resolving.run_check_eq_ok, hargument, run_pure_eq_ok,
    Prod.mk.injEq]
  constructor
  · rintro ⟨_, _, ⟨⟨hsite, rfl⟩, rfl⟩, inner, _, hvisit, rfl, rfl⟩
    exact ⟨hsite, inner, hvisit, rfl⟩
  · rintro ⟨hsite, inner, hvisit, rfl⟩
    exact ⟨_, _, ⟨⟨hsite, rfl⟩, rfl⟩, inner, _, hvisit, rfl, rfl⟩

theorem run_resolveElse_none {block : Option Block} {height : Nat} :
    StateT.run (resolveElse visit scope none) done = .ok ((block, height), after) ↔
      block = none ∧ height = 0 ∧ after = done := by
  rw [resolveElse, run_pure_eq_ok, Prod.mk.injEq, Prod.mk.injEq, and_assoc]

theorem run_resolveElse_some {nodes : List Node} {block : Option Block} {height : Nat} :
    StateT.run (resolveElse visit scope (some nodes)) done = .ok ((block, height), after) ↔
      ∃ inner, StateT.run (resolveNodes visit scope nodes) done = .ok (inner, after) ∧
        block = some inner.block ∧ height = inner.height := by
  simp only [resolveElse, run_bind_eq_ok, run_pure_eq_ok, Prod.mk.injEq]
  constructor
  · rintro ⟨inner, _, hnodes, ⟨rfl, rfl⟩, rfl⟩
    exact ⟨inner, hnodes, rfl, rfl⟩
  · rintro ⟨inner, hnodes, rfl, rfl⟩
    exact ⟨inner, _, hnodes, ⟨rfl, rfl⟩, rfl⟩

theorem run_resolveNodes_nil :
    StateT.run (resolveNodes visit scope []) done = .ok (resolved, after) ↔
      resolved = ⟨[], 0⟩ ∧ after = done := by
  rw [resolveNodes, run_pure_eq_ok, Prod.mk.injEq]

theorem run_resolveNodes_cons {node : Node} :
    StateT.run (resolveNodes visit scope (node :: rest)) done = .ok (resolved, after) ↔
      ∃ first middle others, StateT.run (resolveNode visit scope node) done = .ok (first, middle) ∧
        StateT.run (resolveNodes visit first.scope rest) middle = .ok (others, after) ∧
          resolved = ⟨first.part.toList ++ others.block, max first.height others.height⟩ := by
  rw [resolveNodes, run_bind_eq_ok]
  simp only [run_bind_eq_ok, run_pure_eq_ok, Prod.mk.injEq]
  constructor
  · rintro ⟨first, middle, hfirst, others, _, hothers, rfl, rfl⟩
    exact ⟨first, middle, others, hfirst, hothers, rfl⟩
  · rintro ⟨first, middle, others, hfirst, hothers, rfl⟩
    exact ⟨first, middle, hfirst, others, _, hothers, rfl, rfl⟩

end Steps

namespace ResolveContext

variable {context : ResolveContext} {progress : List String} {others : List Definition}
  {name : String} {span : Span} {done after : List (String × Resolved)} {resolved : Resolved}

theorem run_checkDepth_eq_ok {depth : Nat} {passed : Unit} :
    StateT.run (context.checkDepth depth span) done = .ok (passed, after) ↔
      depth ≤ context.limit ∧ after = done := by
  rw [checkDepth]
  split
  · rename_i hlt
    constructor
    · rintro ⟨⟩
    · rintro ⟨hle, -⟩
      exact absurd hlt (Nat.not_lt_of_le hle)
  · rename_i hle
    rw [run_pure_eq_ok, Prod.mk.injEq]
    exact ⟨fun ⟨_, h⟩ => ⟨Nat.le_of_not_lt hle, h⟩, fun ⟨_, h⟩ => ⟨rfl, h⟩⟩

/-- A definition that is finished is looked up, if the chain through it is not too long. -/
theorem run_definition_finished {found : Resolved} (hdone : done.lookup name = some found) :
    StateT.run (context.definition progress others name span) done = .ok (resolved, after) ↔
      progress.length + 1 + found.height ≤ context.limit ∧ resolved = found ∧ after = done := by
  rw [definition, run_get_bind_eq_ok]
  simp only [hdone, run_bind_eq_ok, run_pure_eq_ok, run_checkDepth_eq_ok, Prod.mk.injEq]
  constructor
  · rintro ⟨_, _, ⟨hdepth, rfl⟩, rfl, rfl⟩
    exact ⟨hdepth, rfl, rfl⟩
  · rintro ⟨hdepth, rfl, rfl⟩
    exact ⟨(), _, ⟨hdepth, rfl⟩, rfl, rfl⟩

/-- A definition that is not finished is not in progress either, and its body is resolved. -/
theorem run_definition_new (hdone : done.lookup name = none) :
    StateT.run (context.definition progress others name span) done = .ok (resolved, after) ↔
      name ∉ progress ∧ progress.length + 1 ≤ context.limit ∧
        ∃ found middle, others.find? (·.name == name) = some found ∧
          StateT.run (resolveNodes
            (context.definition (name :: progress) (others.filter (·.name != name)))
            context.scope found.body) done = .ok (resolved, middle) ∧
          after = (name, resolved) :: middle := by
  rw [definition, run_get_bind_eq_ok]
  simp only [hdone]
  by_cases hcycle : name ∈ progress
  · simp only [hcycle, if_true]
    constructor
    · rintro ⟨⟩
    · rintro ⟨hnot, -⟩
      exact absurd trivial hnot
  · simp only [hcycle, if_false, run_bind_eq_ok, run_checkDepth_eq_ok]
    split
    · rename_i hfind
      simp only [hfind]
      constructor
      · rintro ⟨_, _, -, ⟨⟩⟩
      · rintro ⟨-, -, _, _, ⟨⟩, -⟩
    · rename_i found hfind
      simp only [hfind, run_bind_eq_ok, run_modify_eq_ok, run_pure_eq_ok]
      constructor
      · rintro ⟨_, _, ⟨hdepth, rfl⟩, _, middle, hbody, _, _, rfl, ⟨⟩⟩
        exact ⟨not_false, hdepth, found, middle, rfl, hbody, rfl⟩
      · rintro ⟨-, hdepth, _, middle, ⟨⟩, hbody, rfl⟩
        exact ⟨(), _, ⟨hdepth, rfl⟩, resolved, middle, hbody, (), _, rfl, rfl⟩

end ResolveContext

/-! ## Finished definitions -/

/-- What is kept for a name is the block of its definition. -/
def Finished (hasFunction : String → Bool) (definitions : List Definition)
    (done : List (String × Resolved)) : Prop :=
  ∀ name resolved, done.lookup name = some resolved →
    ∃ definition ∈ definitions, definition.name = name ∧
      Resolves hasFunction definitions [] definition.body resolved

namespace Finished

variable {hasFunction : String → Bool} {definitions : List Definition}
  {done : List (String × Resolved)}

theorem nil : Finished hasFunction definitions [] :=
  nofun

theorem cons {definition : Definition} {resolved : Resolved} (hd : definition ∈ definitions)
    (hr : Resolves hasFunction definitions [] definition.body resolved)
    (h : Finished hasFunction definitions done) :
    Finished hasFunction definitions ((definition.name, resolved) :: done) := by
  intro name found hfound
  rw [List.lookup_cons] at hfound
  split at hfound
  · rename_i heq
    cases hfound
    exact ⟨definition, hd, (eq_of_beq heq).symm, hr⟩
  · exact h name found hfound

/-- What is kept for the name of a definition is its own block. -/
theorem eq_of_lookup (hn : (definitions.map Definition.name).Nodup)
    (h : Finished hasFunction definitions done) {definition : Definition}
    (hd : definition ∈ definitions) {resolved found : Resolved}
    (hr : Resolves hasFunction definitions [] definition.body resolved)
    (hfound : done.lookup definition.name = some found) : found = resolved := by
  obtain ⟨other, ho, hname, hother⟩ := h _ _ hfound
  cases eq_of_name_eq hn ho hd hname
  exact hother.unique hn hr

end Finished

/-! ## Soundness -/

theorem name_of_find? {definitions : List Definition} {name : String} {found : Definition}
    (h : definitions.find? (·.name == name) = some found) : found.name = name := by
  simpa using List.find?_some h

section Soundness

variable {hasFunction : String → Bool} {definitions : List Definition}

/-- Visits give the blocks of definitions, from which no chain is as long as the bound. -/
def VisitSound (hasFunction : String → Bool) (definitions : List Definition)
    (visit : String → Span → Resolving Resolved) (bound : Nat) : Prop :=
  ∀ name span done resolved after, Finished hasFunction definitions done →
    StateT.run (visit name span) done = .ok (resolved, after) →
      Finished hasFunction definitions after ∧ resolved.height < bound ∧
        ∃ definition ∈ definitions, definition.name = name ∧
          Resolves hasFunction definitions [] definition.body resolved

/-- What a node gives extends what the nodes after it give. -/
structure NodeSound (hasFunction : String → Bool) (definitions : List Definition)
    (declared : List String) (node : Node) (first : ResolvedNode) (bound : Nat) : Prop where
  scope : first.scope = ⟨hasFunction, node.declares ++ declared⟩
  height : first.height ≤ bound
  cons : ∀ rest others, Resolves hasFunction definitions (node.declares ++ declared) rest others →
    Resolves hasFunction definitions declared (node :: rest)
      ⟨first.part.toList ++ others.block, max first.height others.height⟩

variable {visit : String → Span → Resolving Resolved} {bound : Nat}

mutual

theorem resolveNode_sound (hvisit : VisitSound hasFunction definitions visit bound)
    {declared : List String} {done after : List (String × Resolved)} {first : ResolvedNode}
    (node : Node) (hdone : Finished hasFunction definitions done)
    (h : StateT.run (resolveNode visit ⟨hasFunction, declared⟩ node) done = .ok (first, after)) :
    Finished hasFunction definitions after ∧
      NodeSound hasFunction definitions declared node first bound := by
  cases node with
  | literal slice =>
    obtain ⟨rfl, rfl⟩ := run_resolveNode_literal.mp h
    refine ⟨hdone, rfl, Nat.zero_le _, fun rest others hrest => ?_⟩
    rw [Nat.zero_max]
    exact .literal hrest
  | print pipeline span =>
    obtain ⟨hsite, rfl, rfl⟩ := run_resolveNode_print.mp h
    refine ⟨hdone, rfl, Nat.zero_le _, fun rest others hrest => ?_⟩
    rw [Nat.zero_max]
    exact .print hsite hrest
  | branch kind head body otherwise span =>
    obtain ⟨hsite, inner, middle, block, height, hinner, hother, rfl⟩ :=
      run_resolveNode_branch.mp h
    obtain ⟨hmiddle, hbody, hle⟩ := resolveNodes_sound hvisit body hdone hinner
    cases otherwise with
    | none =>
      obtain ⟨rfl, rfl, rfl⟩ := run_resolveElse_none.mp hother
      refine ⟨hmiddle, rfl, Nat.max_le.mpr ⟨hle, Nat.zero_le _⟩, fun rest others hrest => ?_⟩
      rw [Nat.max_zero]
      exact .branch hsite hbody hrest
    | some nodes =>
      obtain ⟨innerElse, hnodes, rfl, rfl⟩ := run_resolveElse_some.mp hother
      obtain ⟨hafter, helse, hleElse⟩ := resolveNodes_sound hvisit nodes hmiddle hnodes
      exact ⟨hafter, rfl, Nat.max_le.mpr ⟨hle, hleElse⟩, fun rest others hrest =>
        .branchElse hsite hbody helse hrest⟩
  | define name body span =>
    obtain ⟨rfl, rfl⟩ := run_resolveNode_define.mp h
    refine ⟨hdone, rfl, Nat.zero_le _, fun rest others hrest => ?_⟩
    rw [Nat.zero_max]
    exact .define hrest
  | invoke name argument span =>
    obtain ⟨hsite, inner, hinner, rfl⟩ := run_resolveNode_invoke.mp h
    obtain ⟨hafter, hlt, definition, hd, hname, hbody⟩ := hvisit _ _ _ _ _ hdone hinner
    exact ⟨hafter, rfl, hlt, fun rest others hrest => .invoke hsite hd hname hbody hrest⟩
termination_by structural node

/-- Resolving a body gives its block. -/
theorem resolveNodes_sound (hvisit : VisitSound hasFunction definitions visit bound)
    {declared : List String} {done after : List (String × Resolved)} {resolved : Resolved}
    (nodes : List Node) (hdone : Finished hasFunction definitions done)
    (h : StateT.run (resolveNodes visit ⟨hasFunction, declared⟩ nodes) done =
      .ok (resolved, after)) :
    Finished hasFunction definitions after ∧
      Resolves hasFunction definitions declared nodes resolved ∧ resolved.height ≤ bound := by
  cases nodes with
  | nil =>
    obtain ⟨rfl, rfl⟩ := run_resolveNodes_nil.mp h
    exact ⟨hdone, .nil, Nat.zero_le _⟩
  | cons node rest =>
    obtain ⟨first, middle, others, hfirst, hrest, rfl⟩ := run_resolveNodes_cons.mp h
    obtain ⟨hmiddle, hnode⟩ := resolveNode_sound hvisit node hdone hfirst
    rw [hnode.scope] at hrest
    obtain ⟨hafter, hrest, hle⟩ := resolveNodes_sound hvisit rest hmiddle hrest
    exact ⟨hafter, hnode.cons _ _ hrest, Nat.max_le.mpr ⟨hnode.height, hle⟩⟩
termination_by structural nodes

end

namespace ResolveContext

variable {context : ResolveContext}

/-- The definitions in progress leave room for chains of the remaining length only. The induction is
on the number of definitions that are not in progress. -/
theorem definition_sound (progress : List String) (others : List Definition)
    (hsub : others ⊆ definitions) :
    VisitSound context.hasFunction definitions (context.definition progress others)
      (context.limit - progress.length) := by
  intro name span done resolved after hdone h
  cases hlookup : done.lookup name with
  | some found =>
    obtain ⟨hdepth, rfl, rfl⟩ := (run_definition_finished hlookup).mp h
    -- The kept height takes the place of the depth that a second visit would reach.
    exact ⟨hdone, by omega, hdone _ _ hlookup⟩
  | none =>
    obtain ⟨-, hdepth, found, middle, hfind, hbody, rfl⟩ := (run_definition_new hlookup).mp h
    have hname := name_of_find? hfind
    have hmem := hsub (List.mem_of_find?_eq_some hfind)
    have hvisit := definition_sound (name :: progress) (others.filter (·.name != name))
      (List.Subset.trans (List.filter_subset_self _) hsub)
    obtain ⟨hmiddle, hresolves, hle⟩ := resolveNodes_sound hvisit _ hdone hbody
    rw [List.length_cons] at hle
    subst hname
    exact ⟨hmiddle.cons hmem hresolves, by omega, found, hmem, rfl, hresolves⟩
termination_by others.length
decreasing_by exact length_filter_lt_of_find? hfind

end ResolveContext

end Soundness

/-! ## Completeness -/

section Completeness

variable {context : ResolveContext} {definitions : List Definition}

/-- The definitions in progress leave room for a body of so much height: its chains are not too
long, and do not come back to a definition in progress, since those have longer chains. -/
structure Room (context : ResolveContext) (definitions : List Definition) (progress : List String)
    (others : List Definition) (height : Nat) : Prop where
  found : ∀ definition ∈ definitions, definition.name ∉ progress →
    others.find? (·.name == definition.name) = some definition
  higher : ∀ definition ∈ definitions, definition.name ∈ progress → ∀ resolved,
    Resolves context.hasFunction definitions [] definition.body resolved →
      height ≤ resolved.height
  depth : progress.length + height ≤ context.limit

namespace Room

variable {progress : List String} {others : List Definition} {small large : Nat}

theorem mono (hle : small ≤ large) (h : Room context definitions progress others large) :
    Room context definitions progress others small where
  found := h.found
  higher definition hd hp resolved hr := Nat.le_trans hle (h.higher definition hd hp resolved hr)
  depth := Nat.le_trans (Nat.add_le_add_left hle _) h.depth

/-- There is room for the body of a definition that is invoked. -/
theorem enter (hn : (definitions.map Definition.name).Nodup)
    (h : Room context definitions progress others large) {definition : Definition}
    (hd : definition ∈ definitions) {inner : Resolved}
    (hinner : Resolves context.hasFunction definitions [] definition.body inner)
    (hlt : inner.height < large) :
    definition.name ∉ progress ∧
      Room context definitions (definition.name :: progress)
        (others.filter (·.name != definition.name)) inner.height := by
  refine ⟨fun hp => Nat.not_lt_of_le (h.higher _ hd hp _ hinner) hlt, ?_, ?_, ?_⟩
  · intro other ho hother
    rw [List.mem_cons, not_or] at hother
    have hfound := h.found _ ho hother.2
    -- A definition of another name is found as before, since none of its name is dropped.
    rw [List.find?_filter, ← hfound]
    congr 1
    funext candidate
    by_cases hname : candidate.name = other.name
    · simp [hname, hother.1]
    · simp [hname]
  · intro other ho hother resolved hr
    rcases List.mem_cons.mp hother with hname | hp
    · cases eq_of_name_eq hn ho hd hname
      exact Nat.le_of_eq (congrArg Resolved.height (hinner.unique hn hr))
    · exact Nat.le_trans (Nat.le_of_lt hlt) (h.higher _ ho hp _ hr)
  · have := h.depth
    rw [List.length_cons]
    omega

end Room

/-- A definition whose body can be resolved where there is room for it can be visited. -/
theorem Resolves.run_definition (hn : (definitions.map Definition.name).Nodup)
    {definition : Definition} (hd : definition ∈ definitions) {inner : Resolved}
    (hinner : Resolves context.hasFunction definitions [] definition.body inner)
    (hbody : ∀ progress others done, Room context definitions progress others inner.height →
      Finished context.hasFunction definitions done →
        ∃ after, StateT.run (resolveNodes (context.definition progress others) context.scope
            definition.body) done = .ok (inner, after) ∧
          Finished context.hasFunction definitions after)
    {progress : List String} {others : List Definition} {height : Nat}
    (hroom : Room context definitions progress others height) (hlt : inner.height < height)
    {done : List (String × Resolved)} (hdone : Finished context.hasFunction definitions done)
    (span : Span) :
    ∃ after, StateT.run (context.definition progress others definition.name span) done =
        .ok (inner, after) ∧ Finished context.hasFunction definitions after := by
  have hdepth := hroom.depth
  cases hlookup : done.lookup definition.name with
  | some found =>
    have hfound := hdone.eq_of_lookup hn hd hinner hlookup
    subst hfound
    exact ⟨done, (ResolveContext.run_definition_finished hlookup).mpr ⟨by omega, rfl, rfl⟩, hdone⟩
  | none =>
    obtain ⟨hnew, hroom'⟩ := hroom.enter hn hd hinner hlt
    obtain ⟨after, hrun, hafter⟩ := hbody _ _ done hroom' hdone
    exact ⟨_, (ResolveContext.run_definition_new hlookup).mpr
      ⟨hnew, by omega, definition, after, hroom.found _ hd hnew, hrun, rfl⟩,
      hafter.cons hd hinner⟩

/-- A body that has a block is resolved where there is room for it. -/
theorem Resolves.run (hn : (definitions.map Definition.name).Nodup) {declared : List String}
    {nodes : List Node} {resolved : Resolved}
    (h : Resolves context.hasFunction definitions declared nodes resolved)
    {progress : List String} {others : List Definition} {done : List (String × Resolved)}
    (hroom : Room context definitions progress others resolved.height)
    (hdone : Finished context.hasFunction definitions done) :
    ∃ after, StateT.run (resolveNodes (context.definition progress others)
        ⟨context.hasFunction, declared⟩ nodes) done = .ok (resolved, after) ∧
      Finished context.hasFunction definitions after := by
  induction h generalizing progress others done with
  | nil => exact ⟨done, run_resolveNodes_nil.mpr ⟨rfl, rfl⟩, hdone⟩
  | literal _ ih =>
    obtain ⟨after, hrest, hafter⟩ := ih hroom hdone
    refine ⟨after, run_resolveNodes_cons.mpr ⟨_, _, _, run_resolveNode_literal.mpr ⟨rfl, rfl⟩,
      hrest, ?_⟩, hafter⟩
    rw [Nat.zero_max]
    rfl
  | print hsite _ ih =>
    obtain ⟨after, hrest, hafter⟩ := ih hroom hdone
    refine ⟨after, run_resolveNodes_cons.mpr ⟨_, _, _, run_resolveNode_print.mpr ⟨hsite, rfl, rfl⟩,
      hrest, ?_⟩, hafter⟩
    rw [Nat.zero_max]
    rfl
  | branch hsite _ _ ihbody ihrest =>
    obtain ⟨middle, hbody, hmiddle⟩ := ihbody (hroom.mono (Nat.le_max_left _ _)) hdone
    obtain ⟨after, hrest, hafter⟩ := ihrest (hroom.mono (Nat.le_max_right _ _)) hmiddle
    refine ⟨after, run_resolveNodes_cons.mpr ⟨_, _, _, run_resolveNode_branch.mpr
      ⟨hsite, _, _, _, _, hbody, run_resolveElse_none.mpr ⟨rfl, rfl, rfl⟩, rfl⟩, hrest, ?_⟩,
      hafter⟩
    rw [Nat.max_zero]
    rfl
  | branchElse hsite _ _ _ ihbody ihelse ihrest =>
    have hroomBoth := hroom.mono (Nat.le_max_left _ _)
    obtain ⟨middle, hbody, hmiddle⟩ := ihbody (hroomBoth.mono (Nat.le_max_left _ _)) hdone
    obtain ⟨last, helse, hlast⟩ := ihelse (hroomBoth.mono (Nat.le_max_right _ _)) hmiddle
    obtain ⟨after, hrest, hafter⟩ := ihrest (hroom.mono (Nat.le_max_right _ _)) hlast
    exact ⟨after, run_resolveNodes_cons.mpr ⟨_, _, _, run_resolveNode_branch.mpr
      ⟨hsite, _, _, _, _, hbody, run_resolveElse_some.mpr ⟨_, helse, rfl, rfl⟩, rfl⟩, hrest, rfl⟩,
      hafter⟩
  | define _ ih =>
    obtain ⟨after, hrest, hafter⟩ := ih hroom hdone
    refine ⟨after, run_resolveNodes_cons.mpr ⟨_, _, _, run_resolveNode_define.mpr ⟨rfl, rfl⟩,
      hrest, ?_⟩, hafter⟩
    rw [Nat.zero_max]
    rfl
  | invoke hsite hd hname hbody _ ihbody ihrest =>
    subst hname
    -- An inclusion is one higher than the body that it includes, which leaves the room for a visit.
    obtain ⟨middle, hvisit, hmiddle⟩ := Resolves.run_definition hn hd hbody
      (fun _ _ _ => ihbody) (hroom.mono (Nat.le_max_left _ _)) (Nat.lt_succ_self _) hdone _
    obtain ⟨after, hrest, hafter⟩ := ihrest (hroom.mono (Nat.le_max_right _ _)) hmiddle
    exact ⟨after, run_resolveNodes_cons.mpr ⟨_, _, _,
      run_resolveNode_invoke.mpr ⟨hsite, _, hvisit, rfl⟩, hrest, rfl⟩, hafter⟩

end Completeness

end LiveTemplate
