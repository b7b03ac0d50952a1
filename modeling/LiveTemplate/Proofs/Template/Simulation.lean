import LiveTemplate.Proofs.Template.Machine
import LiveTemplate.Proofs.Template.Resolve

/-!
# The machine resolves

Resolving step by step comes to an end with the answer of `resolve`
(`Turn.exists_after_eq_halt`): whatever waits, the machine comes from a body to the block that
`resolveNodes` gives, and from a name to what `ResolveContext.definition` gives, or it ends with
their error (`Turn.Leads`). For bodies the recursion is on the tree, for names on the definitions
that are not in progress.
-/

namespace LiveTemplate

namespace Turn

/-- Some steps lead from one turn to another. -/
def Reaches (context : ResolveContext) (definitions : List Definition) (turn later : Turn) : Prop :=
  ∃ steps, (next context definitions)^[steps] turn = later

/-- Some steps lead to how a computation ends: to where the machine goes on with its result, or to
its error. -/
def Leads {α : Type} (context : ResolveContext) (definitions : List Definition) (turn : Turn)
    (further : α → List (String × Resolved) → List String → Turn) :
    Except ParseError (α × List (String × Resolved)) → Prop
  | .ok (value, done) =>
    ∃ entered, Reaches context definitions turn (further value done entered)
  | .error error => ∃ entered, Reaches context definitions turn (.halt entered (.error error))

section

variable {context : ResolveContext} {definitions : List Definition} {turn later last : Turn}
  {moment : Moment}

theorem Reaches.refl : Reaches context definitions turn turn :=
  ⟨0, rfl⟩

theorem Reaches.trans (h : Reaches context definitions turn later)
    (hl : Reaches context definitions later last) : Reaches context definitions turn last := by
  obtain ⟨first, rfl⟩ := h
  obtain ⟨second, rfl⟩ := hl
  exact ⟨second + first, Function.iterate_add_apply _ _ _ _⟩

theorem Reaches.single :
    Reaches context definitions (.go moment) (moment.step context definitions) :=
  ⟨1, rfl⟩

variable {α β : Type} {further : α → List (String × Resolved) → List String → Turn}
  {behind : β → List (String × Resolved) → List String → Turn}
  {done : List (String × Resolved)} {result : Except ParseError (α × List (String × Resolved))}

theorem Reaches.leads (h : Reaches context definitions turn later)
    (hl : Leads context definitions later further result) :
    Leads context definitions turn further result := by
  cases result with
  | ok found =>
    obtain ⟨entered, hl⟩ := hl
    exact ⟨entered, h.trans hl⟩
  | error error =>
    obtain ⟨entered, hl⟩ := hl
    exact ⟨entered, h.trans hl⟩

theorem Leads.bind {first : Resolving α} {then' : α → Resolving β}
    (h : Leads context definitions turn further (StateT.run first done))
    (hn : ∀ value done entered, Leads context definitions (further value done entered) behind
      (StateT.run (then' value) done)) :
    Leads context definitions turn behind (StateT.run (first >>= then') done) := by
  rw [StateT.run_bind]
  cases hf : StateT.run first done with
  | error error =>
    rw [hf] at h
    exact h
  | ok found =>
    rw [hf] at h
    obtain ⟨entered, h⟩ := h
    exact h.leads (hn found.1 found.2 entered)

end

end Turn

open Turn

/-! ## The machine resolves -/

section

variable {context : ResolveContext} {definitions : List Definition} {progress : List String}
  {visit : String → Span → Resolving Resolved}

/-- Whatever waits, with these definitions in progress the machine visits a name as `visit` does. -/
def VisitLeads (context : ResolveContext) (definitions : List Definition) (progress : List String)
    (visit : String → Span → Resolving Resolved) : Prop :=
  ∀ name span (moment : Moment), moment.progress = progress →
    Leads context definitions (.go { moment with task := .visit name span })
      (fun resolved done entered =>
        .go ⟨.give resolved, moment.frames, moment.stage, done, entered⟩)
      (StateT.run (visit name span) moment.done)

theorem Resolved.append_empty (before : Resolved) : before.append .empty = before := by
  obtain ⟨block, height⟩ := before
  simp [Resolved.append, Resolved.empty]

theorem Resolved.empty_append (after : Resolved) : Resolved.empty.append after = after := by
  obtain ⟨block, height⟩ := after
  simp [Resolved.append, Resolved.empty]

theorem Resolved.append_assoc (before middle after : Resolved) :
    (before.append middle).append after = before.append (middle.append after) := by
  simp [Resolved.append, Nat.max_assoc]

/-- The check of a node comes first. -/
theorem leads_check {α : Type} (node : Node) {scope : Scope} {rest : List Node} {before : Resolved}
    {moment : Moment} {further : α → List (String × Resolved) → List String → Turn}
    {behind : Scope → Resolving α}
    (h : ∀ after, Leads context definitions (.go (moment.openNode scope after rest before node))
      further (StateT.run (behind after) moment.done)) :
    Leads context definitions (.go { moment with task := .body scope (node :: rest) before })
      further (StateT.run (Resolving.check node.span (node.check scope) >>= behind)
        moment.done) := by
  refine Reaches.single.leads ?_
  unfold Moment.step
  dsimp only
  cases node.check scope with
  | ok after => exact h after
  | error problem => exact ⟨moment.entered, .refl⟩

mutual

/-- The machine resolves a node and goes on with the body behind it. -/
theorem leads_resolveNode (hvisit : VisitLeads context definitions progress visit) (node : Node)
    (scope : Scope) (rest : List Node) (before : Resolved) (moment : Moment)
    (hp : moment.progress = progress) :
    Leads context definitions (.go { moment with task := .body scope (node :: rest) before })
      (fun first done entered => .go ⟨.body first.scope rest
        (before.append ⟨first.part.toList, first.height⟩), moment.frames, moment.stage, done,
          entered⟩)
      (StateT.run (resolveNode visit scope node) moment.done) := by
  match node with
  | .literal slice => exact Reaches.single.leads ⟨moment.entered, .refl⟩
  | .print pipeline span =>
    rw [resolveNode]
    exact leads_check (.print pipeline span) fun after => ⟨moment.entered, .refl⟩
  | .branch kind head body otherwise span =>
    rw [resolveNode]
    refine leads_check (.branch kind head body otherwise span) fun inside => ?_
    let frame := Frame.first scope inside kind head otherwise span rest before
    refine (leads_resolveNodes hvisit body inside .empty
      { moment with frames := frame :: moment.frames } hp).bind fun found done entered => ?_
    rw [Resolved.empty_append]
    refine (leads_resolveElse hvisit otherwise scope inside kind head found span rest before
      ⟨moment.task, moment.frames, moment.stage, done, entered⟩ hp).bind fun _ done entered => ?_
    exact ⟨entered, .refl⟩
  | .define name body span =>
    have happend : before.append ⟨[], 0⟩ = before := before.append_empty
    refine Reaches.single.leads ⟨moment.entered, ?_⟩
    show Reaches _ _ _ (Turn.go ⟨.body scope rest (before.append ⟨[], 0⟩), _, _, _, _⟩)
    rw [happend]
    exact .refl
  | .invoke name argument span =>
    rw [resolveNode]
    refine leads_check (.invoke name argument span) fun after => ?_
    let frame := Frame.inclusion after name argument span rest before
    refine (hvisit name span { moment with frames := frame :: moment.frames } hp).bind
      fun resolved done entered => ?_
    exact Reaches.single.leads ⟨entered, .refl⟩
termination_by structural node

/-- The machine resolves the rest of a body and gives the block of the whole. -/
theorem leads_resolveNodes (hvisit : VisitLeads context definitions progress visit)
    (nodes : List Node) (scope : Scope) (before : Resolved) (moment : Moment)
    (hp : moment.progress = progress) :
    Leads context definitions (.go { moment with task := .body scope nodes before })
      (fun resolved done entered =>
        .go ⟨.give (before.append resolved), moment.frames, moment.stage, done, entered⟩)
      (StateT.run (resolveNodes visit scope nodes) moment.done) := by
  match nodes with
  | [] =>
    refine Reaches.single.leads ⟨moment.entered, ?_⟩
    show Reaches _ _ (Turn.go ⟨.give before, _, _, _, _⟩)
      (.go ⟨.give (before.append .empty), _, _, _, _⟩)
    rw [Resolved.append_empty]
    exact .refl
  | node :: rest =>
    rw [resolveNodes]
    refine (leads_resolveNode hvisit node scope rest before moment hp).bind
      fun first done entered => ?_
    refine (leads_resolveNodes hvisit rest first.scope _
      ⟨moment.task, moment.frames, moment.stage, done, entered⟩ hp).bind
        fun others done entered => ⟨entered, ?_⟩
    rw [Resolved.append_assoc]
    exact .refl
termination_by structural nodes

/-- The machine resolves the second body of a branch, if it has one, and then the branch. -/
theorem leads_resolveElse (hvisit : VisitLeads context definitions progress visit)
    (otherwise : Option (List Node)) (scope inside : Scope) (kind : BranchKind) (head : Pipeline)
    (body : Resolved) (span : Span) (rest : List Node) (before : Resolved) (moment : Moment)
    (hp : moment.progress = progress) :
    Leads context definitions
      (.go { moment with
        task := .give body
        frames := .first scope inside kind head otherwise span rest before :: moment.frames })
      (fun (block, height) done entered => .go ⟨.body scope rest
        (before.add (.branch kind head body.block block span) (max body.height height)),
          moment.frames, moment.stage, done, entered⟩)
      (StateT.run (resolveElse visit (if kind = .loop then scope else inside) otherwise)
        moment.done) := by
  match otherwise with
  | none =>
    have hheight : max body.height 0 = body.height := Nat.max_zero _
    refine Reaches.single.leads ⟨moment.entered, ?_⟩
    dsimp only
    rw [hheight]
    exact .refl
  | some nodes =>
    rw [resolveElse]
    let frame := Frame.second scope kind head body span rest before
    refine Reaches.single.leads ?_
    refine (leads_resolveNodes hvisit nodes _ .empty
      { moment with frames := frame :: moment.frames } hp).bind fun found done entered => ?_
    rw [Resolved.empty_append]
    exact Reaches.single.leads ⟨entered, .refl⟩
termination_by structural otherwise

end

/-- A definition is found among those that are left if those of its name are. -/
theorem find?_filter_name {left : Definition → Bool} {name : String}
    (h : ∀ definition : Definition, definition.name = name → left definition = true) :
    (definitions.filter left).find? (·.name == name) = definitions.find? (·.name == name) := by
  rw [List.find?_filter]
  congr 1
  funext definition
  by_cases hname : definition.name = name
  · simp [hname, h definition hname]
  · simp [hname]

section

variable {others : List Definition} {name : String} {span : Span} {moment : Moment}

/-- The machine takes a definition that is finished. -/
theorem leads_finished {resolved : Resolved} (hp : moment.progress = progress)
    (hdone : moment.done.lookup name = some resolved) :
    Leads context definitions (moment.visit context definitions name span)
      (fun resolved done entered =>
        .go ⟨.give resolved, moment.frames, moment.stage, done, entered⟩)
      (StateT.run (context.definition progress others name span) moment.done) := by
  rw [ResolveContext.definition, Moment.visit, hp, StateT.run_bind]
  simp only [StateT.run_get, pure_bind, hdone, ResolveContext.checkDepth]
  split <;> exact ⟨moment.entered, .refl⟩

/-- The machine resolves the body of a definition that is not finished, or fails before. -/
theorem leads_unfinished (hp : moment.progress = progress)
    (hdone : moment.done.lookup name = none)
    (hfind : name ∉ progress →
      others.find? (·.name == name) = definitions.find? (·.name == name))
    (hvisit : ∀ found, others.find? (·.name == name) = some found →
      VisitLeads context definitions (name :: progress)
        (context.definition (name :: progress) (others.filter (·.name != name)))) :
    Leads context definitions (moment.visit context definitions name span)
      (fun resolved done entered =>
        .go ⟨.give resolved, moment.frames, moment.stage, done, entered⟩)
      (StateT.run (context.definition progress others name span) moment.done) := by
  rw [ResolveContext.definition, Moment.visit, hp, StateT.run_bind]
  simp only [StateT.run_get, pure_bind, hdone, ResolveContext.checkDepth]
  by_cases hname : name ∈ progress
  · rw [if_pos hname, if_pos hname]
    exact ⟨moment.entered, .refl⟩
  rw [if_neg hname, if_neg hname, ← hfind hname]
  by_cases hdeep : context.limit < progress.length + 1
  · rw [if_pos hdeep, if_pos hdeep]
    exact ⟨moment.entered, .refl⟩
  rw [if_neg hdeep, if_neg hdeep, pure_bind]
  -- Both sides look the name up, and each lookup is split on its own.
  split
  · rename_i hnone
    split
    · exact ⟨moment.entered, .refl⟩
    · rename_i hsome
      cases hnone.symm.trans hsome
  · rename_i found hfound
    split
    · rename_i hnone
      cases hfound.symm.trans hnone
    · rename_i hsome
      cases hfound.symm.trans hsome
      refine (leads_resolveNodes (hvisit found hfound) found.body context.scope .empty
        { moment with
          frames := .definition name :: moment.frames
          entered := name :: moment.entered } (congrArg (name :: ·) hp)).bind
        fun resolved done entered => ?_
      rw [Resolved.empty_append]
      exact Reaches.single.leads ⟨entered, .refl⟩

end

/-- The machine visits a name as `ResolveContext.definition` does, although it looks up among all
definitions. The induction is on the definitions that are not in progress. -/
theorem leads_definition (progress : List String) (others : List Definition)
    (hothers : ∀ name ∉ progress,
      others.find? (·.name == name) = definitions.find? (·.name == name)) :
    VisitLeads context definitions progress (context.definition progress others) := by
  intro name span moment hp
  refine Reaches.single.leads ?_
  let visiting : Moment := { moment with task := .visit name span }
  show Leads _ _ (visiting.visit context definitions name span) _ _
  cases hdone : moment.done.lookup name with
  | some resolved => exact leads_finished hp hdone
  | none =>
    refine leads_unfinished hp hdone (hothers name) fun found hfind => ?_
    refine leads_definition (name :: progress) (others.filter (·.name != name)) fun other ho => ?_
    rw [List.mem_cons, not_or] at ho
    rw [← hothers other ho.2]
    exact find?_filter_name fun definition hname => by simp [hname, ho.1]
termination_by others.length
decreasing_by exact ResolveContext.length_filter_lt_of_find? hfind

/-- A moment at which a name is visited is a call of `ResolveContext.definition` with the
definitions in progress. -/
theorem leads_visit {moment : Moment} {name : String} {span : Span}
    (task : moment.task = .visit name span) :
    Leads context definitions (.go moment)
      (fun resolved done entered =>
        .go ⟨.give resolved, moment.frames, moment.stage, done, entered⟩)
      (StateT.run (context.definition moment.progress
        (definitions.filter (·.name ∉ moment.progress)) name span) moment.done) := by
  have hothers (other : String) (hother : other ∉ moment.progress) :
      (definitions.filter (·.name ∉ moment.progress)).find? (·.name == other) =
        definitions.find? (·.name == other) :=
    find?_filter_name fun definition hname => by simp [hname, hother]
  obtain ⟨_, frames, stage, done, entered⟩ := moment
  subst task
  exact leads_definition _ _ hothers name span ⟨.visit name span, frames, stage, done, entered⟩ rfl

/-- After the root, the machine visits the definitions in order. -/
theorem leads_list (rest : List Definition) (moment : Moment) (hframes : moment.frames = [])
    (root : Block) (listed : List (String × Block)) :
    Leads context definitions (moment.list root listed rest)
      (fun entries _ entered => .halt entered (.ok ⟨root, listed ++ entries⟩))
      (StateT.run (rest.mapM fun found => do
        let resolved ← context.definition [] definitions found.name found.span
        pure (found.name, resolved.block)) moment.done) := by
  induction rest generalizing moment listed with
  | nil =>
    refine ⟨moment.entered, ?_⟩
    show Reaches _ _ _ (Turn.halt _ (.ok ⟨root, listed ++ []⟩))
    rw [List.append_nil]
    exact .refl
  | cons found rest ih =>
    have hvisit : VisitLeads context definitions [] (context.definition [] definitions) :=
      leads_definition [] definitions fun _ _ => rfl
    rw [List.mapM_cons, bind_assoc]
    refine (hvisit found.name found.span { moment with stage := .listing root listed found rest }
      (congrArg progressOf hframes)).bind fun resolved done entered => ?_
    rw [pure_bind]
    dsimp only
    rw [hframes]
    refine Reaches.single.leads ((ih ⟨.give resolved, [], .listing root listed found rest, done,
      entered⟩ rfl (listed ++ [(found.name, resolved.block)])).bind
        fun entries done entered => ⟨entered, ?_⟩)
    rw [List.append_assoc]
    exact .refl

/-- The machine resolves a template. -/
theorem leads_template (nodes : List Node) :
    Leads context definitions (.go ⟨.body context.scope nodes .empty, [], .root, [], []⟩)
      (fun resolution _ entered => .halt entered (.ok resolution))
      (StateT.run (context.template nodes definitions) []) := by
  have hvisit : VisitLeads context definitions [] (context.definition [] definitions) :=
    leads_definition [] definitions fun _ _ => rfl
  let moment : Moment := ⟨.body context.scope nodes .empty, [], .root, [], []⟩
  refine (leads_resolveNodes hvisit nodes context.scope .empty moment rfl).bind
    fun root done entered => ?_
  rw [Resolved.empty_append]
  refine Reaches.single.leads ((leads_list definitions ⟨.give root, [], .root, done, entered⟩ rfl
    root.block []).bind fun entries done entered => ?_)
  exact ⟨entered, .refl⟩

end

/-- The machine comes to an end with the answer of `resolve`. -/
theorem Turn.exists_after_eq_halt (context : ResolveContext) (nodes : List Node) :
    ∃ steps entered, after context nodes steps = .halt entered (resolve context nodes) := by
  unfold resolve after start
  dsimp only
  cases hdistinct : checkDistinct [] (definitionsIn nodes) with
  | error error => exact ⟨0, [], rfl⟩
  | ok =>
    have hleads : Leads context (definitionsIn nodes) _ _ _ := leads_template nodes
    show ∃ steps entered, _ = Turn.halt entered
      (StateT.run (context.template nodes (definitionsIn nodes)) [] >>= _)
    cases hrun : StateT.run (context.template nodes (definitionsIn nodes)) [] with
    | error error =>
      rw [hrun] at hleads
      obtain ⟨entered, steps, hsteps⟩ := hleads
      exact ⟨steps, entered, hsteps⟩
    | ok found =>
      rw [hrun] at hleads
      obtain ⟨entered, steps, hsteps⟩ := hleads
      exact ⟨steps, entered, hsteps⟩

end LiveTemplate
