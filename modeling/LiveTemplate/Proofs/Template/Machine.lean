import LiveTemplate.Template.Resolve
import Mathlib.Logic.Function.Iterate

/-!
# Resolving step by step

A machine that resolves the tree of a source one node at a time. What waits for a block stands on a
stack of frames, so that a `Moment` is all that is known at some point of resolving. The definitions
in progress are those of the frames (`Moment.progress`), and a name is looked up among all
definitions, so that nothing in the machine itself makes it stop.

`Moment.step` is one step, and `Step` says everything that a step can do, with what it checks.
-/

namespace LiveTemplate

/-- Nothing resolved yet. -/
def Resolved.empty : Resolved :=
  ⟨[], 0⟩

/-- A block with one more part. -/
def Resolved.add (before : Resolved) (part : Part) (height : Nat) : Resolved :=
  ⟨before.block ++ [part], max before.height height⟩

/-- A block with more parts after it. -/
def Resolved.append (before after : Resolved) : Resolved :=
  ⟨before.block ++ after.block, max before.height after.height⟩

/-- The check of the pipeline in a node, if it has one, and the scope that the check gives. -/
def Node.check (scope : Scope) : Node → Except ParseProblem Scope
  | .literal _ => .ok scope
  | .print pipeline _ => scope.afterPipeline pipeline
  | .branch kind head _ _ _ =>
    if kind = .loop then scope.inLoop head else scope.afterPipeline head
  | .define _ _ _ => .ok scope
  | .invoke _ argument _ => argument.elim (.ok scope) scope.afterPipeline

/-! ## Moments -/

/-- What waits for a block: the rest of a body, from the scope and the block so far, or a definition
in progress. -/
inductive Frame where
  | first (scope inside : Scope) (kind : BranchKind) (head : Pipeline)
      (otherwise : Option (List Node)) (span : Span) (rest : List Node) (before : Resolved)
  | second (scope : Scope) (kind : BranchKind) (head : Pipeline) (body : Resolved) (span : Span)
      (rest : List Node) (before : Resolved)
  | inclusion (scope : Scope) (name : String) (argument : Option Pipeline) (span : Span)
      (rest : List Node) (before : Resolved)
  | definition (name : String)

/-- What is being done: the rest of a body is resolved, a name is looked up, or a block is given to
the innermost frame. -/
inductive Task where
  | body (scope : Scope) (nodes : List Node) (before : Resolved)
  | visit (name : String) (span : Span)
  | give (resolved : Resolved)

/-- What the outermost body is: the root, or one of the definitions that are visited in order after
it. -/
inductive Stage where
  | root
  | listing (root : Block) (listed : List (String × Block)) (found : Definition)
      (rest : List Definition)

/-- A moment of resolving: what is being done and what waits for it, the definitions that are
finished, and the names of those whose bodies have been entered, the last one first. -/
structure Moment where
  task : Task
  frames : List Frame
  stage : Stage
  done : List (String × Resolved)
  entered : List String

/-- The name of the definition in progress that a frame stands for. -/
def Frame.name? : Frame → Option String
  | .definition name => some name
  | _ => none

/-- The names of the definitions in progress, the innermost first. -/
def progressOf (frames : List Frame) : List String :=
  frames.filterMap Frame.name?

/-- The names of the definitions in progress, the innermost first. -/
def Moment.progress (moment : Moment) : List String :=
  progressOf moment.frames

/-- What comes next: another moment, or the end of resolving. The end keeps which bodies were
entered. -/
inductive Turn where
  | go (moment : Moment)
  | halt (entered : List String) (result : Except ParseError Resolution)

/-! ## Steps -/

namespace Moment

variable (context : ResolveContext) (definitions : List Definition)

/-- The moment at which a node is opened whose check has given a scope. -/
def openNode (moment : Moment) (scope after : Scope) (rest : List Node) (before : Resolved) :
    Node → Moment
  | .literal slice =>
    { moment with task := .body after rest (before.add (.literal (String.ofList slice.text)) 0) }
  | .print pipeline span =>
    let part := if pipeline.binding.isSome then .bind pipeline span else .print pipeline span
    { moment with task := .body after rest (before.add part 0) }
  | .branch kind head body otherwise span =>
    { moment with
      task := .body after body .empty
      frames := .first scope after kind head otherwise span rest before :: moment.frames }
  | .define _ _ _ => { moment with task := .body after rest before }
  | .invoke name argument span =>
    { moment with
      task := .visit name span
      frames := .inclusion after name argument span rest before :: moment.frames }

/-- The moment at which a frame gets the block that it waits for. -/
def resume (moment : Moment) (resolved : Resolved) (frames : List Frame) : Frame → Moment
  | .first scope _ kind head none span rest before =>
    { moment with
      task := .body scope rest
        (before.add (.branch kind head resolved.block none span) resolved.height)
      frames := frames }
  | .first scope inside kind head (some nodes) span rest before =>
    { moment with
      task := .body (if kind = .loop then scope else inside) nodes .empty
      frames := .second scope kind head resolved span rest before :: frames }
  | .second scope kind head body span rest before =>
    { moment with
      task := .body scope rest
        (before.add (.branch kind head body.block (some resolved.block) span)
          (max body.height resolved.height))
      frames := frames }
  | .inclusion scope name argument span rest before =>
    { moment with
      task := .body scope rest
        (before.add (.include name argument resolved.block span) (resolved.height + 1))
      frames := frames }
  | .definition name =>
    { moment with
      frames := frames
      done := (name, resolved) :: moment.done }

/-- Goes on with the definitions after those that are listed. -/
def list (moment : Moment) (root : Block) (listed : List (String × Block)) :
    List Definition → Turn
  | [] => .halt moment.entered (.ok ⟨root, listed⟩)
  | found :: rest =>
    .go { moment with
      task := .visit found.name found.span
      stage := .listing root listed found rest }

/-- Goes on with a block that no frame waits for. -/
def finish (moment : Moment) (resolved : Resolved) : Turn :=
  match moment.stage with
  | .root => moment.list resolved.block [] definitions
  | .listing root listed found rest =>
    moment.list root (listed ++ [(found.name, resolved.block)]) rest

/-- Ends with an error. -/
def fail (moment : Moment) (problem : ParseProblem) (span : Span) : Turn :=
  .halt moment.entered (.error ⟨problem, span⟩)

/-- Looks up a name: what is finished is taken, and what is not is entered unless it is in
progress. -/
def visit (moment : Moment) (name : String) (span : Span) : Turn :=
  match moment.done.lookup name with
  | some resolved =>
    if context.limit < moment.progress.length + 1 + resolved.height then
      moment.fail (.depthExceeded context.limit) span
    else .go { moment with task := .give resolved }
  | none =>
    if name ∈ moment.progress then
      moment.fail (.cyclicTemplate (ResolveContext.cycle moment.progress name)) span
    else if context.limit < moment.progress.length + 1 then
      moment.fail (.depthExceeded context.limit) span
    else
      match definitions.find? (·.name == name) with
      | none => moment.fail (.unknownTemplate name) span
      | some found =>
        .go { moment with
          task := .body context.scope found.body .empty
          frames := .definition name :: moment.frames
          entered := name :: moment.entered }

/-- One step. -/
def step (moment : Moment) : Turn :=
  match moment.task with
  | .body scope (node :: rest) before =>
    match node.check scope with
    | .error problem => moment.fail problem node.span
    | .ok after => .go (moment.openNode scope after rest before node)
  | .body _ [] before => .go { moment with task := .give before }
  | .visit name span => moment.visit context definitions name span
  | .give resolved =>
    match moment.frames with
    | [] => moment.finish definitions resolved
    | frame :: frames => .go (moment.resume resolved frames frame)

end Moment

/-- Everything that one step can do. -/
inductive Step (context : ResolveContext) (definitions : List Definition) (moment : Moment) :
    Turn → Prop
  | node {scope after : Scope} {node : Node} {rest : List Node} {before : Resolved}
      (task : moment.task = .body scope (node :: rest) before)
      (checked : node.check scope = .ok after) :
      Step context definitions moment (.go (moment.openNode scope after rest before node))
  | misnamed {scope : Scope} {node : Node} {rest : List Node} {before : Resolved}
      {problem : ParseProblem} (task : moment.task = .body scope (node :: rest) before)
      (checked : node.check scope = .error problem) :
      Step context definitions moment (moment.fail problem node.span)
  | complete {scope : Scope} {before : Resolved} (task : moment.task = .body scope [] before) :
      Step context definitions moment (.go { moment with task := .give before })
  | finished {name : String} {span : Span} {resolved : Resolved}
      (task : moment.task = .visit name span)
      (known : moment.done.lookup name = some resolved)
      (depth : moment.progress.length + 1 + resolved.height ≤ context.limit) :
      Step context definitions moment (.go { moment with task := .give resolved })
  | deep {name : String} {span : Span} {height : Nat} (task : moment.task = .visit name span)
      (depth : context.limit < moment.progress.length + 1 + height) :
      Step context definitions moment (moment.fail (.depthExceeded context.limit) span)
  | cyclic {name : String} {span : Span} (task : moment.task = .visit name span)
      (again : name ∈ moment.progress) :
      Step context definitions moment
        (moment.fail (.cyclicTemplate (ResolveContext.cycle moment.progress name)) span)
  | unknown {name : String} {span : Span} (task : moment.task = .visit name span)
      (missing : definitions.find? (·.name == name) = none) :
      Step context definitions moment (moment.fail (.unknownTemplate name) span)
  | enter {name : String} {span : Span} {found : Definition}
      (task : moment.task = .visit name span) (new : moment.done.lookup name = none)
      (idle : name ∉ moment.progress) (depth : moment.progress.length + 1 ≤ context.limit)
      (find : definitions.find? (·.name == name) = some found) :
      Step context definitions moment
        (.go { moment with
          task := .body context.scope found.body .empty
          frames := .definition name :: moment.frames
          entered := name :: moment.entered })
  | resume {resolved : Resolved} {frame : Frame} {frames : List Frame}
      (task : moment.task = .give resolved) (waiting : moment.frames = frame :: frames) :
      Step context definitions moment (.go (moment.resume resolved frames frame))
  | bottom {resolved : Resolved} (task : moment.task = .give resolved)
      (waiting : moment.frames = []) :
      Step context definitions moment (moment.finish definitions resolved)

theorem Moment.step_spec (context : ResolveContext) (definitions : List Definition)
    (moment : Moment) : Step context definitions moment (moment.step context definitions) := by
  unfold Moment.step
  split
  · rename_i scope node rest before htask
    split
    · rename_i problem hcheck
      exact .misnamed htask hcheck
    · rename_i after hcheck
      exact .node htask hcheck
  · rename_i scope before htask
    exact .complete htask
  · rename_i name span htask
    unfold Moment.visit
    split
    · rename_i resolved hknown
      split
      · rename_i hdeep
        exact .deep htask hdeep
      · rename_i hdepth
        exact .finished htask hknown (Nat.le_of_not_lt hdepth)
    · rename_i hnew
      split
      · rename_i hagain
        exact .cyclic htask hagain
      · rename_i hidle
        split
        · rename_i hdeep
          have hzero : context.limit < moment.progress.length + 1 + 0 := hdeep
          exact .deep htask hzero
        · rename_i hdepth
          split
          · rename_i hmissing
            exact .unknown htask hmissing
          · rename_i found hfind
            exact .enter htask hnew hidle (Nat.le_of_not_lt hdepth) hfind
  · rename_i resolved htask
    split
    · rename_i hwaiting
      exact .bottom htask hwaiting
    · rename_i frame frames hwaiting
      exact .resume htask hwaiting

/-! ## Runs -/

namespace Turn

/-- The beginning: names are distinct, and the root is resolved first. -/
def start (context : ResolveContext) (nodes : List Node) : Turn :=
  match checkDistinct [] (definitionsIn nodes) with
  | .error error => .halt [] (.error error)
  | .ok () => .go ⟨.body context.scope nodes .empty, [], .root, [], []⟩

/-- The turn after one more step. What has ended stays. -/
def next (context : ResolveContext) (definitions : List Definition) : Turn → Turn
  | .go moment => moment.step context definitions
  | .halt entered result => .halt entered result

/-- The turn after a number of steps. -/
def after (context : ResolveContext) (nodes : List Node) (steps : Nat) : Turn :=
  (next context (definitionsIn nodes))^[steps] (start context nodes)

/-- What holds at the beginning and is kept by every step holds after any number of steps. -/
theorem after_induction {context : ResolveContext} {nodes : List Node} (holds : Turn → Prop)
    (hstart : holds (start context nodes))
    (hstep : ∀ moment turn, holds (.go moment) → Step context (definitionsIn nodes) moment turn →
      holds turn) (steps : Nat) : holds (after context nodes steps) := by
  induction steps with
  | zero => exact hstart
  | succ steps ih =>
    unfold after at ih ⊢
    rw [Function.iterate_succ_apply']
    generalize (next context (definitionsIn nodes))^[steps] (start context nodes) = turn at ih ⊢
    cases turn with
    | go moment => exact hstep moment _ ih (moment.step_spec context _)
    | halt entered result => exact ih

end Turn

end LiveTemplate
