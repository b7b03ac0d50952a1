import LiveTemplate.Proofs.Template.Acceptance
import LiveTemplate.Proofs.Template.Simulation
import Mathlib.Data.List.Perm.Subperm

/-!
# Definitions in progress

What is known at every moment of resolving (`Moment.Sound`): the definitions in progress have
different names, and the body of each one invokes the next (`Linked`); those that have been entered
are in progress or finished, and none has been entered twice.

* `Moment.Sound.step`: every step keeps this, and `Turn.sound` has it for every number of steps.
* `resolve_terminates`: resolving comes to an end, with no more definitions in progress than there
  are, or than the limit allows.
* `cycle_of_resolve`: what is reported as a cycle is one.
-/

namespace LiveTemplate

/-- The definition of one name invokes another name in its body. -/
def Calls (definitions : List Definition) (outer inner : String) : Prop :=
  ∃ definition ∈ definitions, definition.name = outer ∧ inner ∈ invokedIn definition.body

/-! ## What is still to be invoked -/

/-- The names that are still to be invoked where a frame goes on. -/
def Frame.pending : Frame → List String
  | .first _ _ _ _ otherwise _ rest _ => invokedInElse otherwise ++ invokedIn rest
  | .second _ _ _ _ _ rest _ => invokedIn rest
  | .inclusion _ _ _ _ rest _ => invokedIn rest
  | .definition _ => []

/-- The names that are invoked by what is being done. -/
def Task.pending : Task → List String
  | .body _ nodes _ => invokedIn nodes
  | .visit name _ => [name]
  | .give _ => []

/-- Each definition in progress invokes what is still to be invoked inside it, up to the next
definition in progress, and that definition. -/
inductive Linked (definitions : List Definition) : List String → List Frame → Prop
  | nil {names : List String} : Linked definitions names []
  | definition {names : List String} {name : String} {frames : List Frame}
      (calls : ∀ inner ∈ names, Calls definitions name inner)
      (outer : Linked definitions [name] frames) :
      Linked definitions names (.definition name :: frames)
  | frame {names : List String} {frame : Frame} {frames : List Frame} (plain : frame.name? = none)
      (outer : Linked definitions (names ++ frame.pending) frames) :
      Linked definitions names (frame :: frames)

namespace Linked

variable {definitions : List Definition} {names others : List String} {frames : List Frame}
  {frame : Frame} {name : String}

theorem mono (h : Linked definitions names frames) (hs : others ⊆ names) :
    Linked definitions others frames := by
  induction h generalizing others with
  | nil => exact .nil
  | definition calls outer => exact .definition (fun inner hm => calls inner (hs hm)) outer
  | frame plain outer ih =>
    refine .frame plain (ih fun name hm => ?_)
    rw [List.mem_append] at hm ⊢
    exact hm.imp_left (hs ·)

theorem progressOf_cons (plain : frame.name? = none) :
    progressOf (frame :: frames) = progressOf frames :=
  List.filterMap_cons_none plain

theorem outer (h : Linked definitions names (frame :: frames)) (plain : frame.name? = none) :
    Linked definitions (names ++ frame.pending) frames := by
  cases h with
  | definition calls outer => cases plain
  | frame _ outer => exact outer

/-- What is still to be invoked is the beginning of a path that leads back to the outermost
definition in progress. -/
theorem isChain (h : Linked definitions names frames) :
    ∀ name ∈ names, (name :: progressOf frames).IsChain
      fun inner outer => Calls definitions outer inner := by
  induction h with
  | nil => exact fun name _ => List.isChain_singleton name
  | @definition names name frames calls outer ih =>
    intro inner hm
    exact List.isChain_cons_cons.mpr ⟨calls inner hm, ih name (List.mem_singleton_self _)⟩
  | @frame names frame frames plain outer ih =>
    intro name hm
    rw [progressOf_cons plain]
    exact ih name (List.mem_append_left _ hm)

/-- The definitions in progress are a path by themselves. -/
theorem isChain_progress (h : Linked definitions names frames) :
    (progressOf frames).IsChain fun inner outer => Calls definitions outer inner := by
  induction h with
  | nil => exact .nil
  | definition calls outer => exact outer.isChain _ (List.mem_singleton_self _)
  | @frame names frame frames plain outer ih =>
    rw [progressOf_cons plain]
    exact ih

end Linked

/-! ## Steps -/

section

variable {definitions : List Definition} {moment : Moment}

/-- Opening a node leaves what its body still invokes. -/
theorem Linked.openNode {node : Node} {rest : List Node}
    (h : Linked definitions (invokedIn (node :: rest)) moment.frames) (scope after : Scope)
    (before : Resolved) :
    Linked definitions (moment.openNode scope after rest before node).task.pending
      (moment.openNode scope after rest before node).frames := by
  cases node with
  | literal slice => exact h
  | print pipeline span => exact h
  | define name body span => exact h
  | branch kind head body otherwise span =>
    refine .frame rfl ?_
    rw [invokedIn, Node.invoked, List.append_assoc] at h
    exact h
  | invoke name argument span => exact .frame rfl h

/-- A frame that goes on invokes what is pending for it. -/
theorem Linked.resume {resolved : Resolved} {frame : Frame} {frames : List Frame}
    (task : moment.task = .give resolved) (h : Linked definitions [] (frame :: frames)) :
    Linked definitions (moment.resume resolved frames frame).task.pending
      (moment.resume resolved frames frame).frames := by
  cases frame with
  | first scope inside kind head otherwise span rest before =>
    have houter := h.outer rfl
    cases otherwise with
    | none => exact houter
    | some nodes => exact .frame rfl houter
  | second scope kind head body span rest before => exact h.outer rfl
  | inclusion scope name argument span rest before => exact h.outer rfl
  | definition name =>
    show Linked definitions moment.task.pending frames
    rw [task]
    cases h with
    | definition calls outer => exact outer.mono (List.nil_subset _)
    | frame plain => cases plain

end

/-! ## What is known at every moment -/

namespace Moment

/-- The names of the definitions that have been entered: they are in progress or finished. -/
def begun (moment : Moment) : List String :=
  moment.progress ++ moment.done.map Prod.fst

/-- The definitions that have been visited after the root are finished, and the one that is visited
now is begun unless it is about to be looked up. -/
def Listed (definitions : List Definition) (moment : Moment) : Prop :=
  match moment.stage with
  | .root => True
  | .listing _ _ found rest =>
    ∃ before, definitions = before ++ found :: rest ∧
      (∀ definition ∈ before, definition.name ∈ moment.done.map Prod.fst) ∧
      (found.name ∈ moment.begun ∨ ∃ span, moment.task = .visit found.name span)

/-- What is known at every moment. -/
structure Sound (context : ResolveContext) (definitions : List Definition) (moment : Moment) :
    Prop where
  distinct : (definitions.map Definition.name).Nodup
  linked : Linked definitions moment.task.pending moment.frames
  nodup : moment.begun.Nodup
  defined : ∀ name ∈ moment.begun, ∃ definition ∈ definitions, definition.name = name
  entered : moment.entered.Perm moment.begun
  depth : moment.progress.length ≤ context.limit
  listed : moment.Listed definitions

variable {context : ResolveContext} {definitions : List Definition} {moment : Moment}

/-- Opening a node begins no definition. -/
theorem openNode_same (moment : Moment) (node : Node) (scope after : Scope) (rest : List Node)
    (before : Resolved) :
    let later := moment.openNode scope after rest before node
    later.progress = moment.progress ∧ later.done = moment.done ∧
      later.entered = moment.entered ∧ later.stage = moment.stage := by
  cases node <;> exact ⟨rfl, rfl, rfl, rfl⟩

/-- A frame that goes on begins no definition either. Its own definition is finished then. -/
theorem resume_same {frame : Frame} {frames : List Frame} (hf : moment.frames = frame :: frames)
    (resolved : Resolved) :
    let later := moment.resume resolved frames frame
    later.begun.Perm moment.begun ∧ later.progress.length ≤ moment.progress.length ∧
      moment.done.map Prod.fst ⊆ later.done.map Prod.fst ∧ later.entered = moment.entered ∧
        later.stage = moment.stage := by
  obtain ⟨task, _, stage, done, entered⟩ := moment
  subst hf
  cases frame with
  | first scope inside kind head otherwise span rest before =>
    cases otherwise <;> exact ⟨.refl _, Nat.le_refl _, List.Subset.refl _, rfl, rfl⟩
  | second scope kind head body span rest before =>
    exact ⟨.refl _, Nat.le_refl _, List.Subset.refl _, rfl, rfl⟩
  | inclusion scope name argument span rest before =>
    exact ⟨.refl _, Nat.le_refl _, List.Subset.refl _, rfl, rfl⟩
  | definition name =>
    exact ⟨List.perm_middle, Nat.le_succ _, List.subset_cons_self _ _, rfl, rfl⟩

/-- What is known of the definitions that are visited is kept if none of them is lost and the one
that was about to be looked up is begun. -/
theorem Listed.keep {later : Moment} (h : moment.Listed definitions)
    (hs : later.stage = moment.stage)
    (hd : moment.done.map Prod.fst ⊆ later.done.map Prod.fst)
    (hb : moment.begun ⊆ later.begun)
    (ht : ∀ name span, moment.task = .visit name span → name ∈ later.begun) :
    later.Listed definitions := by
  unfold Listed at h ⊢
  rw [hs]
  split
  · trivial
  · rename_i root listed found rest hstage
    rw [hstage] at h
    obtain ⟨before, hbefore, hdone, hfound⟩ := h
    refine ⟨before, hbefore, fun definition hm => hd (hdone definition hm), .inl ?_⟩
    rcases hfound with hbegun | ⟨span, htask⟩
    · exact hb hbegun
    · exact ht _ _ htask

/-- What is known of the definitions that have been begun is kept as long as they stay the same. -/
theorem Sound.of_begun {later : Moment} (h : moment.Sound context definitions)
    (hl : Linked definitions later.task.pending later.frames)
    (hb : later.begun.Perm moment.begun) (he : later.entered = moment.entered)
    (hp : later.progress.length ≤ moment.progress.length)
    (hs : later.stage = moment.stage)
    (hd : moment.done.map Prod.fst ⊆ later.done.map Prod.fst)
    (ht : ∀ name span, moment.task = .visit name span → name ∈ later.begun) :
    later.Sound context definitions where
  distinct := h.distinct
  linked := hl
  nodup := hb.nodup_iff.mpr h.nodup
  defined name hm := h.defined name (hb.subset hm)
  entered := he ▸ h.entered.trans hb.symm
  depth := Nat.le_trans hp h.depth
  listed := h.listed.keep hs hd hb.symm.subset ht

end Moment

/-! ## Steps keep what is known -/

/-- The check of a node finds problems with names only. -/
theorem Node.ofNames_of_check {node : Node} {scope : Scope} {problem : ParseProblem}
    (h : node.check scope = .error problem) : problem.OfNames := by
  unfold Node.check at h
  split at h
  · cases h
  · exact Scope.ofNames_of_afterPipeline h
  · split at h
    · exact Scope.ofNames_of_inLoop h
    · exact Scope.ofNames_of_afterPipeline h
  · cases h
  · rename_i argument _
    cases argument with
    | none => cases h
    | some pipeline => exact Scope.ofNames_of_afterPipeline h

/-- A chain of names that leads from the first one back to it. -/
structure IsCycle (definitions : List Definition) (chain : List String) : Prop where
  length : 2 ≤ chain.length
  closed : chain.head? = chain.getLast?
  nodup : chain.dropLast.Nodup
  calls : chain.IsChain (Calls definitions)

/-- What is known at the end: each definition has been entered once, or what is reported as a cycle
is one. -/
def Turn.Sound (context : ResolveContext) (definitions : List Definition) : Turn → Prop
  | .go moment => moment.Sound context definitions
  | .halt entered (.ok _) =>
    (definitions.map Definition.name).Nodup ∧ entered.Perm (definitions.map Definition.name)
  | .halt _ (.error error) =>
    ∀ chain, error.problem = .cyclicTemplate chain →
      (definitions.map Definition.name).Nodup ∧ IsCycle definitions chain

/-- What leads from a definition in progress to a name that it invokes again is a cycle. -/
theorem isCycle_cycle {definitions : List Definition} {progress : List String} {name : String}
    (hn : progress.Nodup) (hm : name ∈ progress)
    (hc : (name :: progress).IsChain fun inner outer => Calls definitions outer inner) :
    IsCycle definitions (ResolveContext.cycle progress name) := by
  obtain ⟨inner, outer, rfl, hnew⟩ := List.eq_append_cons_of_mem hm
  have hinner : (inner ++ name :: outer).takeWhile (· != name) = inner := by
    have hne : ∀ other ∈ inner, (other != name) = true := by
      intro other ho
      simpa using ne_of_mem_of_not_mem ho hnew
    rw [List.takeWhile_append_of_pos hne]
    simp
  have hreverse : name :: inner.reverse ++ [name] = (name :: inner ++ [name]).reverse := by simp
  rw [ResolveContext.cycle, hinner]
  refine ⟨by simp, ?_, ?_, ?_⟩
  · rw [List.getLast?_concat]
    rfl
  · rw [List.dropLast_concat, List.nodup_cons, List.mem_reverse, List.nodup_reverse]
    exact ⟨hnew, (List.nodup_append.mp hn).1⟩
  · have hsplit : name :: (inner ++ name :: outer) = (name :: inner ++ [name]) ++ outer := by simp
    rw [hsplit] at hc
    rw [hreverse, List.isChain_reverse]
    exact hc.left_of_append

namespace Moment

variable {context : ResolveContext} {definitions : List Definition} {moment : Moment}

theorem Sound.list (h : moment.Sound context definitions) (hf : moment.frames = []) {root : Block}
    {listed : List (String × Block)} (before : List Definition) {rest : List Definition}
    (hd : definitions = before ++ rest)
    (hb : ∀ definition ∈ before, definition.name ∈ moment.done.map Prod.fst) :
    (moment.list root listed rest).Sound context definitions := by
  cases rest with
  | nil =>
    have hnodup := h.entered.nodup_iff.mpr h.nodup
    refine ⟨h.distinct, (List.perm_ext_iff_of_nodup hnodup h.distinct).mpr fun name => ?_⟩
    rw [List.mem_map]
    constructor
    · exact fun hm => h.defined name (h.entered.subset hm)
    · rintro ⟨definition, hm, rfl⟩
      rw [hd, List.append_nil] at hm
      exact h.entered.symm.subset (List.mem_append_right _ (hb definition hm))
  | cons found rest =>
    have hnil : Linked definitions [found.name] moment.frames := hf ▸ .nil
    exact ⟨h.distinct, hnil, h.nodup, h.defined, h.entered, h.depth, before, hd, hb, .inr ⟨_, rfl⟩⟩

theorem mem_of_lookup {name : String} {done : List (String × Resolved)} {resolved : Resolved}
    (h : done.lookup name = some resolved) : name ∈ done.map Prod.fst := by
  obtain ⟨before, after, rfl, -⟩ := List.lookup_eq_some_iff.mp h
  simp

theorem not_mem_of_lookup {name : String} {done : List (String × Resolved)}
    (h : done.lookup name = none) : name ∉ done.map Prod.fst := by
  rw [List.lookup_eq_none_iff] at h
  simpa using fun resolved hm => h (name, resolved) hm

/-- The body of a definition is entered. -/
theorem Sound.enter (h : moment.Sound context definitions) {name : String} {span : Span}
    {found : Definition} (task : moment.task = .visit name span)
    (new : moment.done.lookup name = none) (idle : name ∉ moment.progress)
    (depth : moment.progress.length + 1 ≤ context.limit)
    (find : definitions.find? (·.name == name) = some found) :
    Sound context definitions { moment with
      task := .body context.scope found.body .empty
      frames := .definition name :: moment.frames
      entered := name :: moment.entered } := by
  have hmem := List.mem_of_find?_eq_some find
  have hname := name_of_find? find
  have hlinked := h.linked
  rw [task] at hlinked
  refine ⟨h.distinct, .definition (fun inner hm => ⟨found, hmem, hname, hm⟩) hlinked, ?_, ?_,
    h.entered.cons name, depth, ?_⟩
  · refine List.nodup_cons.mpr ⟨fun hm => ?_, h.nodup⟩
    exact (List.mem_append.mp hm).elim idle (not_mem_of_lookup new)
  · exact List.forall_mem_cons.mpr ⟨⟨found, hmem, hname⟩, h.defined⟩
  · refine h.listed.keep rfl (List.Subset.refl _) (List.subset_cons_self _ _)
      fun other span hvisit => ?_
    cases task.symm.trans hvisit
    exact List.mem_cons_self

/-- Every step keeps what is known. -/
theorem Sound.step {turn : Turn} (h : moment.Sound context definitions)
    (hs : Step context definitions moment turn) : turn.Sound context definitions := by
  have hlinked := h.linked
  cases hs with
  | @node scope after node rest before task checked =>
    rw [task] at hlinked
    obtain ⟨hp, hd, he, hg⟩ := openNode_same moment node scope after rest before
    refine h.of_begun (hlinked.openNode scope after before) ?_ he (Nat.le_of_eq (congrArg _ hp)) hg
      (hd ▸ List.Subset.refl _) fun name span hvisit => ?_
    · rw [begun, begun, hp, hd]
    · cases task.symm.trans hvisit
  | misnamed task checked =>
    rintro chain rfl
    cases Node.ofNames_of_check checked
  | complete task =>
    rw [task] at hlinked
    refine h.of_begun hlinked (.refl _) rfl (Nat.le_refl _) rfl (List.Subset.refl _)
      fun name span hvisit => ?_
    cases task.symm.trans hvisit
  | finished task known depth =>
    refine h.of_begun (hlinked.mono (List.nil_subset _)) (.refl _) rfl (Nat.le_refl _) rfl
      (List.Subset.refl _) fun name span hvisit => ?_
    cases task.symm.trans hvisit
    exact List.mem_append_right _ (mem_of_lookup known)
  | deep task depth => rintro chain ⟨⟩
  | cyclic task again =>
    rintro chain ⟨⟩
    rw [task] at hlinked
    exact ⟨h.distinct, isCycle_cycle (List.nodup_append.mp h.nodup).1 again
      (hlinked.isChain _ (List.mem_singleton_self _))⟩
  | unknown task missing => rintro chain ⟨⟩
  | enter task new idle depth find => exact h.enter task new idle depth find
  | @resume resolved frame frames task waiting =>
    rw [task, waiting] at hlinked
    obtain ⟨hb, hp, hd, he, hg⟩ := resume_same waiting resolved
    refine h.of_begun (hlinked.resume task) hb he hp hg hd fun name span hvisit => ?_
    cases task.symm.trans hvisit
  | @bottom resolved task waiting =>
    have hlisted := h.listed
    unfold finish
    unfold Listed at hlisted
    split
    · exact h.list waiting [] rfl (List.forall_mem_nil _)
    · rename_i root listed found rest hstage
      rw [hstage] at hlisted
      obtain ⟨before, hbefore, hdone, hfound⟩ := hlisted
      refine h.list waiting (before ++ [found]) (by simp [hbefore])
        (List.forall_mem_append.mpr ⟨hdone, List.forall_mem_singleton.mpr ?_⟩)
      rcases hfound with hbegun | ⟨span, hvisit⟩
      · -- No definition is in progress at the bottom.
        rwa [begun, progress, waiting] at hbegun
      · cases task.symm.trans hvisit

end Moment

/-! ## Whole runs -/

theorem exists_of_checkDistinct_eq_error {seen : List String} {definitions : List Definition}
    {error : ParseError} (h : checkDistinct seen definitions = .error error) :
    ∃ definition ∈ definitions,
      error = ⟨.duplicateDefinition definition.name, definition.span⟩ := by
  induction definitions generalizing seen with
  | nil => cases h
  | cons definition rest ih =>
    unfold checkDistinct at h
    split at h
    · cases h
      exact ⟨definition, List.mem_cons_self, rfl⟩
    · obtain ⟨other, hm, rfl⟩ := ih h
      exact ⟨other, List.mem_cons_of_mem _ hm, rfl⟩

theorem Turn.sound (context : ResolveContext) (nodes : List Node) (steps : Nat) :
    (after context nodes steps).Sound context (definitionsIn nodes) := by
  refine after_induction (Turn.Sound context (definitionsIn nodes)) ?_
    (fun _ _ h hs => Moment.Sound.step h hs) steps
  unfold start
  split
  · rename_i error herror
    obtain ⟨definition, -, rfl⟩ := exists_of_checkDistinct_eq_error herror
    rintro chain ⟨⟩
  · rename_i hdistinct
    exact ⟨(checkDistinct_eq_ok.mp hdistinct).1, .nil, List.nodup_nil, List.forall_mem_nil _,
      .refl _, Nat.zero_le _, trivial⟩

/-- Resolving comes to an end, whatever the definitions invoke and whatever the limit. At every
moment the definitions in progress have different names, the body of each one invokes the next, and
they are no more than there are definitions and no more than the limit; they are those with which
`ResolveContext.definition` is called at a visit. If resolving succeeds, the body of each definition
has been entered once. -/
theorem resolve_terminates (context : ResolveContext) (nodes : List Node) :
    (∃ steps entered, Turn.after context nodes steps = .halt entered (resolve context nodes)) ∧
    (∀ steps moment, Turn.after context nodes steps = .go moment →
      moment.progress.Nodup ∧
      (∀ name ∈ moment.progress, ∃ definition ∈ definitionsIn nodes, definition.name = name) ∧
      moment.progress.reverse.IsChain (Calls (definitionsIn nodes)) ∧
      moment.progress.length ≤ (definitionsIn nodes).length ∧
      moment.progress.length ≤ context.limit ∧
      ∀ name span, moment.task = .visit name span →
        Turn.Leads context (definitionsIn nodes) (.go moment)
          (fun resolved done entered =>
            .go ⟨.give resolved, moment.frames, moment.stage, done, entered⟩)
          (StateT.run (context.definition moment.progress
            ((definitionsIn nodes).filter (·.name ∉ moment.progress)) name span) moment.done)) ∧
    ∀ steps entered resolution, Turn.after context nodes steps = .halt entered (.ok resolution) →
      ((definitionsIn nodes).map Definition.name).Nodup ∧
      entered.Perm ((definitionsIn nodes).map Definition.name) := by
  refine ⟨Turn.exists_after_eq_halt context nodes, fun steps moment hmoment => ?_,
    fun steps entered resolution hhalt => ?_⟩
  · have hsound := Turn.sound context nodes steps
    rw [hmoment] at hsound
    have h : moment.Sound context (definitionsIn nodes) := hsound
    have hnodup := (List.nodup_append.mp h.nodup).1
    have hdefined : ∀ name ∈ moment.progress,
        ∃ definition ∈ definitionsIn nodes, definition.name = name :=
      fun name hm => h.defined name (List.mem_append_left _ hm)
    have hsubset : moment.progress ⊆ (definitionsIn nodes).map Definition.name :=
      fun name hm => List.mem_map.mpr (hdefined name hm)
    have hlength := (List.subperm_of_subset hnodup hsubset).length_le
    rw [List.length_map] at hlength
    refine ⟨hnodup, hdefined, ?_, hlength, h.depth, fun name span task => leads_visit task⟩
    rw [List.isChain_reverse]
    exact h.linked.isChain_progress
  · have hsound := Turn.sound context nodes steps
    rw [hhalt] at hsound
    exact hsound

/-- One definition is invoked by another and by the root, under the largest limit of a machine
word: it is in progress once, inside the other one, and it is entered once. -/
theorem resolve_terminates_shared :
    let context : ResolveContext := ⟨fun _ => false, 0xffffffffffffffff⟩
    let nodes : List Node := [.define "a" [.invoke "b" none ⟨14, 30⟩] ⟨0, 37⟩,
      .define "b" [.literal ⟨51, ['x']⟩] ⟨37, 59⟩, .invoke "a" none ⟨59, 75⟩,
      .invoke "b" none ⟨75, 91⟩]
    (∃ moment, Turn.after context nodes 6 = .go moment ∧ moment.progress = ["b", "a"] ∧
      moment.progress.reverse.IsChain (Calls (definitionsIn nodes))) ∧
    ∃ resolution, Turn.after context nodes 22 = .halt ["b", "a"] (.ok resolution) ∧
      ["b", "a"].Perm ((definitionsIn nodes).map Definition.name) := by
  intro context nodes
  obtain ⟨-, hmoments, hends⟩ := resolve_terminates context nodes
  refine ⟨⟨_, rfl, rfl, (hmoments 6 _ rfl).2.2.1⟩, _, rfl, (hends 22 _ _ rfl).2⟩

/-- What is reported as a cycle is one: it leads from a definition through others back to it, each
one invokes the next in its body, and none but the first comes twice. -/
theorem cycle_of_resolve {context : ResolveContext} {nodes : List Node} {chain : List String}
    {span : Span} (h : resolve context nodes = .error ⟨.cyclicTemplate chain, span⟩) :
    ((definitionsIn nodes).map Definition.name).Nodup ∧ 2 ≤ chain.length ∧
      chain.head? = chain.getLast? ∧ chain.dropLast.Nodup ∧
      chain.IsChain fun outer inner => ∃ definition ∈ definitionsIn nodes,
        definition.name = outer ∧ inner ∈ invokedIn definition.body := by
  obtain ⟨steps, entered, hend⟩ := Turn.exists_after_eq_halt context nodes
  have hsound := Turn.sound context nodes steps
  rw [hend, h] at hsound
  obtain ⟨hdistinct, hcycle⟩ := hsound chain rfl
  exact ⟨hdistinct, hcycle.length, hcycle.closed, hcycle.nodup, hcycle.calls⟩

/-- The cycle is found below a definition that is not on it, after another one is finished. -/
theorem cycle_of_resolve_inner :
    let context : ResolveContext := ⟨fun _ => false, 10⟩
    let nodes : List Node := [.define "a" [.invoke "b" none ⟨14, 30⟩] ⟨0, 37⟩,
      .define "b" [.invoke "done" none ⟨51, 70⟩,
        .branch .loop ⟨none, [.operand .dot]⟩ [.invoke "c" none ⟨81, 97⟩] none ⟨70, 104⟩]
        ⟨37, 111⟩,
      .define "c" [.invoke "b" none ⟨125, 141⟩] ⟨111, 148⟩, .define "done" [] ⟨148, 172⟩,
      .invoke "a" none ⟨172, 188⟩]
    let chain := ["b", "c", "b"]
    resolve context nodes = .error ⟨.cyclicTemplate chain, ⟨125, 141⟩⟩ ∧ 2 ≤ chain.length ∧
      chain.head? = chain.getLast? ∧ chain.dropLast.Nodup ∧
      chain.IsChain fun outer inner => ∃ definition ∈ definitionsIn nodes,
        definition.name = outer ∧ inner ∈ invokedIn definition.body := by
  intro context nodes chain
  have hresolve : resolve context nodes = .error ⟨.cyclicTemplate chain, ⟨125, 141⟩⟩ := by
    unfold context nodes chain
    with_unfolding_all rfl
  exact ⟨hresolve, (cycle_of_resolve hresolve).2⟩

end LiveTemplate
