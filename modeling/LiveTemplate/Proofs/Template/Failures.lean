import LiveTemplate.Proofs.Template.Progress
import LiveTemplate.Proofs.Template.Spans

/-!
# Where errors are

Every span of a tree and of an error can be cut out of the source (`spans_of_parse`). Of a tree that
is placed in its source, whatever is at hand while it is resolved is placed there too
(`Moment.Inside`), and an error points at it (`isIn_of_resolve_error`).
-/

namespace LiveTemplate

variable {source : List Char}

/-! ## Definitions -/

/-- A definition in a source: its construct and the nodes of its body. -/
structure Definition.Inside (source : List Char) (definition : Definition) : Prop where
  span : definition.span.IsIn source
  apart : definition.body.Pairwise Node.Apart
  body : ∀ node ∈ definition.body, node.Placed source

namespace Node.Placed

theorem isIn {node : Node} (h : node.Placed source) : node.span.IsIn source := by
  cases h with
  | intro covers inside apart within placed => exact inside

theorem apart {node : Node} (h : node.Placed source) {body : List Node}
    (hb : body ∈ node.bodies) : body.Pairwise Node.Apart := by
  cases h with
  | intro covers inside apart within placed => exact apart body hb

theorem body {node : Node} (h : node.Placed source) {body : List Node} (hb : body ∈ node.bodies) :
    ∀ inner ∈ body, inner.Placed source := by
  cases h with
  | intro covers inside apart within placed => exact placed body hb

end Node.Placed

mutual

theorem Node.inside_definitions (node : Node) (h : node.Placed source) :
    ∀ definition ∈ node.definitions, definition.Inside source := by
  match node with
  | .literal slice => exact List.forall_mem_nil _
  | .print pipeline span => exact List.forall_mem_nil _
  | .branch kind head body otherwise span =>
    rw [Node.definitions]
    refine List.forall_mem_append.mpr
      ⟨inside_definitionsIn body (h.body List.mem_cons_self), ?_⟩
    refine inside_definitionsInElse otherwise fun nodes hn => h.body ?_
    exact List.mem_cons_of_mem _ (Option.mem_toList.mpr hn)
  | .define name body span =>
    have hbody : ∀ node ∈ body, node.Placed source := h.body List.mem_cons_self
    have hapart : body.Pairwise Node.Apart := h.apart List.mem_cons_self
    exact List.forall_mem_cons.mpr ⟨⟨h.isIn, hapart, hbody⟩, inside_definitionsIn body hbody⟩
  | .invoke name argument span => exact List.forall_mem_nil _
termination_by structural node

theorem inside_definitionsIn (nodes : List Node) (h : ∀ node ∈ nodes, node.Placed source) :
    ∀ definition ∈ definitionsIn nodes, definition.Inside source := by
  match nodes with
  | [] => exact List.forall_mem_nil _
  | node :: rest =>
    obtain ⟨hnode, hrest⟩ := List.forall_mem_cons.mp h
    exact List.forall_mem_append.mpr
      ⟨node.inside_definitions hnode, inside_definitionsIn rest hrest⟩
termination_by structural nodes

theorem inside_definitionsInElse (otherwise : Option (List Node))
    (h : ∀ nodes ∈ otherwise, ∀ node ∈ nodes, node.Placed source) :
    ∀ definition ∈ definitionsInElse otherwise, definition.Inside source := by
  match otherwise with
  | none => exact List.forall_mem_nil _
  | some nodes => exact inside_definitionsIn nodes (h nodes rfl)
termination_by structural otherwise

end

/-! ## Moments -/

/-- What is being done is about nodes and invocations in a source. -/
def Task.Inside (source : List Char) : Task → Prop
  | .body _ nodes _ => ∀ node ∈ nodes, node.Placed source
  | .visit _ span => span.IsIn source
  | .give _ => True

/-- A frame goes on with nodes in a source. -/
def Frame.Inside (source : List Char) : Frame → Prop
  | .first _ _ _ _ otherwise _ rest _ =>
    (∀ nodes ∈ otherwise, ∀ node ∈ nodes, node.Placed source) ∧ ∀ node ∈ rest, node.Placed source
  | .second _ _ _ _ _ rest _ => ∀ node ∈ rest, node.Placed source
  | .inclusion _ _ _ _ rest _ => ∀ node ∈ rest, node.Placed source
  | .definition _ => True

/-- The definitions that are visited later are in a source. -/
def Stage.Inside (source : List Char) : Stage → Prop
  | .root => True
  | .listing _ _ _ rest => ∀ definition ∈ rest, definition.Inside source

namespace Moment

/-- All that is at hand is inside a source. -/
structure Inside (source : List Char) (moment : Moment) : Prop where
  task : moment.task.Inside source
  frames : ∀ frame ∈ moment.frames, frame.Inside source
  stage : moment.stage.Inside source

end Moment

/-- What comes next is inside a source. -/
def Turn.Inside (source : List Char) : Turn → Prop
  | .go moment => moment.Inside source
  | .halt _ (.ok _) => True
  | .halt _ (.error error) => error.span.IsIn source

namespace Moment

variable {context : ResolveContext} {definitions : List Definition} {moment : Moment}

theorem Inside.openNode {node : Node} {rest : List Node}
    (hn : ∀ other ∈ node :: rest, other.Placed source)
    (hf : ∀ frame ∈ moment.frames, frame.Inside source) (hs : moment.stage.Inside source)
    (scope after : Scope) (before : Resolved) :
    (moment.openNode scope after rest before node).Inside source := by
  obtain ⟨hnode, hrest⟩ := List.forall_mem_cons.mp hn
  cases node with
  | literal slice => exact ⟨hrest, hf, hs⟩
  | print pipeline span => exact ⟨hrest, hf, hs⟩
  | define name body span => exact ⟨hrest, hf, hs⟩
  | branch kind head body otherwise span =>
    refine ⟨hnode.body List.mem_cons_self,
      List.forall_mem_cons.mpr ⟨⟨fun nodes ho => ?_, hrest⟩, hf⟩, hs⟩
    exact hnode.body (List.mem_cons_of_mem _ (Option.mem_toList.mpr ho))
  | invoke name argument span =>
    exact ⟨hnode.isIn, List.forall_mem_cons.mpr ⟨hrest, hf⟩, hs⟩

theorem Inside.resume {resolved : Resolved} {frame : Frame} {frames : List Frame}
    (task : moment.task = .give resolved)
    (hf : ∀ other ∈ frame :: frames, other.Inside source) (hs : moment.stage.Inside source) :
    (moment.resume resolved frames frame).Inside source := by
  obtain ⟨hframe, hrest⟩ := List.forall_mem_cons.mp hf
  cases frame with
  | first scope inside kind head otherwise span rest before =>
    cases otherwise with
    | none => exact ⟨hframe.2, hrest, hs⟩
    | some nodes =>
      exact ⟨hframe.1 nodes rfl, List.forall_mem_cons.mpr ⟨hframe.2, hrest⟩, hs⟩
  | second scope kind head body span rest before => exact ⟨hframe, hrest, hs⟩
  | inclusion scope name argument span rest before => exact ⟨hframe, hrest, hs⟩
  | definition name =>
    have htask : moment.task.Inside source := task ▸ trivial
    exact ⟨htask, hrest, hs⟩

theorem Inside.list (hf : ∀ frame ∈ moment.frames, frame.Inside source) {rest : List Definition}
    (hr : ∀ definition ∈ rest, definition.Inside source) (root : Block)
    (listed : List (String × Block)) : (moment.list root listed rest).Inside source := by
  cases rest with
  | nil => trivial
  | cons found rest =>
    obtain ⟨hfound, hrest⟩ := List.forall_mem_cons.mp hr
    exact ⟨hfound.span, hf, hrest⟩

/-- Every step stays inside the source. -/
theorem Inside.step {turn : Turn} (hd : ∀ definition ∈ definitions, definition.Inside source)
    (h : moment.Inside source) (hs : Step context definitions moment turn) :
    turn.Inside source := by
  obtain ⟨htask, hframes, hstage⟩ := h
  cases hs with
  | node task checked =>
    rw [task] at htask
    exact .openNode htask hframes hstage _ _ _
  | misnamed task checked =>
    rw [task] at htask
    exact (htask _ List.mem_cons_self).isIn
  | complete task => exact ⟨trivial, hframes, hstage⟩
  | finished task known depth => exact ⟨trivial, hframes, hstage⟩
  | deep task depth =>
    rw [task] at htask
    exact htask
  | cyclic task again =>
    rw [task] at htask
    exact htask
  | unknown task missing =>
    rw [task] at htask
    exact htask
  | enter task new idle depth find =>
    have hbody := (hd _ (List.mem_of_find?_eq_some find)).body
    exact ⟨hbody, List.forall_mem_cons.mpr ⟨trivial, hframes⟩, hstage⟩
  | resume task waiting => exact .resume task (waiting ▸ hframes) hstage
  | bottom task waiting =>
    unfold finish
    split
    · exact Inside.list hframes hd _ _
    · rename_i root listed found rest hlisting
      rw [hlisting] at hstage
      exact Inside.list hframes hstage _ _

end Moment

/-! ## Whole runs -/

/-- An error of resolving is inside the source in which the tree is placed. -/
theorem isIn_of_resolve_error {context : ResolveContext} {nodes : List Node} {error : ParseError}
    (hn : ∀ node ∈ nodes, node.Placed source) (h : resolve context nodes = .error error) :
    error.span.IsIn source := by
  have hd := inside_definitionsIn nodes hn
  obtain ⟨steps, entered, hend⟩ := Turn.exists_after_eq_halt context nodes
  have hinside : (Turn.after context nodes steps).Inside source := by
    refine Turn.after_induction (Turn.Inside source) ?_
      (fun moment turn h hs => Moment.Inside.step hd h hs) steps
    unfold Turn.start
    split
    · rename_i problem hproblem
      obtain ⟨definition, hm, rfl⟩ := exists_of_checkDistinct_eq_error hproblem
      exact (hd definition hm).span
    · exact ⟨hn, List.forall_mem_nil _, trivial⟩
  rw [hend, h] at hinside
  exact hinside

/-- The spans of a tree and of all errors can be used to cut the source: each node covers bytes of
it and ends at characters, siblings are in order and apart, but for the two nodes of a block, and
the nodes of a body are inside the construct that it belongs to. What is reported of an action that
cannot be read has to be about the text or the tokens that were given, or about their end. -/
theorem spans_of_parse (source : String) {reports : SyntaxReports} (hr : reports.AboutInput) :
    (∀ nodes, parse source = .ok nodes →
      nodes.Pairwise Node.Apart ∧ ∀ node ∈ nodes, node.Placed source.toList) ∧
    (∀ rejection, parse source = .error rejection →
      (rejection.error reports).span.IsIn source.toList) ∧
    ∀ nodes context error, parse source = .ok nodes → resolve context nodes = .error error →
      error.span.IsIn source.toList := by
  refine ⟨fun nodes h => ?_, fun rejection h => isIn_of_parse_error h reports hr,
    fun nodes context error h hresolve => ?_⟩
  · have harranged := arranged_of_parse h
    exact ⟨harranged.apart, harranged.placed⟩
  · exact isIn_of_resolve_error (arranged_of_parse h).placed hresolve

/-- Reports on input that breaks off: nothing is wrong before its end. -/
def SyntaxReports.atEnd : SyntaxReports where
  lexing body := some ⟨"found end of input", ⟨Text.byteLength body, Text.byteLength body⟩⟩
  parsing _ stop := some ⟨"found end of input", ⟨stop, stop⟩⟩

theorem SyntaxReports.atEnd_aboutInput : atEnd.AboutInput where
  lexing _ _ h := by
    cases h
    exact .stop
  parsing _ _ _ h := by
    cases h
    exact .inr rfl

/-- A block with a chain in it, whose test uses a variable that is not declared; an action of which
a pipeline breaks off; and one that ends inside a mark. Characters of two bytes stand before each
error. -/
theorem spans_of_parse_chain :
    let source := "é\x7b\x7bblock \"b\" . -\x7d\x7d ü\x7b\x7bif .A\x7d\x7dy" ++
      "\x7b\x7belse if $q\x7d\x7dz\x7b\x7bend\x7d\x7d\x7b\x7bend\x7d\x7d"
    let body : List Node := [.literal ⟨20, ['ü']⟩,
      .branch .test ⟨none, [.operand (.field ["A"])]⟩ [.literal ⟨31, ['y']⟩]
        (some [.branch .test ⟨none, [.operand (.variable "q" [])]⟩ [.literal ⟨46, ['z']⟩] none
          ⟨32, 54⟩]) ⟨22, 54⟩]
    let nodes : List Node := [.literal ⟨0, ['é']⟩, .define "b" body ⟨2, 61⟩,
      .invoke "b" (some ⟨none, [.operand .dot]⟩) ⟨2, 61⟩]
    let unparsed := "é\x7b\x7b-  \"ü\" | \x7d\x7d"
    let unlexed := "é\x7b\x7b .ü :\x7d\x7d"
    SyntaxReports.atEnd.AboutInput ∧
    (parse source = .ok nodes ∧ nodes.Pairwise Node.Apart ∧
      ∀ node ∈ nodes, node.Placed source.toList) ∧
    (∃ rejection, parse unparsed = .error rejection ∧
      (rejection.error .atEnd).span = ⟨13, 13⟩ ∧ Span.IsIn ⟨13, 13⟩ unparsed.toList) ∧
    (∃ rejection, parse unlexed = .error rejection ∧
      (rejection.error .atEnd).span = ⟨10, 10⟩ ∧ Span.IsIn ⟨10, 10⟩ unlexed.toList) ∧
    resolve ⟨fun _ => false, 10⟩ nodes = .error ⟨.undefinedVariable "q", ⟨32, 54⟩⟩ ∧
      Span.IsIn ⟨32, 54⟩ source.toList := by
  intro source body nodes unparsed unlexed
  have hr := SyntaxReports.atEnd_aboutInput
  have hparse : parse source = .ok nodes := by
    unfold source nodes body
    with_unfolding_all rfl
  have hparsing : parse unparsed =
      .error (.parsing (Action.ofInner 2 "-  \"ü\" | ".toList)
        [⟨.text "ü", ⟨0, 4⟩⟩, ⟨.pipe, ⟨5, 6⟩⟩]) := by
    unfold unparsed
    with_unfolding_all rfl
  have hlexing : parse unlexed = .error (.lexing (Action.ofInner 2 " .ü :".toList)) := by
    unfold unlexed
    with_unfolding_all rfl
  have hresolve : resolve ⟨fun _ => false, 10⟩ nodes =
      .error ⟨.undefinedVariable "q", ⟨32, 54⟩⟩ := by
    unfold nodes body
    with_unfolding_all rfl
  exact ⟨hr, ⟨hparse, (spans_of_parse source hr).1 nodes hparse⟩,
    ⟨_, hparsing, rfl, (spans_of_parse unparsed hr).2.1 _ hparsing⟩,
    ⟨_, hlexing, rfl, (spans_of_parse unlexed hr).2.1 _ hlexing⟩, hresolve,
    (spans_of_parse source hr).2.2 nodes _ _ hparse hresolve⟩

end LiveTemplate
