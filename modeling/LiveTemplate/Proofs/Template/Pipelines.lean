import LiveTemplate.Proofs.Success
import LiveTemplate.Proofs.Template.Names
import LiveTemplate.Template.Tree

/-!
# The pipelines of a template

All pipelines of a parsed source were read from the tokens of its actions (`isRead_of_parse`), so
they bind two names at most (`IsRead.length_boundNames`). The tree is built piece by piece, and what
holds of the pipelines of all pieces holds of those of the tree under construction at every step
(`Builder.All`).
-/

namespace LiveTemplate

/-! ## Pipelines of trees -/

mutual

/-- The pipelines of a node, bodies of definitions inside included. -/
def Node.pipelines : Node → List Pipeline
  | .literal _ => []
  | .print pipeline _ => [pipeline]
  | .branch _ head body otherwise _ => head :: (pipelinesIn body ++ pipelinesInElse otherwise)
  | .define _ body _ => pipelinesIn body
  | .invoke _ argument _ => argument.toList
termination_by structural node => node

/-- The pipelines of a body. -/
def pipelinesIn : List Node → List Pipeline
  | [] => []
  | node :: rest => node.pipelines ++ pipelinesIn rest
termination_by structural nodes => nodes

/-- The pipelines of the second body of a branch. -/
def pipelinesInElse : Option (List Node) → List Pipeline
  | none => []
  | some nodes => pipelinesIn nodes
termination_by structural nodes => nodes

end

theorem mem_pipelinesIn {pipeline : Pipeline} {nodes : List Node} :
    pipeline ∈ pipelinesIn nodes ↔ ∃ node ∈ nodes, pipeline ∈ node.pipelines := by
  induction nodes with
  | nil => simp [pipelinesIn]
  | cons node rest ih => simp [pipelinesIn, ih]

mutual

theorem Node.pipelines_definitions (node : Node) :
    ∀ definition ∈ node.definitions, pipelinesIn definition.body ⊆ node.pipelines := by
  cases node with
  | define name body span =>
    exact List.forall_mem_cons.mpr ⟨List.Subset.refl _, pipelinesIn_definitions body⟩
  | branch kind head body otherwise span =>
    refine List.forall_mem_append.mpr ⟨fun definition hd => ?_, fun definition hd => ?_⟩
    · exact List.Subset.trans (pipelinesIn_definitions body definition hd)
        (List.subset_cons_of_subset _ (List.subset_append_left _ _))
    · cases otherwise with
      | none => cases hd
      | some nodes =>
        exact List.Subset.trans (pipelinesIn_definitions nodes definition hd)
          (List.subset_cons_of_subset _ (List.subset_append_right _ _))
  | _ => exact List.forall_mem_nil _
termination_by structural node

/-- The pipelines of a definition are among those of the body that it stands in. -/
theorem pipelinesIn_definitions (nodes : List Node) :
    ∀ definition ∈ definitionsIn nodes, pipelinesIn definition.body ⊆ pipelinesIn nodes := by
  cases nodes with
  | nil => exact List.forall_mem_nil _
  | cons node rest =>
    refine List.forall_mem_append.mpr ⟨fun definition hd => ?_, fun definition hd => ?_⟩
    · exact List.Subset.trans (node.pipelines_definitions definition hd)
        (List.subset_append_left _ _)
    · exact List.Subset.trans (pipelinesIn_definitions rest definition hd)
        (List.subset_append_right _ _)
termination_by structural nodes

end

/-! ## Pipelines of pieces -/

/-- The pipelines of what opens a construct. -/
def Head.pipelines : Head → List Pipeline
  | .branch _ pipeline => [pipeline]
  | .define _ => []
  | .block _ argument => argument.toList

/-- The pipelines of a directive. -/
def Directive.pipelines : Directive → List Pipeline
  | .print pipeline => [pipeline]
  | .invoke _ argument => argument.toList
  | .opener head => head.pipelines
  | .chain _ pipeline => [pipeline]
  | _ => []

/-- The pipelines of a piece. -/
def Piece.pipelines : Piece → List Pipeline
  | .literal _ => []
  | .directive asked _ => asked.pipelines

/-! ## Building -/

theorem Builder.placeRead_eq_ok {builder after : Builder} {piece : Except Rejection Piece} :
    builder.placeRead piece = .ok after ↔
      ∃ read, piece = .ok read ∧ builder.place read = .ok after := by
  rw [placeRead, bind_eq_ok]
  simp only [mapError_eq_ok]

section Building

variable {P : Pipeline → Prop}

/-- All pipelines of a body have a property. -/
def AllIn (P : Pipeline → Prop) (nodes : List Node) : Prop :=
  ∀ pipeline ∈ pipelinesIn nodes, P pipeline

theorem AllIn.nil : AllIn P [] :=
  List.forall_mem_nil _

theorem allIn_cons {node : Node} {rest : List Node} :
    AllIn P (node :: rest) ↔ (∀ pipeline ∈ node.pipelines, P pipeline) ∧ AllIn P rest :=
  List.forall_mem_append

theorem AllIn.reverse {nodes : List Node} (h : AllIn P nodes) : AllIn P nodes.reverse := by
  intro pipeline hm
  obtain ⟨node, hn, hp⟩ := mem_pipelinesIn.mp hm
  exact h pipeline (mem_pipelinesIn.mpr ⟨node, List.mem_reverse.mp hn, hp⟩)

/-- All pipelines of an open construct have a property. -/
structure OpenConstruct.All (P : Pipeline → Prop) (opened : OpenConstruct) : Prop where
  head : ∀ pipeline ∈ opened.head.pipelines, P pipeline
  body : AllIn P opened.body
  otherwise : ∀ nodes, opened.otherwise = some nodes → AllIn P nodes

namespace OpenConstruct.All

variable {opened : OpenConstruct}

theorem start {head : Head} (h : ∀ pipeline ∈ head.pipelines, P pipeline) (span : Span)
    (chained : Bool) : (OpenConstruct.start head span chained).All P :=
  ⟨h, .nil, nofun⟩

theorem add (h : opened.All P) {node : Node} (hn : ∀ pipeline ∈ node.pipelines, P pipeline) :
    (opened.add node).All P := by
  rw [OpenConstruct.add]
  split
  · rename_i nodes hnodes
    refine ⟨h.head, h.body, ?_⟩
    rintro _ ⟨⟩
    exact allIn_cons.mpr ⟨hn, h.otherwise nodes hnodes⟩
  · exact ⟨h.head, allIn_cons.mpr ⟨hn, h.body⟩, h.otherwise⟩

theorem addAll (h : opened.All P) {nodes : List Node} (hn : AllIn P nodes) :
    (nodes.foldl OpenConstruct.add opened).All P := by
  induction nodes generalizing opened with
  | nil => exact h
  | cons node rest ih =>
    obtain ⟨hfirst, hrest⟩ := allIn_cons.mp hn
    exact ih (h.add hfirst) hrest

theorem close (h : opened.All P) (stop : Span) : AllIn P (opened.close stop) := by
  have hhead := h.head
  rw [OpenConstruct.close]
  split
  · rename_i kind head heq
    rw [heq] at hhead
    refine allIn_cons.mpr ⟨List.forall_mem_cons.mpr ⟨hhead head (List.mem_singleton_self _),
      List.forall_mem_append.mpr ⟨h.body.reverse, ?_⟩⟩, .nil⟩
    cases hother : opened.otherwise with
    | none => exact List.forall_mem_nil _
    | some nodes => exact (h.otherwise nodes hother).reverse
  · exact allIn_cons.mpr ⟨h.body.reverse, .nil⟩
  · rename_i name argument heq
    rw [heq] at hhead
    exact allIn_cons.mpr ⟨h.body.reverse, allIn_cons.mpr ⟨hhead, .nil⟩⟩

end OpenConstruct.All

theorem closeChain?_all {stop : Span} {last nodes : List Node} {opened outer : List OpenConstruct}
    (hlast : AllIn P last) (ho : ∀ construct ∈ opened, construct.All P)
    (h : closeChain? stop last opened = some (nodes, outer)) :
    AllIn P nodes ∧ ∀ construct ∈ outer, construct.All P := by
  induction opened generalizing last with
  | nil => cases h
  | cons innermost rest ih =>
    obtain ⟨hinner, hrest⟩ := List.forall_mem_cons.mp ho
    have hclosed := (hinner.addAll hlast).close stop
    rw [closeChain?] at h
    split at h
    -- A chained construct is closed into the second body of the one around it.
    · exact ih hclosed hrest h
    · cases h
      exact ⟨hclosed, hrest⟩

/-- All pipelines that were read so far have a property. -/
structure Builder.All (P : Pipeline → Prop) (builder : Builder) : Prop where
  root : AllIn P builder.root
  opened : ∀ construct ∈ builder.opened, construct.All P

namespace Builder.All

variable {builder after : Builder} {span : Span}

theorem start : Builder.start.All P :=
  ⟨.nil, List.forall_mem_nil _⟩

theorem add (h : builder.All P) {node : Node} (hn : ∀ pipeline ∈ node.pipelines, P pipeline) :
    (builder.add node).All P := by
  have hopened := h.opened
  rw [Builder.add]
  split
  · exact ⟨allIn_cons.mpr ⟨hn, h.root⟩, List.forall_mem_nil _⟩
  · rename_i innermost outer heq
    rw [heq, List.forall_mem_cons] at hopened
    exact ⟨h.root, List.forall_mem_cons.mpr ⟨hopened.1.add hn, hopened.2⟩⟩

theorem addAll (h : builder.All P) {nodes : List Node} (hn : AllIn P nodes) :
    (nodes.foldl Builder.add builder).All P := by
  induction nodes generalizing builder with
  | nil => exact h
  | cons node rest ih =>
    obtain ⟨hfirst, hrest⟩ := allIn_cons.mp hn
    exact ih (h.add hfirst) hrest

theorem enter (h : builder.All P) {head : Head} (hh : ∀ pipeline ∈ head.pipelines, P pipeline)
    (chained : Bool) : (builder.enter head span chained).All P :=
  ⟨h.root, List.forall_mem_cons.mpr ⟨.start hh span chained, h.opened⟩⟩

theorem otherwise (h : builder.All P) (hr : builder.otherwise span = .ok after) : after.All P := by
  have hopened := h.opened
  rw [Builder.otherwise] at hr
  split at hr
  · cases hr
  · rename_i innermost outer heq
    rw [heq, List.forall_mem_cons] at hopened
    dsimp only at hr
    split at hr
    · split at hr
      · cases hr
      · cases hr
        refine ⟨h.root, List.forall_mem_cons.mpr ⟨⟨hopened.1.head, hopened.1.body, ?_⟩, hopened.2⟩⟩
        rintro _ ⟨⟩
        exact .nil
    · cases hr

theorem chain (h : builder.All P) {kind : BranchKind} {pipeline : Pipeline} (hp : P pipeline)
    (hr : builder.chain kind pipeline span = .ok after) : after.All P := by
  rw [Builder.chain] at hr
  split at hr
  · obtain ⟨middle, hm, hr⟩ := bind_eq_ok.mp hr
    cases hr
    have hhead : ∀ other ∈ (Head.branch kind pipeline).pipelines, P other :=
      List.forall_mem_singleton.mpr hp
    exact (h.otherwise hm).enter hhead true
  · cases hr

theorem close (h : builder.All P) (hr : builder.close span = .ok after) : after.All P := by
  rw [Builder.close] at hr
  split at hr
  · cases hr
  · rename_i nodes outer heq
    cases hr
    obtain ⟨hnodes, houter⟩ := closeChain?_all .nil h.opened heq
    have hrest : Builder.All P ⟨builder.root, outer⟩ := ⟨h.root, houter⟩
    exact hrest.addAll hnodes

theorem direct (h : builder.All P) {directive : Directive}
    (hd : ∀ pipeline ∈ directive.pipelines, P pipeline)
    (hr : builder.direct directive span = .ok after) : after.All P := by
  cases directive with
  | comment =>
    cases hr
    exact h
  | print pipeline =>
    cases hr
    exact h.add hd
  | invoke name argument =>
    cases hr
    exact h.add hd
  | opener head =>
    rw [Builder.direct, Builder.opener] at hr
    split at hr
    · cases hr
    · cases hr
      exact h.enter hd false
  | otherwise => exact h.otherwise hr
  | chain kind pipeline => exact h.chain (hd pipeline (List.mem_singleton_self _)) hr
  | close => exact h.close hr

theorem place (h : builder.All P) {piece : Piece} (hp : ∀ pipeline ∈ piece.pipelines, P pipeline)
    (hr : builder.place piece = .ok after) : after.All P := by
  cases piece with
  | literal slice =>
    cases hr
    exact h.add (List.forall_mem_nil _)
  | directive directive span => exact h.direct hp hr

theorem finish (h : builder.All P) {nodes : List Node} (hr : builder.finish = .ok nodes) :
    AllIn P nodes := by
  rw [Builder.finish] at hr
  split at hr
  · cases hr
    exact h.root.reverse
  · cases hr

theorem placeAll (h : builder.All P) {pieces : List (Except Rejection Piece)}
    (hp : ∀ piece, .ok piece ∈ pieces → ∀ pipeline ∈ piece.pipelines, P pipeline)
    (hr : pieces.foldlM Builder.placeRead builder = .ok after) : after.All P := by
  induction pieces generalizing builder with
  | nil =>
    cases hr
    exact h
  | cons first rest ih =>
    rw [List.foldlM_cons] at hr
    obtain ⟨middle, hm, hrest⟩ := bind_eq_ok.mp hr
    obtain ⟨piece, rfl, hplace⟩ := Builder.placeRead_eq_ok.mp hm
    exact ih (h.place (hp piece List.mem_cons_self) hplace)
      (fun other ho => hp other (List.mem_cons_of_mem _ ho)) hrest

end Builder.All

/-- The pipelines of a tree are those of its pieces. -/
theorem allIn_of_treeOfPieces {pieces : List (Except Rejection Piece)}
    (hp : ∀ piece, .ok piece ∈ pieces → ∀ pipeline ∈ piece.pipelines, P pipeline)
    {nodes : List Node} (h : treeOfPieces pieces = .ok nodes) : AllIn P nodes := by
  obtain ⟨builder, hbuilder, hfinish⟩ := bind_eq_ok.mp h
  exact (Builder.All.start.placeAll hp hbuilder).finish (mapError_eq_ok.mp hfinish)

end Building

/-! ## Reading -/

/-- A pipeline that tokens form. -/
def IsRead (pipeline : Pipeline) : Prop :=
  ∃ lexemes, Pipeline.ofLexemes lexemes = some pipeline

section Reading

variable {action : Action} {lexemes : List Lexeme} {directive : Directive}

theorem isRead_of_pipeline {pipeline : Pipeline} (h : action.pipeline lexemes = .ok pipeline) :
    IsRead pipeline := by
  rw [Action.pipeline] at h
  split at h
  · rename_i found hfound
    cases h
    exact ⟨lexemes, hfound⟩
  · cases h

theorem isRead_of_neededPipeline {head : String} {pipeline : Pipeline}
    (h : action.neededPipeline head lexemes = .ok pipeline) : IsRead pipeline := by
  rw [Action.neededPipeline] at h
  split at h
  · cases h
  · exact isRead_of_pipeline h

theorem isRead_of_optionalPipeline {argument : Option Pipeline}
    (h : action.optionalPipeline lexemes = .ok argument) :
    ∀ pipeline ∈ argument.toList, IsRead pipeline := by
  rw [Action.optionalPipeline] at h
  split at h
  · cases h
    exact List.forall_mem_nil _
  · obtain ⟨pipeline, hp, rfl⟩ := map_eq_ok.mp h
    exact List.forall_mem_singleton.mpr (isRead_of_pipeline hp)

/-- What the tokens of an action may ask for, with the pipelines read from them. A loop is not gone
on with in an `else`. -/
inductive Directive.Formed (action : Action) : Directive → Prop
  | print {pipeline : Pipeline} {lexemes : List Lexeme}
      (read : action.pipeline lexemes = .ok pipeline) : Formed action (.print pipeline)
  | invoke {name : String} {argument : Option Pipeline} {lexemes : List Lexeme}
      (read : action.optionalPipeline lexemes = .ok argument) :
      Formed action (.invoke name argument)
  | branch {kind : BranchKind} {head : Pipeline} {lexemes : List Lexeme}
      (read : action.neededPipeline kind.text lexemes = .ok head) :
      Formed action (.opener (.branch kind head))
  | define {name : String} : Formed action (.opener (.define name))
  | block {name : String} {argument : Option Pipeline} {lexemes : List Lexeme}
      (read : action.optionalPipeline lexemes = .ok argument) :
      Formed action (.opener (.block name argument))
  | otherwise : Formed action .otherwise
  | chain {kind : BranchKind} {head : Pipeline} {word : String} {lexemes : List Lexeme}
      (chains : kind ≠ .loop) (read : action.neededPipeline word lexemes = .ok head) :
      Formed action (.chain kind head)
  | close : Formed action .close

theorem formed_of_ofBranch {kind : BranchKind}
    (h : Directive.ofBranch action kind lexemes = .ok directive) : directive.Formed action := by
  obtain ⟨pipeline, hp, rfl⟩ := map_eq_ok.mp h
  exact .branch hp

theorem formed_of_ofElse (h : Directive.ofElse action lexemes = .ok directive) :
    directive.Formed action := by
  unfold Directive.ofElse at h
  split at h
  · cases h
    exact .otherwise
  · obtain ⟨pipeline, hp, rfl⟩ := map_eq_ok.mp h
    exact .chain (by decide) hp
  · obtain ⟨pipeline, hp, rfl⟩ := map_eq_ok.mp h
    exact .chain (by decide) hp
  · obtain ⟨-, h⟩ := check_bind_eq_ok.mp h
    cases h
    exact .otherwise

theorem exists_of_ofNamed {head : String} {make : String → Option Pipeline → Directive}
    (h : Directive.ofNamed action head make lexemes = .ok directive) :
    ∃ name argument rest, action.optionalPipeline rest = .ok argument ∧
      directive = make name argument := by
  obtain ⟨⟨name, rest⟩, -, h⟩ := bind_eq_ok.mp h
  obtain ⟨argument, ha, rfl⟩ := map_eq_ok.mp h
  exact ⟨name, argument, rest, ha, rfl⟩

theorem formed_of_ofLexemes (h : Directive.ofLexemes action lexemes = .ok directive) :
    directive.Formed action := by
  unfold Directive.ofLexemes at h
  split at h
  · cases h
  · exact formed_of_ofBranch h
  · exact formed_of_ofBranch h
  · exact formed_of_ofBranch h
  · exact formed_of_ofElse h
  · obtain ⟨-, h⟩ := check_bind_eq_ok.mp h
    cases h
    exact .close
  · obtain ⟨⟨name, rest⟩, -, h⟩ := bind_eq_ok.mp h
    obtain ⟨-, h⟩ := check_bind_eq_ok.mp h
    cases h
    exact .define
  · obtain ⟨name, argument, rest, ha, rfl⟩ := exists_of_ofNamed h
    exact .block ha
  · obtain ⟨name, argument, rest, ha, rfl⟩ := exists_of_ofNamed h
    exact .invoke ha
  · obtain ⟨pipeline, hp, rfl⟩ := map_eq_ok.mp h
    exact .print hp

/-- An action that can be read is a comment or formed by its tokens. -/
theorem formed_of_ofAction (h : Directive.ofAction action = .ok directive) :
    directive = .comment ∨ directive.Formed action := by
  rw [Directive.ofAction] at h
  split at h
  · split at h
    · cases h
      exact .inl rfl
    · cases h
  · obtain ⟨lexemes, -, h⟩ := bind_eq_ok.mp h
    exact .inr (formed_of_ofLexemes h)

theorem isRead_of_ofAction (h : Directive.ofAction action = .ok directive) :
    ∀ pipeline ∈ directive.pipelines, IsRead pipeline := by
  rcases formed_of_ofAction h with rfl | hformed
  · exact List.forall_mem_nil _
  · cases hformed with
    | print read => exact List.forall_mem_singleton.mpr (isRead_of_pipeline read)
    | invoke read => exact isRead_of_optionalPipeline read
    | branch read => exact List.forall_mem_singleton.mpr (isRead_of_neededPipeline read)
    | block read => exact isRead_of_optionalPipeline read
    | chain _ read => exact List.forall_mem_singleton.mpr (isRead_of_neededPipeline read)
    | _ => exact List.forall_mem_nil _

/-- A literal, or what an action asks for that can be read on its own. -/
def Piece.Parses : Piece → Prop
  | .literal _ => True
  | .directive asked span =>
    ∃ action, Directive.ofAction action = .ok asked ∧ action.span = span

theorem Piece.Parses.isRead {piece : Piece} (h : piece.Parses) :
    ∀ pipeline ∈ piece.pipelines, IsRead pipeline := by
  cases piece with
  | literal slice => exact List.forall_mem_nil _
  | directive asked span =>
    obtain ⟨action, hread, -⟩ := h
    exact isRead_of_ofAction hread

theorem parses_of_gapPieces {gap : Gap} {trimBefore trimAfter : Bool} {piece : Piece}
    (h : .ok piece ∈ Scan.gapPieces gap trimBefore trimAfter) : piece.Parses := by
  obtain ⟨slice, -, hs⟩ := Option.map_eq_some_iff.mp (Option.mem_toList.mp h)
  cases hs
  trivial

/-- The pieces of a source are its literals and what its actions ask for. -/
theorem parses_of_piecesAfter {last : Except ParseError Gap} {actions : List (Gap × Action)}
    {trimBefore : Bool} {piece : Piece}
    (h : .ok piece ∈ Scan.piecesAfter trimBefore last actions) : piece.Parses := by
  induction actions generalizing trimBefore with
  | nil =>
    cases last with
    | ok gap => exact parses_of_gapPieces h
    | error e => cases List.mem_singleton.mp h
  | cons first rest ih =>
    obtain ⟨gap, action⟩ := first
    rw [Scan.piecesAfter, List.mem_append, List.mem_cons] at h
    rcases h with h | h | h
    · exact parses_of_gapPieces h
    · obtain ⟨asked, hread, rfl⟩ := map_eq_ok.mp h.symm
      exact ⟨action, hread, rfl⟩
    · exact ih h

end Reading

/-- All pipelines of a parsed source are read from tokens. -/
theorem isRead_of_parse {source : String} {nodes : List Node} (h : parse source = .ok nodes) :
    AllIn IsRead nodes :=
  allIn_of_treeOfPieces (fun _ hm => (parses_of_piecesAfter hm).isRead) h

/-! ## Bindings -/

theorem length_names_of_splitSecondName {first : String} {lexemes rest : List Lexeme}
    {binding : Option Binding} (h : splitSecondName first lexemes = some (binding, rest)) :
    ((binding.map Binding.names).getD []).length ≤ 2 := by
  unfold splitSecondName at h
  split at h
  · obtain ⟨second, -, h⟩ := Option.bind_eq_some_iff.mp h
    obtain ⟨kind, -, h⟩ := Option.bind_eq_some_iff.mp h
    cases h
    exact Nat.le_refl 2
  · cases h

theorem length_names_of_splitBinding {lexemes rest : List Lexeme} {binding : Option Binding}
    (h : splitBinding lexemes = some (binding, rest)) :
    ((binding.map Binding.names).getD []).length ≤ 2 := by
  unfold splitBinding at h
  split at h
  · split at h
    · cases h
      exact Nat.zero_le 2
    · split at h
      · cases h
        exact Nat.le_succ 1
      · split at h
        · exact length_names_of_splitSecondName h
        · cases h
          exact Nat.zero_le 2
  · cases h
    exact Nat.zero_le 2

/-- A pipeline binds two names at most. -/
theorem IsRead.length_boundNames {pipeline : Pipeline} (h : IsRead pipeline) :
    pipeline.boundNames.length ≤ 2 := by
  obtain ⟨lexemes, h⟩ := h
  obtain ⟨⟨binding, rest⟩, hb, h⟩ := Option.bind_eq_some_iff.mp h
  obtain ⟨commands, -, h⟩ := Option.bind_eq_some_iff.mp h
  cases h
  exact length_names_of_splitBinding hb

end LiveTemplate
