import LiveTemplate.Proofs.Template.Matching
import LiveTemplate.Proofs.Template.Spread

/-!
# Where nodes are

Every node of a tree covers bytes of its source; the nodes of a body come one after another, and
inside the construct that the body belongs to (`Node.Placed`). Only the two nodes of a block cover
the same bytes (`Node.Apart`).

* `Grammar.Document.arranged`: the tree of a derivation is placed where its pieces are spread.
* `isIn_of_parse_error`: an error of the tree is inside the source, since the opening action of
  every open construct is (`Builder.OpenIn`).
-/

namespace LiveTemplate

open Grammar

/-! ## Nodes in a source -/

/-- The bodies of a node. -/
def Node.bodies : Node → List (List Node)
  | .branch _ _ body otherwise _ => body :: otherwise.toList
  | .define _ body _ => [body]
  | .literal _ => []
  | .print _ _ => []
  | .invoke _ _ _ => []

/-- One node ends before another begins, or they are the definition and the invocation that one
block stands for. -/
def Node.Apart (left right : Node) : Prop :=
  left.span.stop ≤ right.span.start ∨
    ∃ name body argument span,
      left = .define name body span ∧ right = .invoke name argument span

/-- A node covers bytes of a source. The nodes of each of its bodies do so too, apart from each
other and inside the node. -/
inductive Node.Placed (source : List Char) : Node → Prop
  | intro {node : Node} (covers : node.span.start < node.span.stop)
      (inside : node.span.IsIn source)
      (apart : ∀ body ∈ node.bodies, body.Pairwise Node.Apart)
      (within : ∀ body ∈ node.bodies, ∀ inner ∈ body,
        node.span.start ≤ inner.span.start ∧ inner.span.stop ≤ node.span.stop)
      (placed : ∀ body ∈ node.bodies, ∀ inner ∈ body, inner.Placed source) : Node.Placed source node

/-- Nodes that are placed in a source one after another between two positions. -/
structure Arranged (source : List Char) (start : Nat) (nodes : List Node) (stop : Nat) : Prop where
  apart : nodes.Pairwise Node.Apart
  within : ∀ node ∈ nodes, start ≤ node.span.start ∧ node.span.stop ≤ stop
  placed : ∀ node ∈ nodes, node.Placed source

namespace Arranged

variable {source : List Char} {start middle stop : Nat} {node : Node} {nodes others : List Node}

theorem nil : Arranged source start [] stop :=
  ⟨.nil, List.forall_mem_nil _, List.forall_mem_nil _⟩

theorem singleton (h : node.Placed source) (hs : start ≤ node.span.start)
    (he : node.span.stop ≤ stop) : Arranged source start [node] stop :=
  ⟨List.pairwise_singleton _ _, List.forall_mem_singleton.mpr ⟨hs, he⟩,
    List.forall_mem_singleton.mpr h⟩

/-- The two nodes of a block. -/
theorem block {name : String} {body : List Node} {argument : Option Pipeline} {span : Span}
    (hd : (Node.define name body span).Placed source)
    (hi : (Node.invoke name argument span).Placed source) (hs : start ≤ span.start)
    (he : span.stop ≤ stop) :
    Arranged source start [.define name body span, .invoke name argument span] stop where
  apart := List.pairwise_pair.mpr (.inr ⟨name, body, argument, span, rfl, rfl⟩)
  within := List.forall_mem_cons.mpr ⟨⟨hs, he⟩, List.forall_mem_singleton.mpr ⟨hs, he⟩⟩
  placed := List.forall_mem_cons.mpr ⟨hd, List.forall_mem_singleton.mpr hi⟩

theorem mono {first last : Nat} (h : Arranged source start nodes stop) (hs : first ≤ start)
    (he : stop ≤ last) : Arranged source first nodes last where
  apart := h.apart
  within node hm := ⟨Nat.le_trans hs (h.within node hm).1, Nat.le_trans (h.within node hm).2 he⟩
  placed := h.placed

theorem append (hl : Arranged source start nodes middle) (hr : Arranged source middle others stop)
    (hs : start ≤ middle) (he : middle ≤ stop) : Arranged source start (nodes ++ others) stop where
  apart := List.pairwise_append.mpr ⟨hl.apart, hr.apart, fun left hleft right hright =>
    .inl (Nat.le_trans (hl.within left hleft).2 (hr.within right hright).1)⟩
  within := List.forall_mem_append.mpr ⟨(hl.mono (Nat.le_refl _) he).within,
    (hr.mono hs (Nat.le_refl _)).within⟩
  placed := List.forall_mem_append.mpr ⟨hl.placed, hr.placed⟩

end Arranged

namespace Node.Placed

variable {source : List Char} {span stop : Span} {body : List Node}

/-- A node without bodies. -/
theorem leaf {node : Node} (hb : node.bodies = []) (hc : node.span.start < node.span.stop)
    (hi : node.span.IsIn source) : node.Placed source := by
  refine .intro hc hi ?_ ?_ ?_ <;> simp [hb]

/-- A construct from its opening action to its `end`, with its bodies between them. -/
theorem construct {node : Node} (span stop : Span) (hspan : node.span = span.through stop)
    (hc : span.start < stop.stop) (hs : span.IsIn source) (he : stop.IsIn source)
    (hb : ∀ body ∈ node.bodies, Arranged source span.start body stop.stop) :
    node.Placed source := by
  refine .intro ?_ ?_ (fun body hm => (hb body hm).apart) ?_ fun body hm => (hb body hm).placed
  · rw [hspan]
    exact hc
  · rw [hspan]
    exact hs.through he (Nat.le_of_lt hc)
  · rw [hspan]
    exact fun body hm => (hb body hm).within

end Node.Placed

/-- A definition from its opening action to its `end`. -/
theorem Node.Placed.define {source : List Char} {name : String} {body : List Node}
    {first last : Span} {middle : Nat} (hfirst : first.IsIn source)
    (hc : first.start < first.stop) (hlast : last.IsIn source)
    (hb : Arranged source first.stop body middle) (hm : first.stop ≤ middle)
    (he : middle ≤ last.stop) :
    (Node.define name body (first.through last)).Placed source :=
  .construct first last rfl (by omega) hfirst hlast
    (List.forall_mem_singleton.mpr (hb.mono (Nat.le_of_lt hc) he))

/-! ## Trees of derivations -/

namespace Spread

variable {source : List Char} {start stop : Nat} {pieces others : List Piece}

theorem of_cons {piece : Piece} (h : Spread source start ((piece :: pieces).map .ok) stop) :
    start ≤ piece.span.start ∧ piece.span.start < piece.span.stop ∧ piece.span.IsIn source ∧
      Spread source piece.span.stop (pieces.map .ok) stop := by
  cases h with
  | piece after covers inside next => exact ⟨after, covers, inside, next⟩

theorem of_append (h : Spread source start ((pieces ++ others).map .ok) stop) :
    ∃ middle, Spread source start (pieces.map .ok) middle ∧
      Spread source middle (others.map .ok) stop := by
  rw [List.map_append] at h
  exact h.exists_middle

/-- An `end` stands behind the pieces that it closes. -/
theorem of_close {last : Span}
    (h : Spread source start ((pieces ++ [Piece.directive .close last]).map .ok) stop) :
    ∃ middle, Spread source start (pieces.map .ok) middle ∧ start ≤ middle ∧
      middle ≤ last.stop ∧ last.IsIn source ∧ last.stop ≤ stop := by
  obtain ⟨middle, hpieces, hclose⟩ := h.of_append
  obtain ⟨hstart, hcovers, hinside, hnext⟩ := hclose.of_cons
  exact ⟨middle, hpieces, hpieces.le, Nat.le_trans hstart (Nat.le_of_lt hcovers), hinside,
    hnext.le⟩

end Spread

namespace Grammar

variable {source : List Char} {start stop : Nat}

/-- A tail is placed behind a position: its `end` is, and its second body before the `end`. -/
structure Tail.Placed (source : List Char) (start : Nat) {kind : BranchKind} (tail : Tail kind)
    (stop : Nat) : Prop where
  inside : tail.stop.IsIn source
  after : start ≤ tail.stop.stop
  before : tail.stop.stop ≤ stop
  otherwise : ∀ body ∈ tail.otherwise?, Arranged source start body tail.stop.stop

/-- A branch from its opening action to the `end` of its tail. -/
theorem Tail.Placed.branch {kind : BranchKind} {tail : Tail kind} {first : Span} {middle : Nat}
    {body : List Node} {head : Pipeline} (h : tail.Placed source middle stop)
    (hfirst : first.IsIn source) (hc : first.start < first.stop)
    (hb : Arranged source first.stop body middle) (hm : first.stop ≤ middle) :
    (Node.branch kind head body tail.otherwise? (first.through tail.stop)).Placed source := by
  have hafter := h.after
  refine .construct first tail.stop rfl (by omega) hfirst h.inside ?_
  refine List.forall_mem_cons.mpr ⟨hb.mono (by omega) hafter, fun other hmem => ?_⟩
  exact (h.otherwise other (Option.mem_toList.mp hmem)).mono (by omega) (Nat.le_refl _)

mutual

/-- The nodes of a part of a body are placed where its pieces are spread. -/
theorem Clause.arranged (clause : Clause) {start stop : Nat}
    (h : Spread source start (clause.pieces.map .ok) stop) :
    Arranged source start clause.nodes stop := by
  match clause with
  | .literal slice =>
    obtain ⟨hstart, hcovers, hinside, hnext⟩ := h.of_cons
    exact .singleton (.leaf rfl hcovers hinside) hstart hnext.le
  | .comment span => exact .nil
  | .print pipeline span =>
    obtain ⟨hstart, hcovers, hinside, hnext⟩ := h.of_cons
    exact .singleton (.leaf rfl hcovers hinside) hstart hnext.le
  | .invoke name argument span =>
    obtain ⟨hstart, hcovers, hinside, hnext⟩ := h.of_cons
    exact .singleton (.leaf rfl hcovers hinside) hstart hnext.le
  | .branch kind head span body tail =>
    rw [Clause.pieces] at h
    obtain ⟨hstart, hcovers, hinside, hnext⟩ := h.of_cons
    obtain ⟨middle, hbody, htail⟩ := hnext.of_append
    have hplaced := tail.placed htail
    exact .singleton
      (hplaced.branch hinside hcovers (arranged_nodesIn body hbody) hbody.le) hstart
      hplaced.before
  | .block name argument span body last =>
    rw [Clause.pieces] at h
    obtain ⟨hstart, hcovers, hinside, hnext⟩ := h.of_cons
    obtain ⟨middle, hbody, hmiddle, hlast, hend, hstop⟩ := hnext.of_close
    have hwhole := Nat.lt_of_lt_of_le hcovers (Nat.le_trans hmiddle hlast)
    exact .block (.define hinside hcovers hend (arranged_nodesIn body hbody) hmiddle hlast)
      (.construct span last rfl hwhole hinside hend (List.forall_mem_nil _)) hstart hstop
termination_by structural clause

theorem arranged_nodesIn (body : List Clause) {start stop : Nat}
    (h : Spread source start ((piecesIn body).map .ok) stop) :
    Arranged source start (nodesIn body) stop := by
  match body with
  | [] => exact .nil
  | clause :: rest =>
    rw [piecesIn] at h
    obtain ⟨middle, hclause, hrest⟩ := h.of_append
    rw [nodesIn]
    exact (clause.arranged hclause).append (arranged_nodesIn rest hrest) hclause.le hrest.le
termination_by structural body

theorem Tail.placed {kind : BranchKind} (tail : Tail kind) {start stop : Nat}
    (h : Spread source start (tail.pieces.map .ok) stop) : tail.Placed source start stop := by
  match tail with
  | .close last =>
    obtain ⟨hstart, hcovers, hinside, hnext⟩ := h.of_cons
    exact ⟨hinside, Nat.le_trans hstart (Nat.le_of_lt hcovers), hnext.le, nofun⟩
  | .otherwise span body last =>
    rw [Tail.pieces] at h
    obtain ⟨hstart, hcovers, hinside, hnext⟩ := h.of_cons
    obtain ⟨middle, hbody, hmiddle, hlast, hend, hstop⟩ := hnext.of_close
    have hbefore := Nat.le_trans hstart (Nat.le_of_lt hcovers)
    refine ⟨hend, Nat.le_trans hbefore (Nat.le_trans hmiddle hlast), hstop, ?_⟩
    rintro _ ⟨⟩
    exact (arranged_nodesIn body hbody).mono hbefore hlast
  | .chain chains head span body tail =>
    rw [Tail.pieces] at h
    obtain ⟨hstart, hcovers, hinside, hnext⟩ := h.of_cons
    obtain ⟨middle, hbody, htail⟩ := hnext.of_append
    have hplaced := tail.placed htail
    have hafter := hplaced.after
    have hmiddle := hbody.le
    refine ⟨hplaced.inside, ?_, hplaced.before, ?_⟩
    · show start ≤ tail.stop.stop
      omega
    · rintro _ ⟨⟩
      exact .singleton (hplaced.branch hinside hcovers (arranged_nodesIn body hbody) hmiddle)
        hstart (Nat.le_refl _)
termination_by structural tail

end

theorem TopClause.arranged (part : TopClause)
    (h : Spread source start (part.pieces.map .ok) stop) :
    Arranged source start part.nodes stop := by
  cases part with
  | plain clause => exact clause.arranged h
  | define name span body last =>
    rw [pieces] at h
    obtain ⟨hstart, hcovers, hinside, hnext⟩ := h.of_cons
    obtain ⟨middle, hbody, hmiddle, hlast, hend, hstop⟩ := hnext.of_close
    exact .singleton
      (.define hinside hcovers hend (arranged_nodesIn body hbody) hmiddle hlast) hstart hstop

/-- The tree of a derivation is placed where its pieces are spread. -/
theorem Document.arranged (document : Document)
    (h : Spread source start (document.pieces.map .ok) stop) :
    Arranged source start document.nodes stop := by
  induction document generalizing start with
  | nil => exact .nil
  | cons part rest ih =>
    rw [pieces_cons] at h
    obtain ⟨middle, hpart, hrest⟩ := h.of_append
    rw [nodes_cons]
    exact (part.arranged hpart).append (ih hrest) hpart.le hrest.le

end Grammar

/-- The nodes of a source are placed in it. -/
theorem arranged_of_parse {source : String} {nodes : List Node} (h : parse source = .ok nodes) :
    Arranged source.toList 0 nodes (Text.byteLength source.toList) := by
  obtain ⟨document, hpieces, rfl⟩ := parse_iff.mp h
  have hspread := Scan.spread source.toList
  rw [hpieces] at hspread
  exact document.arranged hspread

/-! ## Errors of the tree -/

theorem suffix_of_closeChain? {stop : Span} {last nodes : List Node}
    {opened outer : List OpenConstruct} (h : closeChain? stop last opened = some (nodes, outer)) :
    outer <:+ opened := by
  induction opened generalizing last with
  | nil => cases h
  | cons innermost others ih =>
    unfold closeChain? at h
    dsimp only at h
    split at h
    · exact (ih h).trans (List.suffix_cons _ _)
    · cases h
      exact List.suffix_cons _ _

namespace Builder

variable {source : List Char} {builder : Builder} {span : Span}

/-- The opening actions of what is open are inside a source. -/
def OpenIn (source : List Char) (builder : Builder) : Prop :=
  ∀ opened ∈ builder.opened, opened.span.IsIn source

/-- Building goes on with all opening actions inside a source, or fails inside it. -/
def StaysIn (source : List Char) : Except ParseError Builder → Prop
  | .ok builder => builder.OpenIn source
  | .error error => error.span.IsIn source

/-- The same where a piece may have been rejected. -/
def ReadsIn (source : List Char) : Except Rejection Builder → Prop
  | .ok builder => builder.OpenIn source
  | .error rejection => rejection.IsIn source

theorem StaysIn.bind {first : Except ParseError Builder}
    {next : Builder → Except ParseError Builder} (h : StaysIn source first)
    (hn : ∀ builder, builder.OpenIn source → StaysIn source (next builder)) :
    StaysIn source (first >>= next) := by
  cases first with
  | ok builder => exact hn builder h
  | error problem => exact h

theorem OpenIn.add (h : builder.OpenIn source) (node : Node) :
    (builder.add node).OpenIn source := by
  obtain ⟨root, opened⟩ := builder
  cases opened with
  | nil => exact h
  | cons innermost outer =>
    obtain ⟨hinner, houter⟩ := List.forall_mem_cons.mp h
    have hspan : (innermost.add node).span = innermost.span := by
      unfold OpenConstruct.add
      split <;> rfl
    refine List.forall_mem_cons.mpr ⟨?_, houter⟩
    rw [hspan]
    exact hinner

theorem OpenIn.foldl_add (h : builder.OpenIn source) (nodes : List Node) :
    (nodes.foldl Builder.add builder).OpenIn source := by
  induction nodes generalizing builder with
  | nil => exact h
  | cons node rest ih => exact ih (h.add node)

theorem OpenIn.enter (h : builder.OpenIn source) (hs : span.IsIn source) (head : Head)
    (chained : Bool) : (builder.enter head span chained).OpenIn source :=
  List.forall_mem_cons.mpr ⟨hs, h⟩

theorem OpenIn.otherwise (h : builder.OpenIn source) (hs : span.IsIn source) :
    StaysIn source (builder.otherwise span) := by
  obtain ⟨root, opened⟩ := builder
  cases opened with
  | nil => exact hs
  | cons innermost outer =>
    unfold Builder.otherwise
    dsimp only
    split
    · split
      · exact hs
      · exact List.forall_mem_cons.mpr (List.forall_mem_cons.mp h)
    · exact hs

theorem OpenIn.chain (h : builder.OpenIn source) (hs : span.IsIn source) (kind : BranchKind)
    (pipeline : Pipeline) : StaysIn source (builder.chain kind pipeline span) := by
  unfold Builder.chain
  split
  · exact (h.otherwise hs).bind fun _ hopen => hopen.enter hs _ _
  · exact hs

theorem OpenIn.close (h : builder.OpenIn source) (hs : span.IsIn source) :
    StaysIn source (builder.close span) := by
  unfold Builder.close
  split
  · exact hs
  · rename_i nodes outer hclose
    have houter : OpenIn source ⟨builder.root, outer⟩ := fun opened hm =>
      h opened ((suffix_of_closeChain? hclose).subset hm)
    exact houter.foldl_add nodes

/-- Each piece keeps the opening actions inside the source. -/
theorem OpenIn.place {piece : Piece} (h : builder.OpenIn source) (hs : piece.span.IsIn source) :
    StaysIn source (builder.place piece) := by
  match piece with
  | .literal slice => exact h.add _
  | .directive .comment span => exact h
  | .directive (.print pipeline) span => exact h.add _
  | .directive (.invoke name argument) span => exact h.add _
  | .directive (.opener head) span =>
    unfold Builder.place direct opener
    dsimp only
    split
    · exact hs
    · exact h.enter hs _ _
  | .directive .otherwise span => exact h.otherwise hs
  | .directive (.chain kind pipeline) span => exact h.chain hs _ _
  | .directive .close span => exact h.close hs

/-- What is not closed is reported at its opening action. -/
theorem OpenIn.finish (h : builder.OpenIn source) {error : ParseError}
    (he : builder.finish = .error error) : error.span.IsIn source := by
  unfold Builder.finish at he
  split at he
  · cases he
  · rename_i innermost outer hopened
    cases he
    exact h innermost (hopened ▸ List.mem_cons_self)

theorem OpenIn.foldlM_placeRead {start stop : Nat} {pieces : List (Except Rejection Piece)}
    (h : builder.OpenIn source) (hp : Spread source start pieces stop) :
    ReadsIn source (pieces.foldlM Builder.placeRead builder) := by
  induction hp generalizing builder with
  | nil => exact h
  | @piece start stop piece rest after covers inside next ih =>
    have hplace := h.place inside
    rw [List.foldlM_cons, placeRead_ok]
    cases hb : builder.place piece with
    | ok middle => exact ih (hb ▸ hplace : StaysIn source (.ok middle))
    | error problem =>
      exact Rejection.isIn_known (hb ▸ hplace : StaysIn source (.error problem))
  | error inside next ih => exact inside

end Builder

/-- An error of the tree is inside the source: it stands in place of a piece, at a piece, or where
something was opened. -/
theorem isIn_of_parse_error {source : String} {rejection : Rejection}
    (h : parse source = .error rejection) : rejection.IsIn source.toList := by
  have hempty : Builder.start.OpenIn source.toList := List.forall_mem_nil _
  have hplaced := hempty.foldlM_placeRead (Scan.spread source.toList)
  rcases bind_eq_error.mp h with hfold | ⟨builder, hfold, hfinish⟩
  · rw [hfold] at hplaced
    exact hplaced
  · rw [hfold] at hplaced
    obtain ⟨problem, hproblem, rfl⟩ := mapError_eq_error.mp hfinish
    exact Rejection.isIn_known (Builder.OpenIn.finish hplaced hproblem)

end LiveTemplate
