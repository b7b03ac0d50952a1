import LiveTemplate.Proofs.Template.Grammar
import LiveTemplate.Proofs.Template.Pipelines

/-!
# Openers and ends

The tree of a template is built with a stack of open constructs. It exists for the sequences of
pieces that the grammar derives and for no others, and is the tree of the derivation.

* `Document.treeOfPieces`: what is derived is built, since each part of a body adds its nodes to any
  builder (`Clause.placeAll`).
* `Grammar.Reading`: what the pieces read so far have built, with the derivation of each body that
  is still open up to here. Every piece that is placed keeps this (`Reading.place`), and what is
  built with nothing left open is derived (`exists_document`).
* `treeOfPieces_spec` puts both together, `parse_iff` for the pieces of a source, of which none is
  an error then (`reads_of_parse`).
-/

namespace LiveTemplate

open Grammar

/-! ## Adding several nodes -/

namespace OpenConstruct

variable {head : Head} {span : Span} {body : List Node} {chained : Bool}

/-- Until there is an `else`, the first body is read. -/
theorem foldl_add_none (before nodes : List Node) :
    nodes.foldl add ⟨head, span, before, none, chained⟩ =
      ⟨head, span, nodes.reverse ++ before, none, chained⟩ := by
  induction nodes generalizing before with
  | nil => rfl
  | cons node rest ih =>
    rw [List.foldl_cons, List.reverse_cons, List.append_assoc]
    exact ih (node :: before)

/-- After an `else`, the second body is read. -/
theorem foldl_add_some (before nodes : List Node) :
    nodes.foldl add ⟨head, span, body, some before, chained⟩ =
      ⟨head, span, body, some (nodes.reverse ++ before), chained⟩ := by
  induction nodes generalizing before with
  | nil => rfl
  | cons node rest ih =>
    rw [List.foldl_cons, List.reverse_cons, List.append_assoc]
    exact ih (node :: before)

theorem close_branch (kind : BranchKind) (head : Pipeline) (body : List Node)
    (otherwise : Option (List Node)) (stop : Span) :
    close ⟨.branch kind head, span, body.reverse, otherwise.map List.reverse, chained⟩ stop =
      [.branch kind head body otherwise (span.through stop)] := by
  cases otherwise <;> simp [close]

theorem close_define (name : String) (body : List Node) (stop : Span) :
    close ⟨.define name, span, body.reverse, none, chained⟩ stop =
      [.define name body (span.through stop)] := by
  simp [close]

theorem close_block (name : String) (argument : Option Pipeline) (body : List Node) (stop : Span) :
    close ⟨.block name argument, span, body.reverse, none, chained⟩ stop =
      [.define name body (span.through stop), .invoke name argument (span.through stop)] := by
  simp [close]

end OpenConstruct

namespace Builder

theorem foldl_add_top (root nodes : List Node) :
    nodes.foldl add ⟨root, []⟩ = ⟨nodes.reverse ++ root, []⟩ := by
  induction nodes generalizing root with
  | nil => rfl
  | cons node rest ih =>
    rw [List.foldl_cons, List.reverse_cons, List.append_assoc]
    exact ih (node :: root)

theorem foldl_add_opened (root nodes : List Node) (innermost : OpenConstruct)
    (outer : List OpenConstruct) :
    nodes.foldl add ⟨root, innermost :: outer⟩ =
      ⟨root, nodes.foldl OpenConstruct.add innermost :: outer⟩ := by
  induction nodes generalizing innermost with
  | nil => rfl
  | cons node rest ih => exact ih (innermost.add node)

/-! ## Placing pieces -/

variable {builder after : Builder} {pieces : List Piece}

/-- Puts pieces in their places in order. -/
def placeAll (builder : Builder) (pieces : List Piece) : Except ParseError Builder :=
  pieces.foldlM place builder

theorem placeAll_cons {piece : Piece} (h : builder.place piece = .ok after) :
    builder.placeAll (piece :: pieces) = after.placeAll pieces := by
  rw [placeAll, List.foldlM_cons, h]
  rfl

theorem placeAll_append {more : List Piece} (h : builder.placeAll pieces = .ok after) :
    builder.placeAll (pieces ++ more) = after.placeAll more := by
  rw [placeAll, List.foldlM_append]
  rw [placeAll] at h
  rw [h]
  rfl

theorem placeAll_singleton {piece : Piece} : builder.placeAll [piece] = builder.place piece := by
  rw [placeAll, List.foldlM_cons]
  exact bind_pure _

/-! ## Branches -/

variable {root body : List Node} {kind : BranchKind} {head : Pipeline} {span : Span}
  {otherwise : Option (List Node)} {chained : Bool} {outer : List OpenConstruct}

/-- A chain opens a second body and a branch in it. -/
theorem place_chain (inner : Pipeline) (innerSpan : Span) :
    Builder.place ⟨root, ⟨.branch kind head, span, body, none, chained⟩ :: outer⟩
        (.directive (.chain kind inner) innerSpan) =
      .ok ⟨root, ⟨.branch kind inner, innerSpan, [], none, true⟩ ::
        ⟨.branch kind head, span, body, some [], chained⟩ :: outer⟩ :=
  if_pos rfl

/-- The `end` of a construct that is no chain. -/
theorem close_unchained (opener : Head) (stop : Span) :
    Builder.close ⟨root, ⟨opener, span, body, otherwise, false⟩ :: outer⟩ stop =
      .ok ((OpenConstruct.close ⟨opener, span, body, otherwise, false⟩ stop).foldl add
        ⟨root, outer⟩) :=
  rfl

/-- The `end` of a chain is that of the branch around it. -/
theorem close_chained (before : List Node) (inner : Pipeline) (innerSpan stop : Span) :
    Builder.close ⟨root, ⟨.branch kind inner, innerSpan, body.reverse, otherwise.map List.reverse,
        true⟩ :: ⟨.branch kind head, span, before, some [], chained⟩ :: outer⟩ stop =
      Builder.close ⟨root, ⟨.branch kind head, span, before,
        some [.branch kind inner body otherwise (innerSpan.through stop)], chained⟩ :: outer⟩
        stop := by
  rw [close, closeChain?, List.foldl_nil, OpenConstruct.close_branch]
  rfl

/-- An `else` stands after the first body of a branch. -/
theorem otherwise_eq_ok (h : builder.otherwise span = .ok after) :
    ∃ root kind head start first chained outer,
      builder = ⟨root, ⟨.branch kind head, start, first, none, chained⟩ :: outer⟩ ∧
        after = ⟨root, ⟨.branch kind head, start, first, some [], chained⟩ :: outer⟩ := by
  obtain ⟨root, opened⟩ := builder
  match opened, h with
  | ⟨.branch kind head, start, first, none, chained⟩ :: outer, h =>
    cases h
    exact ⟨root, kind, head, start, first, chained, outer, rfl, rfl⟩

/-- A chain stands after the first body of a branch of its kind. -/
theorem chain_eq_ok {inner : Pipeline} (h : builder.chain kind inner span = .ok after) :
    ∃ root head start first chained outer,
      builder = ⟨root, ⟨.branch kind head, start, first, none, chained⟩ :: outer⟩ ∧
        after = ⟨root, ⟨.branch kind inner, span, [], none, true⟩ ::
          ⟨.branch kind head, start, first, some [], chained⟩ :: outer⟩ := by
  rw [chain] at h
  split at h
  · rename_i hkind
    obtain ⟨middle, hm, hafter⟩ := bind_eq_ok.mp h
    obtain ⟨root, found, head, start, first, chained, outer, rfl, rfl⟩ := otherwise_eq_ok hm
    cases hkind
    cases hafter
    exact ⟨root, head, start, first, chained, outer, rfl, rfl⟩
  · cases h

end Builder

/-! ## What is derived is built -/

namespace Grammar

open Builder

mutual

/-- A part of a body adds its nodes. -/
theorem Clause.placeAll (clause : Clause) (builder : Builder) :
    builder.placeAll clause.pieces = .ok (clause.nodes.foldl Builder.add builder) := by
  match clause with
  | .literal slice => rfl
  | .comment span => rfl
  | .print pipeline span => rfl
  | .invoke name argument span => rfl
  | .branch kind head span body tail =>
    have hopen : builder.place (.directive (.opener (.branch kind head)) span) =
        .ok ⟨builder.root, ⟨.branch kind head, span, [], none, false⟩ :: builder.opened⟩ := rfl
    rw [Clause.pieces, placeAll_cons hopen, placeAll_append (placeAll_piecesIn body _),
      foldl_add_opened, OpenConstruct.foldl_add_none, List.append_nil, tail.placeAll,
      close_unchained, OpenConstruct.close_branch]
    rfl
  | .block name argument span body stop =>
    have hopen : builder.place (.directive (.opener (.block name argument)) span) =
        .ok ⟨builder.root, ⟨.block name argument, span, [], none, false⟩ :: builder.opened⟩ := rfl
    rw [Clause.pieces, placeAll_cons hopen, placeAll_append (placeAll_piecesIn body _),
      foldl_add_opened, OpenConstruct.foldl_add_none, List.append_nil, placeAll_singleton,
      place, direct, close_unchained, OpenConstruct.close_block]
    rfl
termination_by structural clause

theorem placeAll_piecesIn (body : List Clause) (builder : Builder) :
    builder.placeAll (piecesIn body) = .ok ((nodesIn body).foldl Builder.add builder) := by
  match body with
  | [] => rfl
  | clause :: rest =>
    rw [piecesIn, nodesIn, List.foldl_append, placeAll_append (clause.placeAll builder)]
    exact placeAll_piecesIn rest _
termination_by structural body

/-- The pieces from the end of the first body of a branch on close the branch with the second body
that they stand for. -/
theorem Tail.placeAll {kind : BranchKind} (tail : Tail kind) (root body : List Node)
    (head : Pipeline) (span : Span) (chained : Bool) (outer : List OpenConstruct) :
    Builder.placeAll ⟨root, ⟨.branch kind head, span, body, none, chained⟩ :: outer⟩ tail.pieces =
      Builder.close ⟨root, ⟨.branch kind head, span, body, tail.otherwise?.map List.reverse,
        chained⟩ :: outer⟩ tail.stop := by
  match tail with
  | .close stop => exact placeAll_singleton
  | .otherwise elseSpan second stop =>
    have helse : Builder.place ⟨root, ⟨.branch kind head, span, body, none, chained⟩ :: outer⟩
        (.directive .otherwise elseSpan) =
          .ok ⟨root, ⟨.branch kind head, span, body, some [], chained⟩ :: outer⟩ := rfl
    rw [Tail.pieces, placeAll_cons helse, placeAll_append (placeAll_piecesIn second _),
      foldl_add_opened, OpenConstruct.foldl_add_some, List.append_nil, placeAll_singleton]
    rfl
  | .chain chains inner innerSpan second tail =>
    rw [Tail.pieces, placeAll_cons (place_chain inner innerSpan),
      placeAll_append (placeAll_piecesIn second _), foldl_add_opened,
      OpenConstruct.foldl_add_none, List.append_nil, tail.placeAll, close_chained]
    rfl
termination_by structural tail

end

theorem TopClause.placeAll (part : TopClause) (root : List Node) :
    Builder.placeAll ⟨root, []⟩ part.pieces = .ok ⟨part.nodes.reverse ++ root, []⟩ := by
  cases part with
  | plain clause => rw [pieces, clause.placeAll, foldl_add_top, nodes]
  | define name span body stop =>
    have hopen : Builder.place ⟨root, []⟩ (.directive (.opener (.define name)) span) =
        .ok ⟨root, [⟨.define name, span, [], none, false⟩]⟩ := rfl
    rw [pieces, placeAll_cons hopen, placeAll_append (placeAll_piecesIn body _), foldl_add_opened,
      OpenConstruct.foldl_add_none, List.append_nil, placeAll_singleton, place, direct,
      close_unchained, OpenConstruct.close_define]
    rfl

theorem Document.placeAll (document : Document) (root : List Node) :
    Builder.placeAll ⟨root, []⟩ document.pieces = .ok ⟨document.nodes.reverse ++ root, []⟩ := by
  induction document generalizing root with
  | nil => rfl
  | cons part rest ih =>
    rw [pieces_cons, placeAll_append (part.placeAll root), ih, nodes_cons, List.reverse_append,
      List.append_assoc]

end Grammar

theorem Builder.foldlM_placeRead_map_ok (pieces : List Piece) (builder : Builder) :
    (pieces.map .ok).foldlM placeRead builder = (builder.placeAll pieces).mapError .known := by
  induction pieces generalizing builder with
  | nil => rfl
  | cons piece rest ih =>
    rw [List.map_cons, List.foldlM_cons, placeRead_ok, placeAll, List.foldlM_cons]
    cases builder.place piece with
    | error problem => rfl
    | ok middle => exact ih middle

theorem treeOfPieces_map_ok_eq_ok {pieces : List Piece} {nodes : List Node} :
    treeOfPieces (pieces.map .ok) = .ok nodes ↔
      ∃ builder, Builder.start.placeAll pieces = .ok builder ∧ builder.finish = .ok nodes := by
  rw [treeOfPieces, Builder.foldlM_placeRead_map_ok, bind_eq_ok]
  simp only [mapError_eq_ok]

/-- What the grammar derives is built. -/
theorem Grammar.Document.treeOfPieces (document : Document) :
    treeOfPieces (document.pieces.map .ok) = .ok document.nodes := by
  refine treeOfPieces_map_ok_eq_ok.mpr ⟨_, document.placeAll [], ?_⟩
  rw [List.append_nil, Builder.finish, List.reverse_reverse]

/-! ## What is built is derived -/

namespace Grammar

open Builder

/-- What the pieces read so far have built. Each open construct has the clauses of its body up to
here. -/
inductive Reading : List Piece → Builder → Prop
  | top (document : Document) : Reading document.pieces ⟨document.nodes.reverse, []⟩
  | body {pieces : List Piece} {root : List Node} {outer : List OpenConstruct}
      (before : Reading pieces ⟨root, outer⟩) (head : Head)
      (allowed : ¬(head.construct = .define ∧ outer ≠ [])) (span : Span) (body : List Clause) :
      Reading (pieces ++ .directive (.opener head) span :: piecesIn body)
        ⟨root, ⟨head, span, (nodesIn body).reverse, none, false⟩ :: outer⟩
  | otherwise {pieces : List Piece} {root first : List Node} {outer : List OpenConstruct}
      {kind : BranchKind} {head : Pipeline} {span : Span} {chained : Bool}
      (before : Reading pieces ⟨root, ⟨.branch kind head, span, first, none, chained⟩ :: outer⟩)
      (elseSpan : Span) (body : List Clause) :
      Reading (pieces ++ .directive .otherwise elseSpan :: piecesIn body)
        ⟨root, ⟨.branch kind head, span, first, some (nodesIn body).reverse, chained⟩ :: outer⟩
  | chain {pieces : List Piece} {root first : List Node} {outer : List OpenConstruct}
      {kind : BranchKind} {head : Pipeline} {span : Span} {chained : Bool}
      (before : Reading pieces ⟨root, ⟨.branch kind head, span, first, none, chained⟩ :: outer⟩)
      (chains : kind ≠ .loop) (inner : Pipeline) (innerSpan : Span) (body : List Clause) :
      Reading (pieces ++ .directive (.chain kind inner) innerSpan :: piecesIn body)
        ⟨root, ⟨.branch kind inner, innerSpan, (nodesIn body).reverse, none, true⟩ ::
          ⟨.branch kind head, span, first, some [], chained⟩ :: outer⟩

namespace Reading

variable {pieces : List Piece} {builder after : Builder}

/-- At the top level, a part of a template is added to the parts before it. -/
theorem addTop {root : List Node} (h : Reading pieces ⟨root, []⟩) (part : TopClause) :
    Reading (pieces ++ part.pieces) ⟨part.nodes.reverse ++ root, []⟩ := by
  cases h with
  | top document =>
    have htop := Reading.top (document ++ [part])
    rwa [Document.pieces_concat, Document.nodes_concat, List.reverse_append] at htop

/-- A part of a body is added to the innermost body. -/
theorem add (h : Reading pieces builder) (clause : Clause) :
    Reading (pieces ++ clause.pieces) (clause.nodes.foldl Builder.add builder) := by
  have hnodes (body : List Clause) :
      (nodesIn (body ++ [clause])).reverse = clause.nodes.reverse ++ (nodesIn body).reverse := by
    rw [nodesIn_concat, List.reverse_append]
  cases h with
  | top document =>
    rw [foldl_add_top]
    exact addTop (.top document) (.plain clause)
  | body before head allowed span body =>
    rw [List.append_assoc, List.cons_append, foldl_add_opened, OpenConstruct.foldl_add_none,
      ← piecesIn_concat, ← hnodes]
    exact .body before head allowed span _
  | otherwise before elseSpan body =>
    rw [List.append_assoc, List.cons_append, foldl_add_opened, OpenConstruct.foldl_add_some,
      ← piecesIn_concat, ← hnodes]
    exact .otherwise before elseSpan _
  | chain before chains inner innerSpan body =>
    rw [List.append_assoc, List.cons_append, foldl_add_opened, OpenConstruct.foldl_add_none,
      ← piecesIn_concat, ← hnodes]
    exact .chain before chains inner innerSpan _

/-- A branch is closed with all that it continues. The induction is on what is open: the tail of a
chain, with the chain, is a tail of the branch around it. -/
theorem close_tail {root first : List Node} {outer : List OpenConstruct} {kind : BranchKind}
    {head : Pipeline} {span : Span} {chained : Bool}
    (h : Reading pieces ⟨root, ⟨.branch kind head, span, first, none, chained⟩ :: outer⟩)
    (tail : Tail kind) :
    ∃ after, Builder.close ⟨root, ⟨.branch kind head, span, first,
        tail.otherwise?.map List.reverse, chained⟩ :: outer⟩ tail.stop = .ok after ∧
      Reading (pieces ++ tail.pieces) after := by
  generalize hb : (⟨root, ⟨.branch kind head, span, first, none, chained⟩ :: outer⟩ : Builder) =
    builder at h
  induction h generalizing root first outer kind head span chained with
  | top document => cases hb
  | @body pieces root outer before opener allowed start body =>
    cases hb
    refine ⟨_, by rw [close_unchained, OpenConstruct.close_branch], ?_⟩
    have hadd := before.add (.branch kind head start body tail)
    rw [Clause.pieces] at hadd
    rw [List.append_assoc, List.cons_append]
    exact hadd
  | otherwise => cases hb
  | chain before chains inner innerSpan body ih =>
    cases hb
    obtain ⟨after, hclose, hread⟩ := ih (.chain chains inner innerSpan body tail) rfl
    rw [Tail.pieces] at hread
    rw [close_chained, List.append_assoc, List.cons_append]
    exact ⟨after, hclose, hread⟩

/-- An `end` closes what is open. -/
theorem close {stop : Span} (h : Reading pieces builder) (hr : builder.close stop = .ok after) :
    Reading (pieces ++ [.directive .close stop]) after := by
  cases h with
  | top document => cases hr
  | @body pieces root outer before head allowed span body =>
    cases head with
    | branch kind pipeline =>
      obtain ⟨found, hclose, hread⟩ := (before.body _ allowed span body).close_tail (.close stop)
      cases hclose.symm.trans hr
      exact hread
    | define name =>
      -- A definition is open at the top level only.
      have houter : outer = [] := Classical.byContradiction fun hne => allowed ⟨rfl, hne⟩
      subst houter
      rw [close_unchained, OpenConstruct.close_define] at hr
      cases hr
      rw [List.append_assoc, List.cons_append]
      exact before.addTop (.define name span body stop)
    | block name argument =>
      rw [close_unchained, OpenConstruct.close_block] at hr
      cases hr
      have hadd := before.add (.block name argument span body stop)
      rw [Clause.pieces] at hadd
      rw [List.append_assoc, List.cons_append]
      exact hadd
  | otherwise before elseSpan body =>
    obtain ⟨found, hclose, hread⟩ := before.close_tail (.otherwise elseSpan body stop)
    cases hclose.symm.trans hr
    rw [Tail.pieces] at hread
    rw [List.append_assoc, List.cons_append]
    exact hread
  | chain before chains inner innerSpan body =>
    obtain ⟨found, hclose, hread⟩ :=
      (before.chain chains inner innerSpan body).close_tail (.close stop)
    cases hclose.symm.trans hr
    exact hread

/-- Every piece that can be placed goes on with the derivation. -/
theorem place {piece : Piece} (h : Reading pieces builder) (hp : piece.Parses)
    (hr : builder.place piece = .ok after) : Reading (pieces ++ [piece]) after := by
  cases piece with
  | literal slice =>
    cases hr
    exact h.add (.literal slice)
  | directive directive span =>
    cases directive with
    | comment =>
      cases hr
      exact h.add (.comment span)
    | print pipeline =>
      cases hr
      exact h.add (.print pipeline span)
    | invoke name argument =>
      cases hr
      exact h.add (.invoke name argument span)
    | opener head =>
      rw [Builder.place, direct, opener] at hr
      split at hr
      · cases hr
      · rename_i allowed
        cases hr
        exact h.body head allowed span []
    | otherwise =>
      obtain ⟨root, kind, head, start, first, chained, outer, rfl, rfl⟩ := otherwise_eq_ok hr
      exact h.otherwise span []
    | chain kind inner =>
      obtain ⟨root, head, start, first, chained, outer, rfl, rfl⟩ := chain_eq_ok hr
      obtain ⟨action, hread, -⟩ := hp
      rcases formed_of_ofAction hread with hcomment | hformed
      · cases hcomment
      · cases hformed with
        | chain chains => exact h.chain chains inner span []
    | close => exact h.close hr

/-- All pieces that can be placed go on with the derivation. -/
theorem placeAll {more : List Piece} (h : Reading pieces builder)
    (hp : ∀ piece ∈ more, piece.Parses) (hr : builder.placeAll more = .ok after) :
    Reading (pieces ++ more) after := by
  induction more generalizing pieces builder with
  | nil =>
    cases hr
    rwa [List.append_nil]
  | cons piece rest ih =>
    rw [Builder.placeAll, List.foldlM_cons] at hr
    obtain ⟨middle, hm, hrest⟩ := bind_eq_ok.mp hr
    obtain ⟨hpiece, hothers⟩ := List.forall_mem_cons.mp hp
    rw [List.append_cons]
    exact ih (h.place hpiece hm) hothers hrest

/-- When nothing is open, a whole template has been derived. -/
theorem finish {nodes : List Node} (h : Reading pieces builder)
    (hr : builder.finish = .ok nodes) :
    ∃ document : Document, document.pieces = pieces ∧ document.nodes = nodes := by
  cases h with
  | top document =>
    cases hr
    exact ⟨document, rfl, (List.reverse_reverse _).symm⟩
  | _ => cases hr

end Reading

end Grammar

/-- What is built is derived. -/
theorem exists_document {pieces : List Piece} (hp : ∀ piece ∈ pieces, piece.Parses)
    {nodes : List Node} (h : treeOfPieces (pieces.map .ok) = .ok nodes) :
    ∃ document : Document, document.pieces = pieces ∧ document.nodes = nodes := by
  obtain ⟨builder, hbuilder, hfinish⟩ := treeOfPieces_map_ok_eq_ok.mp h
  have hstart : Reading [] Builder.start := .top []
  exact (hstart.placeAll hp hbuilder).finish hfinish

/-- Pieces whose actions can be read form a tree if and only if the grammar derives them. They are
derived in one way, and the tree is that of the derivation, from which the pieces are read back in
document order. -/
theorem treeOfPieces_spec {pieces : List Piece} (hp : ∀ piece ∈ pieces, piece.Parses) :
    ((∃ nodes, treeOfPieces (pieces.map .ok) = .ok nodes) ↔
        ∃ document : Document, document.pieces = pieces) ∧
      ∀ nodes, treeOfPieces (pieces.map .ok) = .ok nodes →
        ∃ document : Document, document.pieces = pieces ∧
          (∀ other : Document, other.pieces = pieces → other = document) ∧
            document.nodes = nodes ∧ Spells nodes (marks pieces) := by
  refine ⟨⟨?_, ?_⟩, fun nodes h => ?_⟩
  · rintro ⟨nodes, h⟩
    obtain ⟨document, hpieces, -⟩ := exists_document hp h
    exact ⟨document, hpieces⟩
  · rintro ⟨document, rfl⟩
    exact ⟨document.nodes, document.treeOfPieces⟩
  · obtain ⟨document, rfl, rfl⟩ := exists_document hp h
    exact ⟨document, rfl, fun other ho => Document.pieces_inj ho, rfl, document.spells⟩

/-- A test with a chain and a comment inside a loop that has an `else` too. -/
theorem treeOfPieces_spec_chain :
    let dot : Pipeline := ⟨none, [.operand .dot]⟩
    let field (name : String) : Pipeline := ⟨none, [.operand (.field [name])]⟩
    let action (start : Nat) (inner : String) : Action := Action.ofInner start inner.toList
    let piece (start : Nat) (inner : String) (asked : Directive) : Piece :=
      .directive asked (action start inner).span
    let literal (start : Nat) (c : Char) : Slice := ⟨start, [c]⟩
    let pieces : List Piece := [
      piece 0 "range ." (.opener (.branch .loop dot)), .literal (literal 11 'x'),
      piece 12 "if .a" (.opener (.branch .test (field "a"))), .literal (literal 21 'y'),
      piece 22 "else if .b" (.chain .test (field "b")), piece 36 "/* c */" .comment,
      .literal (literal 47 'z'), piece 48 "else" .otherwise, .literal (literal 56 'w'),
      piece 57 "end" .close, piece 64 "else" .otherwise, .literal (literal 72 'v'),
      piece 73 "end" .close]
    let nodes : List Node := [
      .branch .loop dot
        [.literal (literal 11 'x'),
          .branch .test (field "a") [.literal (literal 21 'y')]
            (some [.branch .test (field "b") [.literal (literal 47 'z')]
              (some [.literal (literal 56 'w')]) ⟨22, 64⟩]) ⟨12, 64⟩]
        (some [.literal (literal 72 'v')]) ⟨0, 80⟩]
    (∀ piece ∈ pieces, piece.Parses) ∧ treeOfPieces (pieces.map .ok) = .ok nodes ∧
      ∃ document : Document, document.pieces = pieces ∧
        (∀ other : Document, other.pieces = pieces → other = document) ∧
          document.nodes = nodes ∧ Spells nodes (marks pieces) := by
  intro dot field action piece literal pieces nodes
  have hp : ∀ piece ∈ pieces, piece.Parses := by
    have hread (start : Nat) (inner : String) (asked : Directive)
        (h : Directive.ofAction (action start inner) = .ok asked) :
        (piece start inner asked).Parses := ⟨action start inner, h, rfl⟩
    simp only [pieces, List.forall_mem_cons]
    refine ⟨hread _ _ _ ?_, trivial, hread _ _ _ ?_, trivial, hread _ _ _ ?_, hread _ _ _ ?_,
      trivial, hread _ _ _ ?_, trivial, hread _ _ _ ?_, hread _ _ _ ?_, trivial,
      hread _ _ _ ?_, List.forall_mem_nil _⟩ <;> with_unfolding_all rfl
  have hbuilt : treeOfPieces (pieces.map .ok) = .ok nodes := by rfl
  exact ⟨hp, hbuilt, (treeOfPieces_spec hp).2 nodes hbuilt⟩

/-! ## Sources -/

theorem exists_of_foldlM_placeRead {pieces : List (Except Rejection Piece)}
    {builder after : Builder} (h : pieces.foldlM Builder.placeRead builder = .ok after) :
    ∃ placed : List Piece, pieces = placed.map .ok := by
  induction pieces generalizing builder with
  | nil => exact ⟨[], rfl⟩
  | cons first rest ih =>
    rw [List.foldlM_cons] at h
    obtain ⟨middle, hm, hrest⟩ := bind_eq_ok.mp h
    obtain ⟨piece, rfl, -⟩ := Builder.placeRead_eq_ok.mp hm
    obtain ⟨placed, rfl⟩ := ih hrest
    exact ⟨piece :: placed, rfl⟩

/-- A source is a template if and only if all its actions can be read and the grammar derives its
pieces; its tree is that of the derivation. -/
theorem parse_iff {source : String} {nodes : List Node} :
    parse source = .ok nodes ↔
      ∃ document : Document, (Scan.ofSource source.toList).pieces = document.pieces.map .ok ∧
        document.nodes = nodes := by
  rw [parse]
  constructor
  · intro h
    obtain ⟨builder, hbuilder, -⟩ := bind_eq_ok.mp h
    obtain ⟨placed, hplaced⟩ := exists_of_foldlM_placeRead hbuilder
    rw [hplaced] at h
    have hp : ∀ piece ∈ placed, piece.Parses := fun piece hm =>
      parses_of_piecesAfter (hplaced ▸ List.mem_map_of_mem hm)
    obtain ⟨document, rfl, hnodes⟩ := exists_document hp h
    exact ⟨document, hplaced, hnodes⟩
  · rintro ⟨document, hpieces, rfl⟩
    rw [hpieces]
    exact document.treeOfPieces

/-- Pieces without an error are those of the gap before the first action, what the action asks for,
and the pieces after it. -/
theorem piecesAfter_cons_eq_map_ok {front : Bool} {last : Except ParseError Gap} {gap : Gap}
    {action : Action} {rest : List (Gap × Action)} {pieces : List Piece}
    (h : Scan.piecesAfter front last ((gap, action) :: rest) = pieces.map .ok) :
    ∃ before directive after, pieces = before ++ .directive directive action.span :: after ∧
      Scan.gapPieces gap front action.trimBefore = before.map .ok ∧
        Directive.ofAction action = .ok directive ∧
          Scan.piecesAfter action.trimAfter last rest = after.map .ok := by
  obtain ⟨before, others, rfl, hbefore, hothers⟩ := List.append_eq_map_iff.mp h
  obtain ⟨piece, after, rfl, hpiece, hafter⟩ := List.map_eq_cons_iff.mp hothers
  obtain ⟨directive, hread, rfl⟩ := map_eq_ok.mp hpiece.symm
  exact ⟨before, directive, after, rfl, hbefore.symm, hread, hafter.symm⟩

theorem reads_of_piecesAfter {front : Bool} {last : Except ParseError Gap}
    {actions : List (Gap × Action)} {pieces : List Piece}
    (h : Scan.piecesAfter front last actions = pieces.map .ok) :
    (∃ gap, last = .ok gap) ∧
      ∀ entry ∈ actions, ∃ directive, Directive.ofAction entry.2 = .ok directive := by
  induction actions generalizing front pieces with
  | nil =>
    cases last with
    | ok gap => exact ⟨⟨gap, rfl⟩, List.forall_mem_nil _⟩
    | error e =>
      obtain ⟨piece, _, -, ⟨⟩, -⟩ := List.map_eq_cons_iff.mp h.symm
  | cons first rest ih =>
    obtain ⟨_, directive, after, -, -, hread, hafter⟩ := piecesAfter_cons_eq_map_ok h
    obtain ⟨hlast, hothers⟩ := ih hafter
    exact ⟨hlast, List.forall_mem_cons.mpr ⟨⟨directive, hread⟩, hothers⟩⟩

/-- In a template, the scan comes to the end of the source and every action can be read. -/
theorem reads_of_parse {source : String} {nodes : List Node} (h : parse source = .ok nodes) :
    (∃ last, (Scan.ofSource source.toList).last = .ok last) ∧
      ∀ entry ∈ (Scan.ofSource source.toList).actions,
        ∃ directive, Directive.ofAction entry.2 = .ok directive := by
  obtain ⟨document, hpieces, -⟩ := parse_iff.mp h
  exact reads_of_piecesAfter hpieces

end LiveTemplate
