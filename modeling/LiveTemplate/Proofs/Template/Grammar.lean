import LiveTemplate.Template.Tree

/-!
# The grammar of constructs

Which sequences of pieces are templates, as a grammar: a `Clause` derives a part of a body, with the
whole of a branch or block, a `Tail` what follows the first body of a branch up to its `end`, and a
`Document` a whole template. `pieces` are the pieces that are derived, `nodes` the tree that they
stand for.

* `Document.pieces_inj`: no pieces are derived in two ways.
* `Spells`: how a tree is read back in document order. `Document.spells`: a tree is read back as the
  pieces that it was derived from, except for what a tree does not keep of them (`Piece.mark?`).
-/

namespace LiveTemplate

namespace Grammar

/-! ## Derivations -/

mutual

/-- A part of a body. -/
inductive Clause where
  | literal (slice : Slice)
  | comment (span : Span)
  | print (pipeline : Pipeline) (span : Span)
  | invoke (name : String) (argument : Option Pipeline) (span : Span)
  | branch (kind : BranchKind) (head : Pipeline) (span : Span) (body : List Clause)
      (tail : Tail kind)
  | block (name : String) (argument : Option Pipeline) (span : Span) (body : List Clause)
      (stop : Span)

/-- What follows the first body of a branch: its `end`, an `else` with a second body and the `end`,
or a chain. A chain has a body and a tail as the branch itself, and its `end` is also that of the
branch. -/
inductive Tail : BranchKind → Type where
  | close {kind : BranchKind} (stop : Span) : Tail kind
  | otherwise {kind : BranchKind} (span : Span) (body : List Clause) (stop : Span) : Tail kind
  | chain {kind : BranchKind} (chains : kind ≠ .loop) (head : Pipeline) (span : Span)
      (body : List Clause) (tail : Tail kind) : Tail kind

end

/-- A part of a template at the top level, where alone definitions stand. -/
inductive TopClause where
  | plain (clause : Clause)
  | define (name : String) (span : Span) (body : List Clause) (stop : Span)

/-- A template. -/
abbrev Document := List TopClause

/-! ## Pieces -/

mutual

/-- The pieces of a part of a body. -/
def Clause.pieces : Clause → List Piece
  | .literal slice => [.literal slice]
  | .comment span => [.directive .comment span]
  | .print pipeline span => [.directive (.print pipeline) span]
  | .invoke name argument span => [.directive (.invoke name argument) span]
  | .branch kind head span body tail =>
    .directive (.opener (.branch kind head)) span :: (piecesIn body ++ tail.pieces)
  | .block name argument span body stop =>
    .directive (.opener (.block name argument)) span ::
      (piecesIn body ++ [.directive .close stop])
termination_by structural clause => clause

/-- The pieces of a body. -/
def piecesIn : List Clause → List Piece
  | [] => []
  | clause :: rest => clause.pieces ++ piecesIn rest
termination_by structural body => body

/-- The pieces from the end of the first body of a branch on. -/
def Tail.pieces {kind : BranchKind} : Tail kind → List Piece
  | .close stop => [.directive .close stop]
  | .otherwise span body stop =>
    .directive .otherwise span :: (piecesIn body ++ [.directive .close stop])
  | .chain _ head span body tail =>
    .directive (.chain kind head) span :: (piecesIn body ++ tail.pieces)
termination_by structural tail => tail

end

/-- The pieces of a part of a template. -/
def TopClause.pieces : TopClause → List Piece
  | .plain clause => clause.pieces
  | .define name span body stop =>
    .directive (.opener (.define name)) span :: (piecesIn body ++ [.directive .close stop])

/-- The pieces of a template. -/
def Document.pieces (document : Document) : List Piece :=
  document.flatMap TopClause.pieces

theorem piecesIn_concat (body : List Clause) (clause : Clause) :
    piecesIn (body ++ [clause]) = piecesIn body ++ clause.pieces := by
  induction body with
  | nil => exact List.append_nil _
  | cons first rest ih => rw [List.cons_append, piecesIn, piecesIn, ih, List.append_assoc]

theorem Document.pieces_cons (part : TopClause) (rest : Document) :
    Document.pieces (part :: rest) = part.pieces ++ Document.pieces rest :=
  List.flatMap_cons

theorem Document.pieces_concat (document : Document) (part : TopClause) :
    Document.pieces (document ++ [part]) = document.pieces ++ part.pieces := by
  rw [pieces, pieces, List.flatMap_append, List.flatMap_singleton]

/-! ## Nodes -/

/-- The `end` of a branch. -/
def Tail.stop {kind : BranchKind} : Tail kind → Span
  | .close stop => stop
  | .otherwise _ _ stop => stop
  | .chain _ _ _ _ tail => tail.stop
termination_by structural tail => tail

mutual

/-- The nodes of a part of a body. A block is a definition and an invocation of it. -/
def Clause.nodes : Clause → List Node
  | .literal slice => [.literal slice]
  | .comment _ => []
  | .print pipeline span => [.print pipeline span]
  | .invoke name argument span => [.invoke name argument span]
  | .branch kind head span body tail =>
    [.branch kind head (nodesIn body) tail.otherwise? (span.through tail.stop)]
  | .block name argument span body stop =>
    [.define name (nodesIn body) (span.through stop), .invoke name argument (span.through stop)]
termination_by structural clause => clause

/-- The nodes of a body. -/
def nodesIn : List Clause → List Node
  | [] => []
  | clause :: rest => clause.nodes ++ nodesIn rest
termination_by structural body => body

/-- The second body of a branch. A chain is another branch, the only node of it. -/
def Tail.otherwise? {kind : BranchKind} : Tail kind → Option (List Node)
  | .close _ => none
  | .otherwise _ body _ => some (nodesIn body)
  | .chain _ head span body tail =>
    some [.branch kind head (nodesIn body) tail.otherwise? (span.through tail.stop)]
termination_by structural tail => tail

end

/-- The nodes of a part of a template. -/
def TopClause.nodes : TopClause → List Node
  | .plain clause => clause.nodes
  | .define name span body stop => [.define name (nodesIn body) (span.through stop)]

/-- The tree of a template. -/
def Document.nodes (document : Document) : List Node :=
  document.flatMap TopClause.nodes

theorem nodesIn_concat (body : List Clause) (clause : Clause) :
    nodesIn (body ++ [clause]) = nodesIn body ++ clause.nodes := by
  induction body with
  | nil => exact List.append_nil _
  | cons first rest ih => rw [List.cons_append, nodesIn, nodesIn, ih, List.append_assoc]

theorem Document.nodes_cons (part : TopClause) (rest : Document) :
    Document.nodes (part :: rest) = part.nodes ++ Document.nodes rest :=
  List.flatMap_cons

theorem Document.nodes_concat (document : Document) (part : TopClause) :
    Document.nodes (document ++ [part]) = document.nodes ++ part.nodes := by
  rw [nodes, nodes, List.flatMap_append, List.flatMap_singleton]

/-! ## Every sequence of pieces has one derivation at most -/

/-- A piece that no part of a body begins with. -/
def endsBody : Piece → Bool
  | .directive .otherwise _ => true
  | .directive (.chain _ _) _ => true
  | .directive .close _ => true
  | _ => false

/-- No body goes on with these pieces. -/
def EndsBody (pieces : List Piece) : Prop :=
  ∀ piece ∈ pieces.head?, endsBody piece = true

theorem Clause.exists_pieces_eq_cons (clause : Clause) :
    ∃ first rest, clause.pieces = first :: rest ∧ endsBody first = false := by
  cases clause <;> exact ⟨_, _, rfl, rfl⟩

theorem endsBody_close (stop : Span) (rest : List Piece) :
    EndsBody (.directive .close stop :: rest) := by
  rintro _ ⟨⟩
  rfl

theorem Tail.endsBody_append {kind : BranchKind} (tail : Tail kind) (rest : List Piece) :
    EndsBody (tail.pieces ++ rest) := by
  cases tail <;> rintro _ ⟨⟩ <;> rfl

theorem not_endsBody_pieces_append (clause : Clause) (rest : List Piece) :
    ¬EndsBody (clause.pieces ++ rest) := by
  intro h
  obtain ⟨first, others, he, hfirst⟩ := clause.exists_pieces_eq_cons
  rw [he] at h
  rw [h first rfl] at hfirst
  cases hfirst

mutual

/-- A part of a body tells by itself where it ends. -/
theorem Clause.pieces_append_inj (left right : Clause) {after others : List Piece}
    (h : left.pieces ++ after = right.pieces ++ others) : left = right ∧ after = others := by
  cases left with
  | literal slice =>
    cases right with
    | literal => cases h; exact ⟨rfl, rfl⟩
    | _ => cases (List.cons.inj h).1
  | comment span =>
    cases right with
    | comment => cases h; exact ⟨rfl, rfl⟩
    | _ => cases (List.cons.inj h).1
  | print pipeline span =>
    cases right with
    | print => cases h; exact ⟨rfl, rfl⟩
    | _ => cases (List.cons.inj h).1
  | invoke name argument span =>
    cases right with
    | invoke => cases h; exact ⟨rfl, rfl⟩
    | _ => cases (List.cons.inj h).1
  | branch kind head span body tail =>
    cases right with
    | branch _ _ _ otherBody otherTail =>
      simp only [Clause.pieces, List.cons_append, List.append_assoc, List.cons.injEq,
        Piece.directive.injEq, Directive.opener.injEq, Head.branch.injEq] at h
      obtain ⟨⟨⟨rfl, rfl⟩, rfl⟩, hrest⟩ := h
      obtain ⟨rfl, htail⟩ := piecesIn_append_inj body otherBody (tail.endsBody_append _)
        (otherTail.endsBody_append _) hrest
      obtain ⟨rfl, rfl⟩ := tail.pieces_append_inj otherTail htail
      exact ⟨rfl, rfl⟩
    | _ => cases (List.cons.inj h).1
  | block name argument span body stop =>
    cases right with
    | block _ _ _ otherBody otherStop =>
      simp only [Clause.pieces, List.cons_append, List.append_assoc, List.cons.injEq] at h
      obtain ⟨⟨⟩, hrest⟩ := h
      obtain ⟨rfl, ⟨⟩⟩ := piecesIn_append_inj body otherBody (endsBody_close _ _)
        (endsBody_close _ _) hrest
      exact ⟨rfl, rfl⟩
    | _ => cases (List.cons.inj h).1
termination_by structural left

/-- A body tells where it ends together with what ends it. -/
theorem piecesIn_append_inj (left right : List Clause) {after others : List Piece}
    (ha : EndsBody after) (ho : EndsBody others)
    (h : piecesIn left ++ after = piecesIn right ++ others) : left = right ∧ after = others := by
  cases left with
  | nil =>
    cases right with
    | nil => exact ⟨rfl, h⟩
    | cons clause rest =>
      rw [piecesIn, piecesIn, List.nil_append, List.append_assoc] at h
      exact absurd (h ▸ ha) (not_endsBody_pieces_append clause _)
  | cons first rest =>
    cases right with
    | nil =>
      rw [piecesIn, piecesIn, List.nil_append, List.append_assoc] at h
      exact absurd (h ▸ ho) (not_endsBody_pieces_append first _)
    | cons other more =>
      rw [piecesIn, piecesIn, List.append_assoc, List.append_assoc] at h
      obtain ⟨rfl, hrest⟩ := first.pieces_append_inj other h
      obtain ⟨rfl, rfl⟩ := piecesIn_append_inj rest more ha ho hrest
      exact ⟨rfl, rfl⟩
termination_by structural left

theorem Tail.pieces_append_inj {kind : BranchKind} (left right : Tail kind)
    {after others : List Piece} (h : left.pieces ++ after = right.pieces ++ others) :
    left = right ∧ after = others := by
  match left with
  | .close stop =>
    cases right with
    | close => cases h; exact ⟨rfl, rfl⟩
    | _ => cases (List.cons.inj h).1
  | .otherwise span body stop =>
    cases right with
    | otherwise _ otherBody otherStop =>
      simp only [Tail.pieces, List.cons_append, List.append_assoc, List.cons.injEq] at h
      obtain ⟨⟨⟩, hrest⟩ := h
      obtain ⟨rfl, ⟨⟩⟩ := piecesIn_append_inj body otherBody (endsBody_close _ _)
        (endsBody_close _ _) hrest
      exact ⟨rfl, rfl⟩
    | _ => cases (List.cons.inj h).1
  | .chain chains head span body tail =>
    cases right with
    | chain _ _ _ otherBody otherTail =>
      simp only [Tail.pieces, List.cons_append, List.append_assoc, List.cons.injEq] at h
      obtain ⟨⟨⟩, hrest⟩ := h
      obtain ⟨rfl, htail⟩ := piecesIn_append_inj body otherBody (tail.endsBody_append _)
        (otherTail.endsBody_append _) hrest
      obtain ⟨rfl, rfl⟩ := tail.pieces_append_inj otherTail htail
      exact ⟨rfl, rfl⟩
    | _ => cases (List.cons.inj h).1
termination_by structural left

end

theorem Clause.pieces_ne_define (clause : Clause) {name : String} {span : Span}
    {after others : List Piece} :
    clause.pieces ++ after ≠ .directive (.opener (.define name)) span :: others := by
  intro h
  cases clause <;> cases (List.cons.inj h).1

theorem TopClause.pieces_append_inj {left right : TopClause} {after others : List Piece}
    (h : left.pieces ++ after = right.pieces ++ others) : left = right ∧ after = others := by
  cases left with
  | plain clause =>
    cases right with
    | plain other =>
      obtain ⟨rfl, rfl⟩ := clause.pieces_append_inj other h
      exact ⟨rfl, rfl⟩
    | define => exact absurd h clause.pieces_ne_define
  | define name span body stop =>
    cases right with
    | plain other => exact absurd h.symm other.pieces_ne_define
    | define _ _ otherBody otherStop =>
      simp only [TopClause.pieces, List.cons_append, List.append_assoc, List.cons.injEq] at h
      obtain ⟨⟨⟩, hrest⟩ := h
      obtain ⟨rfl, ⟨⟩⟩ := piecesIn_append_inj body otherBody (endsBody_close _ _)
        (endsBody_close _ _) hrest
      exact ⟨rfl, rfl⟩

theorem TopClause.pieces_ne_nil (part : TopClause) : part.pieces ≠ [] := by
  cases part with
  | plain clause =>
    obtain ⟨first, rest, he, -⟩ := clause.exists_pieces_eq_cons
    rw [pieces, he]
    exact List.cons_ne_nil _ _
  | define => exact List.cons_ne_nil _ _

/-- The grammar is unambiguous. -/
theorem Document.pieces_inj {left right : Document} (h : left.pieces = right.pieces) :
    left = right := by
  induction left generalizing right with
  | nil =>
    cases right with
    | nil => rfl
    | cons other more => exact absurd (List.append_eq_nil_iff.mp h.symm).1 other.pieces_ne_nil
  | cons first rest ih =>
    cases right with
    | nil => exact absurd (List.append_eq_nil_iff.mp h).1 first.pieces_ne_nil
    | cons other more =>
      obtain ⟨rfl, hrest⟩ := TopClause.pieces_append_inj h
      rw [ih hrest]

/-! ## Reading back -/

/-- What a tree keeps of a piece: nothing of a comment, of an opener where it begins, and of an
`end` where it ends. -/
inductive Mark where
  | literal (slice : Slice)
  | print (pipeline : Pipeline) (span : Span)
  | invoke (name : String) (argument : Option Pipeline) (span : Span)
  | opener (head : Head) (start : Nat)
  | otherwise
  | chain (kind : BranchKind) (head : Pipeline) (start : Nat)
  | close (stop : Nat)

/-- The mark of a piece. -/
def mark? : Piece → Option Mark
  | .literal slice => some (.literal slice)
  | .directive .comment _ => none
  | .directive (.print pipeline) span => some (.print pipeline span)
  | .directive (.invoke name argument) span => some (.invoke name argument span)
  | .directive (.opener head) span => some (.opener head span.start)
  | .directive .otherwise _ => some .otherwise
  | .directive (.chain kind head) span => some (.chain kind head span.start)
  | .directive .close span => some (.close span.stop)

/-- The marks of pieces in order. -/
def marks (pieces : List Piece) : List Mark :=
  pieces.filterMap mark?

section

variable {rest : List Piece} {span : Span}

@[simp] theorem marks_append (pieces others : List Piece) :
    marks (pieces ++ others) = marks pieces ++ marks others :=
  List.filterMap_append

@[simp] theorem marks_opener {head : Head} :
    marks (.directive (.opener head) span :: rest) = .opener head span.start :: marks rest :=
  rfl

@[simp] theorem marks_otherwise :
    marks (.directive .otherwise span :: rest) = .otherwise :: marks rest :=
  rfl

@[simp] theorem marks_chain {kind : BranchKind} {head : Pipeline} :
    marks (.directive (.chain kind head) span :: rest) =
      .chain kind head span.start :: marks rest :=
  rfl

@[simp] theorem marks_close : marks [.directive .close span] = [.close span.stop] :=
  rfl

end

mutual

/-- The nodes of a body are read back in document order as these marks, every node once. A
definition right before the invocation of it may be a block. -/
inductive Spells : List Node → List Mark → Prop
  | nil : Spells [] []
  | literal {slice : Slice} {rest : List Node} {after : List Mark} (next : Spells rest after) :
      Spells (.literal slice :: rest) (.literal slice :: after)
  | print {pipeline : Pipeline} {span : Span} {rest : List Node} {after : List Mark}
      (next : Spells rest after) :
      Spells (.print pipeline span :: rest) (.print pipeline span :: after)
  | invoke {name : String} {argument : Option Pipeline} {span : Span} {rest : List Node}
      {after : List Mark} (next : Spells rest after) :
      Spells (.invoke name argument span :: rest) (.invoke name argument span :: after)
  | branch {kind : BranchKind} {head : Pipeline} {body rest : List Node}
      {otherwise : Option (List Node)} {span : Span} {inside tail after : List Mark}
      (first : Spells body inside) (second : SpellsTail kind span.stop otherwise tail)
      (next : Spells rest after) :
      Spells (.branch kind head body otherwise span :: rest)
        (.opener (.branch kind head) span.start :: (inside ++ tail ++ after))
  | define {name : String} {body rest : List Node} {span : Span} {inside after : List Mark}
      (first : Spells body inside) (next : Spells rest after) :
      Spells (.define name body span :: rest)
        (.opener (.define name) span.start :: (inside ++ [.close span.stop] ++ after))
  | block {name : String} {argument : Option Pipeline} {body rest : List Node} {span : Span}
      {inside after : List Mark} (first : Spells body inside) (next : Spells rest after) :
      Spells (.define name body span :: .invoke name argument span :: rest)
        (.opener (.block name argument) span.start :: (inside ++ [.close span.stop] ++ after))

/-- The rest of a branch after its first body is read back as these marks, up to its `end`. A chain
is a branch of the same kind and with the same `end` that is all of the second body. -/
inductive SpellsTail : BranchKind → Nat → Option (List Node) → List Mark → Prop
  | close {kind : BranchKind} {stop : Nat} : SpellsTail kind stop none [.close stop]
  | otherwise {kind : BranchKind} {stop : Nat} {body : List Node} {inside : List Mark}
      (second : Spells body inside) :
      SpellsTail kind stop (some body) (.otherwise :: (inside ++ [.close stop]))
  | chain {kind : BranchKind} {start stop : Nat} {head : Pipeline} {body : List Node}
      {otherwise : Option (List Node)} {inside tail : List Mark} (first : Spells body inside)
      (second : SpellsTail kind stop otherwise tail) :
      SpellsTail kind stop (some [.branch kind head body otherwise ⟨start, stop⟩])
        (.chain kind head start :: (inside ++ tail))

end

mutual

/-- Nodes that are put before others are read back before them. -/
theorem Clause.spells (clause : Clause) {rest : List Node} {after : List Mark}
    (next : Spells rest after) : Spells (clause.nodes ++ rest) (marks clause.pieces ++ after) := by
  match clause with
  | .literal slice => exact .literal next
  | .comment span => exact next
  | .print pipeline span => exact .print next
  | .invoke name argument span => exact .invoke next
  | .branch kind head span body tail =>
    rw [Clause.pieces, marks_opener, marks_append]
    exact .branch (spells_nodesIn body) tail.spells next
  | .block name argument span body stop =>
    rw [Clause.pieces, marks_opener, marks_append, marks_close]
    exact .block (spells_nodesIn body) next
termination_by structural clause

theorem spells_nodesIn (body : List Clause) : Spells (nodesIn body) (marks (piecesIn body)) := by
  match body with
  | [] => exact .nil
  | clause :: rest =>
    rw [piecesIn, marks_append]
    exact clause.spells (spells_nodesIn rest)
termination_by structural body

theorem Tail.spells {kind : BranchKind} (tail : Tail kind) :
    SpellsTail kind tail.stop.stop tail.otherwise? (marks tail.pieces) := by
  match tail with
  | .close stop => exact .close
  | .otherwise span body stop =>
    rw [Tail.pieces, marks_otherwise, marks_append, marks_close]
    exact .otherwise (spells_nodesIn body)
  | .chain chains head span body tail =>
    rw [Tail.pieces, marks_chain, marks_append]
    exact .chain (spells_nodesIn body) tail.spells
termination_by structural tail

end

/-- The tree of a template is read back as its pieces. -/
theorem Document.spells (document : Document) : Spells document.nodes (marks document.pieces) := by
  induction document with
  | nil => exact .nil
  | cons part rest ih =>
    rw [nodes_cons, pieces_cons, marks_append]
    cases part with
    | plain clause => exact clause.spells ih
    | define name span body stop =>
      rw [TopClause.pieces, marks_opener, marks_append, marks_close]
      exact .define (spells_nodesIn body) ih

end Grammar

end LiveTemplate
