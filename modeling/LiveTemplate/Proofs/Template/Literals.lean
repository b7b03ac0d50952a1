import LiveTemplate.Proofs.Template.Cuts
import LiveTemplate.Proofs.Template.Matching

/-!
# The literal text of a template

No text of a source is lost or added (`literals_of_parse`): the literals of the tree are what the
gaps between the actions leave, in order and at their places.

* `Grammar.Document.literalsIn_nodes`: the literals of a tree in document order are those of its
  pieces.
* `Gap.Leaves`: what a gap leaves between two actions, `Leave` what all gaps of a source leave.
* `Leave.isFrom`: what is left stands in the source where its span says.
-/

namespace LiveTemplate

open Grammar

/-! ## Literals of trees -/

mutual

/-- The literals of a node in document order. -/
def Node.literals : Node → List Slice
  | .literal slice => [slice]
  | .print _ _ => []
  | .branch _ _ body otherwise _ => literalsIn body ++ literalsInElse otherwise
  | .define _ body _ => literalsIn body
  | .invoke _ _ _ => []
termination_by structural node => node

/-- The literals of a body in document order. -/
def literalsIn : List Node → List Slice
  | [] => []
  | node :: rest => node.literals ++ literalsIn rest
termination_by structural nodes => nodes

/-- The literals of the second body of a branch. -/
def literalsInElse : Option (List Node) → List Slice
  | none => []
  | some nodes => literalsIn nodes
termination_by structural nodes => nodes

end

theorem literalsIn_append (nodes others : List Node) :
    literalsIn (nodes ++ others) = literalsIn nodes ++ literalsIn others := by
  induction nodes with
  | nil => rfl
  | cons node rest ih => rw [List.cons_append, literalsIn, literalsIn, ih, List.append_assoc]

theorem literalsIn_singleton (node : Node) : literalsIn [node] = node.literals :=
  List.append_nil _

/-- The slice of a piece that is a literal. -/
def Piece.literal? : Piece → Option Slice
  | .literal slice => some slice
  | .directive _ _ => none

/-- The literals among pieces. -/
def literalsOf (pieces : List Piece) : List Slice :=
  pieces.filterMap Piece.literal?

@[simp] theorem literalsOf_append (pieces others : List Piece) :
    literalsOf (pieces ++ others) = literalsOf pieces ++ literalsOf others :=
  List.filterMap_append

@[simp] theorem literalsOf_directive {directive : Directive} {span : Span} {rest : List Piece} :
    literalsOf (.directive directive span :: rest) = literalsOf rest :=
  rfl

namespace Grammar

mutual

theorem Clause.literalsIn_nodes (clause : Clause) :
    literalsIn clause.nodes = literalsOf clause.pieces := by
  match clause with
  | .literal slice => rfl
  | .comment span => rfl
  | .print pipeline span => rfl
  | .invoke name argument span => rfl
  | .branch kind head span body tail =>
    rw [Clause.nodes, literalsIn_singleton, Node.literals, literalsIn_nodesIn body,
      tail.literalsInElse_otherwise, Clause.pieces, literalsOf_directive, literalsOf_append]
  | .block name argument span body stop =>
    rw [Clause.nodes, literalsIn, Node.literals, literalsIn_nodesIn body, Clause.pieces,
      literalsOf_directive, literalsOf_append]
    rfl
termination_by structural clause

theorem literalsIn_nodesIn (body : List Clause) :
    literalsIn (nodesIn body) = literalsOf (piecesIn body) := by
  match body with
  | [] => rfl
  | clause :: rest =>
    rw [nodesIn, literalsIn_append, clause.literalsIn_nodes, literalsIn_nodesIn rest, piecesIn,
      literalsOf_append]
termination_by structural body

theorem Tail.literalsInElse_otherwise {kind : BranchKind} (tail : Tail kind) :
    literalsInElse tail.otherwise? = literalsOf tail.pieces := by
  match tail with
  | .close stop => rfl
  | .otherwise span body stop =>
    rw [Tail.otherwise?, literalsInElse, literalsIn_nodesIn body, Tail.pieces,
      literalsOf_directive, literalsOf_append]
    exact (List.append_nil _).symm
  | .chain chains head span body tail =>
    rw [Tail.otherwise?, literalsInElse, literalsIn_singleton, Node.literals,
      literalsIn_nodesIn body, tail.literalsInElse_otherwise, Tail.pieces, literalsOf_directive,
      literalsOf_append]
termination_by structural tail

end

theorem TopClause.literalsIn_nodes (part : TopClause) :
    literalsIn part.nodes = literalsOf part.pieces := by
  cases part with
  | plain clause => exact clause.literalsIn_nodes
  | define name span body stop =>
    rw [nodes, literalsIn_singleton, Node.literals, literalsIn_nodesIn body, pieces,
      literalsOf_directive, literalsOf_append]
    exact (List.append_nil _).symm

/-- The literals of a tree are those of its pieces in order. -/
theorem Document.literalsIn_nodes (document : Document) :
    literalsIn document.nodes = literalsOf document.pieces := by
  induction document with
  | nil => rfl
  | cons part rest ih =>
    rw [nodes_cons, literalsIn_append, part.literalsIn_nodes, ih, pieces_cons, literalsOf_append]

end Grammar

/-! ## Trimming -/

namespace Text

variable (p : Char → Bool) (cs : List Char)

theorem exists_append_trimStart :
    ∃ lead, cs = lead ++ trimStart p cs ∧ (∀ c ∈ lead, p c = true) ∧
      ∀ c ∈ (trimStart p cs).head?, p c = false := by
  refine ⟨cs.takeWhile p, List.takeWhile_append_dropWhile.symm,
    fun c hc => List.all_eq_true.mp List.all_takeWhile c hc, fun c hc => ?_⟩
  have hnot := List.head?_dropWhile_not p cs
  rw [trimStart] at hc
  rwa [Option.mem_def.mp hc] at hnot

theorem exists_trimEnd_append :
    ∃ trail, cs = trimEnd p cs ++ trail ∧ (∀ c ∈ trail, p c = true) ∧
      ∀ c ∈ (trimEnd p cs).getLast?, p c = false := by
  obtain ⟨lead, hcs, hlead, hhead⟩ := exists_append_trimStart p cs.reverse
  refine ⟨lead.reverse, ?_, fun c hc => hlead c (List.mem_reverse.mp hc), ?_⟩
  · rw [trimEnd, ← List.reverse_append]
    exact List.reverse_eq_iff.mp hcs
  · rwa [trimEnd, List.getLast?_reverse]

end Text

namespace Slice

variable (slice : Slice)

/-- All leading blanks are taken, or nothing. -/
theorem exists_trimStart (front : Bool) :
    ∃ lead text, slice.text = lead ++ text ∧ (∀ c ∈ lead, Text.isTrimmed c = true) ∧
      (¬front = true → lead = []) ∧
      (front = true → ∀ c ∈ text.head?, Text.isTrimmed c = false) ∧
      (if front then slice.trimStart else slice) =
        ⟨slice.start + Text.byteLength lead, text⟩ := by
  cases front with
  | false => exact ⟨[], slice.text, rfl, by simp, by simp, by simp, rfl⟩
  | true =>
    obtain ⟨lead, htext, hblank, hhead⟩ := Text.exists_append_trimStart Text.isTrimmed slice.text
    refine ⟨lead, _, htext, hblank, by simp, fun _ => hhead, ?_⟩
    have hlength := congrArg Text.byteLength htext
    rw [Text.byteLength_append] at hlength
    rw [if_pos rfl, trimStart, stop]
    congr 1
    omega

/-- All trailing blanks are taken, or nothing. -/
theorem exists_trimEnd (back : Bool) :
    ∃ text trail, slice.text = text ++ trail ∧ (∀ c ∈ trail, Text.isTrimmed c = true) ∧
      (¬back = true → trail = []) ∧
      (back = true → ∀ c ∈ text.getLast?, Text.isTrimmed c = false) ∧
      (if back then slice.trimEnd else slice) = ⟨slice.start, text⟩ := by
  cases back with
  | false => exact ⟨slice.text, [], (List.append_nil _).symm, by simp, by simp, by simp, rfl⟩
  | true =>
    obtain ⟨trail, htext, hblank, hlast⟩ := Text.exists_trimEnd_append Text.isTrimmed slice.text
    exact ⟨_, trail, htext, hblank, by simp, fun _ => hlast, rfl⟩

end Slice

/-! ## What gaps leave -/

/-- What a gap leaves if its leading blanks are taken or not and its trailing blanks are taken or
not. All blanks are taken on a side, or none, and nothing else. -/
inductive Gap.Leaves (gap : Gap) (front back : Prop) : Slice → Prop
  | intro {lead text trail : List Char} (whole : gap.text = lead ++ text ++ trail)
      (leadBlank : ∀ c ∈ lead, Text.isTrimmed c = true)
      (trailBlank : ∀ c ∈ trail, Text.isTrimmed c = true)
      (frontKept : ¬front → lead = []) (backKept : ¬back → trail = [])
      (frontTaken : front → ∀ c ∈ text.head?, Text.isTrimmed c = false)
      (backTaken : back → ∀ c ∈ text.getLast?, Text.isTrimmed c = false) :
      gap.Leaves front back ⟨gap.start + Text.byteLength lead, text⟩

/-- What the gaps of a source leave in order. The first gap loses its leading blanks on the given
condition, every other one where the action before it ends with a trim marker; a gap loses its
trailing blanks where the action after it begins with one. -/
inductive Leave : Prop → List Cut → Gap → List Slice → Prop
  | last {front : Prop} {gap : Gap} {rest : Slice} (leaves : gap.Leaves front False rest) :
      Leave front [] gap [rest]
  | action {front : Prop} {cut : Cut} {cuts : List Cut} {last : Gap} {rest : Slice}
      {rests : List Slice} (leaves : cut.gap.Leaves front (BeginsWithMarker cut.inner) rest)
      (next : Leave (EndsWithMarker cut.inner) cuts last rests) :
      Leave front (cut :: cuts) last (rest :: rests)

/-- What is left of a gap is a literal unless it is empty. -/
theorem Gap.exists_leaves (gap : Gap) (front back : Bool) :
    ∃ rest, gap.Leaves (front = true) (back = true) rest ∧
      (gap.literal? front back).toList = [rest].filter (·.text ≠ []) := by
  obtain ⟨lead, middle, hwhole, hlead, hfront, hhead, hstart⟩ := gap.exists_trimStart front
  obtain ⟨text, trail, hmiddle, htrail, hback, hlast, hend⟩ :=
    Slice.exists_trimEnd ⟨gap.start + Text.byteLength lead, middle⟩ back
  simp only at hmiddle
  subst hmiddle
  refine ⟨⟨gap.start + Text.byteLength lead, text⟩, ?_, ?_⟩
  · refine .intro (by rw [hwhole, List.append_assoc]) hlead htrail hfront hback
      (fun h c hc => hhead h c ?_) hlast
    rw [List.head?_append, Option.mem_def.mp hc]
    rfl
  · rw [Gap.literal?, hstart, hend]
    cases text <;> rfl

theorem literalsOf_of_gapPieces {gap : Gap} {front back : Bool} {pieces : List Piece}
    (h : Scan.gapPieces gap front back = pieces.map .ok) :
    literalsOf pieces = (gap.literal? front back).toList := by
  rw [Scan.gapPieces, eq_comm] at h
  cases hl : gap.literal? front back with
  | none =>
    rw [hl] at h
    rw [List.map_eq_nil_iff.mp h]
    rfl
  | some slice =>
    rw [hl] at h
    obtain ⟨piece, rest, rfl, ⟨⟩, hrest⟩ := List.map_eq_cons_iff.mp h
    rw [List.map_eq_nil_iff.mp hrest]
    rfl

/-- The literals of a source are what its gaps leave. -/
theorem exists_leave {cuts : List Cut} {last : Gap} {front : Bool} {pieces : List Piece}
    (h : Scan.piecesAfter front (.ok last) (cuts.map fun cut => (cut.gap, cut.action)) =
      pieces.map .ok) :
    ∃ rests, Leave (front = true) cuts last rests ∧
      literalsOf pieces = rests.filter (·.text ≠ []) := by
  induction cuts generalizing front pieces with
  | nil =>
    obtain ⟨rest, hleaves, hrest⟩ := last.exists_leaves front false
    refine ⟨[rest], .last ?_, (literalsOf_of_gapPieces h).trans hrest⟩
    simpa using hleaves
  | cons cut cuts ih =>
    have hbefore : (cut.action.trimBefore = true) = BeginsWithMarker cut.inner :=
      propext Action.trimBefore_ofInner_iff
    have hafter : (cut.action.trimAfter = true) = EndsWithMarker cut.inner :=
      propext Action.trimAfter_ofInner_iff
    obtain ⟨before, directive, after, rfl, hgap, -, hnext⟩ := piecesAfter_cons_eq_map_ok h
    obtain ⟨rest, hleaves, hrest⟩ := cut.gap.exists_leaves front cut.action.trimBefore
    obtain ⟨rests, hleave, hrests⟩ := ih hnext
    rw [hbefore] at hleaves
    rw [hafter] at hleave
    refine ⟨rest :: rests, .action hleaves hleave, ?_⟩
    rw [literalsOf_append, literalsOf_directive, literalsOf_of_gapPieces hgap, hrest, hrests,
      ← List.filter_append]
    rfl

/-! ## Places in the source -/

/-- A slice stands in a source where its span says. -/
def Slice.IsFrom (slice : Slice) (source : List Char) : Prop :=
  ∃ before after, source = before ++ slice.text ++ after ∧
    slice.span = ⟨Text.byteLength before, Text.byteLength before + Text.byteLength slice.text⟩

theorem Gap.Leaves.exists_append {gap : Gap} {front back : Prop} {rest : Slice}
    (h : gap.Leaves front back rest) :
    ∃ lead trail, gap.text = lead ++ rest.text ++ trail ∧
      rest.start = gap.start + Text.byteLength lead := by
  cases h with
  | intro whole => exact ⟨_, _, whole, rfl⟩

/-- What the gaps leave stands in the text that was cut. -/
theorem Leave.exists_append {position : Nat} {text : List Char} {cuts : List Cut} {last : Gap}
    {front : Prop} {rests : List Slice} (hleave : Leave front cuts last rests)
    (hcuts : Cuts position text cuts last) :
    ∀ rest ∈ rests, ∃ before after, text = before ++ rest.text ++ after ∧
      rest.start = position + Text.byteLength before := by
  induction hcuts generalizing front rests with
  | last =>
    cases hleave with
    | last hleaves => exact List.forall_mem_singleton.mpr hleaves.exists_append
  | @action position gap inner after cuts last _ _ _ ih =>
    cases hleave with
    | action hleaves hnext =>
      refine List.forall_mem_cons.mpr ⟨?_, fun rest hm => ?_⟩
      · obtain ⟨lead, trail, rfl, hstart⟩ := hleaves.exists_append
        exact ⟨lead, trail ++ '{' :: '{' :: (inner ++ '}' :: '}' :: after), by simp, hstart⟩
      · obtain ⟨before, behind, rfl, hstart⟩ := ih hnext rest hm
        refine ⟨gap ++ '{' :: '{' :: (inner ++ '}' :: '}' :: before), behind, by simp, ?_⟩
        have hopen : Char.utf8Size '{' = 1 := rfl
        have hclose : Char.utf8Size '}' = 1 := rfl
        simp only [hstart, Text.byteLength_append, Text.byteLength_cons]
        omega

/-- The literals of a template in document order are what the gaps before, between and after its
actions leave, without what is empty, and each of them stands in the source where its span says. -/
theorem literals_of_parse {source : String} {nodes : List Node} (h : parse source = .ok nodes) :
    ∃ cuts last rests, Cuts 0 source.toList cuts last ∧
      Scan.ofSource source.toList = ⟨cuts.map fun cut => (cut.gap, cut.action), .ok last⟩ ∧
      Leave False cuts last rests ∧ literalsIn nodes = rests.filter (·.text ≠ []) ∧
      ∀ slice ∈ literalsIn nodes, slice.IsFrom source.toList := by
  obtain ⟨document, hpieces, rfl⟩ := parse_iff.mp h
  obtain ⟨⟨last, hlast⟩, -⟩ := reads_of_parse h
  obtain ⟨cuts, hcuts, hactions⟩ := Scan.exists_cuts hlast
  have hscan : Scan.ofSource source.toList =
      ⟨cuts.map fun cut => (cut.gap, cut.action), .ok last⟩ := by
    rw [← hactions, ← hlast]
    rfl
  rw [hscan] at hpieces
  obtain ⟨rests, hleave, hrests⟩ := exists_leave hpieces
  rw [Bool.false_eq_true] at hleave
  rw [document.literalsIn_nodes, hrests]
  refine ⟨cuts, last, rests, hcuts, hscan, hleave, rfl, fun slice hm => ?_⟩
  obtain ⟨before, after, hsource, hstart⟩ :=
    hleave.exists_append hcuts slice (List.mem_filter.mp hm).1
  rw [Nat.zero_add] at hstart
  exact ⟨before, after, hsource, by rw [Slice.span, Slice.stop, hstart]⟩

/-- An action that trims on both sides, and a comment. The first character has two bytes. -/
theorem literals_of_parse_trimmed :
    let source := "é \x7b\x7b- .X -\x7d\x7d\n b\x7b\x7b/* c */\x7d\x7d d"
    let nodes : List Node := [.literal ⟨0, ['é']⟩,
      .print ⟨none, [.operand (.field ["X"])]⟩ ⟨3, 13⟩, .literal ⟨15, ['b']⟩,
      .literal ⟨27, [' ', 'd']⟩]
    parse source = .ok nodes ∧
      ∃ cuts last rests, Cuts 0 source.toList cuts last ∧
        Scan.ofSource source.toList = ⟨cuts.map fun cut => (cut.gap, cut.action), .ok last⟩ ∧
        Leave False cuts last rests ∧ literalsIn nodes = rests.filter (·.text ≠ []) ∧
        ∀ slice ∈ literalsIn nodes, slice.IsFrom source.toList := by
  intro source nodes
  have hparse : parse source = .ok nodes := by
    unfold source nodes
    with_unfolding_all rfl
  exact ⟨hparse, literals_of_parse hparse⟩

end LiveTemplate
