import LiveTemplate.Proofs.Action.Reports
import LiveTemplate.Proofs.Template.Literals

/-!
# Pieces in their source

The pieces of a source stand in it in order and apart, and what is reported in place of one is
inside the source too (`Scan.spread`).

The body of an action loses blanks and a trim marker on either side, so that what is inside it is
inside the source when it is moved by the offset that the action keeps (`Action.exists_body`).
-/

namespace LiveTemplate

/-! ## Actions -/

theorem Text.byteLength_opened (cs : List Char) :
    byteLength ('{' :: '{' :: cs) = byteLength cs + 2 := by
  have hopen : Char.utf8Size '{' = 1 := rfl
  rw [byteLength_cons, byteLength_cons]
  omega

/-- An action is four bytes longer than what is between its braces. -/
theorem Text.byteLength_braced (inner : List Char) :
    byteLength ('{' :: '{' :: (inner ++ ['}', '}'])) = byteLength inner + 4 := by
  have hclose : byteLength ['}', '}'] = 2 := rfl
  rw [byteLength_opened, byteLength_append, hclose]

namespace Action

theorem exists_dropEndMarker (cs : List Char) :
    ∃ marker, cs = (dropEndMarker cs).2 ++ marker := by
  unfold dropEndMarker
  split
  · rename_i c rest hcs
    split
    · refine ⟨['-'], ?_⟩
      rw [← List.reverse_reverse cs, hcs]
      simp
    · exact ⟨[], (List.append_nil _).symm⟩
  · exact ⟨[], (List.append_nil _).symm⟩

/-- The body stands between the braces at the offset of the action. -/
theorem exists_body (start : Nat) (inner : List Char) :
    ∃ before after, inner = before ++ ((ofInner start inner).body ++ after) ∧
      (ofInner start inner).offset = start + 2 + Text.byteLength before := by
  have hmarker := Scan.splitMarker_append inner
  obtain ⟨stop, hstop⟩ := exists_dropEndMarker (Scan.splitMarker inner).2
  obtain ⟨lead, hlead, -, -⟩ :=
    Text.exists_append_trimStart Text.isBlank (dropEndMarker (Scan.splitMarker inner).2).2
  obtain ⟨trail, htrail, -, -⟩ := Text.exists_trimEnd_append Text.isBlank
    (Text.trimStart Text.isBlank (dropEndMarker (Scan.splitMarker inner).2).2)
  refine ⟨(Scan.splitMarker inner).1 ++ lead, trail ++ stop, ?_, ?_⟩
  · show inner = _ ++ (Text.trimEnd Text.isBlank (Text.trimStart Text.isBlank
      (dropEndMarker (Scan.splitMarker inner).2).2) ++ _)
    rw [← List.append_assoc (Text.trimEnd _ _), ← htrail, List.append_assoc,
      ← List.append_assoc lead, ← hlead, ← hstop, hmarker]
  · have hlength := congrArg Text.byteLength hlead
    show start + 2 + Text.byteLength (Scan.splitMarker inner).1 +
      (Text.byteLength (dropEndMarker (Scan.splitMarker inner).2).2 -
        Text.byteLength (Text.trimStart Text.isBlank
          (dropEndMarker (Scan.splitMarker inner).2).2)) = _
    rw [Text.byteLength_append] at hlength ⊢
    omega

variable {before inner after : List Char}

/-- The braces of an action and what is between them. -/
theorem span_isIn :
    (ofInner (Text.byteLength before) inner).span.IsIn
      (before ++ '{' :: '{' :: (inner ++ '}' :: '}' :: after)) := by
  refine .of_eq_append before ('{' :: '{' :: (inner ++ ['}', '}'])) after (by simp) rfl ?_
  rw [Text.byteLength_braced]
  exact Nat.add_assoc _ _ _

/-- What is blamed on an action is inside the source. -/
theorem Blames.isIn {rejection : Rejection}
    (h : (ofInner (Text.byteLength before) inner).Blames rejection) :
    rejection.IsIn (before ++ '{' :: '{' :: (inner ++ '}' :: '}' :: after)) := by
  intro reports hr
  rcases h reports hr with h | ⟨part, hpart, h⟩
  · rw [h]
    exact span_isIn
  · obtain ⟨lead, trail, hinner, hoffset⟩ := exists_body (Text.byteLength before) inner
    have hin := hpart.shift (before ++ '{' :: '{' :: lead) (trail ++ '}' :: '}' :: after)
    have hlength : Text.byteLength (before ++ '{' :: '{' :: lead) =
        (ofInner (Text.byteLength before) inner).offset := by
      rw [hoffset, Text.byteLength_append, Text.byteLength_opened]
      omega
    rw [hlength, ← h] at hin
    have hsource : before ++ '{' :: '{' :: (inner ++ '}' :: '}' :: after) =
        before ++ '{' :: '{' :: lead ++
          ((ofInner (Text.byteLength before) inner).body ++ (trail ++ '}' :: '}' :: after)) := by
      conv => lhs; rw [hinner]
      simp
    rwa [hsource]

end Action

/-! ## Pieces -/

/-- The bytes that a piece covers. -/
def Piece.span : Piece → Span
  | .literal slice => slice.span
  | .directive _ span => span

/-- Pieces cover bytes of a source between two positions, in order and apart. What stands in place
of a piece that cannot be read is an error inside the source. -/
inductive Spread (source : List Char) : Nat → List (Except Rejection Piece) → Nat → Prop
  | nil {start stop : Nat} (ordered : start ≤ stop) : Spread source start [] stop
  | piece {start stop : Nat} {piece : Piece} {rest : List (Except Rejection Piece)}
      (after : start ≤ piece.span.start) (covers : piece.span.start < piece.span.stop)
      (inside : piece.span.IsIn source) (next : Spread source piece.span.stop rest stop) :
      Spread source start (.ok piece :: rest) stop
  | error {start stop : Nat} {rejection : Rejection} {rest : List (Except Rejection Piece)}
      (inside : rejection.IsIn source) (next : Spread source start rest stop) :
      Spread source start (.error rejection :: rest) stop

namespace Spread

variable {source : List Char} {start middle stop : Nat}
  {pieces others : List (Except Rejection Piece)}

theorem le (h : Spread source start pieces stop) : start ≤ stop := by
  induction h with
  | nil ordered => exact ordered
  | piece after covers _ _ ih => omega
  | error _ _ ih => exact ih

theorem mono (h : Spread source middle pieces stop) (hle : start ≤ middle) :
    Spread source start pieces stop := by
  induction h with
  | nil ordered => exact .nil (Nat.le_trans hle ordered)
  | piece after covers inside next => exact .piece (Nat.le_trans hle after) covers inside next
  | error inside _ ih => exact .error inside (ih hle)

/-- Pieces in a row are spread over two parts in a row. -/
theorem exists_middle (h : Spread source start (pieces ++ others) stop) :
    ∃ middle, Spread source start pieces middle ∧ Spread source middle others stop := by
  induction pieces generalizing start with
  | nil => exact ⟨start, .nil (Nat.le_refl _), h⟩
  | cons first rest ih =>
    cases h with
    | piece after covers inside next =>
      obtain ⟨middle, hrest, hothers⟩ := ih next
      exact ⟨middle, .piece after covers inside hrest, hothers⟩
    | error inside next =>
      obtain ⟨middle, hrest, hothers⟩ := ih next
      exact ⟨middle, .error inside hrest, hothers⟩

/-- What a gap leaves stands in the gap. -/
theorem gapPieces {before after : List Char} (gap : Gap)
    (hgap : source = before ++ (gap.text ++ after)) (hstart : gap.start = Text.byteLength before)
    (front back : Bool) (h : Spread source gap.stop others stop) :
    Spread source gap.start (Scan.gapPieces gap front back ++ others) stop := by
  obtain ⟨rest, hleaves, hrest⟩ := gap.exists_leaves front back
  obtain ⟨lead, trail, htext, hfrom⟩ := hleaves.exists_append
  have hstop : gap.stop = rest.stop + Text.byteLength trail := by
    rw [Slice.stop, Slice.stop, htext, hfrom, Text.byteLength_append, Text.byteLength_append]
    omega
  by_cases hempty : rest.text = []
  · have hnone : gap.literal? front back = none := by
      simpa [hempty] using hrest
    rw [Scan.gapPieces, hnone]
    exact h.mono (Nat.le_add_right _ _)
  · have hsome : gap.literal? front back = some rest := by
      simpa [hempty] using hrest
    have hpos := byteLength_pos hempty
    rw [Scan.gapPieces, hsome]
    have hafter : gap.start ≤ (Piece.literal rest).span.start :=
      Nat.le_trans (Nat.le_add_right _ _) (Nat.le_of_eq hfrom.symm)
    have hcovers : (Piece.literal rest).span.start < (Piece.literal rest).span.stop :=
      Nat.lt_add_of_pos_right hpos
    have hinside : (Piece.literal rest).span.IsIn source := by
      refine .of_eq_append (before ++ lead) rest.text (trail ++ after) ?_ ?_ rfl
      · rw [hgap, htext]
        simp
      · rw [Text.byteLength_append, ← hstart]
        exact hfrom
    exact .piece hafter hcovers hinside (h.mono (hstop ▸ Nat.le_add_right _ _))

end Spread

/-! ## The pieces of a source -/

/-- The pieces of the rest of a source. -/
theorem Scan.spread_piecesAfter (position : Nat) (cs : List Char) :
    ∀ before : List Char, position = Text.byteLength before → ∀ front : Bool,
      Spread (before ++ cs) position
        (piecesAfter front (Scan.ofChars position cs).last (Scan.ofChars position cs).actions)
        (Text.byteLength (before ++ cs)) := by
  fun_induction Scan.ofChars position cs with
  | case1 position cs hopen =>
    rintro before rfl front
    have hgap : before ++ cs = before ++ (cs ++ []) := by simp
    have hend : Slice.stop ⟨Text.byteLength before, cs⟩ ≤ Text.byteLength (before ++ cs) := by
      simp [Slice.stop]
    have hlast := Spread.gapPieces ⟨Text.byteLength before, cs⟩ hgap rfl front false
      (.nil hend)
    rwa [List.append_nil] at hlast
  | case2 position cs gap rest hopen start haction =>
    rintro before rfl front
    refine .error (Rejection.isIn_known ?_) (.nil (by simp))
    have hcs := eq_append_of_splitOpen? hopen
    refine .of_eq_append (before ++ gap) ('{' :: '{' :: rest) [] (by simp [hcs])
      (Text.byteLength_append _ _).symm ?_
    show Text.byteLength before + Text.byteLength cs = Text.byteLength before +
      Text.byteLength gap + _
    rw [hcs, Text.byteLength_append, Nat.add_assoc]
  | case3 position cs gap rest hopen start inner after haction hlt action scan ih =>
    rintro before rfl front
    have hcs := eq_append_of_splitOpen? hopen
    have hrest := eq_append_of_splitAction? haction
    have hsource : before ++ cs =
        before ++ gap ++ '{' :: '{' :: (inner ++ '}' :: '}' :: after) := by
      rw [hcs, hrest, List.append_assoc]
    have hstart : start = Text.byteLength (before ++ gap) := (Text.byteLength_append _ _).symm
    have hspan : action.span.IsIn (before ++ cs) := by
      rw [hsource]
      unfold action
      rw [hstart]
      exact Action.span_isIn
    have hstop : start + Text.byteLength inner + 4 =
        Text.byteLength (before ++ gap ++ '{' :: '{' :: (inner ++ ['}', '}'])) := by
      rw [Text.byteLength_append, Text.byteLength_braced, hstart, Nat.add_assoc]
    have hnext := ih (before ++ gap ++ '{' :: '{' :: (inner ++ ['}', '}'])) hstop action.trimAfter
    have hbehind : before ++ gap ++ '{' :: '{' :: (inner ++ ['}', '}']) ++ after =
        before ++ cs := by
      rw [hsource]
      simp
    rw [hbehind] at hnext
    have hgap : before ++ cs = before ++ (gap ++ '{' :: '{' :: rest) := by rw [hcs]
    refine Spread.gapPieces ⟨Text.byteLength before, gap⟩ hgap rfl front _ ?_
    cases haction : Directive.ofAction action with
    | ok directive =>
      have hcovers : (Piece.directive directive action.span).span.start <
          (Piece.directive directive action.span).span.stop := by
        show start < start + Text.byteLength inner + 4
        omega
      exact .piece (Nat.le_refl _) hcovers hspan hnext
    | error problem =>
      refine .error ?_ (hnext.mono ?_)
      · have hblames := Directive.ofAction_failsWithin action problem haction
        unfold action at hblames
        rw [hstart] at hblames
        rw [hsource]
        exact hblames.isIn
      · show start ≤ start + Text.byteLength inner + 4
        omega

/-- The pieces of a source stand in it in order and apart. -/
theorem Scan.spread (source : List Char) :
    Spread source 0 (Scan.ofSource source).pieces (Text.byteLength source) :=
  spread_piecesAfter 0 source [] rfl false

end LiveTemplate
