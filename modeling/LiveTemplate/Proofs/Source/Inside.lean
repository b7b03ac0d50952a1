import LiveTemplate.Source.Span

/-!
# Spans inside a text

A span is inside a text (`Span.IsIn`) if it can be cut out of it: its ends are in order, not past
the end of the text, and do not split a character. What is inside a part of a text is inside the
text too, when it is moved to where the part begins (`Span.IsIn.shift`).
-/

namespace LiveTemplate

/-- A position between two characters of a text, or at one of its ends. -/
def IsBoundary (text : List Char) (position : Nat) : Prop :=
  ∃ before after, text = before ++ after ∧ position = Text.byteLength before

namespace IsBoundary

variable {text : List Char} {position : Nat}

theorem of_append (before after : List Char) :
    IsBoundary (before ++ after) (Text.byteLength before) :=
  ⟨before, after, rfl, rfl⟩

theorem le (h : IsBoundary text position) : position ≤ Text.byteLength text := by
  obtain ⟨before, after, rfl, rfl⟩ := h
  simp

/-- A boundary in a part of a text. -/
theorem inPart (h : IsBoundary text position) (before after : List Char) :
    IsBoundary (before ++ (text ++ after)) (position + Text.byteLength before) := by
  obtain ⟨left, right, rfl, rfl⟩ := h
  refine ⟨before ++ left, right ++ after, by simp, ?_⟩
  rw [Text.byteLength_append, Nat.add_comm]

end IsBoundary

namespace Span

/-- A span that can be cut out of a text. -/
structure IsIn (span : Span) (text : List Char) : Prop where
  ordered : span.start ≤ span.stop
  inside : span.stop ≤ Text.byteLength text
  start : IsBoundary text span.start
  stop : IsBoundary text span.stop

namespace IsIn

variable {text : List Char} {span first last : Span}

/-- A span between two boundaries. -/
theorem of_boundaries (hs : IsBoundary text span.start) (he : IsBoundary text span.stop)
    (h : span.start ≤ span.stop) : span.IsIn text :=
  ⟨h, he.le, hs, he⟩

/-- The span of a part of a text. -/
theorem of_append (before part after : List Char) :
    IsIn ⟨Text.byteLength before, Text.byteLength before + Text.byteLength part⟩
      (before ++ (part ++ after)) := by
  refine of_boundaries (.of_append _ _) ?_ (Nat.le_add_right _ _)
  have hstop := IsBoundary.of_append (before ++ part) after
  rwa [Text.byteLength_append, List.append_assoc] at hstop

/-- A span that covers a part of a text. -/
theorem of_eq_append (before part after : List Char) (htext : text = before ++ (part ++ after))
    (hstart : span.start = Text.byteLength before)
    (hstop : span.stop = span.start + Text.byteLength part) : span.IsIn text := by
  obtain ⟨start, stop⟩ := span
  dsimp only at hstart hstop
  subst htext hstart hstop
  exact .of_append before part after

theorem shift (h : span.IsIn text) (before after : List Char) :
    (span.shift (Text.byteLength before)).IsIn (before ++ (text ++ after)) :=
  of_boundaries (h.start.inPart _ _) (h.stop.inPart _ _) (Nat.add_le_add_right h.ordered _)

theorem through (hf : first.IsIn text) (hl : last.IsIn text) (h : first.start ≤ last.stop) :
    (first.through last).IsIn text :=
  of_boundaries hf.start hl.stop h

end IsIn

end Span

end LiveTemplate
