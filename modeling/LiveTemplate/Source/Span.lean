import LiveTemplate.Text.Blank

/-!
# Spans and slices of a source

A `Span` is a range of bytes. A `Slice` is a piece of a source together with its range; it exists
only for ranges whose ends lie between characters, and trimming it narrows the range.
-/

namespace LiveTemplate

/-- A range of byte positions, from `start` up to but not including `stop`. -/
structure Span where
  start : Nat
  stop : Nat
  deriving DecidableEq, Repr, Inhabited

namespace Span

/-- The span moved to the right by a number of bytes. -/
def shift (span : Span) (offset : Nat) : Span :=
  ⟨span.start + offset, span.stop + offset⟩

/-- From the start of one span to the end of another. -/
def through (first last : Span) : Span :=
  ⟨first.start, last.stop⟩

end Span

/-- A text and the byte position at which it begins. -/
structure Slice where
  start : Nat
  text : List Char
  deriving DecidableEq, Repr

namespace Slice

/-- The position after the last byte. -/
def stop (slice : Slice) : Nat :=
  slice.start + Text.byteLength slice.text

/-- The range of bytes that the slice covers. -/
def span (slice : Slice) : Span :=
  ⟨slice.start, slice.stop⟩

/-- Drops the blanks that a trim marker before the slice removes. -/
def trimStart (slice : Slice) : Slice :=
  let text := Text.trimStart Text.isTrimmed slice.text
  ⟨slice.stop - Text.byteLength text, text⟩

/-- Drops the blanks that a trim marker after the slice removes. -/
def trimEnd (slice : Slice) : Slice :=
  ⟨slice.start, Text.trimEnd Text.isTrimmed slice.text⟩

/-- Cuts a text after a number of bytes, unless that is inside a character or past the end. -/
def splitAtByte? (n : Nat) : List Char → Option (List Char × List Char)
  | [] => if n = 0 then some ([], []) else none
  | c :: rest =>
    if n = 0 then some ([], c :: rest)
    else if n < c.utf8Size then none
    else (splitAtByte? (n - c.utf8Size) rest).map fun (before, after) => (c :: before, after)

/-- The slice of a source that covers a span. -/
def ofSpan? (source : List Char) (span : Span) : Option Slice := do
  if span.stop < span.start then none
  else
    let (_, rest) ← splitAtByte? span.start source
    let (text, _) ← splitAtByte? (span.stop - span.start) rest
    some ⟨span.start, text⟩

end Slice

end LiveTemplate
