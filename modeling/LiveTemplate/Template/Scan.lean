import LiveTemplate.Template.Error

/-!
# Actions in a source

`Scan.ofSource` cuts a source into the actions between double braces and the gaps of literal text
around them.

* `splitOpen?` and `splitClose?` find the next pair of opening and closing braces; braces inside
  strings and inside a leading comment close nothing.
* `Action.ofInner` takes an action apart: trim markers at both ends, and the body between them.
* `Gap.literal?` is the literal text that a gap leaves when the trim markers beside it have taken
  their blanks.
-/

namespace LiveTemplate

/-! ## Where an action begins and ends -/

namespace Scan

/-- The text before the next pair of opening braces, and the text after them. -/
def splitOpen? : List Char → Option (List Char × List Char)
  | [] => none
  | '{' :: '{' :: rest => some ([], rest)
  | c :: rest => (splitOpen? rest).map fun (gap, after) => (c :: gap, after)

/-- The text before the next pair of closing braces outside of strings, and the text after them.
`quote` is the quote of the string that is open, if one is; a backslash takes the meaning from the
character after it in a string in double quotes only. -/
def splitClose? (quote : Option Char) : List Char → Option (List Char × List Char)
  | [] => none
  | [_] => none
  | c :: d :: rest =>
    if quote = none ∧ c = '}' ∧ d = '}' then some ([], rest)
    else if quote = some '"' ∧ c = '\\' then
      (splitClose? quote rest).map fun (inner, after) => (c :: d :: inner, after)
    else
      let quote := match quote with
        | none => if c = '"' ∨ c = '\x60' then some c else none
        | some mark => if c = mark then none else some mark
      (splitClose? quote (d :: rest)).map fun (inner, after) => (c :: inner, after)

/-- The trim marker at the start of an action, if there is one: a minus sign before a blank. -/
def splitMarker (cs : List Char) : List Char × List Char :=
  match cs with
  | '-' :: c :: rest => if Text.isAsciiBlank c then (['-'], c :: rest) else ([], cs)
  | _ => ([], cs)

/-- Cuts the text after an action's opening braces behind the `/*` with which its body begins, none
if it begins otherwise. -/
def splitCommentOpen? (cs : List Char) : Option (List Char × List Char) :=
  let (marker, rest) := splitMarker cs
  match rest.dropWhile Text.isAsciiBlank with
  | '/' :: '*' :: inside =>
    some (marker ++ rest.takeWhile Text.isAsciiBlank ++ ['/', '*'], inside)
  | _ => none

/-- Cuts a text behind the first `*/`. -/
def splitCommentClose? : List Char → Option (List Char × List Char)
  | [] => none
  | '*' :: '/' :: rest => some (['*', '/'], rest)
  | c :: rest => (splitCommentClose? rest).map fun (comment, after) => (c :: comment, after)

/-- The text between an action's braces, and the text after them. -/
def splitAction? (cs : List Char) : Option (List Char × List Char) :=
  match splitCommentOpen? cs with
  | some (lead, inside) => do
    let (comment, rest) ← splitCommentClose? inside
    let (inner, after) ← splitClose? none rest
    some (lead ++ comment ++ inner, after)
  | none => splitClose? none cs

end Scan

/-! ## Actions -/

/-- An action: its span with the braces, its body without trim markers and blanks around it, the
position of the body, and whether it trims the text on either side. -/
structure Action where
  span : Span
  body : List Char
  offset : Nat
  trimBefore : Bool
  trimAfter : Bool
  deriving DecidableEq, Repr

namespace Action

/-- Removes the trim marker at the end of an action, if there is one: a minus sign after a
blank. -/
def dropEndMarker (cs : List Char) : Bool × List Char :=
  match cs.reverse with
  | '-' :: c :: rest => if Text.isAsciiBlank c then (true, (c :: rest).reverse) else (false, cs)
  | _ => (false, cs)

/-- The action with the given text between its braces, whose first brace is at byte `start`. -/
def ofInner (start : Nat) (inner : List Char) : Action :=
  let (marker, rest) := Scan.splitMarker inner
  let (trimAfter, content) := dropEndMarker rest
  let body := Text.trimStart Text.isBlank content
  { span := ⟨start, start + Text.byteLength inner + 4⟩
    body := Text.trimEnd Text.isBlank body
    offset :=
      start + 2 + Text.byteLength marker + (Text.byteLength content - Text.byteLength body)
    trimBefore := !marker.isEmpty
    trimAfter := trimAfter }

end Action

/-! ## Gaps -/

/-- Literal text before, between or after actions. -/
abbrev Gap := Slice

namespace Gap

/-- What is left of a gap if the action before it and the action after it trim or do not, none if
nothing is left. -/
def literal? (gap : Gap) (trimBefore trimAfter : Bool) : Option Slice :=
  let gap := if trimBefore then gap.trimStart else gap
  let gap := if trimAfter then gap.trimEnd else gap
  if gap.text.isEmpty then none else some gap

end Gap

/-! ## Scanning -/

/-- A source cut into actions, each with the gap before it. The scan ends with the gap after the
last action, or with an action that is never closed. -/
structure Scan where
  actions : List (Gap × Action)
  last : Except ParseError Gap

namespace Scan

theorem eq_append_of_splitOpen? {cs gap after : List Char}
    (h : splitOpen? cs = some (gap, after)) : cs = gap ++ '{' :: '{' :: after := by
  fun_induction splitOpen? cs generalizing gap after with
  | case1 => simp at h
  | case2 => simp_all
  | case3 c cs _ ih =>
    simp only [Option.map_eq_some_iff, Prod.exists, Prod.mk.injEq] at h
    obtain ⟨gap', after', h, rfl, rfl⟩ := h
    simp [ih h]

theorem eq_append_of_splitClose? {quote : Option Char} {cs inner after : List Char}
    (h : splitClose? quote cs = some (inner, after)) : cs = inner ++ '}' :: '}' :: after := by
  fun_induction splitClose? quote cs generalizing inner after with
  | case1 => simp at h
  | case2 => simp at h
  | case3 => simp_all
  | case4 quote c d rest _ _ ih =>
    simp only [Option.map_eq_some_iff, Prod.exists, Prod.mk.injEq] at h
    obtain ⟨inner', after', h, rfl, rfl⟩ := h
    simp [ih h]
  | case5 =>
    rename_i ih
    simp only [Option.map_eq_some_iff, Prod.exists, Prod.mk.injEq] at h
    obtain ⟨inner', after', h, rfl, rfl⟩ := h
    simp [ih h]

theorem splitMarker_append (cs : List Char) : (splitMarker cs).1 ++ (splitMarker cs).2 = cs := by
  unfold splitMarker
  split
  · split <;> simp
  · simp

theorem eq_append_of_splitCommentOpen? {cs lead inside : List Char}
    (h : splitCommentOpen? cs = some (lead, inside)) : cs = lead ++ inside := by
  have hmarker := splitMarker_append cs
  simp only [splitCommentOpen?] at h
  split at h
  · next rest hrest =>
    simp only [Option.some.injEq, Prod.mk.injEq] at h
    obtain ⟨rfl, rfl⟩ := h
    have hblanks := List.takeWhile_append_dropWhile (p := Text.isAsciiBlank)
      (l := (splitMarker cs).2)
    rw [hrest] at hblanks
    rw [← hblanks] at hmarker
    simpa using hmarker.symm
  · simp at h

theorem eq_append_of_splitCommentClose? {cs comment after : List Char}
    (h : splitCommentClose? cs = some (comment, after)) : cs = comment ++ after := by
  fun_induction splitCommentClose? cs generalizing comment after with
  | case1 => simp at h
  | case2 =>
    simp only [Option.some.injEq, Prod.mk.injEq] at h
    obtain ⟨rfl, rfl⟩ := h
    simp
  | case3 c cs _ ih =>
    simp only [Option.map_eq_some_iff, Prod.exists, Prod.mk.injEq] at h
    obtain ⟨comment', after', h, rfl, rfl⟩ := h
    simp [ih h]

theorem eq_append_of_splitAction? {cs inner after : List Char}
    (h : splitAction? cs = some (inner, after)) : cs = inner ++ '}' :: '}' :: after := by
  simp only [splitAction?] at h
  split at h
  · next lead inside hopen =>
    simp only [Option.bind_eq_bind, Option.bind_eq_some_iff, Prod.exists, Option.some.injEq,
      Prod.mk.injEq] at h
    obtain ⟨comment, rest, hcomment, inner', after', hclose, rfl, rfl⟩ := h
    rw [eq_append_of_splitCommentOpen? hopen, eq_append_of_splitCommentClose? hcomment,
      eq_append_of_splitClose? hclose]
    simp
  · exact eq_append_of_splitClose? h

/-- The scan of the rest of a source from byte `position` on. -/
def ofChars (position : Nat) (cs : List Char) : Scan :=
  match hopen : splitOpen? cs with
  | none => ⟨[], .ok ⟨position, cs⟩⟩
  | some (gap, rest) =>
    let start := position + Text.byteLength gap
    match haction : splitAction? rest with
    | none =>
      let problem :=
        if (splitCommentOpen? rest).isSome then .unclosedComment else .unclosedAction
      ⟨[], .error ⟨problem, ⟨start, position + Text.byteLength cs⟩⟩⟩
    | some (inner, after) =>
      have : after.length < cs.length := by
        rw [eq_append_of_splitOpen? hopen, eq_append_of_splitAction? haction]
        simp only [List.length_append, List.length_cons]
        omega
      let action := Action.ofInner start inner
      let scan := Scan.ofChars action.span.stop after
      ⟨(⟨position, gap⟩, action) :: scan.actions, scan.last⟩
termination_by cs.length

/-- The actions of a source and the gaps around them. -/
def ofSource (source : List Char) : Scan :=
  Scan.ofChars 0 source

end Scan

end LiveTemplate
