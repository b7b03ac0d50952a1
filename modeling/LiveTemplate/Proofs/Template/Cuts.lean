import LiveTemplate.Template.Scan

/-!
# How a source is cut

`Cuts` tells which gaps and actions a source has: a gap goes on to the next pair of opening braces,
and what follows the pair is an action up to where `Scan.splitAction?` closes it.

* `Scan.exists_cuts`: a scan to the end of a source gives the actions of its cuts.
* `Action.trimBefore_ofInner_iff` and `Action.trimAfter_ofInner_iff`: which actions trim. One blank
  between two minus signs serves both.
-/

namespace LiveTemplate

/-! ## Pairs of characters -/

theorem pair_infix_cons_iff {a b c : Char} {cs : List Char} :
    [a, b] <:+: c :: cs ↔ (a = c ∧ cs.head? = some b) ∨ [a, b] <:+: cs := by
  rw [List.infix_cons_iff, List.cons_prefix_cons]
  cases cs with
  | nil => simp
  | cons d rest => simp [eq_comm (a := b)]

namespace Scan

theorem not_infix_of_splitOpen?_eq_none {cs : List Char} (h : splitOpen? cs = none) :
    ¬['{', '{'] <:+: cs := by
  fun_induction splitOpen? cs with
  | case1 => simp
  | case2 => cases h
  | case3 c rest hne ih =>
    rw [pair_infix_cons_iff]
    rintro (⟨rfl, hhead⟩ | hrest)
    · obtain ⟨after, rfl⟩ := List.head?_eq_some_iff.mp hhead
      exact hne after rfl rfl
    · exact ih (Option.map_eq_none_iff.mp h) hrest

/-- A gap ends with the first pair of opening braces. -/
theorem not_infix_of_splitOpen?_eq_some {cs gap after : List Char}
    (h : splitOpen? cs = some (gap, after)) : ¬['{', '{'] <:+: gap ++ ['{'] := by
  fun_induction splitOpen? cs generalizing gap after with
  | case1 => cases h
  | case2 =>
    cases h
    simp [pair_infix_cons_iff]
  | case3 c rest hne ih =>
    obtain ⟨⟨others, _⟩, hsplit, ⟨⟩⟩ := Option.map_eq_some_iff.mp h
    rw [List.cons_append, pair_infix_cons_iff]
    rintro (⟨rfl, hhead⟩ | hrest)
    · -- The brace after the gap would have been the second one of a pair.
      have hbrace : rest.head? = some '{' := by
        rw [eq_append_of_splitOpen? hsplit]
        cases others <;> exact hhead
      obtain ⟨tail, rfl⟩ := List.head?_eq_some_iff.mp hbrace
      exact hne tail rfl rfl
    · exact ih hsplit hrest

end Scan

/-! ## Trim markers -/

/-- The text between an action's braces begins with a trim marker: a minus sign before a blank. -/
def BeginsWithMarker (inner : List Char) : Prop :=
  ∃ blank rest, Text.isAsciiBlank blank = true ∧ inner = '-' :: blank :: rest

/-- The text between an action's braces ends with a trim marker: a minus sign after a blank. -/
def EndsWithMarker (inner : List Char) : Prop :=
  ∃ rest blank, Text.isAsciiBlank blank = true ∧ inner = rest ++ [blank, '-']

namespace Scan

theorem splitMarker_of_beginsWithMarker {inner : List Char} (h : BeginsWithMarker inner) :
    ∃ rest, inner = '-' :: rest ∧ splitMarker inner = (['-'], rest) := by
  obtain ⟨blank, rest, hblank, rfl⟩ := h
  exact ⟨blank :: rest, rfl, by simp [splitMarker, hblank]⟩

theorem splitMarker_of_not_beginsWithMarker {inner : List Char} (h : ¬BeginsWithMarker inner) :
    splitMarker inner = ([], inner) := by
  unfold splitMarker
  split
  · rename_i blank rest
    split
    · rename_i hblank
      exact absurd ⟨blank, rest, hblank, rfl⟩ h
    · rfl
  · rfl

end Scan

namespace Action

theorem dropEndMarker_fst_iff {cs : List Char} :
    (dropEndMarker cs).1 = true ↔ EndsWithMarker cs := by
  unfold dropEndMarker
  constructor
  · intro h
    split at h
    · rename_i blank rest hcs
      split at h
      · rename_i hblank
        refine ⟨rest.reverse, blank, hblank, ?_⟩
        rw [← List.reverse_reverse cs, hcs]
        simp
      · cases h
    · cases h
  · rintro ⟨rest, blank, hblank, rfl⟩
    simp [hblank]

theorem trimBefore_ofInner_iff {start : Nat} {inner : List Char} :
    (ofInner start inner).trimBefore = true ↔ BeginsWithMarker inner := by
  by_cases h : BeginsWithMarker inner
  · obtain ⟨rest, -, hsplit⟩ := Scan.splitMarker_of_beginsWithMarker h
    simp [ofInner, hsplit, h]
  · simp [ofInner, Scan.splitMarker_of_not_beginsWithMarker h, h]

/-- The marker at the end is looked for behind the marker at the beginning, but a blank is enough to
keep them apart. -/
theorem trimAfter_ofInner_iff {start : Nat} {inner : List Char} :
    (ofInner start inner).trimAfter = true ↔ EndsWithMarker inner := by
  have hafter : (ofInner start inner).trimAfter = (dropEndMarker (Scan.splitMarker inner).2).1 :=
    rfl
  rw [hafter, dropEndMarker_fst_iff]
  by_cases h : BeginsWithMarker inner
  · obtain ⟨rest, rfl, hsplit⟩ := Scan.splitMarker_of_beginsWithMarker h
    rw [hsplit]
    constructor
    · rintro ⟨before, blank, hblank, hrest⟩
      exact ⟨'-' :: before, blank, hblank, congrArg ('-' :: ·) hrest⟩
    · rintro ⟨before, blank, hblank, hinner⟩
      cases before with
      | nil =>
        -- The minus sign of the marker is no blank.
        cases hinner
        simp [Text.isAsciiBlank] at hblank
      | cons c before => exact ⟨before, blank, hblank, (List.cons.inj hinner).2⟩
  · rw [Scan.splitMarker_of_not_beginsWithMarker h]

end Action

/-! ## Cuts -/

/-- An action with the gap before it: the text between its braces. -/
structure Cut where
  gap : Gap
  inner : List Char

/-- The action of a cut. -/
def Cut.action (cut : Cut) : Action :=
  .ofInner cut.gap.stop cut.inner

/-- How a text that begins at a byte position is cut into actions, each with the gap before it, and
the gap after the last of them. -/
inductive Cuts : Nat → List Char → List Cut → Gap → Prop
  | last {position : Nat} {text : List Char} (unopened : ¬['{', '{'] <:+: text) :
      Cuts position text [] ⟨position, text⟩
  | action {position : Nat} {gap inner after : List Char} {cuts : List Cut} {last : Gap}
      (opens : ¬['{', '{'] <:+: gap ++ ['{'])
      (closes : Scan.splitAction? (inner ++ '}' :: '}' :: after) = some (inner, after))
      (next : Cuts (position + Text.byteLength gap + Text.byteLength inner + 4) after cuts last) :
      Cuts position (gap ++ '{' :: '{' :: (inner ++ '}' :: '}' :: after))
        (⟨⟨position, gap⟩, inner⟩ :: cuts) last

/-- A scan that comes to the end of a text gives the actions of its cuts. -/
theorem Scan.exists_cuts {position : Nat} {text : List Char} {last : Gap}
    (h : (Scan.ofChars position text).last = .ok last) :
    ∃ cuts, Cuts position text cuts last ∧
      (Scan.ofChars position text).actions = cuts.map fun cut => (cut.gap, cut.action) := by
  fun_induction Scan.ofChars position text with
  | case1 position text hopen =>
    cases h
    exact ⟨[], .last (not_infix_of_splitOpen?_eq_none hopen), rfl⟩
  | case2 => cases h
  | case3 position text gap rest hopen start inner after haction hlt action scan ih =>
    obtain ⟨cuts, hcuts, hactions⟩ := ih h
    refine ⟨⟨⟨position, gap⟩, inner⟩ :: cuts, ?_, congrArg (_ :: ·) hactions⟩
    have hrest := eq_append_of_splitAction? haction
    subst hrest
    rw [eq_append_of_splitOpen? hopen]
    exact .action (not_infix_of_splitOpen?_eq_some hopen) haction hcuts

end LiveTemplate
