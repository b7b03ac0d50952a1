import LiveTemplate.Proofs.Action.Tokens
import Mathlib.Data.List.TakeWhile

/-!
# A text as tokens

`Lexed` tells that a text is blanks and tokens at their places, each of them read where it stands;
`Lexer.lex_eq_some_iff`: this is what the lexer finds, except that it finds nothing in blanks alone.

* `Lexed.cut`, `Lexed.pairwise` and `Lexed.isBlank_of_outside`: each span covers the text of its
  token, spans are apart and in order, and between them there are blanks.
* `exists_lexed_intercalate`: tokens that are written with one space between any two are found
  again.
-/

namespace LiveTemplate

namespace Slice

/-- Positions that count bytes cut where the characters are cut. -/
theorem splitAtByte?_append (before after : List Char) :
    splitAtByte? (Text.byteLength before) (before ++ after) = some (before, after) := by
  induction before with
  | nil => cases after <;> rfl
  | cons c before ih =>
    have hpos := c.utf8Size_pos
    rw [List.cons_append, splitAtByte?, Text.byteLength_cons, if_neg (by omega), if_neg (by omega),
      Nat.add_sub_cancel_left, ih]
    rfl

theorem ofSpan?_append (before text after : List Char) :
    ofSpan? (before ++ (text ++ after))
        ⟨Text.byteLength before, Text.byteLength before + Text.byteLength text⟩ =
      some ⟨Text.byteLength before, text⟩ := by
  rw [ofSpan?, if_neg (by simp), splitAtByte?_append]
  simp only [Nat.add_sub_cancel_left, Option.bind_eq_bind, Option.bind_some]
  rw [splitAtByte?_append]
  rfl

end Slice

open Lexer

theorem byteLength_pos {cs : List Char} (h : cs ≠ []) : 0 < Text.byteLength cs := by
  cases cs with
  | nil => exact absurd rfl h
  | cons c cs =>
    have hpos := c.utf8Size_pos
    rw [Text.byteLength_cons]
    omega

/-- A text from a byte position on is blanks and these tokens, each read where it stands. -/
inductive Lexed : Nat → List Char → List Lexeme → Prop
  | blanks {position : Nat} {cs : List Char} (blank : ∀ c ∈ cs, Text.isBlank c = true) :
      Lexed position cs []
  | token {position : Nat} {blanks rest : List Char} {token : Token} {found : List Lexeme}
      (blank : ∀ c ∈ blanks, Text.isBlank c = true)
      (read : Lexer.next (token.chars ++ rest) = some (token, rest))
      (next : Lexed (position + Text.byteLength blanks + Text.byteLength token.chars) rest found) :
      Lexed position (blanks ++ (token.chars ++ rest))
        (⟨token, position + Text.byteLength blanks,
          position + Text.byteLength blanks + Text.byteLength token.chars⟩ :: found)

namespace Lexed

variable {position : Nat} {cs rest : List Char} {token : Token} {found : List Lexeme}

/-- A token at the very start of a text. -/
theorem cons (read : Lexer.next (token.chars ++ rest) = some (token, rest))
    (next : Lexed (position + Text.byteLength token.chars) rest found) :
    Lexed position (token.chars ++ rest)
      (⟨token, position, position + Text.byteLength token.chars⟩ :: found) :=
  .token (List.forall_mem_nil _) read next

theorem blanks_append {blanks : List Char} (hb : ∀ c ∈ blanks, Text.isBlank c = true)
    (h : Lexed (position + Text.byteLength blanks) cs found) :
    Lexed position (blanks ++ cs) found := by
  cases h with
  | blanks blank => exact .blanks (List.forall_mem_append.mpr ⟨hb, blank⟩)
  | @token _ more _ _ _ blank read next =>
    have hlexed : Lexed position (blanks ++ more ++ _) _ :=
      .token (List.forall_mem_append.mpr ⟨hb, blank⟩) read
        (by rw [Text.byteLength_append, ← Nat.add_assoc]; exact next)
    rw [Text.byteLength_append, ← Nat.add_assoc, List.append_assoc] at hlexed
    exact hlexed

end Lexed

/-! ## The lexer finds the tokens of a text -/

/-- Where a token is read there is no blank. -/
theorem isBlank_of_next {cs : List Char} {result : Token × List Char} (h : next cs = some result) :
    ∀ c ∈ cs.head?, Text.isBlank c = false := by
  obtain ⟨token, rest⟩ := result
  obtain ⟨rfl, hne⟩ := eq_append_of_next h
  have hlexical := lexical_of_next h
  cases hchars : token.chars with
  | nil => exact absurd hchars hne
  | cons c others =>
    rintro _ ⟨⟩
    by_cases hs : token.IsString
    · rcases hs.quote_of_head? (c := c) (hchars ▸ rfl) with rfl | rfl <;> decide
    · exact hlexical.isBlank hs c (hchars ▸ List.mem_cons_self)

theorem takeWhile_isBlank_append {blanks cs : List Char}
    (hb : ∀ c ∈ blanks, Text.isBlank c = true) (hc : ∀ c ∈ cs.head?, Text.isBlank c = false) :
    (blanks ++ cs).takeWhile Text.isBlank = blanks ∧
      (blanks ++ cs).dropWhile Text.isBlank = cs := by
  rw [List.takeWhile_append_of_pos hb, List.dropWhile_append_of_pos hb]
  cases cs with
  | nil => exact ⟨List.append_nil _, rfl⟩
  | cons c cs =>
    have hnot := hc c rfl
    rw [List.takeWhile_cons_of_neg (by simp [hnot]), List.dropWhile_cons_of_neg (by simp [hnot])]
    exact ⟨List.append_nil _, rfl⟩

section

variable {position : Nat} {cs rest : List Char} {token : Token} {found : List Lexeme}

theorem lexemes_of_next (h : next cs = some (token, rest)) :
    lexemes position cs =
      if rest.dropWhile Text.isBlank = [] then
        some [⟨token, position, position + Text.byteLength token.chars⟩]
      else
        (lexemes (position + Text.byteLength token.chars +
            Text.byteLength (rest.takeWhile Text.isBlank)) (rest.dropWhile Text.isBlank)).map
          (⟨token, position, position + Text.byteLength token.chars⟩ :: ·) := by
  rw [lexemes]
  split
  · rename_i hnone
    cases h.symm.trans hnone
  · rename_i token' rest' hnext
    cases h.symm.trans hnext
    rfl

theorem lexemes_ne_nil (h : lexemes position cs = some found) : found ≠ [] ∧ cs ≠ [] := by
  cases hnext : next cs with
  | none =>
    rw [lexemes] at h
    split at h
    · cases h
    · rename_i hsome
      cases hnext.symm.trans hsome
  | some result =>
    rw [lexemes_of_next hnext] at h
    constructor
    · split at h
      · cases h
        exact List.cons_ne_nil _ _
      · obtain ⟨more, -, rfl⟩ := Option.map_eq_some_iff.mp h
        exact List.cons_ne_nil _ _
    · rintro rfl
      cases hnext

theorem lexed_of_lexemes (h : lexemes position cs = some found) : Lexed position cs found := by
  fun_induction lexemes position cs generalizing found with
  | case1 => cases h
  | case2 position cs token rest hnext =>
    rename_i hafter
    cases h
    obtain ⟨rfl, -⟩ := eq_append_of_next hnext
    exact .cons hnext (.blanks (List.dropWhile_eq_nil_iff.mp hafter))
  | case3 position cs token rest hnext =>
    rename_i ih
    obtain ⟨more, hmore, rfl⟩ := Option.map_eq_some_iff.mp h
    obtain ⟨rfl, -⟩ := eq_append_of_next hnext
    refine .cons hnext ?_
    rw [← List.takeWhile_append_dropWhile (p := Text.isBlank) (l := rest)]
    exact (ih hmore).blanks_append of_mem_takeWhile

/-- The lexer skips the blanks before the first token. -/
theorem lexemes_of_lexed (h : Lexed position cs found) (hne : found ≠ []) :
    lexemes (position + Text.byteLength (cs.takeWhile Text.isBlank))
      (cs.dropWhile Text.isBlank) = some found := by
  induction h with
  | blanks => exact absurd rfl hne
  | @token position blanks rest token found blank read next ih =>
    obtain ⟨htake, hdrop⟩ := takeWhile_isBlank_append blank (isBlank_of_next read)
    rw [htake, hdrop, lexemes_of_next read]
    cases found with
    | nil =>
      cases next with
      | blanks blank => rw [if_pos (List.dropWhile_eq_nil_iff.mpr blank)]
    | cons lexeme found =>
      have hmore := ih (List.cons_ne_nil _ _)
      rw [if_neg (lexemes_ne_nil hmore).2, hmore]
      rfl

end

/-- What the lexer finds are the tokens of a text. No text is blanks alone. -/
theorem lex_eq_some_iff {body : List Char} {found : List Lexeme} :
    lex body = some found ↔ Lexed 0 body found ∧ (found = [] → body = []) := by
  unfold lex
  split
  · rename_i hbody
    subst hbody
    constructor
    · rintro ⟨⟩
      exact ⟨.blanks (List.forall_mem_nil _), fun _ => rfl⟩
    · rintro ⟨h, -⟩
      generalize hcs : ([] : List Char) = cs at h
      cases h with
      | blanks => rfl
      | token blank read next =>
        rw [eq_comm, List.append_eq_nil_iff, List.append_eq_nil_iff] at hcs
        exact absurd hcs.2.1 (eq_append_of_next read).2
  · rename_i hbody
    dsimp only
    constructor
    · intro h
      refine ⟨?_, fun hnil => absurd hnil (lexemes_ne_nil h).1⟩
      rw [← List.takeWhile_append_dropWhile (p := Text.isBlank) (l := body)]
      refine Lexed.blanks_append of_mem_takeWhile ?_
      rw [Nat.zero_add]
      exact lexed_of_lexemes h
    · rintro ⟨h, hne⟩
      have hl := lexemes_of_lexed h fun hnil => hbody (hne hnil)
      rwa [Nat.zero_add] at hl

/-! ## Spans -/

/-- A character of two texts in a row stands in the first or in the second one. -/
theorem append_eq_append_cons {α : Type} {xs ys before after : List α} {c : α}
    (h : xs ++ ys = before ++ c :: after) :
    (∃ left, xs = before ++ c :: left) ∨ ∃ left, before = xs ++ left ∧ ys = left ++ c :: after := by
  rcases List.append_eq_append_iff.mp h with ⟨left, hbefore, hys⟩ | ⟨left, hxs, hleft⟩
  · exact .inr ⟨left, hbefore, hys⟩
  · cases left with
    | nil => exact .inr ⟨[], by simpa using hxs.symm, hleft.symm⟩
    | cons d left =>
      cases hleft
      exact .inl ⟨left, hxs⟩

namespace Lexed

variable {position : Nat} {text : List Char} {found : List Lexeme}

/-- Each token stands in the text where its span says. -/
theorem cut (h : Lexed position text found) :
    ∀ lexeme ∈ found, ∃ before after, text = before ++ (lexeme.token.chars ++ after) ∧
      lexeme.span = ⟨position + Text.byteLength before,
        position + Text.byteLength before + Text.byteLength lexeme.token.chars⟩ ∧
      next (lexeme.token.chars ++ after) = some (lexeme.token, after) := by
  induction h with
  | blanks => exact List.forall_mem_nil _
  | @token position blanks rest token found blank read next ih =>
    refine List.forall_mem_cons.mpr ⟨⟨blanks, rest, rfl, rfl, read⟩, fun lexeme hm => ?_⟩
    obtain ⟨before, after, rfl, hspan, hread⟩ := ih lexeme hm
    refine ⟨blanks ++ token.chars ++ before, after, by simp, ?_, hread⟩
    rw [hspan, Text.byteLength_append, Text.byteLength_append, ← Nat.add_assoc, ← Nat.add_assoc]

theorem lexical (h : Lexed position text found) : ∀ lexeme ∈ found, lexeme.token.Lexical := by
  intro lexeme hm
  obtain ⟨_, _, _, _, hread⟩ := h.cut lexeme hm
  exact lexical_of_next hread

theorem pairwise (h : Lexed position text found) :
    found.Pairwise fun left right => left.span.stop ≤ right.span.start := by
  induction h with
  | blanks => exact .nil
  | token blank read next ih =>
    refine .cons (fun lexeme hm => ?_) ih
    obtain ⟨before, _, _, hspan, _⟩ := next.cut lexeme hm
    rw [hspan]
    exact Nat.le_add_right _ _

/-- What no span covers is blank. -/
theorem isBlank_of_outside (h : Lexed position text found) {before after : List Char} {c : Char}
    (htext : text = before ++ c :: after)
    (hout : ∀ lexeme ∈ found, ¬(lexeme.span.start ≤ position + Text.byteLength before ∧
      position + Text.byteLength before < lexeme.span.stop)) : Text.isBlank c = true := by
  induction h generalizing before with
  | blanks blank => exact blank c (by simp [htext])
  | @token position blanks rest token found blank read next ih =>
    obtain ⟨hfirst, hothers⟩ := List.forall_mem_cons.mp hout
    rcases append_eq_append_cons htext with ⟨left, rfl⟩ | ⟨behind, rfl, hbehind⟩
    · exact blank c (by simp)
    rcases append_eq_append_cons hbehind with ⟨left, hleft⟩ | ⟨behind, rfl, hrest⟩
    · -- The character would be covered by the token.
      have hpos := c.utf8Size_pos
      rw [hleft] at hfirst
      simp only [Text.byteLength_append, Text.byteLength_cons] at hfirst
      omega
    · refine ih hrest fun lexeme hm => ?_
      have hnot := hothers lexeme hm
      rwa [Text.byteLength_append, Text.byteLength_append, ← Nat.add_assoc, ← Nat.add_assoc]
        at hnot

end Lexed

/-! ## Written tokens -/

/-- Tokens with one space between any two are found again. -/
theorem exists_lexed_intercalate {tokens : List Token} (h : ∀ token ∈ tokens, token.Lexical)
    (position : Nat) :
    ∃ found, Lexed position ([' '].intercalate (tokens.map Token.chars)) found ∧
      found.map (·.token) = tokens := by
  induction tokens generalizing position with
  | nil => exact ⟨[], .blanks (List.forall_mem_nil _), rfl⟩
  | cons token rest ih =>
    obtain ⟨hfirst, hothers⟩ := List.forall_mem_cons.mp h
    cases rest with
    | nil =>
      have hread : next (token.chars ++ []) = some (token, []) := hfirst.next_append nofun
      have hlexed : Lexed position (token.chars ++ []) _ :=
        .cons hread (.blanks (List.forall_mem_nil _))
      rw [List.append_nil] at hlexed
      rw [List.map_singleton, List.intercalate_singleton]
      exact ⟨_, hlexed, rfl⟩
    | cons second others =>
      obtain ⟨found, hfound, hmap⟩ :=
        ih hothers (position + Text.byteLength token.chars + Text.byteLength [' '])
      have hspace : ∀ c ∈ [' '], Text.isBlank c = true := List.forall_mem_singleton.mpr rfl
      have hmore := hfound.blanks_append hspace
      have hlexed := Lexed.cons (hfirst.next_append (by rintro _ ⟨⟩; decide)) hmore
      rw [List.map_cons, List.map_cons, List.intercalate_cons_cons, List.append_assoc]
      exact ⟨_, hlexed, congrArg (token :: ·) hmap⟩

end LiveTemplate
