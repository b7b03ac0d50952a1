import LiveTemplate.Proofs.Action.Lexemes
import LiveTemplate.Proofs.Template.Bytes
import LiveTemplate.Proofs.Template.Literals

/-!
# Where an action with tokens ends

The scanner looks for the end of an action before anything is read in it. It goes over all that
holds tokens (`Lexed.passed`), so that it ends an action whose body has tokens at the braces behind
the body: `Scan.ofSource_of_lexed`. There is no trim marker in such an action and no comment, and
without the blanks at its ends it has the same tokens (`Lexed.of_append`).
-/

namespace LiveTemplate

open Lexer

theorem Text.isBlank_of_isAsciiBlank {c : Char} (h : isAsciiBlank c = true) :
    isBlank c = true := by
  simp only [isAsciiBlank, Bool.or_eq_true, beq_iff_eq] at h
  rcases h with (((rfl | rfl) | rfl) | rfl) | rfl <;> rfl

/-! ## Texts that close nothing -/

namespace Scan

theorem splitOpen?_append {gap : List Char} (h : ¬['{', '{'] <:+: gap ++ ['{'])
    (rest : List Char) : splitOpen? (gap ++ '{' :: '{' :: rest) = some (gap, rest) := by
  induction gap with
  | nil => rfl
  | cons c gap ih =>
    rw [List.cons_append, pair_infix_cons_iff, not_or] at h
    have hearly (after : List Char) (hc : c = '{')
        (hafter : gap ++ '{' :: '{' :: rest = '{' :: after) : False := by
      refine h.1 ⟨hc.symm, ?_⟩
      cases gap with
      | nil => rfl
      | cons d gap => exact congrArg some (List.cons.inj hafter).1
    rw [List.cons_append, splitOpen?.eq_3 _ _ hearly, ih h.2]
    rfl

section

variable {c : Char} {rest inner after : List Char}

theorem splitClose?_cons (hc : c ∉ ['}', '"', '\x60'])
    (h : splitClose? none rest = some (inner, after)) :
    splitClose? none (c :: rest) = some (c :: inner, after) := by
  simp only [List.mem_cons, List.not_mem_nil, or_false, not_or] at hc
  cases rest with
  | nil => cases h
  | cons d rest => simp [splitClose?, hc, h]

theorem splitClose?_quote_cons {quote : Char} (hq : quote = '"' ∨ quote = '\x60')
    (h : splitClose? (some quote) rest = some (inner, after)) :
    splitClose? none (quote :: rest) = some (quote :: inner, after) := by
  cases rest with
  | nil => cases h
  | cons d rest => rcases hq with rfl | rfl <;> simp [splitClose?, h]

theorem splitClose?_quoted_cons {quote : Char} (hq : c ≠ quote) (he : quote = '"' → c ≠ '\\')
    (h : splitClose? (some quote) rest = some (inner, after)) :
    splitClose? (some quote) (c :: rest) = some (c :: inner, after) := by
  cases rest with
  | nil => cases h
  | cons d rest =>
    rw [splitClose?, if_neg (by simp), if_neg (by simpa using he)]
    simp [hq, h]

theorem splitClose?_unquote_cons {quote : Char} (hq : quote = '"' ∨ quote = '\x60')
    (h : splitClose? none rest = some (inner, after)) :
    splitClose? (some quote) (quote :: rest) = some (quote :: inner, after) := by
  cases rest with
  | nil => cases h
  | cons d rest => rcases hq with rfl | rfl <;> simp [splitClose?, h]

theorem splitClose?_escape_cons (h : splitClose? (some '"') rest = some (inner, after)) :
    splitClose? (some '"') ('\\' :: c :: rest) = some ('\\' :: c :: inner, after) := by
  simp [splitClose?, h]

theorem splitClose?_of_isQuoted {body : List Char} (hb : IsQuoted body)
    (h : splitClose? none rest = some (inner, after)) :
    splitClose? (some '"') (body ++ '"' :: rest) = some (body ++ '"' :: inner, after) := by
  induction hb with
  | nil => exact splitClose?_unquote_cons (.inl rfl) h
  | plain unquoted unescaped _ ih => exact splitClose?_quoted_cons unquoted (fun _ => unescaped) ih
  | escape _ ih => exact splitClose?_escape_cons ih

theorem splitClose?_of_raw {body : List Char} (hb : '\x60' ∉ body)
    (h : splitClose? none rest = some (inner, after)) :
    splitClose? (some '\x60') (body ++ '\x60' :: rest) = some (body ++ '\x60' :: inner, after) := by
  induction body with
  | nil => exact splitClose?_unquote_cons (.inr rfl) h
  | cons c body ih =>
    rw [List.mem_cons, not_or] at hb
    exact splitClose?_quoted_cons (Ne.symm hb.1) nofun (ih hb.2)

end

/-- The scanner goes over this text and closes nothing on the way. -/
def Passes (cs : List Char) : Prop :=
  ∀ rest inner after, splitClose? none rest = some (inner, after) →
    splitClose? none (cs ++ rest) = some (cs ++ inner, after)

namespace Passes

variable {cs ds : List Char}

theorem append (hc : Passes cs) (hd : Passes ds) : Passes (cs ++ ds) := by
  intro rest inner after h
  rw [List.append_assoc, List.append_assoc]
  exact hc _ _ _ (hd _ _ _ h)

theorem of_forall (h : ∀ c ∈ cs, c ∉ ['}', '"', '\x60']) : Passes cs := by
  induction cs with
  | nil => exact fun _ _ _ h => h
  | cons c cs ih =>
    obtain ⟨hc, hcs⟩ := List.forall_mem_cons.mp h
    exact fun rest inner after h => splitClose?_cons hc (ih hcs rest inner after h)

theorem of_isBlank (h : ∀ c ∈ cs, Text.isBlank c = true) : Passes cs := by
  exact of_forall fun c hc => not_mem_of_eq_true (by decide) (h c hc)

/-- Only in strings there can be braces, and the scanner sees their ends as they are read. -/
theorem of_lexical {token : Token} (h : token.Lexical) : Passes token.chars := by
  by_cases hs : token.IsString
  · intro rest inner after hrest
    cases token with
    | text body =>
      have hclose := splitClose?_of_isQuoted h hrest
      simpa [Token.chars] using splitClose?_quote_cons (.inl rfl) hclose
    | raw body =>
      have hclose := splitClose?_of_raw h hrest
      simpa [Token.chars] using splitClose?_quote_cons (.inr rfl) hclose
    | _ => cases hs
  · exact of_forall fun c hc => not_mem_of_eq_true (by decide) (h.isWritten hs c hc)

end Passes

end Scan

/-! ## Ends of tokens -/

namespace Token.Lexical

variable {token : Token}

/-- No token begins with a slash. -/
theorem head?_ne_slash (h : token.Lexical) : ∀ c ∈ token.chars.head?, c ≠ '/' := by
  rintro _ hc rfl
  by_cases hs : token.IsString
  · rcases hs.quote_of_head? hc with h | h <;> cases h
  · exact absurd (h.isWritten hs '/' (List.mem_of_mem_head? hc)) (by decide)

/-- No token ends with a blank. -/
theorem isBlank_getLast? (h : token.Lexical) :
    ∀ c ∈ token.chars.getLast?, Text.isBlank c = false := by
  intro c hc
  by_cases hs : token.IsString
  · rcases hs.quote_of_getLast? hc with rfl | rfl <;> decide
  · exact h.isBlank hs c (List.mem_of_getLast? hc)

theorem chars_ne_minus (h : token.Lexical) : token.chars ≠ ['-'] := by
  intro hc
  have hread : next (token.chars ++ []) = some (token, []) := h.next_append nofun
  rw [hc] at hread
  cases hread

end Token.Lexical

namespace Lexed

variable {position : Nat} {cs : List Char} {found : List Lexeme}

theorem passes (h : Lexed position cs found) : Scan.Passes cs := by
  induction h with
  | blanks blank => exact .of_isBlank blank
  | token blank read _ ih =>
    exact .append (.of_isBlank blank) (.append (.of_lexical (lexical_of_next read)) ih)

/-- A text with tokens begins with the first of them, behind the blanks. -/
theorem exists_first (h : Lexed position cs found) (hne : found ≠ []) :
    ∃ (blanks : List Char) (token : Token) (c : Char) (others rest : List Char),
      cs = blanks ++ c :: (others ++ rest) ∧ (∀ c ∈ blanks, Text.isBlank c = true) ∧
        token.Lexical ∧ token.chars = c :: others ∧ Text.isBlank c = false := by
  cases h with
  | blanks => exact absurd rfl hne
  | @token _ blanks rest token _ blank read _ =>
    have hlexical := lexical_of_next read
    have hfirst := isBlank_of_next read
    cases hchars : token.chars with
    | nil => exact absurd hchars hlexical.chars_ne_nil
    | cons c others =>
      rw [hchars] at hfirst
      exact ⟨blanks, token, c, others, rest, rfl, blank, hlexical, hchars, hfirst c rfl⟩

/-- A minus sign at the start is the sign of a number. -/
theorem not_beginsWithMarker (h : Lexed position cs found) (hne : found ≠ []) (more : List Char) :
    ¬BeginsWithMarker (cs ++ more) := by
  obtain ⟨blanks, token, c, others, rest, rfl, hblanks, htoken, hchars, hfirst⟩ :=
    h.exists_first hne
  rintro ⟨blank, after, hblank, hcs⟩
  cases blanks with
  | cons b blanks =>
    obtain rfl : b = '-' := (List.cons.inj hcs).1
    exact absurd (hblanks '-' List.mem_cons_self) (by decide)
  | nil =>
    rw [List.nil_append, List.cons_append, List.cons.injEq] at hcs
    obtain ⟨rfl, hcs⟩ := hcs
    cases others with
    | nil => exact htoken.chars_ne_minus hchars
    | cons d others =>
      cases hcs
      have hs : ¬token.IsString := fun hs => by
        rcases hs.quote_of_head? (c := '-') (hchars ▸ rfl) with h | h <;> cases h
      have hnot := htoken.isBlank hs blank (by simp [hchars])
      rw [Text.isBlank_of_isAsciiBlank hblank] at hnot
      cases hnot

/-- A minus sign at the end stands in a token. -/
theorem isBlank_of_append_minus (h : Lexed position cs found) {before : List Char}
    (hcs : cs = before ++ ['-']) : ∃ c ∈ before.getLast?, Text.isBlank c = false := by
  induction h generalizing before with
  | blanks blank => exact absurd (blank '-' (by simp [hcs])) (by decide)
  | @token position blanks rest token found blank read next ih =>
    rcases append_eq_append_cons hcs with ⟨left, rfl⟩ | ⟨left, rfl, htoken⟩
    · exact absurd (blank '-' (by simp)) (by decide)
    rcases append_eq_append_cons htoken with ⟨behind, hchars⟩ | ⟨left, rfl, rfl⟩
    · have hlexical := lexical_of_next read
      obtain ⟨rfl, -⟩ : behind = [] ∧ rest = [] := by simpa [hchars] using htoken
      have hs : ¬token.IsString := fun hs => by
        rcases hs.quote_of_getLast? (c := '-') (by simp [hchars]) with h | h <;> cases h
      rcases List.eq_nil_or_concat left with rfl | ⟨others, c, rfl⟩
      · exact absurd hchars hlexical.chars_ne_minus
      · exact ⟨c, by simp, hlexical.isBlank hs c (by simp [hchars])⟩
    · obtain ⟨c, hc, hblank⟩ := ih rfl
      exact ⟨c, by simp [Option.mem_def.mp hc], hblank⟩

theorem not_endsWithMarker (h : Lexed position cs found) : ¬EndsWithMarker cs := by
  rintro ⟨rest, blank, hblank, rfl⟩
  obtain ⟨c, hc, hnot⟩ := h.isBlank_of_append_minus (List.append_cons rest blank ['-'])
  rw [List.getLast?_concat] at hc
  cases hc
  rw [Text.isBlank_of_isAsciiBlank hblank] at hnot
  cases hnot

/-- No comment begins where tokens are. -/
theorem not_slash (h : Lexed position cs found) (hne : found ≠ [])
    {more before after : List Char} (hcs : cs ++ more = before ++ '/' :: after) :
    ¬∀ c ∈ before, Text.isBlank c = true := by
  intro hbefore
  obtain ⟨blanks, token, c, others, rest, rfl, hblanks, htoken, hchars, hfirst⟩ :=
    h.exists_first hne
  rw [List.append_assoc] at hcs
  rcases append_eq_append_cons hcs with ⟨left, rfl⟩ | ⟨left, rfl, hleft⟩
  · exact absurd (hblanks '/' (by simp)) (by decide)
  · cases left with
    | nil =>
      cases hleft
      exact htoken.head?_ne_slash '/' (by rw [hchars]; rfl) rfl
    | cons d left =>
      obtain rfl : c = d := (List.cons.inj hleft).1
      rw [hbefore c (by simp)] at hfirst
      cases hfirst

/-! ## Blanks around tokens -/

end Lexed

/-- A token is read again where less follows it. -/
theorem Lexer.next_of_append {token : Token} {rest more : List Char}
    (h : next (token.chars ++ (rest ++ more)) = some (token, rest ++ more)) :
    next (token.chars ++ rest) = some (token, rest) := by
  obtain ⟨hlexical, -, hlongest⟩ := next_eq_some_iff.mp h
  refine next_eq_some_iff.mpr ⟨hlexical, rfl, fun other ho hp => hlongest other ho ?_⟩
  rw [← List.append_assoc]
  exact hp.trans (List.prefix_append _ _)

/-- A token at another place. -/
def Lexeme.shift (lexeme : Lexeme) (offset : Nat) : Lexeme :=
  ⟨lexeme.token, lexeme.span.shift offset⟩

namespace Lexed

variable {position : Nat} {cs : List Char} {found : List Lexeme}

theorem trimStart (h : Lexed position cs found) :
    Lexed (position + Text.byteLength (cs.takeWhile Text.isBlank))
      (Text.trimStart Text.isBlank cs) found := by
  cases h with
  | blanks blank => exact .blanks fun c hc => blank c ((List.dropWhile_sublist _).subset hc)
  | token blank read next =>
    obtain ⟨htake, hdrop⟩ := takeWhile_isBlank_append blank (isBlank_of_next read)
    rw [Text.trimStart, htake, hdrop]
    exact .cons read next

/-- Blanks at the end belong to no token. -/
theorem of_append {text more : List Char} (h : Lexed position text found)
    (htext : text = cs ++ more) (hmore : ∀ c ∈ more, Text.isBlank c = true) :
    Lexed position cs found := by
  induction h generalizing cs with
  | blanks blank => exact .blanks fun c hc => blank c (by simp [htext, hc])
  | @token position blanks rest token found blank read next ih =>
    rw [← List.append_assoc] at htext
    rcases List.append_eq_append_iff.mp htext with ⟨left, rfl, rfl⟩ | ⟨left, hleft, rfl⟩
    · rw [List.append_assoc]
      exact .token blank (next_of_append read) (ih rfl)
    · rcases List.eq_nil_or_concat left with rfl | ⟨others, c, rfl⟩
      · have hlexed : Lexed position (blanks ++ (token.chars ++ [])) _ :=
          .token blank (@next_of_append token [] _ read) (ih rfl)
        rwa [List.append_nil, hleft, List.append_nil] at hlexed
      · -- The token would end with a blank.
        have hlexical := lexical_of_next read
        obtain ⟨init, last, hchars⟩ :=
          (List.eq_nil_or_concat token.chars).resolve_left hlexical.chars_ne_nil
        simp only [hchars, List.concat_eq_append, ← List.append_assoc] at hleft
        obtain rfl : last = c := (List.cons.inj (List.append_inj' hleft rfl).2).1
        have hnot := hlexical.isBlank_getLast? last (by simp [hchars])
        rw [hmore last (by simp)] at hnot
        cases hnot

theorem trimEnd (h : Lexed position cs found) :
    Lexed position (Text.trimEnd Text.isBlank cs) found := by
  obtain ⟨trail, hcs, htrail, -⟩ := Text.exists_trimEnd_append Text.isBlank cs
  exact h.of_append hcs htrail

theorem exists_shift {start : Nat} (h : Lexed start cs found) (position offset : Nat)
    (hs : start = position + offset) :
    ∃ own, Lexed position cs own ∧ found = own.map (·.shift offset) := by
  induction h generalizing position with
  | blanks blank => exact ⟨[], .blanks blank, rfl⟩
  | @token start blanks rest token found blank read next ih =>
    subst hs
    obtain ⟨own, hown, rfl⟩ :=
      ih (position + Text.byteLength blanks + Text.byteLength token.chars)
        (by simp only [Nat.add_right_comm _ offset])
    refine ⟨_, .token blank read hown, ?_⟩
    simp only [List.map_cons, Lexeme.shift, Span.shift, Nat.add_right_comm _ offset]

end Lexed

/-! ## Scanning on -/

namespace Action

theorem dropEndMarker_of_not_endsWithMarker {cs : List Char} (h : ¬EndsWithMarker cs) :
    dropEndMarker cs = (false, cs) := by
  rw [← dropEndMarker_fst_iff] at h
  unfold dropEndMarker at h ⊢
  split
  · split <;> simp_all
  · rfl

theorem ofInner_of_lexed (start : Nat) {position : Nat} {body : List Char} {found : List Lexeme}
    (h : Lexed position body found) (hne : found ≠ []) :
    ofInner start body =
      ⟨⟨start, start + Text.byteLength body + 4⟩,
        Text.trimEnd Text.isBlank (Text.trimStart Text.isBlank body),
        start + 2 + Text.byteLength (body.takeWhile Text.isBlank), false, false⟩ := by
  have hfront : ¬BeginsWithMarker body := by simpa using h.not_beginsWithMarker hne []
  have hlength := congrArg Text.byteLength
    (List.takeWhile_append_dropWhile (p := Text.isBlank) (l := body))
  rw [Text.byteLength_append] at hlength
  rw [ofInner, Scan.splitMarker_of_not_beginsWithMarker hfront]
  dsimp only
  rw [dropEndMarker_of_not_endsWithMarker h.not_endsWithMarker]
  dsimp only
  congr 1
  rw [Text.byteLength_nil, Text.trimStart]
  omega

end Action

namespace Scan

variable {position : Nat} {gap inner after : List Char}

theorem splitCommentOpen?_of_lexed {body : List Char} {found : List Lexeme}
    (h : Lexed position body found) (hne : found ≠ []) (more : List Char) :
    splitCommentOpen? (body ++ more) = none := by
  rw [splitCommentOpen?, splitMarker_of_not_beginsWithMarker (h.not_beginsWithMarker hne more)]
  dsimp only
  split
  · rename_i inside hinside
    have hsplit := List.takeWhile_append_dropWhile (p := Text.isAsciiBlank) (l := body ++ more)
    rw [hinside] at hsplit
    exact absurd (fun c hc => Text.isBlank_of_isAsciiBlank (of_mem_takeWhile c hc))
      (h.not_slash hne hsplit.symm)
  · rfl

theorem splitAction?_of_lexed {body : List Char} {found : List Lexeme}
    (h : Lexed position body found) (hne : found ≠ []) (after : List Char) :
    splitAction? (body ++ '}' :: '}' :: after) = some (body, after) := by
  have hclose : splitClose? none ('}' :: '}' :: after) = some ([], after) := by simp [splitClose?]
  rw [splitAction?, splitCommentOpen?_of_lexed h hne]
  simpa using h.passes _ _ _ hclose

theorem ofChars_action (opens : ¬['{', '{'] <:+: gap ++ ['{'])
    (closes : splitAction? (inner ++ '}' :: '}' :: after) = some (inner, after)) :
    ofChars position (gap ++ '{' :: '{' :: (inner ++ '}' :: '}' :: after)) =
      let scan := ofChars (position + Text.byteLength gap + Text.byteLength inner + 4) after
      ⟨(⟨position, gap⟩, Action.ofInner (position + Text.byteLength gap) inner) :: scan.actions,
        scan.last⟩ := by
  rw [ofChars]
  split
  · rename_i hopen
    rw [splitOpen?_append opens] at hopen
    cases hopen
  · rename_i gap' rest hopen
    rw [splitOpen?_append opens] at hopen
    cases hopen
    dsimp only
    split
    · rename_i haction
      rw [closes] at haction
      cases haction
    · rename_i inner' after' haction
      rw [closes] at haction
      cases haction
      rfl

/-- The scan of a text from a byte position on finds these actions and goes on at another position
with the rest of the text. -/
inductive Reaches : Nat → List Char → List (Gap × Action) → Nat → List Char → Prop
  | here {position : Nat} {text : List Char} : Reaches position text [] position text
  | action {position place : Nat} {gap inner after rest : List Char} {done : List (Gap × Action)}
      (opens : ¬['{', '{'] <:+: gap ++ ['{'])
      (closes : splitAction? (inner ++ '}' :: '}' :: after) = some (inner, after))
      (next : Reaches (position + Text.byteLength gap + Text.byteLength inner + 4) after done place
        rest) :
      Reaches position (gap ++ '{' :: '{' :: (inner ++ '}' :: '}' :: after))
        ((⟨position, gap⟩, .ofInner (position + Text.byteLength gap) inner) :: done) place rest

theorem Reaches.ofChars {text rest : List Char} {done : List (Gap × Action)} {place : Nat}
    (h : Reaches position text done place rest) :
    Scan.ofChars position text =
      ⟨done ++ (Scan.ofChars place rest).actions, (Scan.ofChars place rest).last⟩ := by
  induction h with
  | here => rfl
  | action opens closes _ ih =>
    rw [ofChars_action opens closes, ih]
    rfl

end Scan

/-- The scanner and the lexer agree on where an action ends. Where a scan comes to opening braces
with a text of tokens and closing braces behind them, the action ends at these closing braces, also
for a scanner that looks at bytes; there is no trim marker in it and no comment; and its tokens are
those of the text, also in what the action asks for. -/
theorem Scan.ofSource_of_lexed {source gap body after : List Char} {done : List (Gap × Action)}
    {position : Nat} {found : List Lexeme}
    (reached : Scan.Reaches 0 source done position
      (gap ++ '{' :: '{' :: (body ++ '}' :: '}' :: after)))
    (opens : ¬['{', '{'] <:+: gap ++ ['{']) (lexed : Lexer.lex body = some found)
    (present : found ≠ []) :
    ∃ (start stop : Nat) (action : Action) (own : List Lexeme),
      start = position + Text.byteLength gap ∧ stop = start + Text.byteLength body + 4 ∧
      (Scan.ofSource source).actions =
        done ++ (⟨position, gap⟩, action) :: (Scan.ofChars stop after).actions ∧
      (Scan.ofSource source).last = (Scan.ofChars stop after).last ∧
      Scan.Bytes.actionEnd? (Text.utf8 (body ++ '}' :: '}' :: after)) =
        some (Text.byteLength body) ∧
      Scan.Bytes.commentAt? (Text.utf8 (body ++ '}' :: '}' :: after)) = none ∧
      action.span = ⟨start, stop⟩ ∧ action.trimBefore = false ∧ action.trimAfter = false ∧
      action.opensComment = false ∧ action.lexemes = .ok own ∧
      own.map (·.shift action.offset) = found.map (·.shift (start + 2)) ∧
      Directive.ofAction action = Directive.ofLexemes action own := by
  obtain ⟨hbody, -⟩ := lex_eq_some_iff.mp lexed
  have hclose := Scan.splitAction?_of_lexed hbody present after
  have hopen := Scan.Bytes.commentAt?_utf8 (body ++ '}' :: '}' :: after)
  have hend := Scan.Bytes.actionEnd?_utf8 (body ++ '}' :: '}' :: after)
  have haction := Action.ofInner_of_lexed (position + Text.byteLength gap) hbody present
  have hscan := reached.ofChars
  rw [Scan.ofChars_action opens hclose] at hscan
  rw [Scan.splitCommentOpen?_of_lexed hbody present, Option.map_none,
    Option.map_eq_none_iff] at hopen
  rw [hclose, Option.map_some] at hend
  -- The tokens of the trimmed body are those of the whole one, but closer to its start.
  obtain ⟨own, hown, rfl⟩ := hbody.trimStart.trimEnd.exists_shift 0 _ rfl
  have hne : own ≠ [] := by
    rintro rfl
    exact present rfl
  have hlex := lex_eq_some_iff.mpr ⟨hown, fun hnil => absurd hnil hne⟩
  have hcomment : (Action.ofInner (position + Text.byteLength gap) body).opensComment = false := by
    rw [Bool.eq_false_iff, ne_eq, Action.opensComment_iff, haction]
    rintro ⟨inside, hinside⟩
    have hslash : _ ++ [] = [] ++ '/' :: '*' :: inside := (List.append_nil _).trans hinside.symm
    exact hown.not_slash hne hslash (List.forall_mem_nil _)
  have hlexemes : (Action.ofInner (position + Text.byteLength gap) body).lexemes = .ok own := by
    rw [haction, Action.lexemes, hlex]
  refine ⟨_, _, Action.ofInner (position + Text.byteLength gap) body, own, rfl, rfl,
    congrArg Scan.actions hscan, (congrArg Scan.last hscan).trans rfl, hend, hopen, rfl,
    by rw [haction], by rw [haction], hcomment, hlexemes, ?_, ?_⟩
  · rw [haction, List.map_map]
    refine List.map_congr_left fun lexeme _ => ?_
    simp only [Lexeme.shift, Span.shift, Function.comp_apply, Nat.add_assoc, Nat.add_comm,
      Nat.add_left_comm]
  · rw [Directive.ofAction, if_neg (by rw [hcomment]; decide), hlexemes]
    rfl

/-- A string with braces, an escaped quote and an escaped character above ASCII, behind another
action. -/
theorem Scan.ofSource_of_lexed_braces :
    let body := " len \"\x7d\x7d\\\"\\é\"|.x ".toList
    let source := "\x7b\x7b.\x7d\x7da\x7b\x7b".toList ++ body ++ "\x7d\x7db".toList
    let found : List Lexeme :=
      [⟨.identifier "len", ⟨1, 4⟩⟩, ⟨.text "\x7d\x7d\\\"\\é", ⟨5, 14⟩⟩,
        ⟨.pipe, ⟨14, 15⟩⟩, ⟨.field ["x"], ⟨15, 17⟩⟩]
    let done := [((⟨0, []⟩ : Gap), Action.ofInner 0 ['.'])]
    Scan.Reaches 0 source done 5 (['a'] ++ '{' :: '{' :: (body ++ '}' :: '}' :: ['b'])) ∧
      ¬['{', '{'] <:+: ['a'] ++ ['{'] ∧ Lexer.lex body = some found ∧ found ≠ [] ∧
      ∃ (start stop : Nat) (action : Action) (own : List Lexeme),
        start = 5 + Text.byteLength ['a'] ∧ stop = start + Text.byteLength body + 4 ∧
        (Scan.ofSource source).actions =
          done ++ (⟨5, ['a']⟩, action) :: (Scan.ofChars stop ['b']).actions ∧
        (Scan.ofSource source).last = (Scan.ofChars stop ['b']).last ∧
        Scan.Bytes.actionEnd? (Text.utf8 (body ++ '}' :: '}' :: ['b'])) =
          some (Text.byteLength body) ∧
        Scan.Bytes.commentAt? (Text.utf8 (body ++ '}' :: '}' :: ['b'])) = none ∧
        action.span = ⟨start, stop⟩ ∧ action.trimBefore = false ∧ action.trimAfter = false ∧
        action.opensComment = false ∧ action.lexemes = .ok own ∧
        own.map (·.shift action.offset) = found.map (·.shift (start + 2)) ∧
        Directive.ofAction action = Directive.ofLexemes action own := by
  intro body source found done
  have hreached : Scan.Reaches 0 source done 5
      (['a'] ++ '{' :: '{' :: (body ++ '}' :: '}' :: ['b'])) :=
    @Scan.Reaches.action 0 5 [] ['.'] _ _ [] (by decide) (by decide) .here
  have hopens : ¬['{', '{'] <:+: ['a'] ++ ['{'] := by decide
  have hlex : Lexer.lex body = some found := by
    unfold body found
    with_unfolding_all rfl
  have hne : found ≠ [] := List.cons_ne_nil _ _
  exact ⟨hreached, hopens, hlex, hne, Scan.ofSource_of_lexed hreached hopens hlex hne⟩

end LiveTemplate
