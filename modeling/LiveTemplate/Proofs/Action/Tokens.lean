import LiveTemplate.Proofs.Action.Forms

/-!
# The longest token

`Token.Lexical` tells which tokens an action can hold, by the forms of their texts.

* `Lexer.next_eq_some_iff`: what is read at the start of a text is the longest token there.
* `Token.Lexical.next_append`: a token is read by itself where no character of tokens follows it.
-/

namespace LiveTemplate

open Lexer in
/-- The tokens that the text of an action can hold. -/
def Token.Lexical : Token → Prop
  | .field path => path ≠ [] ∧ IsPath path
  | .variable name path => (name = "" ∨ IsName name.toList) ∧ IsPath path
  | .identifier name => IsName name.toList ∧ ∀ keyword : Keyword, keyword.text ≠ name
  | .number numeral => IsNumeral numeral.toList
  | .text body => IsQuoted body.toList
  | .raw body => '\x60' ∉ body.toList
  | _ => True

namespace Lexer

/-! ## One token -/

/-- The token that a text is read as has one of the forms. -/
theorem lexical_of_next {cs rest : List Char} {token : Token} (h : next cs = some (token, rest)) :
    token.Lexical := by
  unfold next at h
  split at h
  case h_1 => cases h
  case h_2 after =>
    have hname := (splitName?_getD_longest after).holds
    generalize (splitName? after).getD ([], after) = split at h hname
    cases h
    refine ⟨?_, (splitPath_longest split.2).1⟩
    rcases hname with hname | hname
    · exact .inl (by rw [hname])
    · exact .inr (by rwa [String.toList_ofList])
  case h_3 after =>
    have hpath := (splitPath_longest ('.' :: after)).1
    split at h
    · cases h
      trivial
    · rename_i path left hne hsplit
      cases h
      rw [hsplit] at hpath
      exact ⟨hne, hpath⟩
  case h_4 after =>
    obtain ⟨⟨numeral, _⟩, hsplit, ⟨⟩⟩ := Option.map_eq_some_iff.mp h
    have hnumeral : IsNumeral ('-' :: numeral) := .negative (splitUnsigned?_longest hsplit).holds
    simpa [Token.Lexical] using hnumeral
  case h_5 after =>
    obtain ⟨⟨body, _⟩, hsplit, ⟨⟩⟩ := Option.map_eq_some_iff.mp h
    simpa [Token.Lexical] using isQuoted_of_splitQuoted? hsplit
  case h_6 after =>
    obtain ⟨⟨body, _⟩, hsplit, ⟨⟩⟩ := Option.map_eq_some_iff.mp h
    simpa [Token.Lexical] using not_mem_of_splitRaw? hsplit
  case h_13 =>
    rcases Option.or_eq_some_iff.mp h with hn | ⟨-, h⟩
    · obtain ⟨⟨numeral, _⟩, hsplit, ⟨⟩⟩ := Option.map_eq_some_iff.mp hn
      have hnumeral : IsNumeral numeral := .plain (splitUnsigned?_longest hsplit).holds
      simpa [Token.Lexical] using hnumeral
    · obtain ⟨⟨word, _⟩, hsplit, ⟨⟩⟩ := Option.map_eq_some_iff.mp h
      show (wordToken _).Lexical
      unfold wordToken
      split
      · trivial
      · rename_i hword
        refine ⟨by simpa using (splitName?_longest hsplit).holds, fun keyword hk => ?_⟩
        rw [← hk, Keyword.ofText?_text] at hword
        cases hword
  all_goals
    cases h
    trivial

/-- The characters by which the first character of a text alone tells what is read. -/
def marks : List Char :=
  ['$', '.', '-', '"', '\x60', '(', ')', ':', '=', '|', ',']

/-- What does not begin with a mark is a number or a word. -/
theorem next_of_not_mem_marks {c : Char} (h : c ∉ marks) (cs : List Char) :
    next (c :: cs) =
      (numberToken? [] (c :: cs)).or
        ((splitName? (c :: cs)).map fun (word, rest) =>
          (wordToken (String.ofList word), rest)) := by
  simp only [marks, List.mem_cons, List.not_mem_nil, or_false, not_or] at h
  unfold next
  split
  case h_13 => rfl
  all_goals simp_all

theorem not_mem_marks_of_isNameStart {c : Char} (h : isNameStart c = true) : c ∉ marks :=
  not_mem_of_eq_true (by decide) h

theorem not_mem_marks_of_isDigit {c : Char} (h : c.isDigit = true) : c ∉ marks :=
  not_mem_of_eq_true (p := Char.isDigit) (by decide) h

theorem takeWhile_name_append {name more : List Char} (hn : ∀ c ∈ name, isNamePart c = true)
    (hp : IsPathText more) : (name ++ more).takeWhile isNamePart = name := by
  rw [List.takeWhile_append_of_pos hn]
  cases more with
  | nil => simp
  | cons c more =>
    cases hp.eq_dot
    exact List.append_nil _

/-- A name ends where a path begins. -/
theorem name_append_inj {left right more others : List Char}
    (hl : ∀ c ∈ left, isNamePart c = true) (hr : ∀ c ∈ right, isNamePart c = true)
    (hm : IsPathText more) (ho : IsPathText others) (h : left ++ more = right ++ others) :
    left = right ∧ more = others := by
  have hname := congrArg (List.takeWhile isNamePart) h
  rw [takeWhile_name_append hl hm, takeWhile_name_append hr ho] at hname
  subst hname
  exact ⟨rfl, List.append_cancel_left h⟩

theorem pathChars_inj {left right : List String} (hl : IsPath left) (hr : IsPath right)
    (h : Token.pathChars left = Token.pathChars right) : left = right := by
  induction left generalizing right with
  | nil =>
    cases right with
    | nil => rfl
    | cons name path => rw [pathChars_cons] at h; cases h
  | cons first rest ih =>
    cases right with
    | nil => rw [pathChars_cons] at h; cases h
    | cons name path =>
      rw [pathChars_cons, pathChars_cons, List.cons.injEq] at h
      obtain ⟨hfirst, hrest⟩ := List.forall_mem_cons.mp hl
      obtain ⟨hname, hpath⟩ := List.forall_mem_cons.mp hr
      obtain ⟨hn, hp⟩ := name_append_inj hfirst.isNamePart hname.isNamePart ⟨rest, hrest, rfl⟩
        ⟨path, hpath, rfl⟩ h.2
      rw [String.toList_inj.mp hn, ih hrest hpath hp]

section

variable {cs : List Char}

/-- A word that a text begins with is read with all that goes on with it. -/
theorem exists_next_word {part : List Char} (hn : IsName part) (hp : part <+: cs) :
    ∃ word rest, next cs = some (wordToken (String.ofList word), rest) ∧ part <+: word := by
  obtain ⟨word, rest, hsplit⟩ := exists_splitName? hn hp
  refine ⟨word, rest, ?_, (splitName?_longest hsplit).longest part hn hp⟩
  obtain ⟨after, rfl⟩ := hp
  cases hn with
  | @intro c others first =>
    have hdigit : c.isDigit = false := by
      cases hd : c.isDigit with
      | false => rfl
      | true =>
        rw [isNameStart_of_isDigit hd] at first
        cases first
    have hzero : (c == '0') = false := by
      rw [beq_eq_false_iff_ne]
      rintro rfl
      cases hdigit
    have hnumber : numberToken? [] (c :: others ++ after) = none := by
      simp [numberToken?, splitUnsigned?, splitInteger?, hzero, hdigit]
    rw [List.cons_append, next_of_not_mem_marks (not_mem_marks_of_isNameStart first)]
    rw [List.cons_append] at hsplit hnumber
    rw [hnumber, hsplit]
    rfl

/-- A number that a text begins with is read with all that goes on with it. -/
theorem exists_next_number {part : List Char} (hn : IsNumeral part) (hp : part <+: cs) :
    ∃ numeral rest, next cs = some (.number (String.ofList numeral), rest) ∧ part <+: numeral := by
  cases hn with
  | plain unsigned =>
    obtain ⟨numeral, rest, hsplit⟩ := exists_splitUnsigned? unsigned hp
    refine ⟨numeral, rest, ?_, (splitUnsigned?_longest hsplit).longest part unsigned hp⟩
    obtain ⟨after, rfl⟩ := hp
    obtain ⟨whole, more, hwhole, -, rfl⟩ := unsigned
    have hdigits := hwhole.isDigit
    cases whole with
    | nil => cases hwhole
    | cons c whole =>
      have hmark := not_mem_marks_of_isDigit (hdigits c List.mem_cons_self)
      simp only [List.cons_append] at hsplit ⊢
      rw [next_of_not_mem_marks hmark, numberToken?, hsplit]
      rfl
  | @negative part unsigned =>
    obtain ⟨after, rfl⟩ := hp
    have hp : part <+: part ++ after := List.prefix_append _ _
    obtain ⟨numeral, rest, hsplit⟩ := exists_splitUnsigned? unsigned hp
    refine ⟨'-' :: numeral, rest, ?_, List.cons_prefix_cons.mpr
      ⟨rfl, (splitUnsigned?_longest hsplit).longest part unsigned hp⟩⟩
    rw [List.cons_append, next, numberToken?, hsplit]
    rfl

theorem next_variable (cs : List Char) :
    next ('$' :: cs) =
      some (.variable (String.ofList ((splitName? cs).getD ([], cs)).1)
        (splitPath ((splitName? cs).getD ([], cs)).2).1,
        (splitPath ((splitName? cs).getD ([], cs)).2).2) :=
  rfl

/-- A variable that a text begins with is read with all that goes on with it. -/
theorem exists_next_variable {part more : List Char} (hn : part = [] ∨ IsName part)
    (hpath : IsPathText more) (hp : part ++ more <+: cs) :
    ∃ name path rest, next ('$' :: cs) = some (.variable (String.ofList name) path, rest) ∧
      (name = [] ∨ IsName name) ∧ IsPath path ∧
        part ++ more <+: name ++ Token.pathChars path := by
  have hfirst := splitName?_getD_longest cs
  have hcs := splitName?_getD_append cs
  refine ⟨_, _, _, next_variable cs, ?_⟩
  generalize (splitName? cs).getD ([], cs) = split at hfirst hcs ⊢
  obtain ⟨name, rest⟩ := split
  have hsecond := splitPath_longest rest
  subst hcs
  refine ⟨hfirst.holds, hsecond.1, ?_⟩
  refine (hfirst.name_append_path ?_ hsecond.2).longest _ ⟨part, more, hn, hpath, rfl⟩ hp
  rintro name (rfl | h)
  · exact List.forall_mem_nil _
  · exact h.isNamePart

/-- A dot is read with the path that it begins. -/
theorem exists_next_dot :
    (∃ rest, next ('.' :: cs) = some (.dot, rest)) ∧ (splitPath ('.' :: cs)).1 = [] ∨
      ∃ path rest, next ('.' :: cs) = some (.field path, rest) ∧
        (splitPath ('.' :: cs)).1 = path ∧ path ≠ [] := by
  rw [next]
  split
  · rename_i hsplit
    rw [hsplit]
    exact .inl ⟨⟨_, rfl⟩, rfl⟩
  · rename_i path rest hne hsplit
    rw [hsplit]
    exact .inr ⟨path, rest, rfl, rfl, hne⟩

end

theorem Keyword.isName (keyword : Keyword) : IsName keyword.text.toList := by
  cases keyword <;> exact ⟨by decide, forall_mem_eq (by decide)⟩

/-- Where a text begins with a token, a token is read that is at least as long, and it is that token
if it is no longer. -/
theorem exists_next {cs : List Char} {other : Token} (h : other.Lexical)
    (hp : other.chars <+: cs) :
    ∃ token rest, next cs = some (token, rest) ∧ other.chars <+: token.chars ∧
      (token.chars = other.chars → token = other) := by
  cases other with
  | parenOpen | parenClose | pipe | comma | assign | declare =>
    obtain ⟨rest, rfl⟩ := hp
    exact ⟨_, _, rfl, List.prefix_rfl, fun _ => rfl⟩
  | dot =>
    obtain ⟨after, rfl⟩ := hp
    have hpath := (splitPath_longest ('.' :: after)).1
    rcases @exists_next_dot after with ⟨⟨rest, hnext⟩, -⟩ | ⟨path, rest, hnext, hsplit, hne⟩
    · exact ⟨_, _, hnext, List.prefix_rfl, fun _ => rfl⟩
    · rw [hsplit] at hpath
      refine ⟨_, _, hnext, ?_⟩
      cases path with
      | nil => exact absurd rfl hne
      | cons name path =>
        rw [Token.chars, Token.chars, pathChars_cons]
        refine ⟨List.cons_prefix_cons.mpr ⟨rfl, List.nil_prefix⟩, fun hc => ?_⟩
        rw [List.cons.injEq, List.append_eq_nil_iff] at hc
        exact absurd (hc.2.1 ▸ hpath name List.mem_cons_self) not_isName_nil
  | field path =>
    obtain ⟨hne, hpath⟩ := h
    have hlongest := splitPath_longest cs
    have hstarts := hlongest.2.longest _ ⟨path, hpath, rfl⟩ hp
    cases path with
    | nil => exact absurd rfl hne
    | cons name path =>
      rw [Token.chars, pathChars_cons] at hp
      obtain ⟨after, rfl⟩ := hp
      rw [List.cons_append] at hlongest hstarts ⊢
      rcases exists_next_dot with ⟨-, hsplit⟩ | ⟨found, rest, hnext, hsplit, -⟩
      · rw [hsplit, pathChars_cons] at hstarts
        exact absurd hstarts (by simp [Token.pathChars])
      · rw [hsplit] at hlongest hstarts
        exact ⟨_, _, hnext, hstarts, fun hc =>
          congrArg Token.field (pathChars_inj hlongest.1 hpath hc)⟩
  | «variable» name path =>
    obtain ⟨hname, hpath⟩ := h
    obtain ⟨after, rfl⟩ := hp
    have hname' : name.toList = [] ∨ IsName name.toList :=
      hname.imp_left fun he => String.toList_eq_nil_iff.mpr he
    have hpart {part : List Char} (hp : part = [] ∨ IsName part) :
        ∀ c ∈ part, isNamePart c = true := by
      rcases hp with rfl | hp
      · exact List.forall_mem_nil _
      · exact hp.isNamePart
    obtain ⟨found, more, rest, hnext, hfound, hmore, hstarts⟩ :=
      exists_next_variable hname' ⟨path, hpath, rfl⟩
        (List.prefix_append (name.toList ++ Token.pathChars path) after)
    refine ⟨_, _, hnext, ?_, fun hc => ?_⟩
    · rw [Token.chars, Token.chars, String.toList_ofList]
      exact List.cons_prefix_cons.mpr ⟨rfl, hstarts⟩
    · rw [Token.chars, Token.chars, String.toList_ofList] at hc
      obtain ⟨rfl, hp⟩ := name_append_inj (hpart hfound) (hpart hname') ⟨more, hmore, rfl⟩
        ⟨path, hpath, rfl⟩ (List.cons.inj hc).2
      rw [String.ofList_toList, pathChars_inj hmore hpath hp]
  | identifier name =>
    obtain ⟨word, rest, hnext, hstarts⟩ := exists_next_word h.1 hp
    refine ⟨_, _, hnext, by rwa [chars_wordToken, String.toList_ofList], fun hc => ?_⟩
    rw [chars_wordToken, String.toList_ofList] at hc
    rw [hc, Token.chars, String.ofList_toList, wordToken]
    have hnone : Keyword.ofText? name = none := by
      rw [Keyword.ofText?, List.find?_eq_none]
      exact fun keyword _ hk => h.2 keyword (beq_iff_eq.mp hk)
    rw [hnone]
  | keyword word =>
    obtain ⟨found, rest, hnext, hstarts⟩ := exists_next_word (Keyword.isName word) hp
    refine ⟨_, _, hnext, by rwa [chars_wordToken, String.toList_ofList], fun hc => ?_⟩
    rw [chars_wordToken, String.toList_ofList] at hc
    rw [hc, Token.chars, String.ofList_toList, wordToken, Keyword.ofText?_text]
  | number numeral =>
    obtain ⟨found, rest, hnext, hstarts⟩ := exists_next_number h hp
    refine ⟨_, _, hnext, by rwa [Token.chars, Token.chars, String.toList_ofList], fun hc => ?_⟩
    rw [Token.chars, Token.chars, String.toList_ofList] at hc
    rw [hc, String.ofList_toList]
  | text body =>
    obtain ⟨after, rfl⟩ := hp
    refine ⟨.text body, after, ?_, List.prefix_rfl, fun _ => rfl⟩
    have hsplit := splitQuoted?_append h after
    simp [Token.chars, next, hsplit]
  | raw body =>
    obtain ⟨after, rfl⟩ := hp
    refine ⟨.raw body, after, ?_, List.prefix_rfl, fun _ => rfl⟩
    have hsplit := splitRaw?_append h after
    simp [Token.chars, next, hsplit]

/-- The token at the start of a text is the longest one there. -/
theorem next_eq_some_iff {cs rest : List Char} {token : Token} :
    next cs = some (token, rest) ↔
      token.Lexical ∧ cs = token.chars ++ rest ∧
        ∀ other : Token, other.Lexical → other.chars <+: cs →
          other.chars.length ≤ token.chars.length := by
  constructor
  · intro h
    refine ⟨lexical_of_next h, (eq_append_of_next h).1, fun other ho hp => ?_⟩
    obtain ⟨found, _, hnext, hstarts, -⟩ := exists_next ho hp
    cases h.symm.trans hnext
    exact hstarts.length_le
  · rintro ⟨hlexical, rfl, hlongest⟩
    obtain ⟨found, left, hnext, hstarts, hsame⟩ :=
      exists_next hlexical (List.prefix_append token.chars rest)
    obtain ⟨hcs, -⟩ := eq_append_of_next hnext
    have hlength := hlongest found (lexical_of_next hnext) (hcs ▸ List.prefix_append _ _)
    have hchars := (hstarts.eq_of_length_le hlength).symm
    rw [hchars] at hcs
    rw [hnext, hsame hchars, List.append_cancel_left hcs]

/-! ## Where a token ends -/

/-- A character of tokens other than strings. -/
def isWritten (c : Char) : Bool :=
  isNamePart c || ['(', ')', '|', ',', ':', '=', '.', '$', '-', '+'].contains c

theorem isWritten_of_isNamePart {c : Char} (h : isNamePart c = true) : isWritten c = true := by
  rw [isWritten, h, Bool.true_or]

/-- Blanks above ASCII, as ranges of code points. -/
def wideBlanks : List (Nat × Nat) :=
  [(0x85, 0x85), (0xA0, 0xA0), (0x1680, 0x1680), (0x2000, 0x200A), (0x2028, 0x2029),
    (0x202F, 0x202F), (0x205F, 0x205F), (0x3000, 0x3000)]

/-- Two lists of ranges have no code point in common. -/
def areApart (ranges others : List (Nat × Nat)) : Bool :=
  ranges.all fun range => others.all fun other => Nat.blt range.2 other.1 || Nat.blt other.2 range.1

theorem inRanges_of_areApart {ranges others : List (Nat × Nat)} {code : Nat}
    (h : areApart ranges others = true) (hc : Text.inRanges ranges code = true) :
    Text.inRanges others code = false := by
  rw [Bool.eq_false_iff]
  intro ho
  obtain ⟨range, hr, hlow, hhigh⟩ := (Text.inRanges_iff _ _).mp hc
  obtain ⟨other, hm, hl, hh⟩ := (Text.inRanges_iff _ _).mp ho
  have hapart := List.all_eq_true.mp (List.all_eq_true.mp h range hr) other hm
  rw [Bool.or_eq_true, Nat.blt_eq, Nat.blt_eq] at hapart
  omega

theorem inRanges_wideBlanks {c : Char} (h : Text.isBlank c = true) (hc : ¬c.toNat < 128) :
    Text.inRanges wideBlanks c.toNat = true := by
  simp only [Text.isBlank, Bool.or_eq_true, Bool.and_eq_true, decide_eq_true_eq, beq_iff_eq] at h
  simp only [wideBlanks, Text.inRanges, List.any_cons, List.any_nil, Bool.or_eq_true,
    Bool.and_eq_true, decide_eq_true_eq]
  omega

/-- No token goes on with a blank, unless it is a string. -/
theorem isWritten_of_isBlank {c : Char} (h : Text.isBlank c = true) : isWritten c = false := by
  by_cases hc : c.toNat < 128
  · refine forall_of_codes (p := fun c => isWritten c = false) (.range' 9 5 ++ [32]) (by decide) ?_
    simp only [Text.isBlank, Bool.or_eq_true, Bool.and_eq_true, decide_eq_true_eq, beq_iff_eq] at h
    rw [List.mem_append, List.mem_range'_1, List.mem_singleton]
    omega
  · have hwide := inRanges_wideBlanks h hc
    have halphabetic : Text.inRanges Text.alphabeticRanges c.toNat = false :=
      inRanges_of_areApart (by decide +kernel) hwide
    have hnumeric : Text.inRanges Text.numericRanges c.toNat = false :=
      inRanges_of_areApart (by decide +kernel) hwide
    rw [isWritten, isNamePart, Text.isAlphabetic, Text.isNumeric, if_neg hc, if_neg hc,
      halphabetic, hnumeric, Bool.false_or, Bool.false_or, Bool.or_eq_false_iff,
      beq_eq_false_iff_ne, Bool.eq_false_iff]
    constructor
    · rintro rfl
      exact hc (by decide)
    · intro hm
      have hascii : ∀ mark ∈ ['(', ')', '|', ',', ':', '=', '.', '$', '-', '+'],
          Nat.blt mark.toNat 128 = true := forall_mem_eq (by decide)
      exact hc (Nat.blt_eq.mp (hascii c (by simpa using hm)))

theorem IsPathText.isWritten {cs : List Char} (h : IsPathText cs) :
    ∀ c ∈ cs, isWritten c = true := by
  obtain ⟨path, hpath, rfl⟩ := h
  induction path with
  | nil => exact List.forall_mem_nil _
  | cons name path ih =>
    obtain ⟨hname, hrest⟩ := List.forall_mem_cons.mp hpath
    rw [pathChars_cons, List.forall_mem_cons, List.forall_mem_append]
    exact ⟨by decide, fun c hc => isWritten_of_isNamePart (hname.isNamePart c hc), ih hrest⟩

theorem isWritten_of_isDigit {c : Char} (h : c.isDigit = true) : isWritten c = true :=
  isWritten_of_isNamePart (isNamePart_of_isDigit h)

theorem IsExponent.isWritten {cs : List Char} (h : IsExponent cs) :
    ∀ c ∈ cs, isWritten c = true := by
  cases h with
  | none => exact List.forall_mem_nil _
  | some marks signed present =>
    rw [List.forall_mem_cons, List.forall_mem_append]
    refine ⟨?_, ?_, fun c hc => isWritten_of_isDigit ((isDigits_iff.mp present).2 c hc)⟩
    · rw [isExponentMark, Bool.or_eq_true, beq_iff_eq, beq_iff_eq] at marks
      rcases marks with rfl | rfl <;> decide
    · cases signed <;> exact forall_mem_eq (by decide)

theorem IsUnsigned.isWritten {cs : List Char} (h : IsUnsigned cs) :
    ∀ c ∈ cs, isWritten c = true := by
  obtain ⟨whole, _, hwhole, ⟨fraction, exponent, hfraction, hexponent, rfl⟩, rfl⟩ := h
  simp only [List.forall_mem_append]
  refine ⟨fun c hc => isWritten_of_isDigit (hwhole.isDigit c hc), fun c hc => ?_,
    hexponent.isWritten⟩
  rcases hfraction.isDigit c hc with rfl | hdigit
  · decide
  · exact isWritten_of_isDigit hdigit

end Lexer

open Lexer

/-- A string in double quotes or in backquotes. -/
def Token.IsString : Token → Prop
  | .text _ => True
  | .raw _ => True
  | _ => False

namespace Token

namespace IsString

variable {token : Token} {c : Char}

/-- A string stands between two quotes of one kind. -/
theorem exists_quote (h : token.IsString) :
    ∃ quote inside, token.chars = quote :: (inside ++ [quote]) ∧
      (quote = '"' ∨ quote = '\x60') := by
  cases token with
  | text body => exact ⟨_, _, rfl, .inl rfl⟩
  | raw body => exact ⟨_, _, rfl, .inr rfl⟩
  | _ => cases h

theorem quote_of_head? (h : token.IsString) (hc : c ∈ token.chars.head?) :
    c = '"' ∨ c = '\x60' := by
  obtain ⟨quote, inside, hchars, hquote⟩ := h.exists_quote
  rw [hchars] at hc
  cases hc
  exact hquote

theorem quote_of_getLast? (h : token.IsString) (hc : c ∈ token.chars.getLast?) :
    c = '"' ∨ c = '\x60' := by
  obtain ⟨quote, inside, hchars, hquote⟩ := h.exists_quote
  rw [hchars, ← List.cons_append, List.getLast?_concat] at hc
  cases hc
  exact hquote

end IsString

namespace Lexical

variable {token : Token}

theorem isWritten (h : token.Lexical) (hs : ¬token.IsString) :
    ∀ c ∈ token.chars, isWritten c = true := by
  cases token with
  | text body => exact absurd trivial hs
  | raw body => exact absurd trivial hs
  | field path => exact IsPathText.isWritten ⟨path, h.2, rfl⟩
  | «variable» name path =>
    rw [chars, List.cons_append, List.forall_mem_cons, List.forall_mem_append]
    refine ⟨by decide, ?_, IsPathText.isWritten ⟨path, h.2, rfl⟩⟩
    rcases h.1 with rfl | hname
    · exact List.forall_mem_nil _
    · exact fun c hc => isWritten_of_isNamePart (hname.isNamePart c hc)
  | identifier name => exact fun c hc => isWritten_of_isNamePart (h.1.isNamePart c hc)
  | number numeral =>
    have hnumeral : IsNumeral numeral.toList := h
    rw [chars]
    generalize numeral.toList = cs at hnumeral
    cases hnumeral with
    | plain unsigned => exact unsigned.isWritten
    | negative unsigned => exact List.forall_mem_cons.mpr ⟨by decide, unsigned.isWritten⟩
  | keyword word =>
    exact fun c hc => isWritten_of_isNamePart ((Keyword.isName word).isNamePart c hc)
  | _ => exact forall_mem_eq (by decide)

theorem isBlank (h : token.Lexical) (hs : ¬token.IsString) :
    ∀ c ∈ token.chars, Text.isBlank c = false := by
  intro c hc
  rw [Bool.eq_false_iff]
  intro hblank
  have hwritten := h.isWritten hs c hc
  rw [isWritten_of_isBlank hblank] at hwritten
  cases hwritten

theorem chars_ne_nil (h : token.Lexical) : token.chars ≠ [] := by
  obtain ⟨found, rest, hnext, hstarts, hsame⟩ := exists_next h List.prefix_rfl
  have hfound := eq_append_of_next hnext
  rw [← (hstarts.eq_of_length_le (hfound.1 ▸ (List.prefix_append _ _)).length_le)] at hfound
  exact hfound.2

/-- A token is read by itself where no character of tokens follows it. -/
theorem next_append (h : token.Lexical) {rest : List Char}
    (hrest : ∀ c ∈ rest.head?, Lexer.isWritten c = false) :
    next (token.chars ++ rest) = some (token, rest) := by
  by_cases hs : token.IsString
  · cases token with
    | text body =>
      have hsplit := splitQuoted?_append h rest
      simp [chars, next, hsplit]
    | raw body =>
      have hsplit := splitRaw?_append h rest
      simp [chars, next, hsplit]
    | _ => cases hs
  · refine next_eq_some_iff.mpr ⟨h, rfl, fun other ho hp => Nat.not_lt.mp fun hlonger => ?_⟩
    have hp' : token.chars <+: other.chars :=
      List.prefix_of_prefix_length_le (List.prefix_append _ _) hp (Nat.le_of_lt hlonger)
    obtain ⟨more, hmore⟩ := hp'
    rw [← hmore, List.prefix_append_right_inj] at hp
    cases more with
    | nil => simp [← hmore] at hlonger
    | cons c more =>
      obtain ⟨left, rfl⟩ := hp
      have hc := hrest c rfl
      by_cases hos : other.IsString
      · -- The token would begin with a quote.
        cases hchars : token.chars with
        | nil => exact h.chars_ne_nil hchars
        | cons first others =>
          have hwritten := h.isWritten hs first (hchars ▸ List.mem_cons_self)
          have hhead : first ∈ other.chars.head? := by
            rw [← hmore, hchars]
            rfl
          rcases hos.quote_of_head? hhead with rfl | rfl <;> exact absurd hwritten (by decide)
      · rw [ho.isWritten hos c (by rw [← hmore]; simp)] at hc
        cases hc

end Lexical

end Token

end LiveTemplate
