import LiveTemplate.Action.Token

/-!
# From text to tokens

`Lexer.lex` reads the body of an action, token by token from the left. Each token is the longest
that its first character can start, and blanks may stand between any two.

A body in which some place holds neither a blank nor a token is no row of tokens, and so is one of
blanks alone. What is reported of it, and where, is not the lexer's to say (`SyntaxReports`).
-/

namespace LiveTemplate

namespace Lexer

/-! ## Names and paths -/

/-- A character that can begin a name. -/
def isNameStart (c : Char) : Bool :=
  Text.isAlphabetic c || c == '_'

/-- A character that can continue a name. -/
def isNamePart (c : Char) : Bool :=
  Text.isAlphabetic c || Text.isNumeric c || c == '_'

/-- The name at the start of a text, and what follows it. -/
def splitName? : List Char → Option (List Char × List Char)
  | [] => none
  | c :: rest =>
    if isNameStart c then some (c :: rest.takeWhile isNamePart, rest.dropWhile isNamePart)
    else none

theorem eq_append_of_splitName? {cs name rest : List Char} (h : splitName? cs = some (name, rest)) :
    cs = name ++ rest ∧ name ≠ [] := by
  cases cs with
  | nil => simp [splitName?] at h
  | cons c cs =>
    simp only [splitName?] at h
    split at h
    · simp only [Option.some.injEq, Prod.mk.injEq] at h
      obtain ⟨rfl, rfl⟩ := h
      simp
    · simp at h

theorem length_lt_of_splitName? {cs name rest : List Char}
    (h : splitName? cs = some (name, rest)) : rest.length < cs.length := by
  obtain ⟨rfl, hne⟩ := eq_append_of_splitName? h
  have := List.length_pos_iff.mpr hne
  simp only [List.length_append]
  omega

/-- The names at the start of a text that each follow a dot, and what follows them. A dot without a
name behind it is left. -/
def splitPath (cs : List Char) : List String × List Char :=
  match cs with
  | '.' :: rest =>
    match h : splitName? rest with
    | some (name, after) =>
      have : after.length < rest.length := length_lt_of_splitName? h
      let (path, left) := splitPath after
      (String.ofList name :: path, left)
    | none => ([], cs)
  | _ => ([], cs)
termination_by cs.length
decreasing_by simp only [List.length_cons]; omega

/-! ## Numbers -/

/-- The integer part of a number: a zero, or digits that do not begin with one. -/
def splitInteger? : List Char → Option (List Char × List Char)
  | [] => none
  | c :: rest =>
    if c == '0' then some ([c], rest)
    else if c.isDigit then some (c :: rest.takeWhile Char.isDigit, rest.dropWhile Char.isDigit)
    else none

/-- A point with the digits after it, if there are any. -/
def splitFraction (cs : List Char) : List Char × List Char :=
  match cs with
  | '.' :: rest =>
    let digits := rest.takeWhile Char.isDigit
    if digits.isEmpty then ([], cs) else ('.' :: digits, rest.dropWhile Char.isDigit)
  | _ => ([], cs)

/-- The mark of an exponent. -/
def isExponentMark (c : Char) : Bool :=
  c == 'e' || c == 'E'

/-- A sign, if there is one, and what follows it. -/
def splitSign (cs : List Char) : List Char × List Char :=
  match cs with
  | '+' :: rest => (['+'], rest)
  | '-' :: rest => (['-'], rest)
  | _ => ([], cs)

/-- An exponent with its mark, its sign and its digits, if there are any. -/
def splitExponent (cs : List Char) : List Char × List Char :=
  match cs with
  | [] => ([], cs)
  | c :: rest =>
    let (sign, unsigned) := splitSign rest
    let digits := unsigned.takeWhile Char.isDigit
    if isExponentMark c && !digits.isEmpty then
      (c :: sign ++ digits, unsigned.dropWhile Char.isDigit)
    else ([], cs)

/-- A number without its sign. -/
def splitUnsigned? (cs : List Char) : Option (List Char × List Char) := do
  let (whole, rest) ← splitInteger? cs
  let (fraction, rest) := splitFraction rest
  let (exponent, rest) := splitExponent rest
  some (whole ++ fraction ++ exponent, rest)

/-! ## Strings -/

/-- The body of a string in double quotes, escapes in place, and what follows the closing quote. -/
def splitQuoted? : List Char → Option (List Char × List Char)
  | [] => none
  | '"' :: rest => some ([], rest)
  | ['\\'] => none
  | '\\' :: c :: rest => (splitQuoted? rest).map fun (body, after) => ('\\' :: c :: body, after)
  | c :: rest => (splitQuoted? rest).map fun (body, after) => (c :: body, after)

/-- The body of a string in backquotes, and what follows the closing one. -/
def splitRaw? : List Char → Option (List Char × List Char)
  | [] => none
  | c :: rest =>
    if c == '\x60' then some ([], rest)
    else (splitRaw? rest).map fun (body, after) => (c :: body, after)

/-! ## One token -/

/-- The token that a word is. -/
def wordToken (word : String) : Token :=
  match Keyword.ofText? word with
  | some keyword => .keyword keyword
  | none => .identifier word

/-- The number at the start of a text. -/
def numberToken? (sign cs : List Char) : Option (Token × List Char) :=
  (splitUnsigned? cs).map fun (numeral, rest) => (.number (String.ofList (sign ++ numeral)), rest)

/-- The token at the start of a text and what follows it, if there is one. -/
def next (cs : List Char) : Option (Token × List Char) :=
  match cs with
  | [] => none
  | '$' :: rest =>
    let (name, rest) := (splitName? rest).getD ([], rest)
    let (path, rest) := splitPath rest
    some (.variable (String.ofList name) path, rest)
  | '.' :: rest =>
    match splitPath cs with
    | ([], _) => some (.dot, rest)
    | (path, rest) => some (.field path, rest)
  | '-' :: rest => numberToken? ['-'] rest
  | '"' :: rest => (splitQuoted? rest).map fun (body, rest) => (.text (String.ofList body), rest)
  | '\x60' :: rest => (splitRaw? rest).map fun (body, rest) => (.raw (String.ofList body), rest)
  | '(' :: rest => some (.parenOpen, rest)
  | ')' :: rest => some (.parenClose, rest)
  | ':' :: '=' :: rest => some (.declare, rest)
  | '=' :: rest => some (.assign, rest)
  | '|' :: rest => some (.pipe, rest)
  | ',' :: rest => some (.comma, rest)
  | _ =>
    (numberToken? [] cs).or
      ((splitName? cs).map fun (word, rest) => (wordToken (String.ofList word), rest))

/-! ## Tokens are cut from the text -/

theorem eq_append_of_splitPath {cs rest : List Char} {path : List String}
    (h : splitPath cs = (path, rest)) : cs = Token.pathChars path ++ rest := by
  fun_induction splitPath cs generalizing path rest with
  | case1 after name left hname hlt path' left' heq ih =>
    obtain ⟨rfl, rfl⟩ := Prod.mk.inj h
    obtain ⟨rfl, -⟩ := eq_append_of_splitName? hname
    simp [Token.pathChars, ih heq]
  | case2 => simp_all [Token.pathChars]
  | case3 => simp_all [Token.pathChars]

theorem eq_append_of_splitQuoted? {cs body rest : List Char}
    (h : splitQuoted? cs = some (body, rest)) : cs = body ++ '"' :: rest := by
  fun_induction splitQuoted? cs generalizing body rest with
  | case1 => simp at h
  | case2 => simp_all
  | case3 => simp at h
  | case4 c cs ih =>
    simp only [Option.map_eq_some_iff, Prod.exists, Prod.mk.injEq] at h
    obtain ⟨body', rest', h, rfl, rfl⟩ := h
    simp [ih h]
  | case5 c cs _ _ _ ih =>
    simp only [Option.map_eq_some_iff, Prod.exists, Prod.mk.injEq] at h
    obtain ⟨body', rest', h, rfl, rfl⟩ := h
    simp [ih h]

theorem eq_append_of_splitRaw? {cs body rest : List Char} (h : splitRaw? cs = some (body, rest)) :
    cs = body ++ '\x60' :: rest := by
  induction cs generalizing body rest with
  | nil => simp [splitRaw?] at h
  | cons c cs ih =>
    simp only [splitRaw?] at h
    split at h
    · simp_all
    · simp only [Option.map_eq_some_iff, Prod.exists, Prod.mk.injEq] at h
      obtain ⟨body', rest', h, rfl, rfl⟩ := h
      simp [ih h]

theorem eq_append_of_splitInteger? {cs whole rest : List Char}
    (h : splitInteger? cs = some (whole, rest)) : cs = whole ++ rest ∧ whole ≠ [] := by
  cases cs with
  | nil => simp [splitInteger?] at h
  | cons c cs =>
    simp only [splitInteger?] at h
    split at h
    · simp only [Option.some.injEq, Prod.mk.injEq] at h
      obtain ⟨rfl, rfl⟩ := h
      simp
    · split at h
      · simp only [Option.some.injEq, Prod.mk.injEq] at h
        obtain ⟨rfl, rfl⟩ := h
        simp
      · simp at h

theorem splitFraction_append (cs : List Char) :
    (splitFraction cs).1 ++ (splitFraction cs).2 = cs := by
  unfold splitFraction
  split
  · dsimp only
    split <;> simp
  · simp

theorem splitSign_append (cs : List Char) : (splitSign cs).1 ++ (splitSign cs).2 = cs := by
  unfold splitSign
  split <;> simp

theorem splitExponent_append (cs : List Char) :
    (splitExponent cs).1 ++ (splitExponent cs).2 = cs := by
  unfold splitExponent
  split
  · simp
  · next c rest =>
    have h := splitSign_append rest
    dsimp only
    split
    · conv => rhs; rw [← h]
      simp
    · simp

theorem eq_append_of_splitUnsigned? {cs numeral rest : List Char}
    (h : splitUnsigned? cs = some (numeral, rest)) : cs = numeral ++ rest ∧ numeral ≠ [] := by
  simp only [splitUnsigned?, Option.bind_eq_bind, Option.bind_eq_some_iff, Prod.exists] at h
  obtain ⟨whole, after, hwhole, h⟩ := h
  obtain ⟨rfl, hne⟩ := eq_append_of_splitInteger? hwhole
  have hfraction := splitFraction_append after
  have hexponent := splitExponent_append (splitFraction after).2
  simp only [Option.some.injEq, Prod.mk.injEq] at h
  obtain ⟨rfl, rfl⟩ := h
  constructor
  · conv => lhs; rw [← hfraction, ← hexponent]
    simp
  · simp [hne]

theorem eq_append_of_numberToken? {sign cs rest : List Char} {token : Token}
    (h : numberToken? sign cs = some (token, rest)) :
    sign ++ cs = token.chars ++ rest ∧ token.chars ≠ [] := by
  simp only [numberToken?, Option.map_eq_some_iff, Prod.exists, Prod.mk.injEq] at h
  obtain ⟨numeral, rest', h, rfl, rfl⟩ := h
  obtain ⟨rfl, hne⟩ := eq_append_of_splitUnsigned? h
  simp [Token.chars, hne]

theorem chars_wordToken (word : String) : (wordToken word).chars = word.toList := by
  unfold wordToken
  split
  · next keyword h =>
    have := List.find?_some h
    simp only [beq_iff_eq] at this
    simp [Token.chars, this]
  · rfl

theorem splitName?_getD_append (cs : List Char) :
    ((splitName? cs).getD ([], cs)).1 ++ ((splitName? cs).getD ([], cs)).2 = cs := by
  cases h : splitName? cs with
  | none => simp
  | some r => simp [(eq_append_of_splitName? h).1]

/-- A token is the text it was read from, and it is not empty. -/
theorem eq_append_of_next {cs rest : List Char} {token : Token}
    (h : next cs = some (token, rest)) : cs = token.chars ++ rest ∧ token.chars ≠ [] := by
  unfold next at h
  split at h
  case h_1 => simp at h
  case h_2 after =>
    have hname := splitName?_getD_append after
    generalize (splitName? after).getD ([], after) = r at h hname
    obtain ⟨name, left⟩ := r
    have hpath : left = _ ++ _ := eq_append_of_splitPath rfl
    simp only [Option.some.injEq, Prod.mk.injEq] at h
    obtain ⟨rfl, rfl⟩ := h
    refine ⟨?_, by simp [Token.chars]⟩
    conv => lhs; rw [← hname, hpath]
    simp [Token.chars]
  case h_3 after =>
    split at h
    · simp only [Option.some.injEq, Prod.mk.injEq] at h
      obtain ⟨rfl, rfl⟩ := h
      simp [Token.chars]
    · next path left hne hpath =>
      simp only [Option.some.injEq, Prod.mk.injEq] at h
      obtain ⟨rfl, rfl⟩ := h
      refine ⟨eq_append_of_splitPath hpath, ?_⟩
      cases path with
      | nil => exact absurd rfl hne
      | cons name path => simp [Token.chars, Token.pathChars]
  case h_4 after => simpa using eq_append_of_numberToken? h
  case h_5 after =>
    simp only [Option.map_eq_some_iff, Prod.exists, Prod.mk.injEq] at h
    obtain ⟨body, left, hq, rfl, rfl⟩ := h
    simp [Token.chars, eq_append_of_splitQuoted? hq]
  case h_6 after =>
    simp only [Option.map_eq_some_iff, Prod.exists, Prod.mk.injEq] at h
    obtain ⟨body, left, hq, rfl, rfl⟩ := h
    simp [Token.chars, eq_append_of_splitRaw? hq]
  case h_13 =>
    rcases Option.or_eq_some_iff.mp h with hn | ⟨-, h⟩
    · simpa using eq_append_of_numberToken? hn
    · simp only [Option.map_eq_some_iff, Prod.exists, Prod.mk.injEq] at h
      obtain ⟨word, left, hw, rfl, rfl⟩ := h
      obtain ⟨rfl, hne⟩ := eq_append_of_splitName? hw
      simp [chars_wordToken, hne]
  all_goals
    simp only [Option.some.injEq, Prod.mk.injEq] at h
    obtain ⟨rfl, rfl⟩ := h
    simp [Token.chars]

theorem length_lt_of_next {cs rest : List Char} {token : Token}
    (h : next cs = some (token, rest)) : rest.length < cs.length := by
  obtain ⟨rfl, hne⟩ := eq_append_of_next h
  have := List.length_pos_iff.mpr hne
  simp only [List.length_append]
  omega

/-! ## All tokens -/

/-- The tokens of a text that does not begin with a blank, the first one at byte `position`. -/
def lexemes (position : Nat) (cs : List Char) : Option (List Lexeme) :=
  match h : next cs with
  | none => none
  | some (token, rest) =>
    have : rest.length < cs.length := length_lt_of_next h
    let stop := position + Text.byteLength token.chars
    let lexeme : Lexeme := ⟨token, position, stop⟩
    let blanks := rest.takeWhile Text.isBlank
    let after := rest.dropWhile Text.isBlank
    if after = [] then some [lexeme]
    else (lexemes (stop + Text.byteLength blanks) after).map (lexeme :: ·)
termination_by cs.length
decreasing_by
  have hafter : (rest.dropWhile Text.isBlank).length ≤ rest.length :=
    (List.dropWhile_sublist _).length_le
  omega

/-- The tokens of the body of an action. -/
def lex (body : List Char) : Option (List Lexeme) :=
  if body = [] then some []
  else
    let blanks := body.takeWhile Text.isBlank
    lexemes (Text.byteLength blanks) (body.dropWhile Text.isBlank)

end Lexer

end LiveTemplate
