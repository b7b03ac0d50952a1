import LiveTemplate.Proofs.Action.Reader
import LiveTemplate.Proofs.Action.Lexemes

/-!
# Tokens by ordered choice

`Reader.token` tries one kind of token after the other: a variable, a field, a dot, a number, a
string, a bracket, a mark and at last a word. `Reader.lexeme` reads a token with the blanks around
it.

* `Reader.run_token`: the first kind of token that can be read is what `Lexer.next` reads.
* `Lexer.byChoice?_eq`: the lexer finds the tokens that are read one behind the other.
* `lex_inverts_display`: the text under each token is its written form, and tokens that are written
  are found again.
-/

namespace LiveTemplate

open Lexer

namespace Reader

/-! ## The readers -/

/-- A character of a class. -/
def one (p : Char → Bool) : Reader Char Char :=
  item fun c => if p c then some c else none

/-- A text, or nothing. -/
def orEmpty (r : Reader Char (List Char)) : Reader Char (List Char) :=
  r <|> pure []

def name : Reader Char (List Char) := do
  let first ← one isNameStart
  let others ← many (one isNamePart)
  pure (first :: others)

/-- A name behind a dot. -/
def dotName : Reader Char String := do
  just '.'
  let name ← name
  pure (String.ofList name)

def variableToken : Reader Char Token := do
  just '$'
  let name ← orEmpty name
  let path ← many dotName
  pure (.variable (String.ofList name) path)

def fieldToken : Reader Char Token := do
  let first ← dotName
  let others ← many dotName
  pure (.field (first :: others))

def digits : Reader Char (List Char) := do
  let first ← one Char.isDigit
  let others ← many (one Char.isDigit)
  pure (first :: others)

/-- Digits that do not begin with a zero, or one zero. -/
def integer : Reader Char (List Char) :=
  (do
    let first ← one fun c => c.isDigit && c != '0'
    let others ← many (one Char.isDigit)
    pure (first :: others)) <|> do
  just '0'
  pure ['0']

def fraction : Reader Char (List Char) := do
  just '.'
  let digits ← digits
  pure ('.' :: digits)

def sign : Reader Char (List Char) := do
  let sign ← one fun c => c == '+' || c == '-'
  pure [sign]

def exponent : Reader Char (List Char) := do
  let mark ← one isExponentMark
  let sign ← orEmpty sign
  let digits ← digits
  pure (mark :: sign ++ digits)

def unsigned : Reader Char (List Char) := do
  let whole ← integer
  let fraction ← orEmpty fraction
  let exponent ← orEmpty exponent
  pure (whole ++ fraction ++ exponent)

def minus : Reader Char (List Char) := do
  just '-'
  pure ['-']

def numberToken : Reader Char Token := do
  let sign ← orEmpty minus
  let numeral ← unsigned
  pure (.number (String.ofList (sign ++ numeral)))

/-- A backslash with the character behind it. -/
def escape : Reader Char (List Char) := do
  just '\\'
  let c ← one fun _ => true
  pure ['\\', c]

/-- A character that stands for itself between double quotes. -/
def plain : Reader Char (List Char) := do
  let c ← one fun c => c != '\\' && c != '"'
  pure [c]

/-- What is between double quotes, with the closing one. -/
def quotedBody : Reader Char (List Char) := do
  let parts ← many (escape <|> plain)
  just '"'
  pure parts.flatten

def quotedToken : Reader Char Token := do
  just '"'
  let body ← quotedBody
  pure (.text (String.ofList body))

/-- What is between backquotes, with the closing one. -/
def rawBody : Reader Char (List Char) := do
  let body ← many (one fun c => c != '\x60')
  just '\x60'
  pure body

def rawToken : Reader Char Token := do
  just '\x60'
  let body ← rawBody
  pure (.raw (String.ofList body))

/-- A token of one character. -/
def sole (c : Char) (token : Token) : Reader Char Token := do
  just c
  pure token

def declareToken : Reader Char Token := do
  just ':'
  just '='
  pure .declare

def wordToken : Reader Char Token := do
  let word ← name
  pure (Lexer.wordToken (String.ofList word))

/-- A token. -/
def token : Reader Char Token :=
  variableToken <|> fieldToken <|> sole '.' .dot <|> numberToken <|> quotedToken <|> rawToken <|>
    sole '(' .parenOpen <|> sole ')' .parenClose <|> declareToken <|> sole '=' .assign <|>
    sole '|' .pipe <|> sole ',' .comma <|> wordToken

def blanks : Reader Char (List Char) :=
  many (one Text.isBlank)

/-- The number of bytes that are left. -/
def bytesLeft : Reader Char Nat :=
  fun cs => some (Text.byteLength cs, cs)

/-- A token with the blanks around it, in a text of `total` bytes. -/
def lexeme (total : Nat) : Reader Char Lexeme := do
  let _ ← blanks
  let left ← bytesLeft
  let token ← token
  let behind ← bytesLeft
  let _ ← blanks
  pure ⟨token, total - left, total - behind⟩

/-! ## Names and paths -/

@[simp]
theorem run_one_cons (p : Char → Bool) (c : Char) (cs : List Char) :
    (one p).run (c :: cs) = if p c then some (c, cs) else none := by
  rw [one, run_item_cons]
  split <;> rfl

theorem run_many_one (p : Char → Bool) (cs : List Char) :
    (many (one p)).run cs = some (cs.takeWhile p, cs.dropWhile p) := by
  induction cs with
  | nil => exact run_many_of_none rfl
  | cons c cs ih =>
    cases hc : p c with
    | true =>
      rw [List.takeWhile_cons_of_pos hc, List.dropWhile_cons_of_pos hc]
      exact run_many_of_some (by rw [run_one_cons, if_pos hc]) (Nat.lt_succ_self _) ih
    | false =>
      rw [List.takeWhile_cons_of_neg (by simp [hc]), List.dropWhile_cons_of_neg (by simp [hc])]
      exact run_many_of_none (by rw [run_one_cons, if_neg (by simp [hc])])

theorem run_name (cs : List Char) : name.run cs = splitName? cs := by
  cases cs with
  | nil => rfl
  | cons c cs =>
    rw [splitName?]
    split
    · rename_i hc
      simp [name, hc, run_many_one]
    · rename_i hc
      simp [name, hc]

theorem run_dotName_dot (cs : List Char) :
    dotName.run ('.' :: cs) =
      (splitName? cs).map fun (name, rest) => (String.ofList name, rest) := by
  cases h : splitName? cs <;> simp [dotName, run_name, h]

theorem run_dotName_of_ne {c : Char} (hc : c ≠ '.') (cs : List Char) :
    dotName.run (c :: cs) = none := by
  simp [dotName, hc]

theorem length_lt_of_dotName {cs rest : List Char} {name : String}
    (h : dotName.run cs = some (name, rest)) : rest.length < cs.length := by
  obtain ⟨_, behind, hdot, h⟩ := run_bind_eq_some_iff.mp h
  obtain ⟨cs', after, hname, h⟩ := run_bind_eq_some_iff.mp h
  cases h
  obtain rfl := run_just_eq_some_iff.mp hdot
  rw [run_name] at hname
  exact Nat.lt_succ_of_lt (length_lt_of_splitName? hname)

theorem run_path (cs : List Char) : (many dotName).run cs = some (splitPath cs) := by
  fun_induction splitPath cs with
  | case1 rest name after hname hlt path left heq ih =>
    rw [heq] at ih
    refine run_many_of_some ?_ (Nat.lt_succ_of_lt hlt) ih
    rw [run_dotName_dot, hname]
    rfl
  | case2 rest hname =>
    refine run_many_of_none ?_
    rw [run_dotName_dot, hname]
    rfl
  | case3 cs hdot =>
    refine run_many_of_none ?_
    cases cs with
    | nil => rfl
    | cons c cs => exact run_dotName_of_ne (fun hc => hdot cs (by rw [hc])) cs

theorem run_orEmpty (r : Reader Char (List Char)) (cs : List Char) :
    (orEmpty r).run cs = some ((r.run cs).getD ([], cs)) := by
  simp [orEmpty]

/-! ## Numbers -/

theorem run_digits_of_nil {cs : List Char} (h : cs.takeWhile Char.isDigit = []) :
    digits.run cs = none := by
  cases cs with
  | nil => rfl
  | cons c cs => cases hc : c.isDigit <;> simp_all [digits]

theorem run_digits_of_ne_nil {cs : List Char} (h : cs.takeWhile Char.isDigit ≠ []) :
    digits.run cs = some (cs.takeWhile Char.isDigit, cs.dropWhile Char.isDigit) := by
  cases cs with
  | nil => exact absurd rfl h
  | cons c cs => cases hc : c.isDigit <;> simp_all [digits, run_many_one]

theorem run_integer (cs : List Char) : integer.run cs = splitInteger? cs := by
  cases cs with
  | nil => rfl
  | cons c cs =>
    by_cases hzero : c = '0'
    · simp [integer, splitInteger?, hzero]
    · cases hc : c.isDigit <;> simp [integer, splitInteger?, run_many_one, hzero, hc]

theorem run_fraction (cs : List Char) : (orEmpty fraction).run cs = some (splitFraction cs) := by
  rw [run_orEmpty]
  unfold splitFraction
  split
  · rename_i rest
    by_cases hnone : rest.takeWhile Char.isDigit = []
    · simp [fraction, run_digits_of_nil hnone, hnone]
    · simp [fraction, run_digits_of_ne_nil hnone, hnone]
  · rename_i hpoint
    cases cs with
    | nil => rfl
    | cons c cs =>
      have hc : c ≠ '.' := fun hc => hpoint cs (by rw [hc])
      simp [fraction, hc]

theorem run_sign (cs : List Char) : (orEmpty sign).run cs = some (splitSign cs) := by
  rw [run_orEmpty]
  unfold splitSign
  split
  · rfl
  · rfl
  · rename_i hplus hminus
    cases cs with
    | nil => rfl
    | cons c cs =>
      have hp : c ≠ '+' := fun hc => hplus cs (by rw [hc])
      have hm : c ≠ '-' := fun hc => hminus cs (by rw [hc])
      simp [sign, hp, hm]

theorem run_exponent (cs : List Char) : (orEmpty exponent).run cs = some (splitExponent cs) := by
  rw [run_orEmpty]
  unfold splitExponent
  split
  · rfl
  · rename_i c rest
    cases hmark : isExponentMark c
    · simp [exponent, hmark]
    · by_cases hnone : (splitSign rest).2.takeWhile Char.isDigit = []
      · simp [exponent, hmark, run_sign, run_digits_of_nil hnone, hnone]
      · simp [exponent, hmark, run_sign, run_digits_of_ne_nil hnone, hnone]

theorem run_unsigned (cs : List Char) : unsigned.run cs = splitUnsigned? cs := by
  simp [unsigned, splitUnsigned?, run_integer, run_fraction, run_exponent]

/-! ## Strings -/

theorem run_quotedBody_of_some {cs rest part : List Char}
    (h : (escape <|> plain).run cs = some (part, rest)) (hlt : rest.length < cs.length) :
    quotedBody.run cs = (quotedBody.run rest).map fun (body, left) => (part ++ body, left) := by
  obtain ⟨parts, left, hmore⟩ := exists_run_many (escape <|> plain) rest
  simp [quotedBody, run_many_of_some h hlt hmore, hmore, Function.comp_def]

theorem run_quotedBody_of_none {cs : List Char} (h : (escape <|> plain).run cs = none) :
    quotedBody.run cs = ((just '"').run cs).map fun (_, left) => ([], left) := by
  simp [quotedBody, run_many_of_none h]

theorem run_quotedBody (cs : List Char) : quotedBody.run cs = splitQuoted? cs := by
  fun_induction splitQuoted? cs with
  | case1 => exact run_quotedBody_of_none rfl
  | case2 rest =>
    have hpart : (escape <|> plain).run ('"' :: rest) = none := by simp [escape, plain]
    rw [run_quotedBody_of_none hpart, run_just_cons]
    rfl
  | case3 =>
    have hpart : (escape <|> plain).run ['\\'] = none := by simp [escape, plain, one]
    rw [run_quotedBody_of_none hpart, run_just_cons]
    rfl
  | case4 c cs ih =>
    have hpart : (escape <|> plain).run ('\\' :: c :: cs) = some (['\\', c], cs) := by simp [escape]
    rw [← ih]
    exact run_quotedBody_of_some hpart (Nat.lt_add_of_pos_right Nat.two_pos)
  | case5 c cs hquote hlast hescape ih =>
    have hc : c ≠ '\\' := by
      rintro rfl
      cases cs with
      | nil => exact hlast rfl rfl
      | cons d cs => exact hescape d cs rfl rfl
    have hq : c ≠ '"' := hquote
    have hpart : (escape <|> plain).run (c :: cs) = some ([c], cs) := by
      simp [escape, plain, hc, hq]
    rw [← ih]
    exact run_quotedBody_of_some hpart (Nat.lt_succ_self _)

theorem run_rawBody (cs : List Char) : rawBody.run cs = splitRaw? cs := by
  induction cs with
  | nil => simp [rawBody, run_many_one, splitRaw?]
  | cons c cs ih =>
    rw [splitRaw?, ← ih]
    by_cases hc : c = '\x60'
    · simp [rawBody, run_many_one, hc]
    · simp [rawBody, run_many_one, hc, Function.comp_def]

/-! ## One token -/

section

variable {c : Char} (cs : List Char)

@[simp]
theorem run_variableToken_of_ne (hc : c ≠ '$') : variableToken.run (c :: cs) = none := by
  simp [variableToken, hc]

theorem run_fieldToken :
    fieldToken.run cs =
      if (splitPath cs).1 = [] then none else some (.field (splitPath cs).1, (splitPath cs).2) := by
  cases h : dotName.run cs with
  | none =>
    have hpath := (run_path cs).symm.trans (run_many_of_none h)
    rw [Option.some.inj hpath, if_pos rfl]
    exact run_bind_of_none h
  | some result =>
    obtain ⟨name, rest⟩ := result
    have hlt := length_lt_of_dotName h
    have hpath := (run_path cs).symm.trans (run_many_of_some h hlt (run_path rest))
    rw [Option.some.inj hpath, if_neg (List.cons_ne_nil _ _)]
    exact run_bind_eq_some_iff.mpr ⟨_, _, h, run_bind_eq_some_iff.mpr ⟨_, _, run_path rest, rfl⟩⟩

@[simp]
theorem run_fieldToken_of_ne (hc : c ≠ '.') : fieldToken.run (c :: cs) = none :=
  run_bind_of_none (run_dotName_of_ne hc cs)

theorem run_numberToken_of_ne (hc : c ≠ '-') :
    numberToken.run (c :: cs) = numberToken? [] (c :: cs) := by
  cases h : splitUnsigned? (c :: cs) <;>
    simp [numberToken, minus, run_orEmpty, run_unsigned, numberToken?, hc, h]

theorem run_numberToken_minus : numberToken.run ('-' :: cs) = numberToken? ['-'] cs := by
  cases h : splitUnsigned? cs <;>
    simp [numberToken, minus, run_orEmpty, run_unsigned, numberToken?, h]

theorem numberToken?_of_not_isDigit (hc : c.isDigit = false) :
    numberToken? [] (c :: cs) = none := by
  have hzero : c ≠ '0' := by
    rintro rfl
    cases hc
  simp [numberToken?, splitUnsigned?, splitInteger?, hzero, hc]

theorem run_quotedToken :
    quotedToken.run ('"' :: cs) =
      (splitQuoted? cs).map fun (body, rest) => (.text (String.ofList body), rest) := by
  cases h : splitQuoted? cs <;> simp [quotedToken, run_quotedBody, h]

@[simp]
theorem run_quotedToken_of_ne (hc : c ≠ '"') : quotedToken.run (c :: cs) = none := by
  simp [quotedToken, hc]

theorem run_rawToken :
    rawToken.run ('\x60' :: cs) =
      (splitRaw? cs).map fun (body, rest) => (.raw (String.ofList body), rest) := by
  cases h : splitRaw? cs <;> simp [rawToken, run_rawBody, h]

@[simp]
theorem run_rawToken_of_ne (hc : c ≠ '\x60') : rawToken.run (c :: cs) = none := by
  simp [rawToken, hc]

@[simp]
theorem run_sole_cons (expected : Char) (token : Token) :
    (sole expected token).run (c :: cs) = if c = expected then some (token, cs) else none := by
  by_cases hc : c = expected <;> simp [sole, hc]

@[simp]
theorem run_declareToken_of_ne (hc : c ≠ ':') : declareToken.run (c :: cs) = none := by
  simp [declareToken, hc]

theorem run_wordToken :
    wordToken.run cs =
      (splitName? cs).map fun (word, rest) => (Lexer.wordToken (String.ofList word), rest) := by
  cases h : splitName? cs <;> simp [wordToken, run_name, h]

end

theorem run_token_variable (cs : List Char) :
    token.run ('$' :: cs) = next ('$' :: cs) := by
  rw [next_variable]
  simp [token, variableToken, run_orEmpty, run_name, run_path]

theorem run_token_dot (cs : List Char) : token.run ('.' :: cs) = next ('.' :: cs) := by
  rw [next]
  split
  · rename_i hpath
    simp [token, run_fieldToken, hpath]
  · rename_i path rest hne hpath
    have hne : path ≠ [] := hne
    simp [token, run_fieldToken, hpath, hne]

/-- What begins with none of the marks is a number or a word. -/
theorem run_token_of_not_mem_marks {c : Char} (h : c ∉ marks) (cs : List Char) :
    token.run (c :: cs) = next (c :: cs) := by
  rw [next_of_not_mem_marks h]
  simp only [marks, List.mem_cons, List.not_mem_nil, or_false, not_or] at h
  have hnumber := run_numberToken_of_ne cs h.2.2.1
  cases hn : numberToken? [] (c :: cs) with
  | some result => simp [token, hnumber, hn, h]
  | none => simp [token, run_wordToken, hnumber, hn, h]

/-- What begins with one of the marks is no number without a sign, and no word. -/
theorem run_token_of_mem_marks {c : Char} (h : c ∈ marks) (cs : List Char) :
    token.run (c :: cs) = next (c :: cs) := by
  have hstart : isNameStart c = false :=
    Bool.eq_false_iff.mpr fun hstart => not_mem_marks_of_isNameStart hstart h
  have hdigit : c.isDigit = false :=
    Bool.eq_false_iff.mpr fun hdigit => not_mem_marks_of_isDigit hdigit h
  have hname : splitName? (c :: cs) = none := by simp [splitName?, hstart]
  have hword : wordToken.run (c :: cs) = none := by simp [run_wordToken, hname]
  have hunsigned := numberToken?_of_not_isDigit cs hdigit
  have hnumber (hc : c ≠ '-') : numberToken.run (c :: cs) = none := by
    rw [run_numberToken_of_ne cs hc, hunsigned]
  simp only [marks, List.mem_cons, List.not_mem_nil, or_false] at h
  rcases h with rfl | rfl | rfl | rfl | rfl | rfl | rfl | rfl | rfl | rfl | rfl
  · exact run_token_variable cs
  · exact run_token_dot cs
  -- Every reader before the one for this mark fails, and so do those for words and numbers.
  · cases hn : numberToken? ['-'] cs <;>
      simp [token, next, run_numberToken_minus, hn, hword]
  · cases hq : splitQuoted? cs <;>
      simp [token, next, run_quotedToken, hq, hnumber, hword]
  · cases hr : splitRaw? cs <;>
      simp [token, next, run_rawToken, hr, hnumber, hword]
  · simp [token, next, hnumber]
  · simp [token, next, hnumber]
  · cases cs with
    | nil => simp [token, next, declareToken, hnumber, hword, hname, hunsigned]
    | cons d cs =>
      have hnumber := hnumber (by decide)
      by_cases hd : d = '='
      · subst hd
        simp [token, next, declareToken, hnumber]
      · simp [token, next, declareToken, hd, hnumber, hword, hname, hunsigned]
  · simp [token, next, hnumber]
  · simp [token, next, hnumber]
  · simp [token, next, hnumber]

/-- The first kind of token that can be read is the one that the lexer reads. -/
theorem run_token (cs : List Char) : token.run cs = next cs := by
  cases cs with
  | nil => rfl
  | cons c cs =>
    by_cases h : c ∈ marks
    · exact run_token_of_mem_marks h cs
    · exact run_token_of_not_mem_marks h cs

/-! ## All tokens -/

theorem run_blanks (cs : List Char) :
    blanks.run cs = some (cs.takeWhile Text.isBlank, cs.dropWhile Text.isBlank) :=
  run_many_one _ cs

theorem run_bytesLeft (cs : List Char) : bytesLeft.run cs = some (Text.byteLength cs, cs) :=
  rfl

/-- A token is read behind blanks, and the blanks behind it are skipped. -/
theorem run_lexeme {total position : Nat} {blanks rest : List Char} {token : Token}
    (blank : ∀ c ∈ blanks, Text.isBlank c = true)
    (read : next (token.chars ++ rest) = some (token, rest))
    (htotal : position + Text.byteLength (blanks ++ (token.chars ++ rest)) = total) :
    (lexeme total).run (blanks ++ (token.chars ++ rest)) =
      some (⟨token, position + Text.byteLength blanks,
        position + Text.byteLength blanks + Text.byteLength token.chars⟩,
          rest.dropWhile Text.isBlank) := by
  have hdrop := (takeWhile_isBlank_append blank (isBlank_of_next read)).2
  rw [Text.byteLength_append] at htotal
  have hstart : total - Text.byteLength (token.chars ++ rest) =
      position + Text.byteLength blanks := by omega
  have hstop : total - Text.byteLength rest =
      position + Text.byteLength blanks + Text.byteLength token.chars := by
    rw [Text.byteLength_append] at htotal
    omega
  rw [← hstop, ← hstart]
  simp [lexeme, run_blanks, run_bytesLeft, run_token, hdrop, read]

theorem exists_of_lexeme {total : Nat} {cs left : List Char} {found : Lexeme}
    (h : (lexeme total).run cs = some (found, left)) :
    ∃ blanks token rest, (∀ c ∈ blanks, Text.isBlank c = true) ∧
      next (token.chars ++ rest) = some (token, rest) ∧ cs = blanks ++ (token.chars ++ rest) := by
  obtain ⟨_, start, hblanks, h⟩ := run_bind_eq_some_iff.mp h
  obtain ⟨_, _, hbytes, h⟩ := run_bind_eq_some_iff.mp h
  obtain ⟨token, rest, htoken, -⟩ := run_bind_eq_some_iff.mp h
  cases (run_blanks cs).symm.trans hblanks
  cases hbytes
  rw [run_token] at htoken
  have hcs := (eq_append_of_next htoken).1
  refine ⟨cs.takeWhile Text.isBlank, token, rest, of_mem_takeWhile, hcs ▸ htoken, ?_⟩
  rw [← hcs, List.takeWhile_append_dropWhile]

theorem lexed_of_repeats {total position : Nat} {cs : List Char} {found : List Lexeme}
    (h : Repeats (lexeme total) cs found [])
    (htotal : position + Text.byteLength cs = total) : Lexed position cs found := by
  generalize hend : ([] : List Char) = left at h
  induction h generalizing position with
  | nil =>
    subst hend
    exact .blanks (List.forall_mem_nil _)
  | cons first _ ih =>
    obtain ⟨blanks, token, rest, blank, read, rfl⟩ := exists_of_lexeme first
    cases (run_lexeme blank read htotal).symm.trans first
    refine .token blank read ?_
    rw [← List.takeWhile_append_dropWhile (p := Text.isBlank) (l := rest)] at htotal ⊢
    simp only [Text.byteLength_append] at htotal
    exact (ih (by omega) hend).blanks_append of_mem_takeWhile

theorem run_lexeme_nil (total : Nat) : (lexeme total).run [] = none := by
  simp [lexeme, run_blanks, run_bytesLeft, run_token, next]

/-- Where a token is read with blanks around it, the tokens behind it are read as well. -/
theorem run_lexemes_cons {total position : Nat} {blanks rest : List Char} {token : Token}
    {found : List Lexeme} (blank : ∀ c ∈ blanks, Text.isBlank c = true)
    (read : next (token.chars ++ rest) = some (token, rest))
    (htotal : position + Text.byteLength (blanks ++ (token.chars ++ rest)) = total)
    (more : (many (lexeme total)).run (rest.dropWhile Text.isBlank) = some (found, [])) :
    (many (lexeme total)).run (blanks ++ (token.chars ++ rest)) =
      some (⟨token, position + Text.byteLength blanks,
        position + Text.byteLength blanks + Text.byteLength token.chars⟩ :: found, []) := by
  refine run_many_of_some (run_lexeme blank read htotal) ?_ more
  have hdrop := (List.dropWhile_sublist Text.isBlank (l := rest)).length_le
  have hread := length_lt_of_next read
  rw [List.length_append]
  omega

theorem run_lexemes_of_lexed {total position : Nat} {cs : List Char} {found : List Lexeme}
    (h : Lexed position cs found) (htotal : position + Text.byteLength cs = total) :
    (many (lexeme total)).run (cs.dropWhile Text.isBlank) = some (found, []) := by
  induction h with
  | blanks blank =>
    rw [List.dropWhile_eq_nil_iff.mpr blank]
    exact run_many_of_none (run_lexeme_nil total)
  | @token position blanks rest token found blank read _ ih =>
    rw [Text.byteLength_append, ← Nat.add_assoc] at htotal
    rw [(takeWhile_isBlank_append blank (isBlank_of_next read)).2]
    refine run_lexemes_cons (List.forall_mem_nil _) read htotal (ih ?_)
    rwa [Text.byteLength_append, ← Nat.add_assoc] at htotal

end Reader

/-- The tokens that a text is by ordered choice, each at its place. -/
def Lexer.byChoice? (body : List Char) : Option (List Lexeme) :=
  (Reader.many (Reader.lexeme (Text.byteLength body))).readAll? body

/-- The lexer and ordered choice give the same tokens. -/
theorem Lexer.byChoice?_eq (body : List Char) :
    Lexer.byChoice? body = Lexer.lex body := by
  refine Option.ext fun found => ?_
  rw [Lexer.byChoice?, Reader.readAll?_eq_some_iff]
  constructor
  · intro h
    have hrepeats := Reader.repeats_of_many h
    refine lex_eq_some_iff.mpr
      ⟨Reader.lexed_of_repeats hrepeats (Nat.zero_add _), fun hnil => ?_⟩
    subst hnil
    cases hrepeats
    rfl
  · intro h
    obtain ⟨hlexed, hempty⟩ := lex_eq_some_iff.mp h
    cases hlexed with
    | blanks =>
      obtain rfl := hempty rfl
      exact Reader.run_many_of_none (Reader.run_lexeme_nil _)
    | token blank read next =>
      refine Reader.run_lexemes_cons blank read (Nat.zero_add _) ?_
      refine Reader.run_lexemes_of_lexed next ?_
      simp only [Text.byteLength_append]
      omega

/-- Lexing and writing tokens are inverse to one another. Where a body is read, the spans of its
tokens are in order, apart, not empty and between characters, each covers the written form of its
token, and what they leave is blank. Any tokens that are written with one space between any two are
read again. What is read is what ordered choice reads. -/
theorem lex_inverts_display :
    (∀ (body : List Char) (found : List Lexeme), lex body = some found →
      (found.Pairwise fun left right => left.span.stop ≤ right.span.start) ∧
      (∀ lexeme ∈ found, lexeme.token.Lexical ∧ lexeme.span.start < lexeme.span.stop ∧
        Slice.ofSpan? body lexeme.span =
          some ⟨lexeme.span.start, lexeme.token.display.toList⟩) ∧
      ∀ before c after, body = before ++ c :: after →
        (∀ lexeme ∈ found, ¬(lexeme.span.start ≤ Text.byteLength before ∧
          Text.byteLength before < lexeme.span.stop)) → Text.isBlank c = true) ∧
    (∀ tokens : List Token, (∀ token ∈ tokens, token.Lexical) →
      ∃ found, lex (" ".intercalate (tokens.map Token.display)).toList = some found ∧
        found.map (·.token) = tokens) ∧
    ∀ body : List Char, lex body = byChoice? body := by
  refine ⟨?_, ?_, fun body => (byChoice?_eq body).symm⟩
  · intro body found h
    obtain ⟨hlexed, -⟩ := lex_eq_some_iff.mp h
    refine ⟨hlexed.pairwise, fun lexeme hm => ⟨hlexed.lexical lexeme hm, ?_⟩,
      fun before c after hbody hout => hlexed.isBlank_of_outside hbody ?_⟩
    · obtain ⟨before, after, rfl, hspan, hread⟩ := hlexed.cut lexeme hm
      have hpos := byteLength_pos (eq_append_of_next hread).2
      rw [hspan, Nat.zero_add, Slice.ofSpan?_append, Token.display, String.toList_ofList]
      exact ⟨Nat.lt_add_of_pos_right hpos, rfl⟩
    · rwa [Nat.zero_add]
  · intro tokens h
    obtain ⟨found, hlexed, hmap⟩ := exists_lexed_intercalate h 0
    have hchars : (" ".intercalate (tokens.map Token.display)).toList =
        [' '].intercalate (tokens.map Token.chars) := by
      rw [String.toList_intercalate, List.map_map]
      congr 1
      refine List.map_congr_left fun token _ => ?_
      exact String.toList_ofList
    rw [hchars]
    refine ⟨found, lex_eq_some_iff.mpr ⟨hlexed, fun hnil => ?_⟩, hmap⟩
    rw [hnil, List.map_nil] at hmap
    rw [← hmap]
    rfl

/-- Tokens that need a space between them, in a text with more blanks than that. -/
theorem lex_inverts_display_mixed :
    let body := " $a.é\u00A0-1e5 \"x\\\"y\".b\t".toList
    let found : List Lexeme :=
      [⟨.variable "a" ["é"], ⟨1, 6⟩⟩, ⟨.number "-1e5", ⟨8, 12⟩⟩, ⟨.text "x\\\"y", ⟨13, 19⟩⟩,
        ⟨.field ["b"], ⟨19, 21⟩⟩]
    lex body = some found ∧
      (found.Pairwise fun left right => left.span.stop ≤ right.span.start) ∧
      (∀ lexeme ∈ found, lexeme.token.Lexical ∧ lexeme.span.start < lexeme.span.stop ∧
        Slice.ofSpan? body lexeme.span =
          some ⟨lexeme.span.start, lexeme.token.display.toList⟩) ∧
      (∀ before c after, body = before ++ c :: after →
        (∀ lexeme ∈ found, ¬(lexeme.span.start ≤ Text.byteLength before ∧
          Text.byteLength before < lexeme.span.stop)) → Text.isBlank c = true) ∧
      ∃ again, lex (" ".intercalate ((found.map (·.token)).map Token.display)).toList = some again ∧
        again.map (·.token) = found.map (·.token) := by
  intro body found
  have hlex : lex body = some found := by
    unfold body found
    decide +kernel
  obtain ⟨hpairwise, hspans, hblank⟩ := lex_inverts_display.1 body found hlex
  refine ⟨hlex, hpairwise, hspans, hblank, lex_inverts_display.2.1 _ fun token hm => ?_⟩
  obtain ⟨lexeme, hlexeme, rfl⟩ := List.mem_map.mp hm
  exact (hspans lexeme hlexeme).1

end LiveTemplate
