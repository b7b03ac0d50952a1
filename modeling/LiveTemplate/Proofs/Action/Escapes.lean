import LiveTemplate.Action.Literal
import LiveTemplate.Proofs.Action.Forms
import LiveTemplate.Proofs.Success
import Mathlib.Data.List.Forall2

/-!
# Escapes in strings

`Literal.Escaped` tells which text the body of a string stands for, given how digits name a
character. By intent two or four hexadecimal digits do (`Literal.IsCode`), but a number is read with
a plus sign in front of it, so that one digit less and a plus sign do as well
(`Literal.IsSignedCode`). `Literal.unescape_exact_iff`: this is the only difference.
-/

namespace LiveTemplate.Literal

/-! ## Hexadecimal digits -/

/-- A hexadecimal digit, in lower or in upper case, and its value. -/
def IsHexDigit (c : Char) (n : Nat) : Prop :=
  n < 16 ∧ (c = n.digitChar ∨ c = n.digitChar.toUpper)

instance (c : Char) (n : Nat) : Decidable (IsHexDigit c n) :=
  inferInstanceAs (Decidable (_ ∧ _))

theorem toNat_mem_of_hexValue? {c : Char} {n : Nat} (h : hexValue? c = some n) :
    c.toNat ∈ List.range' 48 10 ++ List.range' 65 6 ++ List.range' 97 6 := by
  rw [List.mem_append, List.mem_append]
  unfold hexValue? at h
  split at h
  · rename_i hdigit
    exact .inl (.inl (Lexer.toNat_mem_of_isDigit hdigit))
  split at h
  · rename_i hlower
    rw [Bool.and_eq_true, decide_eq_true_eq, decide_eq_true_eq] at hlower
    have hrange : 97 ≤ c.toNat ∧ c.toNat ≤ 102 := hlower
    exact .inr (List.mem_range'_1.mpr (by omega))
  split at h
  · rename_i hupper
    rw [Bool.and_eq_true, decide_eq_true_eq, decide_eq_true_eq] at hupper
    have hrange : 65 ≤ c.toNat ∧ c.toNat ≤ 70 := hupper
    exact .inl (.inr (List.mem_range'_1.mpr (by omega)))
  · cases h

theorem hexValue?_eq_some_iff {c : Char} {n : Nat} : hexValue? c = some n ↔ IsHexDigit c n := by
  constructor
  · intro h
    refine Lexer.forall_of_codes (p := fun c => ∀ n ∈ hexValue? c, IsHexDigit c n) _ ?_
      (toNat_mem_of_hexValue? h) n h
    decide
  · have hdigits : ∀ n < 16, hexValue? n.digitChar = some n ∧
        hexValue? n.digitChar.toUpper = some n := by decide
    rintro ⟨hn, rfl | rfl⟩
    · exact (hdigits n hn).1
    · exact (hdigits n hn).2

/-- The digits of a number in base sixteen, behind what stands before them. -/
def ofHexDigits (before : Nat) (values : List Nat) : Nat :=
  values.foldl (16 * · + ·) before

theorem foldlM_hexValue?_eq_some_iff {digits : List Char} {before code : Nat} :
    digits.foldlM (fun n c => (hexValue? c).map (16 * n + ·)) before = some code ↔
      ∃ values, List.Forall₂ IsHexDigit digits values ∧ code = ofHexDigits before values := by
  induction digits generalizing before with
  | nil =>
    rw [List.foldlM_nil]
    constructor
    · rintro ⟨⟩
      exact ⟨[], .nil, rfl⟩
    · rintro ⟨values, hvalues, rfl⟩
      cases hvalues
      rfl
  | cons c digits ih =>
    rw [List.foldlM_cons]
    constructor
    · intro h
      obtain ⟨n, hn, hrest⟩ := Option.bind_eq_some_iff.mp h
      obtain ⟨value, hvalue, rfl⟩ := Option.map_eq_some_iff.mp hn
      obtain ⟨values, hvalues, rfl⟩ := ih.mp hrest
      exact ⟨value :: values, .cons (hexValue?_eq_some_iff.mp hvalue) hvalues, rfl⟩
    · rintro ⟨values, hvalues, rfl⟩
      cases hvalues with
      | @cons _ value _ values hvalue hvalues =>
        rw [hexValue?_eq_some_iff.mpr hvalue]
        exact ih.mpr ⟨values, hvalues, rfl⟩

theorem hexNumber?_eq_some_iff {digits : List Char} {code : Nat} :
    hexNumber? digits = some code ↔
      digits ≠ [] ∧ ∃ values, List.Forall₂ IsHexDigit digits values ∧
        code = ofHexDigits 0 values := by
  rw [hexNumber?]
  split
  · rename_i hempty
    simp [List.isEmpty_iff.mp hempty]
  · rename_i hempty
    rw [List.isEmpty_iff] at hempty
    rw [foldlM_hexValue?_eq_some_iff, and_iff_right hempty]

/-! ## Digits that name a character -/

/-- So many hexadecimal digits are the code point of a character. -/
def IsCode (width : Nat) (digits : List Char) (c : Char) : Prop :=
  digits.length = width ∧
    ∃ values, List.Forall₂ IsHexDigit digits values ∧ c.toNat = ofHexDigits 0 values

/-- A plus sign and so many hexadecimal digits as leave room for it are the code point of a
character. -/
def IsSignedCode (width : Nat) (digits : List Char) (c : Char) : Prop :=
  ∃ unsigned, digits = '+' :: unsigned ∧ IsCode (width - 1) unsigned c

/-- How digits are read. -/
def IsReadCode (width : Nat) (digits : List Char) (c : Char) : Prop :=
  IsCode width digits c ∨ IsSignedCode width digits c

theorem charOfCode_eq_some_iff {code : Nat} {c : Char} :
    (if code.isValidChar then some (Char.ofNat code) else none) = some c ↔ c.toNat = code := by
  split
  · rename_i hvalid
    rw [Option.some_inj]
    constructor
    · rintro rfl
      rw [Char.ofNat, dif_pos hvalid]
      rfl
    · rintro rfl
      exact Char.ofNat_toNat c
  · rename_i hinvalid
    constructor
    · intro h
      cases h
    · rintro rfl
      exact absurd c.valid hinvalid

theorem not_isHexDigit {c : Char} (h : hexValue? c = none) (n : Nat) : ¬IsHexDigit c n := by
  rw [← hexValue?_eq_some_iff, h]
  exact nofun

/-- What `codePoint?` does when the sign is off. -/
theorem isCode_iff {width : Nat} (hw : 0 < width) {digits : List Char} {c : Char} :
    (digits.length = width ∧ (hexNumber? digits).bind (fun code =>
      if code.isValidChar then some (Char.ofNat code) else none) = some c) ↔
      IsCode width digits c := by
  refine and_congr_right fun hlength => ?_
  rw [Option.bind_eq_some_iff]
  simp only [charOfCode_eq_some_iff, hexNumber?_eq_some_iff]
  constructor
  · rintro ⟨code, ⟨-, values, hvalues, rfl⟩, hc⟩
    exact ⟨values, hvalues, hc⟩
  · rintro ⟨values, hvalues, hc⟩
    refine ⟨_, ⟨?_, values, hvalues, rfl⟩, hc⟩
    rintro rfl
    rw [List.length_nil] at hlength
    omega

theorem codePoint?_eq_some_iff {width : Nat} (hw : 2 ≤ width) {digits : List Char} {c : Char} :
    codePoint? width digits = some c ↔ IsReadCode width digits c := by
  have hread : codePoint? width digits = some c ↔ digits.length = width ∧
      (hexNumber? (if digits.head? = some '+' then digits.tail else digits)).bind (fun code =>
        if code.isValidChar then some (Char.ofNat code) else none) = some c := by
    rw [codePoint?]
    split
    · rename_i hlength
      simp [hlength]
    · rename_i hlength
      rw [not_not] at hlength
      simp [hlength]
  rw [hread]
  split
  · rename_i hsign
    obtain ⟨unsigned, rfl⟩ := List.head?_eq_some_iff.mp hsign
    have hplus : ¬IsCode width ('+' :: unsigned) c := by
      rintro ⟨-, values, hvalues, -⟩
      cases hvalues with
      | cons hdigit _ => exact not_isHexDigit (by decide) _ hdigit
    have hlength : ('+' :: unsigned).length = width ↔ unsigned.length = width - 1 := by
      rw [List.length_cons]
      omega
    rw [IsReadCode, or_iff_right hplus, List.tail_cons, hlength, isCode_iff (by omega)]
    constructor
    · exact fun h => ⟨unsigned, rfl, h⟩
    · rintro ⟨_, ⟨⟩, h⟩
      exact h
  · rename_i hsign
    have hunsigned : ¬IsSignedCode width digits c := by
      rintro ⟨unsigned, rfl, -⟩
      exact hsign rfl
    rw [IsReadCode, or_iff_left hunsigned, isCode_iff (by omega)]

/-! ## Escaped texts -/

/-- The escapes of a backslash and a letter only. -/
def letterEscapes : List (Char × Char) :=
  [('n', '\n'), ('t', '\t'), ('r', '\r'), ('a', '\x07'), ('b', '\x08'), ('f', '\x0C'),
    ('v', '\x0B'), ('0', '\x00'), ('\\', '\\'), ('"', '"'), ('\'', '\'')]

/-- The letters before digits, and how many digits there are. -/
def codeEscapes : List (Char × Nat) :=
  [('x', 2), ('u', 4)]

/-- A text with escapes and the text that it stands for. The relation tells which digits name which
character. -/
inductive Escaped (Names : Nat → List Char → Char → Prop) : List Char → List Char → Prop
  | nil : Escaped Names [] []
  | plain {c : Char} {cs ds : List Char} (unescaped : c ≠ '\\') (next : Escaped Names cs ds) :
      Escaped Names (c :: cs) (c :: ds)
  | letter {letter c : Char} {cs ds : List Char} (escapes : (letter, c) ∈ letterEscapes)
      (next : Escaped Names cs ds) : Escaped Names ('\\' :: letter :: cs) (c :: ds)
  | code {letter c : Char} {width : Nat} {digits cs ds : List Char}
      (escapes : (letter, width) ∈ codeEscapes) (names : Names width digits c)
      (next : Escaped Names cs ds) : Escaped Names ('\\' :: letter :: (digits ++ cs)) (c :: ds)

theorem simpleEscape?_eq_some_iff {letter c : Char} :
    simpleEscape? letter = some c ↔ (letter, c) ∈ letterEscapes := by
  constructor
  · intro h
    unfold simpleEscape? at h
    split at h <;> cases h <;> decide
  · have hall : ∀ escape ∈ letterEscapes, simpleEscape? escape.1 = some escape.2 := by decide
    exact hall (letter, c)

theorem codeWidth?_eq_some_iff {letter : Char} {width : Nat} :
    codeWidth? letter = some width ↔ (letter, width) ∈ codeEscapes := by
  constructor
  · intro h
    unfold codeWidth? at h
    split at h <;> cases h <;> decide
  · have hall : ∀ escape ∈ codeEscapes, codeWidth? escape.1 = some escape.2 := by decide
    exact hall (letter, width)

theorem IsReadCode.length_eq {width : Nat} (hw : 2 ≤ width) {digits : List Char} {c : Char}
    (h : IsReadCode width digits c) : digits.length = width := by
  rcases h with ⟨hlength, -⟩ | ⟨unsigned, rfl, hlength, -⟩
  · exact hlength
  · rw [List.length_cons]
    omega

theorem two_le_width {letter : Char} {width : Nat} (h : (letter, width) ∈ codeEscapes) :
    2 ≤ width := by
  have hall : ∀ escape ∈ codeEscapes, 2 ≤ escape.2 := by decide
  exact hall _ h

theorem simpleEscape?_eq_none {letter : Char} {width : Nat} (h : (letter, width) ∈ codeEscapes) :
    simpleEscape? letter = none := by
  have hall : ∀ escape ∈ codeEscapes, simpleEscape? escape.1 = none := by decide
  exact hall _ h

/-- A text is read as an escaped one, where digits are read as they are. -/
theorem unescape_eq_ok_iff {cs ds : List Char} :
    unescape cs = .ok ds ↔ Escaped IsReadCode cs ds := by
  constructor
  · intro h
    fun_induction unescape cs generalizing ds with
    | case1 =>
      cases h
      exact .nil
    | case2 => cases h
    | case3 letter rest c hletter ih =>
      obtain ⟨others, hothers, ⟨⟩⟩ := bind_eq_ok.mp h
      exact .letter (simpleEscape?_eq_some_iff.mp hletter) (ih hothers)
    | case4 letter rest _ width hwidth digits c hcode =>
      rename_i ih
      obtain ⟨others, hothers, ⟨⟩⟩ := bind_eq_ok.mp h
      have hescapes := codeWidth?_eq_some_iff.mp hwidth
      have hnames := (codePoint?_eq_some_iff (two_le_width hescapes)).mp hcode
      rw [← List.take_append_drop width rest]
      exact .code hescapes hnames (ih hothers)
    | case5 => cases h
    | case6 => cases h
    | case7 c rest hlast hescape ih =>
      obtain ⟨others, hothers, ⟨⟩⟩ := bind_eq_ok.mp h
      refine .plain (fun hc => ?_) (ih hothers)
      cases rest with
      | nil => exact hlast hc rfl
      | cons d rest => exact hescape d rest hc rfl
  · intro h
    induction h with
    | nil => rw [unescape]
    | plain unescaped _ ih =>
      rw [unescape.eq_4 _ _ (fun hc _ => unescaped hc) (fun _ _ hc _ => unescaped hc), ih]
      rfl
    | letter escapes _ ih =>
      rw [unescape, simpleEscape?_eq_some_iff.mpr escapes, ih]
      rfl
    | code escapes names _ ih =>
      have hw := two_le_width escapes
      have hlength := names.length_eq hw
      rw [unescape, simpleEscape?_eq_none escapes, codeWidth?_eq_some_iff.mpr escapes]
      dsimp only
      rw [List.take_left' hlength, List.drop_left' hlength, (codePoint?_eq_some_iff hw).mpr names,
        ih]
      rfl

/-! ## Signs -/

/-- Read from left to right, a text has an escape with a plus sign in the place of its first
digit. -/
inductive HasSign : List Char → Prop
  | here {letter : Char} {width : Nat} {cs : List Char} (escapes : (letter, width) ∈ codeEscapes) :
      HasSign ('\\' :: letter :: '+' :: cs)
  | plain {c : Char} {cs : List Char} (unescaped : c ≠ '\\') (next : HasSign cs) :
      HasSign (c :: cs)
  | escape {letter : Char} {cs : List Char} (next : HasSign cs) : HasSign ('\\' :: letter :: cs)

theorem hasSign_cons_iff {c : Char} (hc : c ≠ '\\') {cs : List Char} :
    HasSign (c :: cs) ↔ HasSign cs := by
  constructor
  · intro h
    cases h with
    | here => exact absurd rfl hc
    | plain _ next => exact next
    | escape => exact absurd rfl hc
  · exact .plain hc

theorem HasSign.of_escape {letter : Char} {cs : List Char} (h : HasSign ('\\' :: letter :: cs)) :
    (simpleEscape? letter = none ∧ cs.head? = some '+') ∨ HasSign cs := by
  generalize hescape : '\\' :: letter :: cs = text at h
  cases h with
  | here escapes =>
    cases hescape
    exact .inl ⟨simpleEscape?_eq_none escapes, rfl⟩
  | plain unescaped =>
    cases hescape
    exact absurd rfl unescaped
  | escape next =>
    cases hescape
    exact .inr next

/-- Digits are no escapes. -/
theorem hasSign_append_iff {digits : List Char} {values : List Nat}
    (h : List.Forall₂ IsHexDigit digits values) (cs : List Char) :
    HasSign (digits ++ cs) ↔ HasSign cs := by
  induction h with
  | nil => rfl
  | cons hdigit _ ih =>
    rw [List.cons_append, hasSign_cons_iff, ih]
    rintro rfl
    exact not_isHexDigit (by decide) _ hdigit

namespace Escaped

variable {cs ds : List Char}

theorem not_hasSign (h : Escaped IsCode cs ds) : ¬HasSign cs := by
  intro hsign
  induction h with
  | nil => cases hsign
  | plain unescaped _ ih => exact ih ((hasSign_cons_iff unescaped).mp hsign)
  | letter escapes _ ih =>
    rcases hsign.of_escape with ⟨hnone, -⟩ | next
    · rw [simpleEscape?_eq_some_iff.mpr escapes] at hnone
      cases hnone
    · exact ih next
  | code escapes names _ ih =>
    obtain ⟨hlength, values, hvalues, -⟩ := names
    rcases hsign.of_escape with ⟨-, hhead⟩ | next
    · cases hvalues with
      | nil =>
        have hw := two_le_width escapes
        rw [← hlength] at hw
        cases hw
      | cons hdigit _ =>
        cases hhead
        exact not_isHexDigit (by decide) _ hdigit
    · exact ih ((hasSign_append_iff hvalues _).mp next)

theorem of_not_hasSign (h : Escaped IsReadCode cs ds) (hsign : ¬HasSign cs) :
    Escaped IsCode cs ds := by
  induction h with
  | nil => exact .nil
  | plain unescaped _ ih => exact .plain unescaped (ih fun next => hsign (.plain unescaped next))
  | letter escapes _ ih => exact .letter escapes (ih fun next => hsign (.escape next))
  | code escapes names _ ih =>
    rcases names with names | ⟨unsigned, rfl, -⟩
    · have ⟨_, values, hvalues, _⟩ := names
      exact .code escapes names
        (ih fun next => hsign (.escape ((hasSign_append_iff hvalues _).mpr next)))
    · exact absurd (.here escapes) hsign

theorem mono {Names Others : Nat → List Char → Char → Prop}
    (hnames : ∀ width digits c, Names width digits c → Others width digits c)
    (h : Escaped Names cs ds) : Escaped Others cs ds := by
  induction h with
  | nil => exact .nil
  | plain unescaped _ ih => exact .plain unescaped ih
  | letter escapes _ ih => exact .letter escapes ih
  | code escapes names _ ih => exact .code escapes (hnames _ _ _ names) ih

end Escaped

/-- The body of a string is read as an escaped text in which digits may have a plus sign. So it is
read as an escaped text without signs, and only as one, unless there is a sign in it and it is read
nevertheless. -/
theorem unescape_exact_iff (cs : List Char) :
    (∀ ds, unescape cs = .ok ds ↔ Escaped IsReadCode cs ds) ∧
      ((∀ ds, unescape cs = .ok ds ↔ Escaped IsCode cs ds) ↔
        (HasSign cs → ∀ ds, unescape cs ≠ .ok ds)) := by
  refine ⟨fun ds => unescape_eq_ok_iff, fun h hsign ds hds => ((h ds).mp hds).not_hasSign hsign,
    fun h ds => ⟨fun hds => ?_, fun hds => ?_⟩⟩
  · exact (unescape_eq_ok_iff.mp hds).of_not_hasSign fun hsign => h hsign ds hds
  · exact unescape_eq_ok_iff.mpr (hds.mono fun _ _ _ => .inl)

/-- A plus sign and one digit are read where two digits must stand. -/
theorem unescape_sign :
    let cs := "\\x+5".toList
    unescape cs = .ok ['\x05'] ∧ ¬Escaped IsCode cs ['\x05'] ∧
      ¬∀ ds, unescape cs = .ok ds ↔ Escaped IsCode cs ds := by
  intro cs
  have hread : unescape cs = .ok ['\x05'] := by
    unfold cs
    with_unfolding_all rfl
  have hnot : ¬Escaped IsCode cs ['\x05'] := fun h =>
    h.not_hasSign (.here (show ('x', 2) ∈ codeEscapes by decide))
  exact ⟨hread, hnot, fun h => hnot ((h _).mp hread)⟩

end LiveTemplate.Literal
