import LiveTemplate.Proofs.Action.Forms
import LiveTemplate.Proofs.Template.Comments

/-!
# The scan over bytes

A source is a text of characters, but its delimiters can be looked for among its UTF-8 bytes, where
a backslash in a string skips one byte, be it the first one of several. `Scan.Bytes` is that scan.
It finds what the scan over characters finds: `Scan.Bytes.openAt?_utf8` and
`Scan.Bytes.closeAt?_utf8` for the braces, `Scan.Bytes.actionEnd?_utf8` for a whole action.
-/

namespace LiveTemplate

namespace Text

theorem toNat_lt_of_isAsciiBlank {c : Char} (h : isAsciiBlank c = true) : c.toNat < 128 := by
  simp only [isAsciiBlank, Bool.or_eq_true, beq_iff_eq] at h
  rcases h with (((rfl | rfl) | rfl) | rfl) | rfl <;> decide

/-- The UTF-8 bytes of a text. -/
def utf8 (cs : List Char) : List UInt8 :=
  cs.flatMap String.utf8EncodeChar

@[simp] theorem utf8_cons (c : Char) (cs : List Char) :
    utf8 (c :: cs) = String.utf8EncodeChar c ++ utf8 cs :=
  rfl

@[simp] theorem utf8_append (cs ds : List Char) : utf8 (cs ++ ds) = utf8 cs ++ utf8 ds :=
  List.flatMap_append

theorem length_utf8 (cs : List Char) : (utf8 cs).length = byteLength cs := by
  induction cs with
  | nil => rfl
  | cons c cs ih => rw [utf8_cons, List.length_append, String.length_utf8EncodeChar, ih]; rfl

/-- A byte of a character that takes more than one. -/
def IsWide (b : UInt8) : Prop :=
  128 ≤ b.toNat

theorem utf8EncodeChar_cases (c : Char) :
    c.toNat < 128 ∧ String.utf8EncodeChar c = [c.toUInt8] ∨
      128 ≤ c.toNat ∧ ∀ b ∈ String.utf8EncodeChar c, IsWide b := by
  by_cases h : c.toNat < 128
  · exact .inl ⟨h, Lexer.utf8EncodeChar_of_ascii h⟩
  · refine .inr ⟨Nat.not_lt.mp h, ?_⟩
    have hval : ¬c.val.toNat ≤ 127 := fun hle => h (Nat.lt_succ_of_le hle)
    simp only [String.utf8EncodeChar, if_neg hval]
    split
    · simp [IsWide]; omega
    · split
      · simp [IsWide]; omega
      · simp [IsWide]; omega

theorem toUInt8_inj {c d : Char} (hc : c.toNat < 128) (hd : d.toNat < 128) :
    c.toUInt8 = d.toUInt8 ↔ c = d := by
  refine ⟨fun h => ?_, congrArg Char.toUInt8⟩
  have hcode : c.toNat % 256 = d.toNat % 256 := congrArg UInt8.toNat h
  exact Char.toNat_inj.mp (by omega)

theorem IsWide.ne_toUInt8 {b : UInt8} {mark : Char} (hb : IsWide b) (hm : mark.toNat < 128) :
    b ≠ mark.toUInt8 := by
  rintro rfl
  have hcode : (mark.toUInt8).toNat = mark.toNat % 256 := rfl
  rw [IsWide, hcode] at hb
  omega

/-- The byte of an ASCII character begins a text as the character does. -/
theorem head?_utf8_iff {mark : Char} (hm : mark.toNat < 128) (cs : List Char) :
    (utf8 cs).head? = some mark.toUInt8 ↔ cs.head? = some mark := by
  cases cs with
  | nil => simp [utf8]
  | cons c cs =>
    rw [utf8_cons, List.head?_cons, Option.some_inj]
    rcases utf8EncodeChar_cases c with ⟨hc, hbytes⟩ | ⟨hc, hbytes⟩
    · rw [hbytes, List.singleton_append, List.head?_cons, Option.some_inj, toUInt8_inj hc hm]
    · cases hchar : String.utf8EncodeChar c with
      | nil => exact absurd hchar String.utf8EncodeChar_ne_nil
      | cons b others =>
        have hb := hbytes b (hchar ▸ List.mem_cons_self)
        rw [List.cons_append, List.head?_cons, Option.some_inj]
        constructor
        · exact fun h => absurd h (hb.ne_toUInt8 hm)
        · rintro rfl
          omega

end Text

open Text

namespace Scan.Bytes

/-! ## Pairs of delimiters -/

/-- The number of bytes before the first pair of two bytes. -/
def pairAt? (first second : UInt8) : List UInt8 → Option Nat
  | b :: c :: rest =>
    if b = first ∧ c = second then some 0 else (pairAt? first second (c :: rest)).map (· + 1)
  | _ => none

/-- The number of bytes before the next pair of opening braces. -/
def openAt? (bytes : List UInt8) : Option Nat :=
  pairAt? '{'.toUInt8 '{'.toUInt8 bytes

theorem pairAt?_cons {first second b : UInt8} {bytes : List UInt8}
    (h : ¬(b = first ∧ bytes.head? = some second)) :
    pairAt? first second (b :: bytes) = (pairAt? first second bytes).map (· + 1) := by
  cases bytes with
  | nil => rfl
  | cons c bytes =>
    rw [pairAt?, if_neg fun hpair => h ⟨hpair.1, congrArg some hpair.2⟩]

theorem pairAt?_wide {first : Char} {second : UInt8} (hf : first.toNat < 128)
    {wide : List UInt8} (hw : ∀ b ∈ wide, IsWide b) (bytes : List UInt8) :
    pairAt? first.toUInt8 second (wide ++ bytes) =
      (pairAt? first.toUInt8 second bytes).map (· + wide.length) := by
  induction wide with
  | nil => simp
  | cons b wide ih =>
    obtain ⟨hb, hothers⟩ := List.forall_mem_cons.mp hw
    rw [List.cons_append, pairAt?_cons fun hpair => hb.ne_toUInt8 hf hpair.1, ih hothers,
      Option.map_map]
    rfl

section

variable {first second : Char} {cs : List Char}

/-- A pair of ASCII characters is a pair of bytes, and no other character has one of these bytes. -/
theorem pairAt?_utf8_cons (hf : first.toNat < 128) (hs : second.toNat < 128) {c : Char}
    (h : ¬(first = c ∧ cs.head? = some second)) :
    pairAt? first.toUInt8 second.toUInt8 (utf8 (c :: cs)) =
      (pairAt? first.toUInt8 second.toUInt8 (utf8 cs)).map (· + c.utf8Size) := by
  rw [utf8_cons]
  rcases utf8EncodeChar_cases c with ⟨hc, hbytes⟩ | ⟨-, hbytes⟩
  · have hsize := String.length_utf8EncodeChar c
    rw [hbytes] at hsize ⊢
    rw [← hsize, List.singleton_append, pairAt?_cons]
    · rfl
    · rw [head?_utf8_iff hs, toUInt8_inj hc hf, eq_comm (a := c)]
      exact h
  · rw [pairAt?_wide hf hbytes, String.length_utf8EncodeChar]

theorem pairAt?_utf8_eq_none (hf : first.toNat < 128) (hs : second.toNat < 128)
    (h : ¬[first, second] <:+: cs) : pairAt? first.toUInt8 second.toUInt8 (utf8 cs) = none := by
  induction cs with
  | nil => rfl
  | cons c cs ih =>
    rw [pair_infix_cons_iff, not_or] at h
    rw [pairAt?_utf8_cons hf hs h.1, ih h.2]
    rfl

theorem pairAt?_utf8_append (hf : first.toNat < 128) (hs : second.toNat < 128) {before : List Char}
    (h : ¬[first, second] <:+: before ++ [first]) (after : List Char) :
    pairAt? first.toUInt8 second.toUInt8 (utf8 (before ++ first :: second :: after)) =
      some (byteLength before) := by
  induction before with
  | nil =>
    rcases utf8EncodeChar_cases first with ⟨-, hfirst⟩ | ⟨hwide, -⟩
    · rcases utf8EncodeChar_cases second with ⟨-, hsecond⟩ | ⟨hwide, -⟩
      · simp [hfirst, hsecond, pairAt?]
      · omega
    · omega
  | cons c before ih =>
    rw [List.cons_append, pair_infix_cons_iff, not_or] at h
    rw [List.cons_append, pairAt?_utf8_cons hf hs, ih h.2, byteLength_cons, Option.map_some,
      Nat.add_comm]
    rintro ⟨rfl, hhead⟩
    refine h.1 ⟨rfl, ?_⟩
    cases before <;> exact hhead

end

theorem openAt?_utf8 (cs : List Char) :
    openAt? (utf8 cs) = (splitOpen? cs).map fun split => byteLength split.1 := by
  cases h : splitOpen? cs with
  | none => exact pairAt?_utf8_eq_none (by decide) (by decide) (not_infix_of_splitOpen?_eq_none h)
  | some split =>
    rw [eq_append_of_splitOpen? h]
    exact pairAt?_utf8_append (by decide) (by decide) (not_infix_of_splitOpen?_eq_some h) _

/-! ## The end of an action -/

section

variable {α : Type} [DecidableEq α]

/-- The quote of the string that is open after a letter that escapes nothing. The two quotes are
given as letters of an alphabet. -/
def quoteAfter (double raw : α) (quote : Option α) (letter : α) : Option α :=
  match quote with
  | none => if letter = double ∨ letter = raw then some letter else none
  | some mark => if letter = mark then none else some mark

variable {double raw letter : α} {quote : Option α}

theorem quoteAfter_of_ne (hd : letter ≠ double) (hr : letter ≠ raw)
    (hq : ∀ mark ∈ quote, letter ≠ mark) : quoteAfter double raw quote letter = quote := by
  cases quote with
  | none => exact if_neg (not_or.mpr ⟨hd, hr⟩)
  | some mark => exact if_neg (hq mark rfl)

theorem mem_of_mem_quoteAfter {mark : α} (h : mark ∈ quoteAfter double raw quote letter) :
    (mark = double ∨ mark = raw) ∨ mark ∈ quote := by
  cases quote with
  | none =>
    rw [quoteAfter] at h
    split at h
    · cases h
      exact .inl ‹_›
    · cases h
  | some other =>
    rw [quoteAfter] at h
    split at h
    · cases h
    · exact .inr h

end

/-- The number of bytes before the next pair of closing braces outside of strings. `quote` is the
quote of the string that is open, if one is; in double quotes a backslash skips the byte after
it. -/
def closeAt? (quote : Option UInt8) : List UInt8 → Option Nat
  | b :: c :: rest =>
    if quote = none ∧ b = '}'.toUInt8 ∧ c = '}'.toUInt8 then some 0
    else if quote = some '"'.toUInt8 ∧ b = '\\'.toUInt8 then (closeAt? quote rest).map (· + 2)
    else
      let quote := quoteAfter '"'.toUInt8 '\x60'.toUInt8 quote b
      (closeAt? quote (c :: rest)).map (· + 1)
  | _ => none

theorem closeAt?_cons {quote : Option UInt8} {b : UInt8} {bytes : List UInt8}
    (hclose : ¬(quote = none ∧ b = '}'.toUInt8 ∧ bytes.head? = some '}'.toUInt8))
    (hescape : ¬(quote = some '"'.toUInt8 ∧ b = '\\'.toUInt8)) :
    closeAt? quote (b :: bytes) =
      (closeAt? (quoteAfter '"'.toUInt8 '\x60'.toUInt8 quote b) bytes).map (· + 1) := by
  cases bytes with
  | nil => rfl
  | cons c rest =>
    rw [closeAt?, if_neg fun h => hclose ⟨h.1, h.2.1, congrArg some h.2.2⟩, if_neg hescape]

section

variable {quote : Option Char}

/-- The bytes of a character above ASCII mean nothing. -/
theorem closeAt?_wide (hq : ∀ mark ∈ quote, mark.toNat < 128) {wide : List UInt8}
    (hw : ∀ b ∈ wide, IsWide b) (bytes : List UInt8) :
    closeAt? (quote.map Char.toUInt8) (wide ++ bytes) =
      (closeAt? (quote.map Char.toUInt8) bytes).map (· + wide.length) := by
  induction wide with
  | nil => simp
  | cons b wide ih =>
    obtain ⟨hb, hothers⟩ := List.forall_mem_cons.mp hw
    have hquote : quoteAfter '"'.toUInt8 '\x60'.toUInt8 (quote.map Char.toUInt8) b =
        quote.map Char.toUInt8 := by
      refine quoteAfter_of_ne (hb.ne_toUInt8 (by decide)) (hb.ne_toUInt8 (by decide)) ?_
      intro mark hm
      obtain ⟨c, hc, rfl⟩ := Option.map_eq_some_iff.mp hm
      exact hb.ne_toUInt8 (hq c hc)
    rw [List.cons_append, closeAt?_cons, hquote, ih hothers, Option.map_map]
    · rfl
    · exact fun h => hb.ne_toUInt8 (by decide) h.2.1
    · exact fun h => hb.ne_toUInt8 (by decide) h.2

theorem quoteAfter_map (hq : ∀ mark ∈ quote, mark.toNat < 128) {c : Char} (hc : c.toNat < 128) :
    quoteAfter '"'.toUInt8 '\x60'.toUInt8 (quote.map Char.toUInt8) c.toUInt8 =
      (quoteAfter '"' '\x60' quote c).map Char.toUInt8 := by
  cases quote with
  | none =>
    have hdouble := toUInt8_inj hc (d := '"') (by decide)
    have hraw := toUInt8_inj hc (d := '\x60') (by decide)
    simp only [quoteAfter, Option.map_none, hdouble, hraw]
    split <;> rfl
  | some mark =>
    simp only [quoteAfter, Option.map_some, toUInt8_inj hc (hq mark rfl)]
    split <;> rfl

end

/-- Behind its first byte a character has wide bytes only. -/
theorem exists_utf8EncodeChar (c : Char) :
    ∃ first others, String.utf8EncodeChar c = first :: others ∧ ∀ b ∈ others, IsWide b := by
  rcases utf8EncodeChar_cases c with ⟨-, hbytes⟩ | ⟨-, hbytes⟩
  · exact ⟨_, [], hbytes, List.forall_mem_nil _⟩
  · cases hchar : String.utf8EncodeChar c with
    | nil => exact absurd hchar String.utf8EncodeChar_ne_nil
    | cons first others =>
      exact ⟨_, _, rfl, fun b hb => hbytes b (hchar ▸ List.mem_cons_of_mem _ hb)⟩

/-- A character that neither closes nor escapes is passed with all of its bytes. -/
theorem closeAt?_utf8_cons {quote : Option Char} (hq : ∀ mark ∈ quote, mark.toNat < 128) {c : Char}
    {cs : List Char} (hclose : ¬(quote = none ∧ c = '}' ∧ cs.head? = some '}'))
    (hescape : ¬(quote = some '"' ∧ c = '\\')) :
    closeAt? (quote.map Char.toUInt8) (utf8 (c :: cs)) =
      (closeAt? ((quoteAfter '"' '\x60' quote c).map Char.toUInt8) (utf8 cs)).map
        (c.utf8Size + ·) := by
  have hsize := String.length_utf8EncodeChar c
  rw [utf8_cons]
  rcases utf8EncodeChar_cases c with ⟨hc, hbytes⟩ | ⟨hc, hbytes⟩
  · rw [hbytes] at hsize
    rw [← hsize, hbytes, List.singleton_append, closeAt?_cons, quoteAfter_map hq hc]
    · simp only [List.length_singleton, Nat.add_comm]
    · rw [head?_utf8_iff (by decide), toUInt8_inj hc (by decide), Option.map_eq_none_iff]
      exact hclose
    · rw [toUInt8_inj hc (by decide)]
      rintro ⟨hquote, rfl⟩
      obtain ⟨mark, rfl, hmark⟩ := Option.map_eq_some_iff.mp hquote
      rw [toUInt8_inj (hq mark rfl) (by decide)] at hmark
      exact hescape ⟨congrArg some hmark, rfl⟩
  · have hne {mark : Char} (hm : mark.toNat < 128) : c ≠ mark := by
      rintro rfl
      omega
    rw [closeAt?_wide hq hbytes, hsize,
      quoteAfter_of_ne (hne (by decide)) (hne (by decide)) fun mark hm => hne (hq mark hm)]
    simp only [Nat.add_comm]

/-- Where a backslash skips one byte only, the other bytes of the character mean nothing either. -/
theorem closeAt?_utf8 (quote : Option Char) (cs : List Char)
    (hq : ∀ mark ∈ quote, mark.toNat < 128) :
    closeAt? (quote.map Char.toUInt8) (utf8 cs) =
      (splitClose? quote cs).map fun split => byteLength split.1 := by
  fun_induction splitClose? quote cs with
  | case1 => rfl
  | case2 quote c =>
    rcases utf8EncodeChar_cases c with ⟨-, hbytes⟩ | ⟨-, hbytes⟩
    · rw [utf8_cons, hbytes]
      rfl
    · rw [utf8_cons, closeAt?_wide hq hbytes]
      rfl
  | case3 quote c d rest h =>
    obtain ⟨rfl, rfl, rfl⟩ := h
    have hbrace : String.utf8EncodeChar '}' = ['}'.toUInt8] := by decide
    rw [utf8_cons, utf8_cons, hbrace]
    rfl
  | case4 quote c d rest h hescape ih =>
    obtain ⟨rfl, rfl⟩ := hescape
    obtain ⟨first, others, hchar, hwide⟩ := exists_utf8EncodeChar d
    have hbackslash : String.utf8EncodeChar '\\' = ['\\'.toUInt8] := by decide
    have hsize := String.length_utf8EncodeChar d
    rw [hchar, List.length_cons] at hsize
    rw [utf8_cons, utf8_cons, hbackslash, hchar, List.singleton_append, List.cons_append, closeAt?,
      if_neg (by simp), if_pos ⟨rfl, rfl⟩, closeAt?_wide hq hwide, ih hq]
    simp only [Option.map_map]
    congr 1
    funext split
    have hone : '\\'.utf8Size = 1 := rfl
    simp only [Function.comp_apply, byteLength_cons]
    omega
  | case5 quote c d rest hclose hescape after ih =>
    have hafter : after = quoteAfter '"' '\x60' quote c := by cases quote <;> rfl
    rw [hafter] at ih ⊢
    rw [closeAt?_utf8_cons hq (by simpa using hclose) hescape, ih, Option.map_map, Option.map_map]
    · rfl
    · intro mark hm
      rcases mem_of_mem_quoteAfter hm with (rfl | rfl) | hm
      · decide
      · decide
      · exact hq mark hm

/-- Outside of strings at first. -/
theorem closeAt?_none_utf8 (cs : List Char) :
    closeAt? none (utf8 cs) = (splitClose? none cs).map fun split => byteLength split.1 :=
  closeAt?_utf8 none cs nofun

/-! ## Comments and whole actions -/

/-- The blanks that may stand beside a trim marker, as bytes. -/
def isAsciiBlank (b : UInt8) : Bool :=
  [' ', '\t', '\n', '\x0C', '\r'].any fun blank => b == blank.toUInt8

/-- The length of the trim marker at the start of an action. -/
def markerLength : List UInt8 → Nat
  | b :: c :: _ => if b = '-'.toUInt8 ∧ isAsciiBlank c = true then 1 else 0
  | _ => 0

/-- The number of bytes before the mark that opens a comment, if an action begins with one. -/
def commentAt? (bytes : List UInt8) : Option Nat :=
  let index := markerLength bytes
  let index := index + ((bytes.drop index).takeWhile isAsciiBlank).length
  if ['/'.toUInt8, '*'.toUInt8].isPrefixOf (bytes.drop index) then some index else none

/-- The number of bytes before the braces that close an action. -/
def actionEnd? (bytes : List UInt8) : Option Nat :=
  match commentAt? bytes with
  | some index => do
    let length ← pairAt? '*'.toUInt8 '/'.toUInt8 (bytes.drop (index + 2))
    let index := index + 2 + length + 2
    (closeAt? none (bytes.drop index)).map (index + ·)
  | none => closeAt? none bytes

theorem isAsciiBlank_toUInt8 {c : Char} (hc : c.toNat < 128) :
    isAsciiBlank c.toUInt8 = Text.isAsciiBlank c := by
  have hsame {blank : Char} (hb : blank.toNat < 128) :
      (c.toUInt8 == blank.toUInt8) = (c == blank) := by
    rw [Bool.eq_iff_iff, beq_iff_eq, beq_iff_eq, toUInt8_inj hc hb]
  simp [isAsciiBlank, Text.isAsciiBlank, hsame, Bool.or_assoc]

theorem isAsciiBlank_wide {b : UInt8} (hb : IsWide b) : isAsciiBlank b = false := by
  have hne {blank : Char} (h : blank.toNat < 128) : (b == blank.toUInt8) = false :=
    beq_eq_false_iff_ne.mpr (hb.ne_toUInt8 h)
  simp [isAsciiBlank, hne]

/-- The first byte of a character is a blank if the character is one. -/
theorem exists_utf8_cons (c : Char) (cs : List Char) :
    ∃ first bytes, utf8 (c :: cs) = first :: bytes ∧ isAsciiBlank first = Text.isAsciiBlank c := by
  rcases utf8EncodeChar_cases c with ⟨hc, hbytes⟩ | ⟨hc, hbytes⟩
  · rw [utf8_cons, hbytes]
    exact ⟨_, _, rfl, isAsciiBlank_toUInt8 hc⟩
  · obtain ⟨first, others, hchar, -⟩ := exists_utf8EncodeChar c
    rw [utf8_cons, hchar]
    refine ⟨first, _, rfl, ?_⟩
    rw [isAsciiBlank_wide (hbytes first (hchar ▸ List.mem_cons_self)), eq_comm,
      Bool.eq_false_iff]
    intro hblank
    have hascii := Text.toNat_lt_of_isAsciiBlank hblank
    omega

theorem takeWhile_utf8 (cs : List Char) :
    (utf8 cs).takeWhile isAsciiBlank = utf8 (cs.takeWhile Text.isAsciiBlank) := by
  induction cs with
  | nil => rfl
  | cons c cs ih =>
    by_cases hblank : Text.isAsciiBlank c = true
    · rcases utf8EncodeChar_cases c with ⟨hc, hbytes⟩ | ⟨hc, -⟩
      · rw [List.takeWhile_cons_of_pos hblank, utf8_cons, utf8_cons, hbytes, List.singleton_append,
          List.takeWhile_cons_of_pos (by rwa [isAsciiBlank_toUInt8 hc]), ih]
        rfl
      · have hascii := Text.toNat_lt_of_isAsciiBlank hblank
        omega
    · obtain ⟨first, bytes, hutf8, hfirst⟩ := exists_utf8_cons c cs
      rw [List.takeWhile_cons_of_neg hblank, hutf8, List.takeWhile_cons_of_neg (by rwa [hfirst])]
      rfl

theorem drop_utf8 (before after : List Char) :
    (utf8 (before ++ after)).drop (byteLength before) = utf8 after := by
  rw [utf8_append, ← length_utf8, List.drop_left]

theorem pair_prefix_utf8_iff {first second : Char} (hf : first.toNat < 128)
    (hs : second.toNat < 128) (cs : List Char) :
    [first.toUInt8, second.toUInt8] <+: utf8 cs ↔ [first, second] <+: cs := by
  cases cs with
  | nil => simp [utf8]
  | cons c cs =>
    by_cases hc : c = first
    · subst hc
      rcases utf8EncodeChar_cases c with ⟨-, hbytes⟩ | ⟨hwide, -⟩
      · rw [utf8_cons, hbytes, List.singleton_append, List.cons_prefix_cons, List.cons_prefix_cons,
          List.singleton_prefix_iff_head?_eq_some, List.singleton_prefix_iff_head?_eq_some,
          head?_utf8_iff hs]
        simp only [true_and]
      · omega
    · have hhead : (utf8 (c :: cs)).head? ≠ some first.toUInt8 := fun h =>
        hc (Option.some_inj.mp ((head?_utf8_iff hf (c :: cs)).mp h))
      constructor
      · rintro ⟨rest, hrest⟩
        rw [← hrest] at hhead
        exact absurd rfl hhead
      · exact fun h => absurd (List.cons_prefix_cons.mp h).1.symm hc

theorem markerLength_utf8 (cs : List Char) :
    markerLength (utf8 cs) = byteLength (splitMarker cs).1 := by
  unfold splitMarker
  split
  · rename_i c rest
    obtain ⟨first, bytes, hutf8, hfirst⟩ := exists_utf8_cons c rest
    have hminus : String.utf8EncodeChar '-' = ['-'.toUInt8] := by decide
    rw [utf8_cons, hminus, hutf8, List.singleton_append, markerLength, hfirst]
    simp only [true_and]
    split <;> rfl
  · rename_i hnone
    cases cs with
    | nil => rfl
    | cons c rest =>
      by_cases hc : c = '-'
      · subst hc
        cases rest with
        | nil => rfl
        | cons d rest => exact absurd rfl (hnone d rest)
      · have hhead : (utf8 (c :: rest)).head? ≠ some '-'.toUInt8 := fun h =>
          hc (Option.some_inj.mp ((head?_utf8_iff (by decide) (c :: rest)).mp h))
        unfold markerLength
        split
        · rename_i first second bytes hbytes
          rw [hbytes, List.head?_cons] at hhead
          exact if_neg fun h => hhead (congrArg some h.1)
        · rfl

theorem commentAt?_utf8 (cs : List Char) :
    (commentAt? (utf8 cs)).map (· + 2) =
      (splitCommentOpen? cs).map fun split => byteLength split.1 := by
  have hcs := splitMarker_append cs
  have hlength := markerLength_utf8 cs
  rw [splitCommentOpen?, commentAt?]
  generalize splitMarker cs = split at hcs hlength ⊢
  obtain ⟨marker, rest⟩ := split
  dsimp only at hcs hlength ⊢
  subst hcs
  have hrest := List.takeWhile_append_dropWhile (p := Text.isAsciiBlank) (l := rest)
  rw [hlength, drop_utf8, takeWhile_utf8, length_utf8, ← byteLength_append]
  generalize rest.takeWhile Text.isAsciiBlank = blanks at hrest ⊢
  generalize rest.dropWhile Text.isAsciiBlank = body at hrest ⊢
  rw [← hrest, ← List.append_assoc, drop_utf8]
  have hpair : ['/'.toUInt8, '*'.toUInt8].isPrefixOf (utf8 body) = true ↔ ['/', '*'] <+: body := by
    rw [List.isPrefixOf_iff_prefix, pair_prefix_utf8_iff (by decide) (by decide)]
  split
  · rename_i hopen
    obtain ⟨inside, rfl⟩ := hpair.mp hopen
    exact congrArg some (byteLength_append _ ['/', '*']).symm
  · rename_i hnone
    split
    · exact absurd (hpair.mpr ⟨_, rfl⟩) hnone
    · rfl

theorem commentEnd?_utf8 (cs : List Char) :
    (pairAt? '*'.toUInt8 '/'.toUInt8 (utf8 cs)).map (· + 2) =
      (splitCommentClose? cs).map fun split => byteLength split.1 := by
  cases h : splitCommentClose? cs with
  | none =>
    rw [pairAt?_utf8_eq_none (by decide) (by decide)]
    · rfl
    · intro hinfix
      have hsome := splitCommentClose?_isSome hinfix
      rw [h] at hsome
      cases hsome
  | some split =>
    obtain ⟨comment, rest⟩ := split
    obtain ⟨inside, rfl, hinside⟩ := exists_of_splitCommentClose?_eq_some h
    have hnone : ¬['*', '/'] <:+: inside ++ ['*'] := by
      rw [List.infix_concat_iff, not_or]
      refine ⟨?_, hinside⟩
      rintro ⟨before, hbefore⟩
      have hlast := congrArg List.getLast? hbefore
      simp at hlast
    rw [eq_append_of_splitCommentClose? h, List.append_assoc]
    rw [show ['*', '/'] ++ rest = '*' :: '/' :: rest from rfl,
      pairAt?_utf8_append (by decide) (by decide) hnone]
    exact congrArg some (byteLength_append inside ['*', '/']).symm

theorem actionEnd?_utf8 (cs : List Char) :
    actionEnd? (utf8 cs) = (splitAction? cs).map fun split => byteLength split.1 := by
  have hopen := commentAt?_utf8 cs
  rw [actionEnd?, splitAction?]
  cases hsplit : splitCommentOpen? cs with
  | none =>
    rw [hsplit] at hopen
    rw [Option.map_eq_none_iff.mp hopen]
    exact closeAt?_none_utf8 cs
  | some split =>
    obtain ⟨lead, inside⟩ := split
    rw [hsplit] at hopen
    obtain ⟨index, hindex, hlead⟩ := Option.map_eq_some_iff.mp hopen
    rw [hindex, eq_append_of_splitCommentOpen? hsplit]
    dsimp only at hlead ⊢
    rw [hlead, drop_utf8]
    have hclose := commentEnd?_utf8 inside
    cases hcomment : splitCommentClose? inside with
    | none =>
      rw [hcomment] at hclose
      rw [Option.map_eq_none_iff.mp hclose]
      rfl
    | some split =>
      obtain ⟨comment, rest⟩ := split
      rw [hcomment] at hclose
      obtain ⟨length, hlength, hcommentLength⟩ := Option.map_eq_some_iff.mp hclose
      dsimp only at hcommentLength
      have hboth : byteLength lead + length + 2 = byteLength (lead ++ comment) := by
        rw [byteLength_append, ← hcommentLength, Nat.add_assoc]
      simp only [hlength, Option.bind_eq_bind, Option.bind_some, hboth]
      rw [eq_append_of_splitCommentClose? hcomment, ← List.append_assoc, drop_utf8,
        closeAt?_none_utf8]
      cases splitClose? none rest with
      | none => rfl
      | some split => simp [byteLength_append, Nat.add_assoc]

end Scan.Bytes

end LiveTemplate
