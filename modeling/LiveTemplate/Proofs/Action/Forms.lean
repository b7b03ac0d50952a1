import LiveTemplate.Action.Lexer

/-!
# The forms of names, numbers and strings

What the text of a name, a path, a number or a string looks like, and that each reader of the lexer
takes the longest part of its form from the start of a text (`Longest`), or the part up to the
closing quote. Longest parts are put together by `Longest.append`, where what goes on with the first
part does not begin the second one.
-/

namespace LiveTemplate

namespace Lexer

/-! ## Characters -/

section

variable {c : Char}

/-- What holds of the characters with certain code points. -/
theorem forall_of_codes {p : Char → Prop} (codes : List Nat)
    (h : ∀ code ∈ codes, p (Char.ofNat code)) (hc : c.toNat ∈ codes) : p c :=
  Char.ofNat_toNat c ▸ h _ hc

/-- What a test of characters gives for each of several ones. -/
theorem forall_mem_eq {p : Char → Bool} {b : Bool} {cs : List Char}
    (h : cs.all (fun c => p c == b) = true) : ∀ c ∈ cs, p c = b :=
  fun c hc => beq_iff_eq.mp (List.all_eq_true.mp h c hc)

/-- What fails for each of several characters holds of none of them. -/
theorem not_mem_of_eq_true {p : Char → Bool} {cs : List Char}
    (hcs : cs.all (fun c => p c == false) = true) (h : p c = true) : c ∉ cs := by
  intro hc
  rw [forall_mem_eq hcs c hc] at h
  cases h

/-- The code points of the ten digits. -/
theorem toNat_mem_of_isDigit (h : c.isDigit = true) : c.toNat ∈ List.range' 48 10 := by
  have hrange : 48 ≤ c.toNat ∧ c.toNat ≤ 57 := by
    rwa [Char.isDigit, Bool.and_eq_true, decide_eq_true_eq, decide_eq_true_eq] at h
  rw [List.mem_range'_1]
  omega

/-- The UTF-8 form of an ASCII character is its code. -/
theorem utf8EncodeChar_of_ascii (h : c.toNat < 128) : String.utf8EncodeChar c = [c.toUInt8] := by
  have hsize : c.utf8Size = 1 :=
    Char.utf8Size_eq_one_iff.mpr (UInt32.le_iff_toNat_le.mpr (Nat.le_of_lt_succ h))
  rw [String.utf8EncodeChar_eq_singleton hsize, Char.toUInt8_val]

theorem isNameStart_of_isDigit (h : c.isDigit = true) : isNameStart c = false :=
  forall_of_codes (p := fun c => isNameStart c = false) _ (by decide) (toNat_mem_of_isDigit h)

theorem isNamePart_of_isNameStart (h : isNameStart c = true) : isNamePart c = true := by
  rw [isNameStart, Bool.or_eq_true] at h
  rcases h with h | h <;> simp [isNamePart, h]

theorem isNamePart_of_isDigit (h : c.isDigit = true) : isNamePart c = true :=
  forall_of_codes (p := fun c => isNamePart c = true) _ (by decide) (toNat_mem_of_isDigit h)

end

/-! ## Forms of texts -/

/-- A letter or an underscore, and letters, digits and underscores behind it. -/
inductive IsName : List Char → Prop
  | intro {c : Char} {rest : List Char} (first : isNameStart c = true)
      (others : ∀ d ∈ rest, isNamePart d = true) : IsName (c :: rest)

/-- All names of a path are names. -/
def IsPath (path : List String) : Prop :=
  ∀ name ∈ path, IsName name.toList

/-- One digit or more. -/
inductive IsDigits : List Char → Prop
  | intro {c : Char} {rest : List Char} (first : c.isDigit = true)
      (others : ∀ d ∈ rest, d.isDigit = true) : IsDigits (c :: rest)

/-- A zero, or digits of which the first is none. -/
inductive IsInteger : List Char → Prop
  | zero : IsInteger ['0']
  | digits {c : Char} {rest : List Char} (nonzero : c ≠ '0') (digits : IsDigits (c :: rest)) :
      IsInteger (c :: rest)

/-- Nothing, or digits behind a point. -/
inductive IsFraction : List Char → Prop
  | none : IsFraction []
  | some {digits : List Char} (present : IsDigits digits) : IsFraction ('.' :: digits)

/-- Nothing, or one sign. -/
inductive IsSign : List Char → Prop
  | none : IsSign []
  | plus : IsSign ['+']
  | minus : IsSign ['-']

/-- Nothing, or the mark of an exponent with digits behind it, which may have a sign. -/
inductive IsExponent : List Char → Prop
  | none : IsExponent []
  | some {mark : Char} {sign digits : List Char} (marks : isExponentMark mark = true)
      (signed : IsSign sign) (present : IsDigits digits) : IsExponent (mark :: (sign ++ digits))

/-- One part of a text and another one behind it. -/
def Sequence (P Q : List Char → Prop) (cs : List Char) : Prop :=
  ∃ first second, P first ∧ Q second ∧ cs = first ++ second

/-- A number without its sign. -/
def IsUnsigned : List Char → Prop :=
  Sequence IsInteger (Sequence IsFraction IsExponent)

/-- A number. -/
inductive IsNumeral : List Char → Prop
  | plain {cs : List Char} (unsigned : IsUnsigned cs) : IsNumeral cs
  | negative {cs : List Char} (unsigned : IsUnsigned cs) : IsNumeral ('-' :: cs)

/-- The text between double quotes: a quote is escaped, and a backslash escapes something. -/
inductive IsQuoted : List Char → Prop
  | nil : IsQuoted []
  | plain {c : Char} {rest : List Char} (unquoted : c ≠ '"') (unescaped : c ≠ '\\')
      (next : IsQuoted rest) : IsQuoted (c :: rest)
  | escape {c : Char} {rest : List Char} (next : IsQuoted rest) : IsQuoted ('\\' :: c :: rest)

/-! ## Longest parts -/

/-- A part at the start of a text that is of a form, as long as it can be. -/
structure Longest (P : List Char → Prop) (cs part : List Char) : Prop where
  holds : P part
  longest : ∀ other, P other → other <+: cs → other <+: part

theorem prefix_takeWhile {p : Char → Bool} {part cs : List Char} (h : ∀ c ∈ part, p c = true)
    (hp : part <+: cs) : part <+: cs.takeWhile p := by
  obtain ⟨rest, rfl⟩ := hp
  rw [List.takeWhile_append_of_pos h]
  exact List.prefix_append _ _

theorem of_mem_takeWhile {p : Char → Bool} {cs : List Char} :
    ∀ c ∈ cs.takeWhile p, p c = true :=
  fun c hc => List.all_eq_true.mp List.all_takeWhile c hc

/-- The longest part of one form and the longest part of another form behind it, if no character
with which a part of the first form goes on begins a part of the second form. -/
theorem Longest.append {P Q : List Char → Prop} {C : Char → Prop} {part rest more : List Char}
    (first : Longest P (part ++ rest) part) (second : Longest Q rest more)
    (goesOn : ∀ {x c}, P x → x ++ [c] <+: part → C c)
    (begins : ∀ {c y}, Q (c :: y) → ¬C c) :
    Longest (Sequence P Q) (part ++ rest) (part ++ more) := by
  refine ⟨⟨part, more, first.holds, second.holds, rfl⟩, ?_⟩
  rintro _ ⟨x, y, hx, hy, rfl⟩ hp
  obtain ⟨left, rfl⟩ := first.longest x hx ((List.prefix_append x y).trans hp)
  rw [List.append_assoc, List.prefix_append_right_inj] at hp
  cases left with
  | nil =>
    rw [List.append_nil, List.prefix_append_right_inj]
    exact second.longest y hy hp
  | cons c left =>
    cases y with
    | nil => simp
    | cons d y =>
      obtain ⟨rfl, -⟩ := List.cons_prefix_cons.mp hp
      exact absurd (goesOn hx ⟨left, by simp⟩) (begins hy)

/-! ### Names and paths -/

theorem IsName.isNamePart {name : List Char} (h : IsName name) :
    ∀ c ∈ name, isNamePart c = true := by
  cases h with
  | intro first others =>
    exact List.forall_mem_cons.mpr ⟨isNamePart_of_isNameStart first, others⟩

theorem not_isName_nil : ¬IsName [] := nofun

theorem splitName?_longest {cs name rest : List Char} (h : splitName? cs = some (name, rest)) :
    Longest IsName cs name := by
  cases cs with
  | nil => cases h
  | cons c cs =>
    rw [splitName?] at h
    split at h
    · rename_i hc
      cases h
      refine ⟨.intro hc of_mem_takeWhile, fun other ho hp => ?_⟩
      cases ho with
      | intro first others =>
        obtain ⟨rfl, hrest⟩ := List.cons_prefix_cons.mp hp
        exact List.cons_prefix_cons.mpr ⟨rfl, prefix_takeWhile others hrest⟩
    · cases h

theorem exists_splitName? {cs name : List Char} (hn : IsName name) (hp : name <+: cs) :
    ∃ first rest, splitName? cs = some (first, rest) := by
  obtain ⟨rest, rfl⟩ := hp
  cases hn with
  | intro first others => exact ⟨_, _, if_pos first⟩

/-- A name, or nothing. -/
theorem splitName?_getD_longest (cs : List Char) :
    Longest (fun name => name = [] ∨ IsName name) cs ((splitName? cs).getD ([], cs)).1 := by
  cases h : splitName? cs with
  | none =>
    refine ⟨.inl rfl, fun other ho hp => ?_⟩
    rcases ho with rfl | ho
    · exact List.nil_prefix
    · obtain ⟨first, rest, hsplit⟩ := exists_splitName? ho hp
      cases h.symm.trans hsplit
  | some result =>
    have hlongest := splitName?_longest h
    refine ⟨.inr hlongest.holds, fun other ho hp => ?_⟩
    rcases ho with rfl | ho
    · exact List.nil_prefix
    · exact hlongest.longest other ho hp

theorem pathChars_cons (name : String) (path : List String) :
    Token.pathChars (name :: path) = '.' :: (name.toList ++ Token.pathChars path) := by
  simp [Token.pathChars]

/-- A text that is a path. -/
def IsPathText (cs : List Char) : Prop :=
  ∃ path, IsPath path ∧ cs = Token.pathChars path

theorem IsPathText.eq_dot {c : Char} {cs : List Char} (h : IsPathText (c :: cs)) : c = '.' := by
  obtain ⟨path, -, hcs⟩ := h
  cases path with
  | nil => cases hcs
  | cons name path =>
    rw [pathChars_cons] at hcs
    exact (List.cons.inj hcs).1

/-- What goes on with a name is no dot. -/
theorem Longest.name_append_path {P : List Char → Prop} {name rest more : List Char}
    (hP : ∀ name, P name → ∀ c ∈ name, isNamePart c = true) (first : Longest P (name ++ rest) name)
    (second : Longest IsPathText rest more) :
    Longest (Sequence P IsPathText) (name ++ rest) (name ++ more) := by
  refine first.append (C := (isNamePart · = true)) second (fun {x c} _ hp => ?_) (fun hpath => ?_)
  · exact hP _ first.holds c (hp.subset (by simp))
  · rw [hpath.eq_dot]
    decide

theorem splitPath_longest (cs : List Char) :
    IsPath (splitPath cs).1 ∧ Longest IsPathText cs (Token.pathChars (splitPath cs).1) := by
  fun_induction splitPath cs with
  | case1 rest name after hname hlt path left heq ih =>
    rw [heq] at ih
    obtain ⟨hpath, hlongest⟩ := ih
    obtain ⟨rfl, -⟩ := eq_append_of_splitName? hname
    have hfirst := splitName?_longest hname
    have hall : IsPath (String.ofList name :: path) :=
      List.forall_mem_cons.mpr ⟨by simpa using hfirst.holds, hpath⟩
    refine ⟨hall, ⟨_, hall, rfl⟩, ?_⟩
    rintro _ ⟨other, hother, rfl⟩ hp
    cases other with
    | nil => exact List.nil_prefix
    | cons first more =>
      rw [pathChars_cons, List.cons_prefix_cons] at hp
      have hseq := (hfirst.name_append_path (fun _ h => h.isNamePart) hlongest).longest _
        ⟨first.toList, Token.pathChars more, hother first List.mem_cons_self,
          ⟨more, fun name hm => hother name (List.mem_cons_of_mem _ hm), rfl⟩, rfl⟩ hp.2
      rw [pathChars_cons, pathChars_cons, String.toList_ofList]
      exact List.cons_prefix_cons.mpr ⟨rfl, hseq⟩
  | case2 rest hname =>
    refine ⟨List.forall_mem_nil _, ⟨[], List.forall_mem_nil _, rfl⟩, ?_⟩
    rintro _ ⟨other, hother, rfl⟩ hp
    cases other with
    | nil => exact List.nil_prefix
    | cons first more =>
      rw [pathChars_cons, List.cons_prefix_cons] at hp
      obtain ⟨name, after, hsplit⟩ := exists_splitName? (hother first List.mem_cons_self)
        ((List.prefix_append _ _).trans hp.2)
      cases hname.symm.trans hsplit
  | case3 cs hdot =>
    refine ⟨List.forall_mem_nil _, ⟨[], List.forall_mem_nil _, rfl⟩, ?_⟩
    rintro _ ⟨other, -, rfl⟩ ⟨rest, rfl⟩
    cases other with
    | nil => exact List.nil_prefix
    | cons first more => exact absurd rfl (hdot _)

/-! ### Numbers -/

theorem isDigits_iff {cs : List Char} :
    IsDigits cs ↔ cs ≠ [] ∧ ∀ c ∈ cs, c.isDigit = true := by
  cases cs with
  | nil => exact ⟨nofun, fun h => absurd rfl h.1⟩
  | cons c rest =>
    rw [List.forall_mem_cons]
    constructor
    · rintro ⟨first, others⟩
      exact ⟨List.cons_ne_nil _ _, first, others⟩
    · rintro ⟨-, first, others⟩
      exact ⟨first, others⟩

theorem IsInteger.isDigit {cs : List Char} (h : IsInteger cs) : ∀ c ∈ cs, c.isDigit = true := by
  cases h with
  | zero => exact forall_mem_eq (by decide)
  | digits _ digits => exact (isDigits_iff.mp digits).2

theorem splitInteger?_longest {cs whole rest : List Char}
    (h : splitInteger? cs = some (whole, rest)) : Longest IsInteger cs whole := by
  cases cs with
  | nil => cases h
  | cons c cs =>
    rw [splitInteger?] at h
    split at h
    · rename_i hzero
      cases h
      cases beq_iff_eq.mp hzero
      refine ⟨.zero, fun other ho hp => ?_⟩
      cases ho with
      | zero => exact List.prefix_rfl
      | digits nonzero => exact absurd (List.cons_prefix_cons.mp hp).1 nonzero
    · rename_i hzero
      split at h
      · rename_i hdigit
        cases h
        have hnonzero : c ≠ '0' := fun hc => hzero (beq_iff_eq.mpr hc)
        refine ⟨.digits hnonzero (.intro hdigit of_mem_takeWhile), fun other ho hp => ?_⟩
        cases ho with
        | zero => exact absurd (List.cons_prefix_cons.mp hp).1.symm hnonzero
        | digits _ digits =>
          obtain ⟨rfl, hrest⟩ := List.cons_prefix_cons.mp hp
          cases digits with
          | intro _ others =>
            exact List.cons_prefix_cons.mpr ⟨rfl, prefix_takeWhile others hrest⟩
      · cases h

theorem exists_splitInteger? {cs part : List Char} (hi : IsInteger part) (hp : part <+: cs) :
    ∃ whole rest, splitInteger? cs = some (whole, rest) := by
  obtain ⟨rest, rfl⟩ := hp
  cases hi with
  | zero => exact ⟨_, _, rfl⟩
  | digits nonzero digits =>
    cases digits with
    | intro first _ =>
      refine ⟨_, _, (if_neg ?_).trans (if_pos first)⟩
      rwa [beq_iff_eq]

theorem splitFraction_longest (cs : List Char) : Longest IsFraction cs (splitFraction cs).1 := by
  unfold splitFraction
  split
  · rename_i rest
    dsimp only
    split
    · rename_i hnone
      refine ⟨.none, fun other ho hp => ?_⟩
      cases ho with
      | none => exact List.nil_prefix
      | some present =>
        obtain ⟨hne, hdigits⟩ := isDigits_iff.mp present
        have hstarts := prefix_takeWhile hdigits (List.cons_prefix_cons.mp hp).2
        rw [List.isEmpty_iff.mp hnone] at hstarts
        exact absurd (List.prefix_nil.mp hstarts) hne
    · rename_i hsome
      rw [List.isEmpty_iff] at hsome
      refine ⟨.some (isDigits_iff.mpr ⟨hsome, of_mem_takeWhile⟩), fun other ho hp => ?_⟩
      cases ho with
      | none => exact List.nil_prefix
      | some present =>
        exact List.cons_prefix_cons.mpr ⟨rfl, prefix_takeWhile (isDigits_iff.mp present).2
          (List.cons_prefix_cons.mp hp).2⟩
  · rename_i hpoint
    refine ⟨.none, fun other ho hp => ?_⟩
    cases ho with
    | none => exact List.nil_prefix
    | some =>
      obtain ⟨rest, rfl⟩ := hp
      exact absurd rfl (hpoint _)

/-- A sign is taken, and the digits are behind it. -/
theorem splitSign_of_prefix {sign digits cs : List Char} (hs : IsSign sign) (hd : IsDigits digits)
    (hp : sign ++ digits <+: cs) :
    (splitSign cs).1 = sign ∧ digits <+: (splitSign cs).2 := by
  obtain ⟨rest, rfl⟩ := hp
  cases hs with
  | plus => exact ⟨rfl, List.prefix_append _ _⟩
  | minus => exact ⟨rfl, List.prefix_append _ _⟩
  | none =>
    cases hd with
    | intro first others =>
      unfold splitSign
      split
      · rename_i hcs
        cases hcs
        cases first
      · rename_i hcs
        cases hcs
        cases first
      · exact ⟨rfl, List.prefix_append _ _⟩

theorem isSign_splitSign (cs : List Char) : IsSign (splitSign cs).1 := by
  unfold splitSign
  split
  · exact .plus
  · exact .minus
  · exact .none

theorem splitExponent_longest (cs : List Char) : Longest IsExponent cs (splitExponent cs).1 := by
  unfold splitExponent
  split
  · refine ⟨.none, fun other _ hp => hp⟩
  · rename_i c rest
    dsimp only
    split
    · rename_i hsome
      rw [Bool.and_eq_true, Bool.not_eq_true', List.isEmpty_eq_false_iff] at hsome
      refine ⟨.some hsome.1 (isSign_splitSign rest)
        (isDigits_iff.mpr ⟨hsome.2, of_mem_takeWhile⟩), fun other ho hp => ?_⟩
      cases ho with
      | none => exact List.nil_prefix
      | some _ signed present =>
        obtain ⟨rfl, hrest⟩ := List.cons_prefix_cons.mp hp
        obtain ⟨rfl, hdigits⟩ := splitSign_of_prefix signed present hrest
        refine List.cons_prefix_cons.mpr ⟨rfl, (List.prefix_append_right_inj _).mpr ?_⟩
        exact prefix_takeWhile (isDigits_iff.mp present).2 hdigits
    · rename_i hnone
      refine ⟨.none, fun other ho hp => ?_⟩
      cases ho with
      | none => exact List.nil_prefix
      | some marks signed present =>
        obtain ⟨rfl, hrest⟩ := List.cons_prefix_cons.mp hp
        obtain ⟨-, hdigits⟩ := splitSign_of_prefix signed present hrest
        obtain ⟨hne, hall⟩ := isDigits_iff.mp present
        refine absurd ?_ hnone
        rw [Bool.and_eq_true, Bool.not_eq_true', List.isEmpty_eq_false_iff]
        refine ⟨marks, fun hnil => hne ?_⟩
        have hstarts := prefix_takeWhile hall hdigits
        rwa [hnil, List.prefix_nil] at hstarts

theorem not_isDigit_of_isExponent {c : Char} {cs : List Char} (h : IsExponent (c :: cs)) :
    ¬(c = '.' ∨ c.isDigit = true) := by
  cases h with
  | some marks =>
    rw [isExponentMark, Bool.or_eq_true, beq_iff_eq, beq_iff_eq] at marks
    rcases marks with rfl | rfl <;> decide

theorem IsFraction.isDigit {cs : List Char} (h : IsFraction cs) :
    ∀ c ∈ cs, c = '.' ∨ c.isDigit = true := by
  cases h with
  | none => exact List.forall_mem_nil _
  | some present =>
    exact List.forall_mem_cons.mpr
      ⟨.inl rfl, fun c hc => .inr ((isDigits_iff.mp present).2 c hc)⟩

/-- What follows the integer part of a number does not begin with a digit. -/
theorem not_isDigit_of_sequence {c : Char} {cs : List Char}
    (h : Sequence IsFraction IsExponent (c :: cs)) : ¬c.isDigit = true := by
  obtain ⟨fraction, exponent, hfraction, hexponent, hcs⟩ := h
  cases hfraction with
  | none =>
    rw [List.nil_append] at hcs
    subst hcs
    exact fun hdigit => not_isDigit_of_isExponent hexponent (.inr hdigit)
  | some =>
    cases hcs
    decide

theorem splitUnsigned?_longest {cs numeral rest : List Char}
    (h : splitUnsigned? cs = some (numeral, rest)) : Longest IsUnsigned cs numeral := by
  simp only [splitUnsigned?, Option.bind_eq_bind, Option.bind_eq_some_iff, Prod.exists] at h
  obtain ⟨whole, after, hwhole, h⟩ := h
  have hfirst := splitInteger?_longest hwhole
  obtain ⟨rfl, -⟩ := eq_append_of_splitInteger? hwhole
  have hfraction := splitFraction_longest after
  have hexponent := splitExponent_longest (splitFraction after).2
  rw [Option.some.injEq, Prod.mk.injEq] at h
  obtain ⟨rfl, -⟩ := h
  have hafter := splitFraction_append after
  generalize (splitFraction after).1 = fraction at *
  generalize (splitFraction after).2 = left at *
  subst hafter
  have hsecond := hfraction.append (C := fun c => c = '.' ∨ c.isDigit = true) hexponent
    (fun _ hp => hfraction.holds.isDigit _ (hp.subset (by simp))) not_isDigit_of_isExponent
  rw [List.append_assoc]
  exact hfirst.append (C := (·.isDigit = true)) hsecond
    (fun _ hp => hfirst.holds.isDigit _ (hp.subset (by simp))) not_isDigit_of_sequence

theorem exists_splitUnsigned? {cs part : List Char} (hn : IsUnsigned part) (hp : part <+: cs) :
    ∃ numeral rest, splitUnsigned? cs = some (numeral, rest) := by
  obtain ⟨whole, more, hwhole, -, rfl⟩ := hn
  obtain ⟨first, rest, hsplit⟩ := exists_splitInteger? hwhole ((List.prefix_append _ _).trans hp)
  exact ⟨_, _, by rw [splitUnsigned?, hsplit]; rfl⟩

/-! ### Strings -/

theorem isQuoted_of_splitQuoted? {cs body rest : List Char}
    (h : splitQuoted? cs = some (body, rest)) : IsQuoted body := by
  fun_induction splitQuoted? cs generalizing body rest with
  | case1 => cases h
  | case2 =>
    cases h
    exact .nil
  | case3 => cases h
  | case4 c cs ih =>
    obtain ⟨⟨inside, _⟩, hsplit, ⟨⟩⟩ := Option.map_eq_some_iff.mp h
    exact .escape (ih hsplit)
  | case5 c cs hquote hlast hescape ih =>
    obtain ⟨⟨inside, _⟩, hsplit, ⟨⟩⟩ := Option.map_eq_some_iff.mp h
    refine .plain hquote (fun hc => ?_) (ih hsplit)
    cases cs with
    | nil => exact hlast hc rfl
    | cons d cs => exact hescape d cs hc rfl

theorem splitQuoted?_append {body : List Char} (h : IsQuoted body) (rest : List Char) :
    splitQuoted? (body ++ '"' :: rest) = some (body, rest) := by
  induction h with
  | nil => rfl
  | @plain c body unquoted unescaped _ ih =>
    rw [List.cons_append, splitQuoted?, ih]
    · rfl
    · exact unquoted
    · exact fun hc _ => unescaped hc
    · exact fun _ _ hc _ => unescaped hc
  | escape _ ih =>
    rw [List.cons_append, List.cons_append, splitQuoted?, ih]
    rfl

theorem not_mem_of_splitRaw? {cs body rest : List Char} (h : splitRaw? cs = some (body, rest)) :
    '\x60' ∉ body := by
  induction cs generalizing body rest with
  | nil => cases h
  | cons c cs ih =>
    rw [splitRaw?] at h
    split at h
    · cases h
      exact List.not_mem_nil
    · rename_i hc
      obtain ⟨⟨inside, _⟩, hsplit, ⟨⟩⟩ := Option.map_eq_some_iff.mp h
      rw [List.mem_cons, not_or]
      exact ⟨fun he => hc (beq_iff_eq.mpr he.symm), ih hsplit⟩

theorem splitRaw?_append {body : List Char} (h : '\x60' ∉ body) (rest : List Char) :
    splitRaw? (body ++ '\x60' :: rest) = some (body, rest) := by
  induction body with
  | nil => rfl
  | cons c body ih =>
    rw [List.mem_cons, not_or] at h
    rw [List.cons_append, splitRaw?, if_neg (fun hc => h.1 (beq_iff_eq.mp hc).symm), ih h.2]
    rfl

end Lexer

end LiveTemplate
