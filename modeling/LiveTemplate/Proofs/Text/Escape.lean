import LiveTemplate.Proofs.Action.Escapes
import LiveTemplate.Text.Escape

/-!
# Escaped texts are safe and can be read back

An escaped text is a row of short codes, one for each character in markup and one for each byte in a
query. No code can be taken for another one or for literal text, because the mark with which a code
begins is itself escaped.

* Markup: no character with a meaning is left but the ampersands of entities
  (`not_mem_escapeHtml`, `entity_of_suffix_escapeHtml`), and replacing entities from left to right
  gives back the text (`unescapeHtml_escapeHtml`).
* Queries: only unreserved characters and codes are left (`isQuery_escapeQuery`), and they stand for
  the bytes of the text (`queryBytes_escapeQuery`).

`escapes_lossless` puts this together.
-/

namespace LiveTemplate.Text

/-! ## Entities -/

/-- The characters that have a meaning in markup. -/
def markupMarks : List Char :=
  ['&', '<', '>', '"', '\'']

theorem amp_ne_of_not_mem {c : Char} (h : c ∉ markupMarks) : '&' ≠ c := by
  rintro rfl
  exact h List.mem_cons_self

/-- The entities that stand for a character, each with its character. -/
def entities : List (String × Char) :=
  [("&amp;", '&'), ("&lt;", '<'), ("&gt;", '>'), ("&#34;", '"'), ("&#39;", '\'')]

/-- The text in which the entities are replaced by their characters, from left to right. -/
def unescapeHtml (cs : List Char) : List Char :=
  match cs with
  | [] => []
  | c :: rest =>
    match entities.find? fun entity => entity.1.toList.isPrefixOf (c :: rest) with
    | some (text, character) => character :: unescapeHtml (rest.drop (text.length - 1))
    | none => c :: unescapeHtml rest
termination_by cs.length

theorem htmlEntity_cases (c : Char) :
    (∃ entity ∈ entities, htmlEntity c = entity.1.toList ∧ entity.2 = c) ∨
      c ∉ markupMarks ∧ htmlEntity c = [c] := by
  unfold htmlEntity
  split
  · exact .inl ⟨("&amp;", '&'), by decide, rfl, rfl⟩
  · exact .inl ⟨("&lt;", '<'), by decide, rfl, rfl⟩
  · exact .inl ⟨("&gt;", '>'), by decide, rfl, rfl⟩
  · exact .inl ⟨("&#34;", '"'), by decide, rfl, rfl⟩
  · exact .inl ⟨("&#39;", '\''), by decide, rfl, rfl⟩
  · rename_i hamp hlt hgt hquote happ
    refine .inr ⟨?_, rfl⟩
    simp only [markupMarks, List.mem_cons, List.not_mem_nil, or_false, not_or]
    exact ⟨hamp, hlt, hgt, hquote, happ⟩

/-- The mark of an entity is at its start only, and no other character of it has a meaning. -/
theorem exists_tail_of_mem_entities {entity : String × Char} (h : entity ∈ entities) :
    ∃ tail, entity.1.toList = '&' :: tail ∧ ∀ c ∈ tail, c ∉ markupMarks := by
  have htails : ∀ entity ∈ entities,
      entity.1.toList = '&' :: entity.1.toList.tail ∧
        entity.1.toList.tail.all (fun c => !markupMarks.contains c) = true := by
    decide
  obtain ⟨htext, hall⟩ := htails entity h
  refine ⟨_, htext, fun c hc hmark => ?_⟩
  have hnone := List.all_eq_true.mp hall c hc
  rw [List.contains_iff_mem.mpr hmark] at hnone
  cases hnone

/-! ## Reading markup back -/

theorem unescapeHtml_entity_append {entity : String × Char} (h : entity ∈ entities)
    (rest : List Char) :
    unescapeHtml (entity.1.toList ++ rest) = entity.2 :: unescapeHtml rest := by
  -- No entity begins another one, so that the search finds the one at hand.
  have hfind : entities.find? (fun other => other.1.toList.isPrefixOf (entity.1.toList ++ rest)) =
      some entity := by
    simp only [entities, List.mem_cons, List.not_mem_nil, or_false] at h
    rcases h with rfl | rfl | rfl | rfl | rfl <;> rfl
  obtain ⟨tail, htail, -⟩ := exists_tail_of_mem_entities h
  have hlength : entity.1.length - 1 = tail.length := by
    rw [← String.length_toList, htail, List.length_cons, Nat.add_sub_cancel]
  rw [htail, List.cons_append] at hfind ⊢
  rw [unescapeHtml, hfind]
  simp only [hlength, List.drop_left]

theorem unescapeHtml_cons {c : Char} (h : c ≠ '&') (rest : List Char) :
    unescapeHtml (c :: rest) = c :: unescapeHtml rest := by
  have hfind : entities.find? (fun entity => entity.1.toList.isPrefixOf (c :: rest)) = none := by
    refine List.find?_eq_none.mpr fun entity he hprefix => h ?_
    obtain ⟨tail, htail, -⟩ := exists_tail_of_mem_entities he
    rw [htail, List.isPrefixOf_iff_prefix, List.cons_prefix_cons] at hprefix
    exact hprefix.1.symm
  rw [unescapeHtml, hfind]

theorem unescapeHtml_flatMap (cs : List Char) : unescapeHtml (cs.flatMap htmlEntity) = cs := by
  induction cs with
  | nil => rw [List.flatMap_nil, unescapeHtml]
  | cons c cs ih =>
    rw [List.flatMap_cons]
    rcases htmlEntity_cases c with ⟨entity, he, htext, rfl⟩ | ⟨hc, hchar⟩
    · rw [htext, unescapeHtml_entity_append he, ih]
    · rw [hchar, List.singleton_append, unescapeHtml_cons (amp_ne_of_not_mem hc).symm, ih]

theorem unescapeHtml_escapeHtml (s : String) :
    String.ofList (unescapeHtml (escapeHtml s).toList) = s := by
  rw [escapeHtml, String.toList_ofList, unescapeHtml_flatMap, String.ofList_toList]

/-! ## What is left in markup -/

theorem not_mem_escapeHtml {mark : Char} (h : mark ∈ ['<', '>', '"', '\'']) (s : String) :
    mark ∉ (escapeHtml s).toList := by
  have hamp : mark ≠ '&' := by
    rintro rfl
    exact absurd h (by decide)
  have hmeaning : mark ∈ markupMarks := List.mem_cons_of_mem _ h
  rw [escapeHtml, String.toList_ofList, List.mem_flatMap]
  rintro ⟨c, -, hmark⟩
  rcases htmlEntity_cases c with ⟨entity, he, htext, -⟩ | ⟨hc, hchar⟩
  · obtain ⟨tail, htail, hrest⟩ := exists_tail_of_mem_entities he
    rw [htext, htail] at hmark
    rcases List.mem_cons.mp hmark with heq | hmem
    · exact hamp heq
    · exact hrest mark hmem hmeaning
  · rw [hchar, List.mem_singleton] at hmark
    exact hc (hmark ▸ hmeaning)

/-- Where a character begins the rest of a text, it is behind a part without that character. -/
theorem suffix_of_suffix_append {c : Char} {front back after : List Char} (h : c ∉ front)
    (hs : c :: after <:+ front ++ back) : c :: after <:+ back := by
  induction front with
  | nil => exact hs
  | cons first front ih =>
    rw [List.mem_cons, not_or] at h
    rcases List.suffix_cons_iff.mp hs with heq | hrest
    · exact absurd (List.cons.inj heq).1 h.1
    · exact ih h.2 hrest

theorem entity_of_suffix_flatMap {cs after : List Char}
    (h : '&' :: after <:+ cs.flatMap htmlEntity) :
    ∃ entity ∈ entities, entity.1.toList <+: '&' :: after := by
  induction cs with
  | nil => cases List.suffix_nil.mp h
  | cons c cs ih =>
    rw [List.flatMap_cons] at h
    rcases htmlEntity_cases c with ⟨entity, he, htext, -⟩ | ⟨hc, hchar⟩
    · obtain ⟨tail, htail, hrest⟩ := exists_tail_of_mem_entities he
      have hamp : '&' ∉ tail := fun hmem => amp_ne_of_not_mem (hrest '&' hmem) rfl
      rw [htext, htail, List.cons_append] at h
      rcases List.suffix_cons_iff.mp h with heq | hlater
      · exact ⟨entity, he, by rw [heq, htail]; exact List.prefix_append _ _⟩
      · exact ih (suffix_of_suffix_append hamp hlater)
    · have hamp : '&' ∉ htmlEntity c := by
        rw [hchar, List.mem_singleton]
        exact amp_ne_of_not_mem hc
      exact ih (suffix_of_suffix_append hamp h)

/-- Every ampersand of an escaped text begins an entity. -/
theorem entity_of_suffix_escapeHtml {s : String} {after : List Char}
    (h : '&' :: after <:+ (escapeHtml s).toList) :
    ∃ entity ∈ entities, entity.1.toList <+: '&' :: after := by
  rw [escapeHtml, String.toList_ofList] at h
  exact entity_of_suffix_flatMap h

/-! ## Queries -/

/-- A character that may stand in a query for itself, or for a space. -/
def IsQueryChar (c : Char) : Prop :=
  c.isAlpha = true ∨ c.isDigit = true ∨ c ∈ ['-', '_', '.', '~', '+']

/-- An upper-case hexadecimal digit. -/
def IsUpperHexDigit (c : Char) : Prop :=
  c.isDigit = true ∨ c ∈ ['A', 'B', 'C', 'D', 'E', 'F']

instance (c : Char) : Decidable (IsUpperHexDigit c) :=
  inferInstanceAs (Decidable (_ ∨ _))

/-- A row of characters that may stand in a query, and of percent signs with two upper-case
hexadecimal digits behind each. -/
inductive IsQuery : List Char → Prop
  | nil : IsQuery []
  | char {c : Char} {rest : List Char} (allowed : IsQueryChar c) (next : IsQuery rest) :
      IsQuery (c :: rest)
  | code {high low : Char} {rest : List Char} (first : IsUpperHexDigit high)
      (second : IsUpperHexDigit low) (next : IsQuery rest) : IsQuery ('%' :: high :: low :: rest)

/-- The bytes for which a query stands: a plus sign for a space, a percent sign with two hexadecimal
digits for a byte, and any other character for itself. -/
def queryBytes : List Char → List UInt8
  | [] => []
  | '+' :: rest => ' '.toUInt8 :: queryBytes rest
  | '%' :: high :: low :: rest =>
    match Literal.hexValue? high, Literal.hexValue? low with
    | some n, some m => UInt8.ofNat (16 * n + m) :: queryBytes rest
    | _, _ => '%'.toUInt8 :: queryBytes (high :: low :: rest)
  | c :: rest => String.utf8EncodeChar c ++ queryBytes rest

theorem queryBytes_cons {c : Char} (hplus : c ≠ '+') (hpercent : c ≠ '%') (rest : List Char) :
    queryBytes (c :: rest) = String.utf8EncodeChar c ++ queryBytes rest := by
  conv_lhs => unfold queryBytes
  split <;> simp_all

theorem isQueryChar_of_isUnreserved {c : Char} (h : isUnreserved c = true) : IsQueryChar c := by
  simp only [isUnreserved, Char.isAlphanum, Bool.or_eq_true, beq_iff_eq] at h
  simp only [IsQueryChar, List.mem_cons, List.not_mem_nil, or_false]
  rcases h with ((((h | h) | h) | h) | h) | h
  all_goals simp [h]

theorem IsQueryChar.toNat_lt {c : Char} (h : IsQueryChar c) : c.toNat < 128 := by
  rcases h with h | h | h
  · have hcase : c.isUpper = true ∨ c.isLower = true := (Bool.or_eq_true _ _).mp h
    rcases hcase with hupper | hlower
    · have hrange : c.val ≥ 'A'.val ∧ c.val ≤ 'Z'.val := of_decide_eq_true hupper
      have hle : c.toNat ≤ 90 := hrange.2
      omega
    · have hle : c.toNat ≤ 122 := of_decide_eq_true ((Bool.and_eq_true _ _).mp hlower).2
      omega
  · have hrange := List.mem_range'_1.mp (Lexer.toNat_mem_of_isDigit h)
    omega
  · simp only [List.mem_cons, List.not_mem_nil, or_false] at h
    rcases h with rfl | rfl | rfl | rfl | rfl <;> decide

/-- An unreserved character is one byte, and no sign by which a query stands for something else. -/
theorem isUnreserved_spec {c : Char} (h : isUnreserved c = true) :
    c ≠ '+' ∧ c ≠ '%' ∧ String.utf8EncodeChar c = [c.toUInt8] := by
  refine ⟨?_, ?_, ?_⟩
  · rintro rfl
    exact absurd h (by decide)
  · rintro rfl
    exact absurd h (by decide)
  · exact Lexer.utf8EncodeChar_of_ascii (isQueryChar_of_isUnreserved h).toNat_lt

theorem isUpperHexDigit_upperHexDigit {n : Nat} (h : n < 16) :
    IsUpperHexDigit (upperHexDigit n) := by
  have hdigits : ∀ n < 16, IsUpperHexDigit (upperHexDigit n) := by decide
  exact hdigits n h

theorem hexValue?_upperHexDigit {n : Nat} (h : n < 16) :
    Literal.hexValue? (upperHexDigit n) = some n :=
  Literal.hexValue?_eq_some_iff.mpr ⟨h, .inr rfl⟩

theorem toUInt8_ofNat (b : UInt8) : (Char.ofNat b.toNat).toUInt8 = b := by
  have hb := b.toNat_lt
  have hvalid : b.toNat.isValidChar := .inl (by omega)
  rw [Char.ofNat, dif_pos hvalid, ← UInt8.toNat_inj]
  exact Nat.mod_eq_of_lt hb

/-- How a byte is written: as itself, as a plus sign, or as a code. -/
theorem queryByte_cases (b : UInt8) :
    (∃ c, isUnreserved c = true ∧ c.toUInt8 = b ∧ queryByte b = [c]) ∨
      ' '.toUInt8 = b ∧ queryByte b = ['+'] ∨
        queryByte b = ['%', upperHexDigit (b.toNat / 16), upperHexDigit (b.toNat % 16)] := by
  have hbyte := toUInt8_ofNat b
  simp only [queryByte]
  split
  · rename_i hunreserved
    exact .inl ⟨_, hunreserved, hbyte, rfl⟩
  split
  · rename_i hspace
    rw [hspace] at hbyte
    exact .inr (.inl ⟨hbyte, rfl⟩)
  · exact .inr (.inr rfl)

theorem queryBytes_queryByte_append (b : UInt8) (rest : List Char) :
    queryBytes (queryByte b ++ rest) = b :: queryBytes rest := by
  rcases queryByte_cases b with ⟨c, hc, rfl, hwritten⟩ | ⟨rfl, hwritten⟩ | hwritten
  · obtain ⟨hplus, hpercent, hbyte⟩ := isUnreserved_spec hc
    rw [hwritten, List.singleton_append, queryBytes_cons hplus hpercent, hbyte,
      List.singleton_append]
  · rw [hwritten]
    rfl
  · have hb := b.toNat_lt
    rw [hwritten, List.cons_append, List.cons_append, List.singleton_append, queryBytes,
      hexValue?_upperHexDigit (by omega), hexValue?_upperHexDigit (by omega)]
    simp only [Nat.div_add_mod, UInt8.ofNat_toNat]

theorem queryBytes_flatMap (bytes : List UInt8) :
    queryBytes (bytes.flatMap queryByte) = bytes := by
  induction bytes with
  | nil => rfl
  | cons b bytes ih => rw [List.flatMap_cons, queryBytes_queryByte_append, ih]

/-- A query stands for the bytes of its text. -/
theorem queryBytes_escapeQuery (s : String) :
    (queryBytes (escapeQuery s).toList).toByteArray = s.toUTF8 := by
  rw [escapeQuery, String.toList_ofList, queryBytes_flatMap]
  exact String.utf8Encode_toList

theorem isQuery_queryByte_append (b : UInt8) {rest : List Char} (h : IsQuery rest) :
    IsQuery (queryByte b ++ rest) := by
  rcases queryByte_cases b with ⟨c, hc, -, hwritten⟩ | ⟨-, hwritten⟩ | hwritten
  · rw [hwritten]
    exact .char (isQueryChar_of_isUnreserved hc) h
  · rw [hwritten]
    exact .char (.inr (.inr (by decide))) h
  · have hb := b.toNat_lt
    rw [hwritten]
    exact .code (isUpperHexDigit_upperHexDigit (by omega))
      (isUpperHexDigit_upperHexDigit (by omega)) h

theorem isQuery_escapeQuery (s : String) : IsQuery (escapeQuery s).toList := by
  rw [escapeQuery, String.toList_ofList]
  induction utf8Bytes s with
  | nil => exact .nil
  | cons b bytes ih =>
    rw [List.flatMap_cons]
    exact isQuery_queryByte_append b ih

/-! ## Both escapes -/

/-- A text escaped for markup has no character with a meaning but the ampersands that begin
entities, and replacing the entities from left to right gives back the text. A text escaped for a
query has nothing but unreserved characters, plus signs and codes, which stand for the bytes of the
text. So no two texts look alike once they are escaped. -/
theorem escapes_lossless :
    (∀ s : String,
      (∀ mark ∈ ['<', '>', '"', '\''], mark ∉ (escapeHtml s).toList) ∧
      (∀ after, '&' :: after <:+ (escapeHtml s).toList →
        ∃ entity ∈ entities, entity.1.toList <+: '&' :: after) ∧
      String.ofList (unescapeHtml (escapeHtml s).toList) = s ∧
      IsQuery (escapeQuery s).toList ∧
      (queryBytes (escapeQuery s).toList).toByteArray = s.toUTF8) ∧
    Function.Injective escapeHtml ∧ Function.Injective escapeQuery := by
  refine ⟨fun s => ⟨?_, ?_, ?_, ?_, ?_⟩, ?_, ?_⟩
  · exact fun mark hmark => not_mem_escapeHtml hmark s
  · exact fun after h => entity_of_suffix_escapeHtml h
  · exact unescapeHtml_escapeHtml s
  · exact isQuery_escapeQuery s
  · exact queryBytes_escapeQuery s
  · intro s t h
    rw [← unescapeHtml_escapeHtml s, h, unescapeHtml_escapeHtml t]
  · intro s t h
    have hbytes : s.toUTF8 = t.toUTF8 := by
      rw [← queryBytes_escapeQuery s, h, queryBytes_escapeQuery t]
    exact String.toByteArray_inj.mp hbytes

/-- A text with an entity in it: the ampersand of that entity is escaped as well. -/
theorem escapes_lossless_entity :
    escapeHtml "<a&lt;" = "&lt;a&amp;lt;" ∧ '<' ∈ ['<', '>', '"', '\''] ∧
      '<' ∉ (escapeHtml "<a&lt;").toList ∧
      '&' :: "amp;lt;".toList <:+ (escapeHtml "<a&lt;").toList ∧
      (∃ entity ∈ entities, entity.1.toList <+: '&' :: "amp;lt;".toList) ∧
      String.ofList (unescapeHtml (escapeHtml "<a&lt;").toList) = "<a&lt;" := by
  have hspec := escapes_lossless.1 "<a&lt;"
  have hsuffix : '&' :: "amp;lt;".toList <:+ (escapeHtml "<a&lt;").toList := by decide
  exact ⟨by decide, by decide, hspec.1 '<' (by decide), hsuffix, hspec.2.1 _ hsuffix,
    hspec.2.2.1⟩

/-- A character of two bytes is two codes. -/
example : escapeQuery "a b&é" = "a+b%26%C3%A9" := by decide

end LiveTemplate.Text
