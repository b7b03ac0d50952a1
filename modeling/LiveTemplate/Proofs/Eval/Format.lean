import LiveTemplate.Eval.Builtin
import LiveTemplate.Proofs.Success
import Mathlib.Data.List.Forall2

/-!
# Formats use every value once

A format is a row of items: characters that stand for themselves, escaped percent signs, and
directives, each of which takes one value. A precision may stand in front of the letter of a
directive and of an escaped percent sign.

* `Format.write_eq_ok_iff`: the values that a verb takes, and what it writes.
* `Format.applied_character`, `Format.applied_escape`, `Format.applied_directive_eq_ok`: what one
  item in front of a format does.
* `Builtin.printf_eq_ok_iff`: a format is filled if and only if it is a row of items with as many
  directives as there are values, each of which takes its value.
-/

namespace LiveTemplate

namespace Format

/-! ## Items -/

/-- What a directive makes of a value. -/
inductive Verb where
  | plain
  | string
  | quoted
  | integer
  | decimal
  | truth
  deriving DecidableEq, Repr

namespace Verb

/-- The letter of a verb. -/
def letter : Verb → Char
  | .plain => 'v'
  | .string => 's'
  | .quoted => 'q'
  | .integer => 'd'
  | .decimal => 'f'
  | .truth => 't'

/-- The values that a verb takes: integers, numbers, truth values, or all. -/
def Takes : Verb → Value → Prop
  | .integer, value => ∃ i, value = .int i
  | .decimal, value => (∃ i, value = .int i) ∨ ∃ x, value = .float x
  | .truth, value => ∃ b, value = .bool b
  | _, _ => True

/-- How a verb writes a value that it takes, a number with so many places. -/
def written (places : Nat) : Verb → Value → String
  | .integer, .int i => toString i
  | .decimal, .int i => (Double.ofInt i).displayPlaces places
  | .decimal, .float x => x.displayPlaces places
  | .truth, .bool b => if b then "true" else "false"
  | .quoted, value => Text.quote value.display
  | _, value => value.display

end Verb

/-- A precision: digits behind a point, perhaps none. -/
structure Precision where
  digits : List Char
  areDigits : ∀ c ∈ digits, c.isDigit = true
  inRange : Double.digitsValue digits ≤ 65535

/-- The number of places that a precision asks for. -/
def Precision.places (precision : Precision) : Nat :=
  Double.digitsValue precision.digits

/-- How a precision is spelled, if there is one. -/
def precisionText : Option Precision → List Char
  | none => []
  | some precision => '.' :: precision.digits

/-- A verb with its precision. -/
structure Directive where
  precision : Option Precision
  verb : Verb

namespace Directive

/-- The values that a directive takes. -/
def Takes (directive : Directive) (value : Value) : Prop :=
  directive.verb.Takes value

/-- How a directive writes a value. Without a precision a number has six places. -/
def written (directive : Directive) (value : Value) : String :=
  directive.verb.written ((directive.precision.map Precision.places).getD 6) value

end Directive

/-- A character that stands for itself, an escaped percent sign, or a directive. -/
inductive Item where
  | character (c : Char) (plain : c ≠ '%')
  | percent (precision : Option Precision)
  | directive (directive : Directive)

/-- How an item is spelled. -/
def Item.text : Item → List Char
  | .character c _ => [c]
  | .percent precision => '%' :: (precisionText precision ++ ['%'])
  | .directive ⟨precision, verb⟩ => '%' :: (precisionText precision ++ [verb.letter])

/-- The directives among items. -/
def directives : List Item → List Directive
  | [] => []
  | .directive directive :: rest => directive :: directives rest
  | .character _ _ :: rest => directives rest
  | .percent _ :: rest => directives rest

/-- The items in order, with a text for each directive in its place. -/
def assembled : List Item → List String → String
  | [], _ => ""
  | .character c _ :: rest, texts => c.toString ++ assembled rest texts
  | .percent _ :: rest, texts => "%" ++ assembled rest texts
  | .directive _ :: rest, text :: texts => text ++ assembled rest texts
  | .directive _ :: rest, [] => assembled rest []

/-! ## Single values -/

theorem write_eq_ok_iff {c : Char} {precision : Option Nat} {value : Value} {text : String} :
    write c precision value = .ok text ↔
      ∃ verb : Verb, verb.letter = c ∧ verb.Takes value ∧
        text = verb.written (precision.getD 6) value := by
  constructor
  · intro h
    unfold write at h
    split at h
    · cases h
      exact ⟨.plain, rfl, trivial, rfl⟩
    · cases h
      exact ⟨.string, rfl, trivial, rfl⟩
    · cases h
      exact ⟨.quoted, rfl, trivial, rfl⟩
    · cases value <;> cases h
      exact ⟨.integer, rfl, ⟨_, rfl⟩, rfl⟩
    · cases value <;> cases h
      · exact ⟨.decimal, rfl, .inl ⟨_, rfl⟩, rfl⟩
      · exact ⟨.decimal, rfl, .inr ⟨_, rfl⟩, rfl⟩
    · cases value <;> cases h
      exact ⟨.truth, rfl, ⟨_, rfl⟩, rfl⟩
    · cases h
  · rintro ⟨verb, rfl, htakes, rfl⟩
    cases verb with
    | plain => rfl
    | string => rfl
    | quoted => rfl
    | integer =>
      obtain ⟨i, rfl⟩ := htakes
      rfl
    | decimal =>
      rcases htakes with ⟨i, rfl⟩ | ⟨x, rfl⟩
      · rfl
      · rfl
    | truth =>
      obtain ⟨b, rfl⟩ := htakes
      rfl

/-! ## Precisions -/

/-- A precision is read up to the first character that is no digit. -/
theorem read_precision {c : Char} (hdigit : c.isDigit = false) (hpoint : c ≠ '.')
    (precision : Option Precision) (rest : List Char) :
    precisionDigits? (precisionText precision ++ c :: rest) = precision.map Precision.digits ∧
      afterPrecision (precisionText precision ++ c :: rest) = c :: rest := by
  cases precision with
  | none =>
    rw [precisionText, List.nil_append, precisionDigits?.eq_def, afterPrecision.eq_def]
    constructor
    · split
      · rename_i heq
        exact absurd (List.cons.inj heq).1 hpoint
      · rfl
    · split
      · rename_i heq
        exact absurd (List.cons.inj heq).1 hpoint
      · rfl
  | some precision =>
    have hstop : ¬c.isDigit = true := by rw [hdigit]; decide
    rw [precisionText, List.cons_append, precisionDigits?, afterPrecision,
      List.takeWhile_append_of_pos precision.areDigits, List.takeWhile_cons_of_neg hstop,
      List.dropWhile_append_of_pos precision.areDigits, List.dropWhile_cons_of_neg hstop,
      List.append_nil]
    exact ⟨rfl, rfl⟩

/-- What is read as a precision is one if its number is in range. -/
theorem exists_precision {cs : List Char}
    (h : ((precisionDigits? cs).map Double.digitsValue).getD 0 ≤ 65535) :
    ∃ precision : Option Precision, precisionDigits? cs = precision.map Precision.digits ∧
      precisionText precision ++ afterPrecision cs = cs := by
  unfold precisionDigits? at h ⊢
  unfold afterPrecision
  split at h
  · rename_i rest
    exact ⟨some ⟨rest.takeWhile Char.isDigit, List.all_eq_true.mp List.all_takeWhile, h⟩, rfl,
      congrArg ('.' :: ·) List.takeWhile_append_dropWhile⟩
  · exact ⟨none, rfl, rfl⟩

/-! ## The items of a format one by one -/

/-- The text of a format with values in the places of its verbs, or what is wrong with it. -/
def applied (cs : List Char) (values : List Value) : Except FormatProblem String :=
  fill (pieces cs).2 (pieces cs).1 values

theorem applied_nil_eq_ok {values : List Value} {text : String} :
    applied [] values = .ok text ↔ values = [] ∧ text = "" := by
  rw [applied, pieces]
  cases values with
  | nil =>
    constructor
    · rintro ⟨⟩
      exact ⟨rfl, rfl⟩
    · rintro ⟨-, rfl⟩
      rfl
  | cons value values =>
    constructor
    · rintro ⟨⟩
    · rintro ⟨⟨⟩, -⟩

theorem fill_character (problem : Option FormatProblem) (c : Char) (parts : List Piece)
    (values : List Value) :
    fill problem (.character c :: parts) values =
      (c.toString ++ ·) <$> fill problem parts values := by
  rw [fill]
  cases fill problem parts values <;> rfl

theorem applied_character {c : Char} (h : c ≠ '%') (cs : List Char) (values : List Value) :
    applied (c :: cs) values = (c.toString ++ ·) <$> applied cs values := by
  rw [applied, pieces.eq_3 _ _ h]
  exact fill_character _ _ _ _

section Percent

variable {cs rest : List Char} {precision : Option Precision} {c : Char} {values : List Value}
  {text : String}

theorem pieces_percent (hp : precisionDigits? cs = precision.map Precision.digits)
    (ha : afterPrecision cs = c :: rest) :
    pieces ('%' :: cs) =
      ((if c = '%' then .character '%' else .verb c (precision.map Precision.places)) ::
        (pieces rest).1, (pieces rest).2) := by
  have hplaces : (precisionDigits? cs).map Double.digitsValue = precision.map Precision.places := by
    rw [hp, Option.map_map]
    rfl
  have hrange : ¬maxPrecision < (precision.map Precision.places).getD 0 := by
    cases precision with
    | none => decide
    | some precision => exact Nat.not_lt.mpr precision.inRange
  rw [pieces, hplaces, if_neg hrange]
  split
  · rename_i heq
    rw [ha] at heq
    cases heq
  · rename_i heq
    rw [ha] at heq
    cases heq
    show (if c = '%' then .character '%' :: (pieces rest).1
      else .verb c (precision.map Precision.places) :: (pieces rest).1, (pieces rest).2) = _
    by_cases hc : c = '%'
    · rw [if_pos hc, if_pos hc]
    · rw [if_neg hc, if_neg hc]

theorem applied_escape (hp : precisionDigits? cs = precision.map Precision.digits)
    (ha : afterPrecision cs = '%' :: rest) (values : List Value) :
    applied ('%' :: cs) values = ("%" ++ ·) <$> applied rest values := by
  rw [applied, pieces_percent hp ha, if_pos rfl, fill_character]
  rfl

theorem applied_directive_eq_ok (hp : precisionDigits? cs = precision.map Precision.digits)
    (ha : afterPrecision cs = c :: rest) (hc : c ≠ '%') :
    applied ('%' :: cs) values = .ok text ↔
      ∃ (verb : Verb) (value : Value) (others : List Value) (later : String),
        verb.letter = c ∧ values = value :: others ∧ Directive.Takes ⟨precision, verb⟩ value ∧
          applied rest others = .ok later ∧
            text = Directive.written ⟨precision, verb⟩ value ++ later := by
  rw [applied, pieces_percent hp ha, if_neg hc]
  cases values with
  | nil =>
    constructor
    · rintro ⟨⟩
    · rintro ⟨_, _, _, _, -, ⟨⟩, -⟩
  | cons value others =>
    simp only [fill, bind_eq_ok, write_eq_ok_iff]
    constructor
    · rintro ⟨_, ⟨verb, hletter, htakes, rfl⟩, later, hlater, ⟨⟩⟩
      exact ⟨verb, value, others, later, hletter, rfl, htakes, hlater, rfl⟩
    · rintro ⟨verb, _, _, later, hletter, ⟨⟩, htakes, hlater, rfl⟩
      exact ⟨_, ⟨verb, hletter, htakes, rfl⟩, later, hlater, rfl⟩

/-- Behind a percent sign of a format that is filled there is a letter, perhaps with a precision in
front. -/
theorem exists_of_applied_percent (h : applied ('%' :: cs) values = .ok text) :
    ∃ (precision : Option Precision) (c : Char) (rest : List Char),
      cs = precisionText precision ++ c :: rest ∧
        precisionDigits? cs = precision.map Precision.digits ∧ afterPrecision cs = c :: rest := by
  rw [applied, pieces] at h
  split at h
  · cases h
  · rename_i hrange
    obtain ⟨precision, hp, hspelled⟩ := exists_precision (Nat.not_lt.mp hrange)
    split at h
    · cases h
    · rename_i c rest ha
      exact ⟨precision, c, rest, by rw [← ha, hspelled], hp, ha⟩

end Percent

/-! ## Whole formats -/

/-- Items with a value for each directive, and what they show. -/
def Filled (items : List Item) (values : List Value) (text : String) : Prop :=
  List.Forall₂ Directive.Takes (directives items) values ∧
    text = assembled items (List.zipWith Directive.written (directives items) values)

theorem Verb.letter_spec (verb : Verb) :
    verb.letter.isDigit = false ∧ verb.letter ≠ '.' ∧ verb.letter ≠ '%' := by
  cases verb <;> decide

/-- Items that are filled are a format that is. -/
theorem Filled.applied {items : List Item} {values : List Value} {text : String}
    (h : Filled items values text) : applied (items.flatMap Item.text) values = .ok text := by
  induction items generalizing values text with
  | nil =>
    obtain ⟨htakes, rfl⟩ := h
    cases htakes
    exact applied_nil_eq_ok.mpr ⟨rfl, rfl⟩
  | cons item rest ih =>
    obtain ⟨htakes, rfl⟩ := h
    rw [List.flatMap_cons]
    cases item with
    | character c hc =>
      rw [Item.text, List.singleton_append, applied_character hc, ih ⟨htakes, rfl⟩]
      rfl
    | percent precision =>
      obtain ⟨hp, ha⟩ := read_precision (c := '%') rfl (by decide) precision
        (rest.flatMap Item.text)
      rw [Item.text, List.cons_append, List.append_assoc, List.singleton_append,
        applied_escape hp ha, ih ⟨htakes, rfl⟩]
      rfl
    | directive directive =>
      obtain ⟨precision, verb⟩ := directive
      obtain ⟨hdigit, hpoint, hpercent⟩ := verb.letter_spec
      obtain ⟨hp, ha⟩ := read_precision hdigit hpoint precision (rest.flatMap Item.text)
      rw [directives] at htakes
      cases htakes with
      | @cons _ value _ others htake hothers =>
        rw [Item.text, List.cons_append, List.append_assoc, List.singleton_append,
          applied_directive_eq_ok hp ha hpercent]
        exact ⟨verb, value, others, _, rfl, rfl, htake, ih ⟨hothers, rfl⟩, rfl⟩

/-- A format that is filled is a row of items. -/
theorem exists_filled {cs : List Char} {values : List Value} {text : String}
    (h : applied cs values = .ok text) :
    ∃ items, items.flatMap Item.text = cs ∧ Filled items values text := by
  induction hlength : cs.length using Nat.strongRecOn generalizing cs values text with
  | ind length ih =>
    subst hlength
    cases cs with
    | nil =>
      obtain ⟨rfl, rfl⟩ := applied_nil_eq_ok.mp h
      exact ⟨[], rfl, .nil, rfl⟩
    | cons first cs =>
      by_cases hfirst : first = '%'
      · subst hfirst
        obtain ⟨precision, c, rest, rfl, hp, ha⟩ := exists_of_applied_percent h
        have hshorter : rest.length < ('%' :: (precisionText precision ++ c :: rest)).length := by
          simp
          omega
        by_cases hc : c = '%'
        · subst hc
          rw [applied_escape hp ha] at h
          obtain ⟨later, hlater, rfl⟩ := map_eq_ok.mp h
          obtain ⟨items, rfl, htakes, rfl⟩ := ih _ hshorter hlater rfl
          exact ⟨.percent precision :: items, by simp [Item.text], htakes, rfl⟩
        · obtain ⟨verb, value, others, later, rfl, rfl, htake, hlater, rfl⟩ :=
            (applied_directive_eq_ok hp ha hc).mp h
          obtain ⟨items, rfl, htakes, rfl⟩ := ih _ hshorter hlater rfl
          exact ⟨.directive ⟨precision, verb⟩ :: items, by simp [Item.text], .cons htake htakes,
            rfl⟩
      · rw [applied_character hfirst] at h
        obtain ⟨later, hlater, rfl⟩ := map_eq_ok.mp h
        obtain ⟨items, rfl, htakes, rfl⟩ := ih _ (by simp) hlater rfl
        exact ⟨.character first hfirst :: items, by simp [Item.text], htakes, rfl⟩

end Format

namespace Builtin

open Format

theorem printf_text_eq_ok {format : String} {values : List Value} {result : Value} :
    printf (.text format :: values) = .ok result ↔
      ∃ text, applied format.toList values = .ok text ∧ result = .text text := by
  have hcount : atLeast 1 (.text format :: values) = .ok () := rfl
  have happly : Format.apply format values = applied format.toList values := rfl
  rw [printf, check_bind_eq_ok, and_iff_right hcount, happly]
  cases applied format.toList values with
  | error problem =>
    constructor
    · rintro ⟨⟩
    · rintro ⟨_, ⟨⟩, -⟩
  | ok text =>
    constructor
    · rintro ⟨⟩
      exact ⟨text, rfl, rfl⟩
    · rintro ⟨_, ⟨⟩, rfl⟩
      rfl

/-- A format is filled if and only if it is a row of items with as many directives as there are
values, each of which takes its value. The result is the items in order, each directive with its
value. -/
theorem printf_eq_ok_iff (format : String) (values : List Value) (result : Value) :
    printf (.text format :: values) = .ok result ↔
      ∃ items : List Item, items.flatMap Item.text = format.toList ∧
        List.Forall₂ Directive.Takes (directives items) values ∧
          result = .text (assembled items
            (List.zipWith Directive.written (directives items) values)) := by
  rw [printf_text_eq_ok]
  constructor
  · rintro ⟨text, h, rfl⟩
    obtain ⟨items, hitems, htakes, rfl⟩ := exists_filled h
    exact ⟨items, hitems, htakes, rfl⟩
  · rintro ⟨items, hitems, htakes, rfl⟩
    exact ⟨_, hitems ▸ Filled.applied ⟨htakes, rfl⟩, rfl⟩

/-- An escaped percent sign takes no value, with a precision or without. -/
example : printf [.text "%s=%d 100%.3%", .text "a", .int 7] = .ok (.text "a=7 100%") := by cbv

end Builtin

end LiveTemplate
