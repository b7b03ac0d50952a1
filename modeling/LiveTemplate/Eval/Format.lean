import LiveTemplate.Eval.Function
import LiveTemplate.Text.Quoted

/-!
# Formats

A format is text with verbs, each of which stands for one argument: `%v` and `%s` for any value as
it is printed, `%q` for the same in quotes, `%d` for an integer, `%f` for a number with decimals,
`%t` for a truth value; `%%` is a percent sign. A precision may follow the percent sign.

`Format.pieces` takes a format apart, `Format.fill` puts the arguments in.
-/

namespace LiveTemplate.Format

/-- A character of the text, or a verb with its precision. -/
inductive Piece where
  | character (c : Char)
  | verb (verb : Char) (precision : Option Nat)
  deriving DecidableEq, Repr

/-! ## Taking a format apart -/

/-- The greatest precision. -/
def maxPrecision : Nat := 65535

/-- The digits of the precision at the start of a text, if there is one. -/
def precisionDigits? : List Char → Option (List Char)
  | '.' :: rest => some (rest.takeWhile Char.isDigit)
  | _ => none

/-- The text after the precision at its start, if there is one. -/
def afterPrecision : List Char → List Char
  | '.' :: rest => rest.dropWhile Char.isDigit
  | cs => cs

theorem length_afterPrecision_le (cs : List Char) : (afterPrecision cs).length ≤ cs.length := by
  unfold afterPrecision
  split
  · exact Nat.le_succ_of_le (List.dropWhile_sublist _).length_le
  · exact Nat.le_refl _

/-- The pieces of a format up to its end or to a problem. A point without digits is the precision
zero. -/
def pieces : List Char → List Piece × Option FormatProblem
  | [] => ([], none)
  | '%' :: cs =>
    let precision := (precisionDigits? cs).map Double.digitsValue
    if maxPrecision < precision.getD 0 then ([], some .precisionOutOfRange)
    else
      match h : afterPrecision cs with
      | [] => ([], some .unfinished)
      | verb :: rest =>
        have : rest.length < cs.length := by
          have hle := length_afterPrecision_le cs
          simp only [h, List.length_cons] at hle
          omega
        let (others, problem) := pieces rest
        (if verb = '%' then .character '%' :: others else .verb verb precision :: others, problem)
  | c :: cs =>
    let (others, problem) := pieces cs
    (.character c :: others, problem)
termination_by cs => cs.length

/-! ## Filling a format -/

/-- The decimals of `%f` without a precision. -/
def defaultPlaces : Nat := 6

/-- What a verb makes of a value. -/
def write (verb : Char) (precision : Option Nat) (value : Value) : Except FormatProblem String :=
  let fitting (text : Option String) : Except FormatProblem String :=
    match text with
    | some text => .ok text
    | none => .error (.mismatch verb value.typeName)
  match verb with
  | 'v' => .ok value.display
  | 's' => .ok value.display
  | 'q' => .ok (Text.quote value.display)
  | 'd' => fitting (value.int?.map toString)
  | 'f' => fitting (value.float?.map (·.displayPlaces (precision.getD defaultPlaces)))
  | 't' => fitting (value.bool?.map fun b => if b then "true" else "false")
  | _ => .error (.unsupported verb)

/-- The text of pieces with the values in the places of the verbs. The problem with which the pieces
end counts where they end. -/
def fill (problem : Option FormatProblem) : List Piece → List Value → Except FormatProblem String
  | [], values =>
    match problem with
    | some problem => .error problem
    | none => if values.isEmpty then .ok "" else .error .tooManyArguments
  | .character c :: rest, values => do
    .ok (c.toString ++ (← fill problem rest values))
  | .verb verb _ :: _, [] => .error (.missingArgument verb)
  | .verb verb precision :: rest, value :: values => do
    let text ← write verb precision value
    .ok (text ++ (← fill problem rest values))

/-- The text of a format with the values in the places of its verbs. -/
def apply (format : String) (values : List Value) : Except FormatProblem String :=
  let (parts, problem) := pieces format.toList
  fill problem parts values

end LiveTemplate.Format
