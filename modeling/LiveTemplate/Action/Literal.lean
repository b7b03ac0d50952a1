import LiveTemplate.Action.Pipeline
import LiveTemplate.Number.Decimal

/-!
# The values of literals

* `Literal.ofNumeral?`: a numeral with a point or an exponent is a float, any other an integer of
  64 bits.
* `Literal.unescape`: the characters that the body of a quoted string stands for.
-/

namespace LiveTemplate

/-- Why a literal has no value. -/
inductive LiteralProblem where
  | numberOutOfRange (numeral : String)
  | unknownEscape (letter : Char)
  | invalidEscape (letter : Char) (digits : String)
  | unfinishedEscape
  deriving DecidableEq, Repr

namespace LiteralProblem

/-- The wording of the problem. -/
def message : LiteralProblem → String
  | .numberOutOfRange numeral => "invalid number `" ++ numeral ++ "`"
  | .unknownEscape letter => "unknown escape sequence `\\" ++ letter.toString ++ "`"
  | .invalidEscape letter digits =>
    "invalid escape `\\" ++ letter.toString ++ digits ++ "`"
  | .unfinishedEscape => "unterminated escape sequence"

end LiteralProblem

namespace Literal

/-! ## Numbers -/

/-- A character that makes a numeral a float. -/
def marksFloat (c : Char) : Bool :=
  c == '.' || c == 'e' || c == 'E'

/-- The integer that a numeral without point and exponent denotes. -/
def integerValue : List Char → Int
  | '-' :: digits => -(Double.digitsValue digits : Int)
  | digits => Double.digitsValue digits

/-- The value of a numeral, none if it is an integer that does not fit into 64 bits. -/
def ofNumeral? (numeral : List Char) : Option Literal :=
  if numeral.any marksFloat then (Double.read? numeral).map .float
  else
    let value := integerValue numeral
    if -0x8000000000000000 ≤ value && value < 0x8000000000000000 then some (.int value) else none

/-! ## Escapes -/

/-- The character of an escape that is a single letter. -/
def simpleEscape? : Char → Option Char
  | 'n' => some '\n'
  | 't' => some '\t'
  | 'r' => some '\r'
  | 'a' => some '\x07'
  | 'b' => some '\x08'
  | 'f' => some '\x0C'
  | 'v' => some '\x0B'
  | '0' => some '\x00'
  | '\\' => some '\\'
  | '"' => some '"'
  | '\'' => some '\''
  | _ => none

/-- The number of digits after the letter of an escape that names a code point. -/
def codeWidth? : Char → Option Nat
  | 'x' => some 2
  | 'u' => some 4
  | _ => none

/-- The value of a hexadecimal digit in either case. -/
def hexValue? (c : Char) : Option Nat :=
  if c.isDigit then some (c.toNat - '0'.toNat)
  else if 'a' ≤ c && c ≤ 'f' then some (c.toNat - 'a'.toNat + 10)
  else if 'A' ≤ c && c ≤ 'F' then some (c.toNat - 'A'.toNat + 10)
  else none

/-- The number that hexadecimal digits denote, none if there are no digits or others among them. -/
def hexNumber? (digits : List Char) : Option Nat :=
  if digits.isEmpty then none
  else digits.foldlM (fun n c => (hexValue? c).map (16 * n + ·)) 0

/-- The character with a code point in hexadecimal, a plus sign before the digits allowed. -/
def codePoint? (width : Nat) (digits : List Char) : Option Char := do
  if digits.length ≠ width then none
  else
    let n ← hexNumber? (if digits.head? = some '+' then digits.tail else digits)
    if n.isValidChar then some (Char.ofNat n) else none

/-- The characters that the body of a quoted string stands for. -/
def unescape (cs : List Char) : Except LiteralProblem (List Char) :=
  match cs with
  | [] => .ok []
  | '\\' :: [] => .error .unfinishedEscape
  | '\\' :: letter :: rest =>
    match simpleEscape? letter with
    | some c => do .ok (c :: (← unescape rest))
    | none =>
      match codeWidth? letter with
      | some width =>
        let digits := rest.take width
        match codePoint? width digits with
        | some c => do .ok (c :: (← unescape (rest.drop width)))
        | none => .error (.invalidEscape letter (String.ofList digits))
      | none => .error (.unknownEscape letter)
  | c :: rest => do .ok (c :: (← unescape rest))
termination_by cs.length
decreasing_by all_goals simp only [List.length_cons, List.length_drop]; omega

end Literal

end LiveTemplate
