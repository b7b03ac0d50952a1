import LiveTemplate.Text.Printable

/-!
# Quoted text

A quoted text shows a string between double quotes so that every character of it can be told
apart: quotes, backslashes and the common controls have short escapes, whatever cannot be shown on
its own is given by its code point, and all else stands for itself.
-/

namespace LiveTemplate.Text

/-- The digits of a number in base 16, in lower case and without leading zeros. -/
def hexDigits (n : Nat) : List Char :=
  Nat.toDigits 16 n

/-- A code point in braces. -/
def codePointEscape (c : Char) : List Char :=
  ['\\', 'u', '{'] ++ hexDigits c.toNat ++ ['}']

/-- How one character is written between the quotes. -/
def quoteChar (c : Char) : List Char :=
  match c with
  | '\x00' => ['\\', '0']
  | '\t' => ['\\', 't']
  | '\r' => ['\\', 'r']
  | '\n' => ['\\', 'n']
  | '\\' => ['\\', '\\']
  | '"' => ['\\', '"']
  | _ => if isCombining c || !isPrintable c then codePointEscape c else [c]

/-- A string between double quotes, with escapes. -/
def quote (s : String) : String :=
  String.ofList (['"'] ++ s.toList.flatMap quoteChar ++ ['"'])

end LiveTemplate.Text
