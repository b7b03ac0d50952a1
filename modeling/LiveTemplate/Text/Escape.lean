/-!
# Escaping text for markup and for queries

* `escapeHtml` replaces the five characters that markup gives a meaning to by entities.
* `escapeQuery` keeps the unreserved characters of a URL, writes a space as `+` and every other
  byte of the UTF-8 form as `%` and two upper-case hexadecimal digits.
-/

namespace LiveTemplate.Text

/-! ## Markup -/

/-- The entity of a character that has a meaning in markup, any other character as it is. -/
def htmlEntity (c : Char) : List Char :=
  match c with
  | '&' => "&amp;".toList
  | '<' => "&lt;".toList
  | '>' => "&gt;".toList
  | '"' => "&#34;".toList
  | '\'' => "&#39;".toList
  | _ => [c]

/-- A text in which no character has a meaning in markup. -/
def escapeHtml (s : String) : String :=
  String.ofList (s.toList.flatMap htmlEntity)

/-! ## Queries -/

/-- A letter, a digit, or one of `-`, `_`, `.` and `~`: it means itself anywhere in a URL. -/
def isUnreserved (c : Char) : Bool :=
  c.isAlphanum || c == '-' || c == '_' || c == '.' || c == '~'

/-- An upper-case hexadecimal digit. -/
def upperHexDigit (n : Nat) : Char :=
  (Nat.digitChar n).toUpper

/-- How one byte is written in a query. -/
def queryByte (b : UInt8) : List Char :=
  let c := Char.ofNat b.toNat
  if isUnreserved c then [c]
  else if c = ' ' then ['+']
  else ['%', upperHexDigit (b.toNat / 16), upperHexDigit (b.toNat % 16)]

/-- The bytes of the UTF-8 form of a string. -/
def utf8Bytes (s : String) : List UInt8 :=
  s.toList.flatMap String.utf8EncodeChar

/-- A text that can stand as a value in the query of a URL. -/
def escapeQuery (s : String) : String :=
  String.ofList ((utf8Bytes s).flatMap queryByte)

end LiveTemplate.Text
