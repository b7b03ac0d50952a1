import LiveTemplate.Number.Double

/-!
# Doubles in decimal notation

* `Double.display`: the fewest digits that read back as the same double, never with an exponent.
* `Double.displayPlaces`: a given number of decimal places, rounded from the exact value with a
  half going to the even neighbour.
* `Double.jsonText`: the fewest digits again, as a JSON number with a fraction or an exponent.
  The two differ in the choice between two decimals that are equally near.
* `Double.read?`: the double nearest to a decimal numeral with an optional exponent.
-/

namespace LiveTemplate

namespace Double

/-! ## The fewest digits -/

/-- `digits * 10 ^ exponent`. -/
structure Decimal where
  digits : Nat
  exponent : Int
  deriving DecidableEq, Repr

/-- `n / (d * 10 ^ p)` as a quotient of natural numbers. -/
def perPowerOfTen (n d : Nat) (p : Int) : Nat × Nat :=
  (n * Nat.pow 10 (-p).toNat, d * Nat.pow 10 p.toNat)

/-- The reals that round to a positive double, and the double itself, in quarters of its last
place: `low` and `high` bound the interval, which holds its ends iff `closed`. -/
structure Interval where
  low : Nat
  value : Nat
  high : Nat
  closed : Bool

/-- The interval of a finite magnitude. Below a power of two the doubles lie twice as dense. -/
def interval (exponent : Fin 2047) (fraction : Fin 0x10000000000000) : Interval :=
  let m := significand exponent fraction
  { low := if fraction.val = 0 && 1 < exponent.val then 4 * m - 1 else 4 * m - 2
    value := 4 * m
    high := 4 * m + 2
    closed := m % 2 == 0 }

/-- A multiple `k` of the grid step lies in the interval; `step` is the grid step in the unit of
the interval, as a quotient. -/
def Interval.holds (i : Interval) (step : Nat × Nat) (k : Nat) : Bool :=
  let x := k * step.1
  if i.closed then i.low * step.2 ≤ x && x ≤ i.high * step.2
  else i.low * step.2 < x && x < i.high * step.2

/-- Which of two decimals is taken when the value lies halfway between them. -/
inductive HalfRule where
  | up
  | toEven

/-- Whether the lower one of two neighbouring multiples of a grid step is taken for a value between
them. The lower multiple is given, twice the distance to it, and the grid step. -/
def HalfRule.takesLower (rule : HalfRule) (below twice step : Nat) : Bool :=
  match rule with
  | .up => twice < step
  | .toEven => twice < step || (twice == step && below % 2 == 0)

/-- The neighbour of the value on the grid of multiples of `10 ^ p` that lies in the interval, the
nearer one if both do. -/
def Interval.onGrid? (i : Interval) (rule : HalfRule) (unit : Int) (p : Int) : Option Decimal :=
  let (n, d) := perPowerOfTen (Nat.pow 2 unit.toNat) (Nat.pow 2 (-unit).toNat) p
  let step := (d, n)
  let below := i.value * n / d
  let twice := 2 * (i.value * n % d)
  match i.holds step below, i.holds step (below + 1) with
  | true, true => some ⟨if rule.takesLower below twice d then below else below + 1, p⟩
  | true, false => some ⟨below, p⟩
  | false, true => some ⟨below + 1, p⟩
  | false, false => none

/-- A power of ten above every magnitude below `2 ^ e`. -/
def powerOfTenAbove (e : Int) : Int :=
  e * 30103 / 100000 + 2

/-- The decimal with the fewest digits that reads back as a finite positive magnitude: the hit on
the coarsest grid that has one. Seventeen digits always suffice. -/
def shortest (rule : HalfRule) (exponent : Fin 2047) (fraction : Fin 0x10000000000000) : Decimal :=
  let i := interval exponent fraction
  let unit := scale exponent - 2
  let start := powerOfTenAbove (unit + 2 + (significand exponent fraction).log2 + 1)
  ((List.range 24).findSome? fun (k : Nat) => i.onGrid? rule unit (start - k)).getD ⟨0, 0⟩

/-! ## Writing -/

/-- The digits of a number in base ten. -/
def decimalDigits (n : Nat) : List Char :=
  Nat.toDigits 10 n

/-- A run of zeros. -/
def zeros (n : Nat) : List Char :=
  List.replicate n '0'

/-- The digits of `n / 10 ^ places` in positional notation, with exactly `places` decimals. -/
def positional (n places : Nat) : List Char :=
  let digits := decimalDigits n
  let padded := zeros (places + 1 - digits.length) ++ digits
  let whole := padded.take (padded.length - places)
  let decimals := padded.drop (padded.length - places)
  if places = 0 then whole else whole ++ '.' :: decimals

/-- The minus sign of a negative number. -/
def signText (negative : Bool) : List Char :=
  if negative then ['-'] else []

/-- The texts of the values that have no digits. -/
def specialText : Double → Option String
  | .nan => some "NaN"
  | .infinite negative => some (if negative then "-inf" else "inf")
  | .finite _ _ _ => none

/-- A decimal in positional notation, without decimals if it is an integer. -/
def Decimal.text (d : Decimal) : List Char :=
  if 0 ≤ d.exponent then
    if d.digits = 0 then ['0'] else decimalDigits d.digits ++ zeros d.exponent.toNat
  else positional d.digits (-d.exponent).toNat

/-- The shortest decimal of a magnitude, zero included. -/
def decimalOf (rule : HalfRule) (exponent : Fin 2047) (fraction : Fin 0x10000000000000) : Decimal :=
  if indexOf exponent fraction = 0 then ⟨0, 0⟩ else shortest rule exponent fraction

/-- The fewest digits that read back, in positional notation. A half goes up. -/
def display (x : Double) : String :=
  match x with
  | .finite negative exponent fraction =>
    String.ofList (signText negative ++ (decimalOf .up exponent fraction).text)
  | special => special.specialText.getD ""

/-- A number with exactly `places` decimals, rounded half to even from the exact value. -/
def displayPlaces (x : Double) (places : Nat) : String :=
  match x with
  | .finite negative exponent fraction =>
    let (n, d) := scaled (significand exponent fraction) 1 (scale exponent)
    String.ofList
      (signText negative ++ positional (roundQuotient (n * Nat.pow 10 places) d) places)
  | special => special.specialText.getD ""

/-- An exponent with its sign. -/
def exponentText (exponent : Int) : List Char :=
  (if exponent < 0 then '-' else '+') :: decimalDigits exponent.natAbs

/-- A number as JSON: positional with a fraction while the point stands within the first sixteen
digits or at most five places before them, with a signed exponent otherwise. -/
def Decimal.jsonText (d : Decimal) : List Char :=
  let digits := decimalDigits d.digits
  let point : Int := digits.length + d.exponent
  if d.digits = 0 then ['0', '.', '0']
  else if 0 ≤ d.exponent && point ≤ 16 then d.text ++ ['.', '0']
  else if -5 < point && point ≤ 16 then d.text
  else
    let exponent := exponentText (point - 1)
    match digits with
    | first :: second :: rest => first :: '.' :: second :: rest ++ 'e' :: exponent
    | _ => digits ++ 'e' :: exponent

/-- The text of a number in JSON, which has no special values. A half goes to the even neighbour. -/
def jsonText (x : Double) : String :=
  match x with
  | .finite negative exponent fraction =>
    String.ofList (signText negative ++ (decimalOf .toEven exponent fraction).jsonText)
  | _ => "null"

/-! ## Reading -/

/-- The value of a run of decimal digits. -/
def digitsValue (digits : List Char) : Nat :=
  digits.foldl (fun n c => 10 * n + (c.toNat - '0'.toNat)) 0

/-- The double nearest to `digits * 10 ^ exponent`. Magnitudes far outside the range of the
doubles are decided by the position of their first digit. -/
def ofDecimal (negative : Bool) (digits : Nat) (exponent : Int) : Double :=
  let point : Int := (decimalDigits digits).length + exponent
  if digits = 0 || point < -400 then ofIndex negative 0
  else if 400 < point then .infinite negative
  else ofRatio negative (digits * Nat.pow 10 exponent.toNat) (Nat.pow 10 (-exponent).toNat)

/-- A sign and what follows it. -/
def splitSign : List Char → Bool × List Char
  | '-' :: rest => (true, rest)
  | '+' :: rest => (false, rest)
  | rest => (false, rest)

/-- The decimals after a point, and what follows them. -/
def splitDecimals : List Char → List Char × List Char
  | '.' :: rest => (rest.takeWhile Char.isDigit, rest.dropWhile Char.isDigit)
  | rest => ([], rest)

/-- The exponent that ends a numeral, zero if there is none. -/
def readExponent? : List Char → Option Int
  | [] => some 0
  | mark :: rest =>
    let (negative, digits) := splitSign rest
    if (mark == 'e' || mark == 'E') && !digits.isEmpty && digits.all Char.isDigit then
      let n := digitsValue digits
      some (if negative then -(n : Int) else n)
    else none

/-- The double nearest to a numeral: an optional sign, digits with an optional point among them,
and an optional exponent. -/
def read? (numeral : List Char) : Option Double := do
  let (negative, rest) := splitSign numeral
  let whole := rest.takeWhile Char.isDigit
  let (decimals, rest) := splitDecimals (rest.dropWhile Char.isDigit)
  let exponent ← readExponent? rest
  if whole.isEmpty && decimals.isEmpty then none
  else some (ofDecimal negative (digitsValue (whole ++ decimals)) (exponent - decimals.length))

end Double

end LiveTemplate
