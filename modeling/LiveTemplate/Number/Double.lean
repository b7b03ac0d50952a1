/-!
# Double-precision numbers

The numbers of the IEEE 754 format `binary64`, as data: a sign, an exponent field and a fraction
field of 52 bits, or one of the special values. Every operation is exact integer arithmetic.

* `Double.ofRatio` rounds a quotient of natural numbers to the nearest double, ties to even.
* `Double.rank?` numbers the doubles in their order, with one rank for both zeros and none for a
  NaN; comparison and equality are those of the ranks.
-/

namespace LiveTemplate

/-- A double-precision number. A finite one has the exponent field and the fraction field of its
encoding, and all NaNs are one value. -/
inductive Double where
  | nan
  | infinite (negative : Bool)
  | finite (negative : Bool) (exponent : Fin 2047) (fraction : Fin 0x10000000000000)
  deriving DecidableEq, Repr

namespace Double

/-! ## Magnitudes -/

/-- The integer `m` of a finite magnitude `m * 2 ^ e`: a normal number has an implicit leading
bit. -/
def significand (exponent : Fin 2047) (fraction : Fin 0x10000000000000) : Nat :=
  if exponent.val = 0 then fraction.val else 0x10000000000000 + fraction.val

/-- The power `e` of a finite magnitude `m * 2 ^ e`. -/
def scale (exponent : Fin 2047) : Int :=
  (max exponent.val 1 : Nat) - 1075

/-- The magnitude in place `n`, counting from zero, among the nonnegative doubles in increasing
order. All places past the finite ones hold infinity. -/
def ofIndex (negative : Bool) (n : Nat) : Double :=
  if h : n < 0x7FF0000000000000 then
    .finite negative ⟨n / 0x10000000000000, by omega⟩ ⟨n % 0x10000000000000, by omega⟩
  else .infinite negative

/-- The place of a magnitude among the nonnegative doubles in increasing order. -/
def indexOf (exponent : Fin 2047) (fraction : Fin 0x10000000000000) : Nat :=
  exponent.val * 0x10000000000000 + fraction.val

theorem ofIndex_indexOf (negative : Bool) (exponent : Fin 2047) (fraction : Fin 0x10000000000000) :
    ofIndex negative (indexOf exponent fraction) = .finite negative exponent fraction := by
  have he := exponent.isLt
  have hf := fraction.isLt
  have hlt : indexOf exponent fraction < 0x7FF0000000000000 := by
    simp only [indexOf]
    omega
  unfold ofIndex
  rw [dif_pos hlt]
  simp only [indexOf, finite.injEq, Fin.ext_iff, true_and]
  omega

/-! ## Rounding -/

/-- The quotient rounded to the nearest integer, a half to the even neighbour. -/
def roundQuotient (numerator denominator : Nat) : Nat :=
  let quotient := numerator / denominator
  let twice := 2 * (numerator % denominator)
  if denominator < twice || (twice == denominator && quotient % 2 == 1) then quotient + 1
  else quotient

/-- `n * 2 ^ e / d` as a quotient of natural numbers. -/
def scaled (n d : Nat) (e : Int) : Nat × Nat :=
  (n * Nat.pow 2 e.toNat, d * Nat.pow 2 (-e).toNat)

/-- The largest `e` with `2 ^ e ≤ n / d`, for positive `n` and `d`. -/
def floorLog2 (n d : Nat) : Int :=
  let guess : Int := (n.log2 : Int) - d.log2
  let (n', d') := scaled n d (-guess)
  if d' ≤ n' then guess else guess - 1

/-- The double nearest to a quotient with the given sign, ties to the even significand. -/
def ofRatio (negative : Bool) (numerator denominator : Nat) : Double :=
  if numerator = 0 then ofIndex negative 0
  else
    let e := max (floorLog2 numerator denominator - 52) (-1074)
    let (n, d) := scaled numerator denominator (-e)
    ofIndex negative ((e + 1074).toNat * 0x10000000000000 + roundQuotient n d)

/-- The double nearest to an integer. -/
def ofInt (i : Int) : Double :=
  ofRatio (i < 0) i.natAbs 1

/-! ## Order -/

/-- The place of a double in the order of the doubles, the same for both zeros. A NaN has none. -/
def rank? : Double → Option Int
  | .nan => none
  | .infinite negative => some (if negative then -0x7FF0000000000000 else 0x7FF0000000000000)
  | .finite negative exponent fraction =>
    some (if negative then -(indexOf exponent fraction : Int) else indexOf exponent fraction)

/-- The order of two doubles, none if one of them is a NaN. -/
def compare? (x y : Double) : Option Ordering :=
  match x.rank?, y.rank? with
  | some i, some j => some (compare i j)
  | _, _ => none

/-- Numeric equality: a NaN differs from itself, and the two zeros are equal. -/
def equals (x y : Double) : Bool :=
  x.compare? y == some .eq

/-- One of the two zeros. -/
def isZero (x : Double) : Bool :=
  x.rank? == some 0

end Double

end LiveTemplate
