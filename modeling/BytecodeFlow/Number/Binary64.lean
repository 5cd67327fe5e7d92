/-
This file defines the finite `Binary64` numbers as a sign, a significand and a
power of two, and the few operations the program needs of them: rounding an
exact quotient (`ofRatio`), products and quotients of two numbers (`mul?`,
`div?`), and the nearest whole number (`roundMagnitude`). Everything is exact
arithmetic on natural numbers followed by one rounding, `roundQuotient`, so no
statement about these numbers depends on a machine.
-/

namespace BytecodeFlow

/-- A finite double, `± significand * 2 ^ exponent`. Numbers built by `ofRatio` have a
significand below `2 ^ 53`, and one of at least `2 ^ 52` unless the exponent is the least one,
so that each of them has one representation. -/
structure Binary64 where
  negative : Bool
  significand : Nat
  exponent : Int
deriving DecidableEq, Repr

namespace Binary64

/-- The exponent of the subnormal numbers. -/
def leastExponent : Int := -1074

/-- The exponent of the largest finite numbers. -/
def greatestExponent : Int := 971

/-- Significands have 53 binary digits. -/
def significandBound : Nat := 1 <<< 53

/-- The least significand that uses all of them. -/
def leastNormal : Nat := 1 <<< 52

/-- The zero of the given sign. -/
def zero (negative : Bool) : Binary64 := ⟨negative, 0, leastExponent⟩

def isZero (number : Binary64) : Bool := number.significand == 0

/-- Equality of values: the two zeros are equal, and otherwise the representation decides. -/
def sameValue (left right : Binary64) : Bool :=
  (left.isZero && right.isZero) || left == right

/-! ### Rounding -/

/-- The whole number nearest to a quotient; a half goes to the even neighbour. -/
def roundQuotient (numerator denominator : Nat) : Nat :=
  let quotient := numerator / denominator
  let remainder := numerator % denominator
  if 2 * remainder < denominator then quotient
  else if denominator < 2 * remainder then quotient + 1
  else quotient + quotient % 2

/-- The quotient `numerator / (denominator * 2 ^ exponent)` as a numerator and a denominator. -/
def inUnits (numerator denominator : Nat) : Int → Nat × Nat
  | .ofNat up => (numerator, denominator <<< up)
  | .negSucc down => (numerator <<< (down + 1), denominator)

/-- The exponent at which the whole part of a positive quotient has 53 binary digits, or the
least exponent when that one is larger. -/
def unitExponent (numerator denominator : Nat) : Int :=
  let estimate : Int := (numerator.log2 : Int) - denominator.log2 - 53
  let (scaledNumerator, scaledDenominator) := inUnits numerator denominator estimate
  let exponent :=
    if scaledNumerator / scaledDenominator < significandBound then estimate else estimate + 1
  max exponent leastExponent

/-- The double nearest to `numerator / denominator`, a tie going to the even significand;
`none` when the quotient is beyond the finite numbers. -/
def ofRatio (negative : Bool) (numerator denominator : Nat) : Option Binary64 :=
  if numerator = 0 then some (zero negative)
  else
    let exponent := unitExponent numerator denominator
    let (scaledNumerator, scaledDenominator) := inUnits numerator denominator exponent
    let rounded := roundQuotient scaledNumerator scaledDenominator
    let (significand, exponent) :=
      if rounded < significandBound then (rounded, exponent) else (leastNormal, exponent + 1)
    if exponent ≤ greatestExponent then some ⟨negative, significand, exponent⟩ else none

/-- The double nearest to a whole number. -/
def ofInt? (value : Int) : Option Binary64 := ofRatio (value < 0) value.natAbs 1

/-! ### Arithmetic -/

/-- The magnitude as a numerator and a denominator. -/
def magnitude (number : Binary64) : Nat × Nat :=
  match number.exponent with
  | .ofNat up => (number.significand <<< up, 1)
  | .negSucc down => (number.significand, 1 <<< (down + 1))

/-- The rounded product; `none` when it is beyond the finite numbers. -/
def mul? (left right : Binary64) : Option Binary64 :=
  let (leftNumerator, leftDenominator) := left.magnitude
  let (rightNumerator, rightDenominator) := right.magnitude
  ofRatio (left.negative ^^ right.negative) (leftNumerator * rightNumerator)
    (leftDenominator * rightDenominator)

/-- The rounded quotient by a number other than zero; `none` when it is beyond the finite
numbers. -/
def div? (left right : Binary64) : Option Binary64 :=
  let (leftNumerator, leftDenominator) := left.magnitude
  let (rightNumerator, rightDenominator) := right.magnitude
  ofRatio (left.negative ^^ right.negative) (leftNumerator * rightDenominator)
    (leftDenominator * rightNumerator)

/-- The whole number nearest to the magnitude; a half goes to the even neighbour. -/
def roundMagnitude (number : Binary64) : Nat :=
  let (numerator, denominator) := number.magnitude
  roundQuotient numerator denominator

end Binary64

end BytecodeFlow
