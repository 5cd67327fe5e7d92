/-
This file reads and writes `Binary64` numbers in decimal. Reading (`ofDigits`)
follows the two-step rule of the metadata format: as many digits as fit in 64
bits become a whole number, that number is rounded to a double, and the double
is scaled by a power of ten with one more rounding (`scaleByTens`). Writing
(`text`) gives the fewest digits that round back to the number
(`shortestDigits`), laid out without an exponent.
-/

import BytecodeFlow.Number.Binary64

namespace BytecodeFlow

namespace Binary64

/-! ### Reading -/

/-- Take digits into a significand while it stays below `2 ^ 64`. The result is the significand,
the number of digits taken, and the digits left over. -/
def takeDigits : (significand : Nat) → (digits : List Nat) → Nat × Nat × List Nat
  | significand, [] => (significand, 0, [])
  | significand, digit :: rest =>
    if significand * 10 + digit < UInt64.size then
      let (final, taken, left) := takeDigits (significand * 10 + digit) rest
      (final, taken + 1, left)
    else (significand, 0, digit :: rest)

/-- The largest power of ten below the finite limit. -/
def greatestPowerOfTen : Nat := 308

/-- The double nearest to `10 ^ power`; only used up to `greatestPowerOfTen`, where it is
finite. -/
def powerOfTen (power : Nat) : Binary64 :=
  (ofRatio false (Nat.pow 10 power) 1).getD (zero false)

/-- Divide by `10 ^ 308` a number of times, or until nothing is left, and then by one more power
of ten. -/
def divideByTens (lastPower : Nat) : (steps : Nat) → (number : Binary64) → Option Binary64
  | 0, number => number.div? (powerOfTen lastPower)
  | steps + 1, number =>
    if number.isZero then some number
    else (number.div? (powerOfTen greatestPowerOfTen)).bind (divideByTens lastPower steps)

/-- Scale a whole number by a power of ten. Only a zero may be scaled by more than
`10 ^ 308`. -/
def scaleByTens (significand : Nat) (power : Int) : Option Binary64 := do
  let number ← ofRatio false significand 1
  match power with
  | .ofNat up =>
    if up ≤ greatestPowerOfTen then number.mul? (powerOfTen up)
    else if number.isZero then some number
    else none
  | .negSucc down =>
    let steps := down / greatestPowerOfTen
    divideByTens (down + 1 - steps * greatestPowerOfTen) steps number

/-- The double written with the given integer digits, fraction digits and power of ten; `none`
when it is beyond the finite numbers. Integer digits that no longer fit count as powers of ten,
fraction digits that no longer fit are dropped. -/
def ofDigits (negative : Bool) (integer fraction : List Nat) (power : Int) : Option Binary64 := do
  let (whole, _, excess) := takeDigits 0 integer
  let (significand, places, _) := takeDigits whole fraction
  let number ← scaleByTens significand ((excess.length : Int) - places + power)
  return { number with negative }

/-! ### Writing -/

/-- The digits of a decimal number and the position of its point: the value is
`0.d₁d₂… * 10 ^ point`. -/
structure Digits where
  digits : List Char
  point : Int

/-- The reals that round to a number: the value and the two ends, over one denominator, with a
flag that says whether the ends themselves belong. -/
structure Interval where
  low : Nat
  value : Nat
  high : Nat
  denominator : Nat
  closed : Bool

/-- The rounding interval of a positive number. Below a power of two the gap is half as wide. -/
def interval (number : Binary64) : Interval :=
  let quarters := 4 * number.significand
  let below :=
    if number.significand = leastNormal ∧ leastExponent < number.exponent then 1 else 2
  let closed := number.significand % 2 == 0
  match number.exponent - 2 with
  | .ofNat up =>
    ⟨(quarters - below) <<< up, quarters <<< up, (quarters + 2) <<< up, 1, closed⟩
  | .negSucc down => ⟨quarters - below, quarters, quarters + 2, 1 <<< (down + 1), closed⟩

namespace Interval

/-- Measure the interval in units of `10 ^ unit`. -/
def inTens (range : Interval) : Int → Interval
  | .ofNat up => { range with denominator := range.denominator * Nat.pow 10 up }
  | .negSucc down =>
    { range with
      low := range.low * Nat.pow 10 (down + 1)
      value := range.value * Nat.pow 10 (down + 1)
      high := range.high * Nat.pow 10 (down + 1) }

/-- Whether a whole number of units lies in the interval. -/
def contains (range : Interval) (units : Nat) : Bool :=
  let point := units * range.denominator
  if range.closed then range.low ≤ point && point ≤ range.high
  else range.low < point && point < range.high

/-- The whole number of units in the interval that is nearest to the value, if one of the value's
two neighbours is in the interval. Of two that are equally near, the larger is taken. -/
def nearest? (range : Interval) : Option Nat :=
  let down := range.value / range.denominator
  let up := down + 1
  match range.contains down, range.contains up with
  | true, true =>
    if 2 * range.value < (down + up) * range.denominator then some down else some up
  | true, false => some down
  | false, true => some up
  | false, false => none

end Interval

/-- The number of decimal digits of a positive whole number. -/
def digitCount (value : Nat) : Nat := (Nat.toDigits 10 value).length

/-- The position of the decimal point of a positive value: the least power of ten above it. -/
def pointOf (range : Interval) : Int :=
  if range.denominator ≤ range.value then digitCount (range.value / range.denominator)
  else 1 - (digitCount (range.denominator / range.value) : Int)

/-- Try grids of more and more digits, the last of them unconditionally. -/
def searchDigits (range : Interval) (point : Int) : (remaining count : Nat) → Nat × Int
  | 0, count =>
    let unit := point - count
    let measured := range.inTens unit
    (measured.value / measured.denominator, unit)
  | remaining + 1, count =>
    let unit := point - count
    match (range.inTens unit).nearest? with
    | some units => (units, unit)
    | none => searchDigits range point remaining (count + 1)

/-- The fewest decimal digits that round back to a positive number, and of those the nearest.
Seventeen digits always suffice. -/
def shortestDigits (number : Binary64) : Digits :=
  let range := number.interval
  let (units, unit) := searchDigits range (pointOf range) 17 1
  let written := Nat.toDigits 10 units
  { digits := (written.reverse.dropWhile (· == '0')).reverse
    point := unit + written.length }

/-- Lay digits out without an exponent, and without a point when the value is whole. -/
def Digits.layOut (decimal : Digits) : String :=
  let length : Int := decimal.digits.length
  if decimal.point ≤ 0 then
    "0." ++ String.ofList (List.replicate decimal.point.natAbs '0') ++
      String.ofList decimal.digits
  else if length ≤ decimal.point then
    String.ofList decimal.digits ++
      String.ofList (List.replicate (decimal.point - length).toNat '0')
  else
    String.ofList (decimal.digits.take decimal.point.toNat) ++ "." ++
      String.ofList (decimal.digits.drop decimal.point.toNat)

/-- The decimal text of a number: fewest digits, no exponent, no point for a whole value. -/
def text (number : Binary64) : String :=
  let sign := if number.negative then "-" else ""
  if number.isZero then sign ++ "0" else sign ++ number.shortestDigits.layOut

/-- The decimal text with a fraction part, `.0` for a whole value. -/
def fractionText (number : Binary64) : String :=
  let written := number.text
  if written.contains '.' then written else written ++ ".0"

end Binary64

end BytecodeFlow
