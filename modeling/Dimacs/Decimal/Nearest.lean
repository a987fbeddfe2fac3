import Dimacs.Decimal.Basic

/-
  The binary64 number nearest to a decimal, computed in
  exact arithmetic. Halves go to the even neighbour, and
  what lies beyond the largest finite number is infinite.
  Of an exponent that is written only the leading digits
  count.

  Key definitions include:
    * `Binary64.roundDiv`
    * `Binary64.fractionLimit`
    * `Binary64.signBit`
    * `Binary64.nearest`
    * `Decimal.toFloat`
    * `Numeral.exponentLimit`
    * `Numeral.toFloat`
-/

namespace Dimacs

namespace Binary64

------------------------------------------------------------
-- Rounding a Quotient
------------------------------------------------------------

/-
  The integer nearest to a quotient; a half goes to
  the even neighbour.
-/
def roundDiv
    (numerator denominator : Nat) : Nat :=
  let quotient := numerator / denominator
  let twice := 2 * (numerator % denominator)
  if twice < denominator then quotient
  else if denominator < twice then quotient + 1
  else if quotient % 2 = 0 then quotient
  else quotient + 1

/- The exponent of the unit of the smallest numbers. -/
def minExponent : Int := -1074

/-
  Two to the power 52: what the fraction field stays below.
-/
def fractionLimit : Nat := 0x10000000000000

/- Two to the power 63: the bit of the sign. -/
def signBit : Nat := 0x8000000000000000

/- The bits of infinity. -/
def infinity : Nat := 2047 * fractionLimit

/-
  The binary logarithm of a positive quotient, rounded down.
-/
def logQuotient
    (numerator denominator : Nat) : Int :=
  let guess : Int :=
    (numerator.log2 : Int) - (denominator.log2 : Int)
  let reached :=
    if 0 ≤ guess then
      denominator * Nat.pow 2 guess.toNat ≤ numerator
    else denominator ≤ numerator * Nat.pow 2 (-guess).toNat
  if reached then guess else guess - 1

/-
  The bits of the binary64 number nearest to a quotient.
  Exponent field and significand are adjacent, so a
  significand that rounds up to the next power of two
  carries into the exponent, and the largest one into the
  bits of infinity.
-/
def nearest
    (numerator denominator : Nat) : Nat :=
  if numerator = 0 then 0
  else
    let exponent := max
      (logQuotient numerator denominator - 52) minExponent
    let significand :=
      if 0 ≤ exponent then
        roundDiv numerator
          (denominator * Nat.pow 2 exponent.toNat)
      else
        roundDiv (numerator * Nat.pow 2 (-exponent).toNat)
          denominator
    min
      ((exponent - minExponent).toNat * fractionLimit +
        significand) infinity

end Binary64

namespace Decimal

------------------------------------------------------------
-- Conversion
------------------------------------------------------------

/-
  The bits of the magnitude of a decimal. Exponents that
  certainly leave the range on either side are settled
  without computing the power of ten.
-/
def magnitudeBits
    (d : Decimal) : Nat :=
  if d.significand = 0 then 0
  else if 400 < d.exponent then Binary64.infinity
  else if d.exponent <
      -(401 + (d.significand.log2 : Int)) then
    0
  else if 0 ≤ d.exponent then
    Binary64.nearest
      (d.significand * Nat.pow 10 d.exponent.toNat) 1
  else
    Binary64.nearest d.significand
      (Nat.pow 10 (-d.exponent).toNat)

/-
  The nearest floating-point number, with the sign
  of the decimal.
-/
def toFloat
    (d : Decimal) : Float :=
  let magnitude := d.magnitudeBits
  Float.ofBits
    (if d.negative then Binary64.signBit + magnitude
    else magnitude).toUInt64

end Decimal

namespace Numeral

/-
  Two to the power 16: digits of an exponent count until
  it is reached.
-/
def exponentLimit : Nat := 0x10000

/-
  The exponent as far as it counts: once the digits have
  reached the limit, those that follow are ignored.
-/
def limitedExponent
    (n : Numeral) : Nat :=
  n.exponent.foldl
    (fun value b =>
      if value < exponentLimit then
        value * 10 + Byte.digit b
      else value) 0

/-
  The number that is converted, which is denoted unless the
  exponent is enormous.
-/
def limited
    (n : Numeral) : Decimal :=
  n.withExponent n.limitedExponent

/- The nearest floating-point number. -/
def toFloat
    (n : Numeral) : Float :=
  n.limited.toFloat

end Numeral

end Dimacs
