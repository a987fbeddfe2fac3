import Dimacs.Byte

/-
  Decimal numbers: as they are written, with an optional
  sign, digits with an optional point among them and an
  optional exponent, and as the value that is denoted.

  Key definitions include:
    * `Decimal`
    * `Numeral`
    * `Numeral.ofBytes?`
    * `Numeral.value`
-/

namespace Dimacs

------------------------------------------------------------
-- Values
------------------------------------------------------------

/-
  The number `± significand · 10 ^ exponent`. The sign is
  kept apart, because zero has one too.
-/
structure Decimal where
  negative : Bool
  significand : Nat
  exponent : Int
deriving DecidableEq

------------------------------------------------------------
-- Numerals
------------------------------------------------------------

/-
  The parts of a written number: its sign, the digits on
  either side of the point, and the sign and the digits of
  its exponent.
-/
structure Numeral where
  negative : Bool
  whole : List UInt8
  fraction : List UInt8
  exponentNegative : Bool
  exponent : List UInt8
deriving DecidableEq

namespace Numeral

/- Split a text after its leading digits. -/
def spanDigits
    (text : List UInt8) : List UInt8 × List UInt8 :=
  text.span (fun b => decide (Byte.IsDigit b))

/-
  Split off an optional sign and tell whether it is a minus.
-/
def splitSign : List UInt8 → Bool × List UInt8
  | b :: rest =>
      if b = Byte.minus then (true, rest)
      else if b = Byte.plus then (false, rest)
      else (false, b :: rest)
  | [] => (false, [])

/-
  Split off the point and the digits behind it, if there
  is a point.
-/
def splitFraction : List UInt8 → List UInt8 × List UInt8
  | b :: rest =>
      if b = Byte.point then spanDigits rest
      else ([], b :: rest)
  | [] => ([], [])

/-
  Sign and digits of an exponent, which has to end the text.
-/
def exponent? : List UInt8 → Option (Bool × List UInt8)
  | [] => some (false, [])
  | b :: rest =>
      if Byte.IsExponentMark b then
        let (negative, rest) := splitSign rest
        let (digits, rest) := spanDigits rest
        if digits = [] ∨ rest ≠ [] then none
        else some (negative, digits)
      else none

/-
  The parts of a whole text. There has to be a digit before
  or behind the point.
-/
def ofBytes?
    (text : List UInt8) : Option Numeral :=
  let (negative, rest) := splitSign text
  let (whole, rest) := spanDigits rest
  let (fraction, rest) := splitFraction rest
  if whole = [] ∧ fraction = [] then none
  else
    (exponent? rest).map fun exponent =>
      { negative := negative
        whole := whole
        fraction := fraction
        exponentNegative := exponent.1
        exponent := exponent.2 }

/-
  The number that the digits denote together with
  a given exponent.
-/
def withExponent
    (n : Numeral)
    (magnitude : Nat) : Decimal :=
  let exponent : Int :=
    if n.exponentNegative then -(magnitude : Int)
    else magnitude
  { negative := n.negative
    significand := Byte.longDecimal (n.whole ++ n.fraction)
    exponent := exponent - (n.fraction.length : Int) }

/- The number that is denoted. -/
def value
    (n : Numeral) : Decimal :=
  n.withExponent (Byte.decimal n.exponent)

end Numeral

end Dimacs
