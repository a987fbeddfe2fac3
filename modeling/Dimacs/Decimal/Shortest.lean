import Dimacs.Decimal.Nearest

/-
  The shortest decimal that reads back as a given binary64
  number, and its text without an exponent.

  Key definitions include:
    * `Binary64.Magnitude`
    * `Binary64.shortest`
    * `Binary64.positional`
-/

namespace Dimacs

namespace Binary64

------------------------------------------------------------
-- Magnitudes
------------------------------------------------------------

/- A finite magnitude `significand · 2 ^ exponent`. -/
structure Magnitude where
  significand : Nat
  exponent : Int
deriving DecidableEq

/-
  The magnitude with the given bits, which are below
  those of infinity.
-/
def Magnitude.ofBits
    (bits : Nat) : Magnitude :=
  let field : Nat := bits / fractionLimit
  let fraction : Nat := bits % fractionLimit
  if field = 0 then ⟨fraction, minExponent⟩
  else
    ⟨fraction + fractionLimit,
      (field : Int) - 1 + minExponent⟩

/- Numerator and denominator of a magnitude. -/
def Magnitude.quotient
    (m : Magnitude) : Nat × Nat :=
  if 0 ≤ m.exponent then
    (m.significand * Nat.pow 2 m.exponent.toNat, 1)
  else (m.significand, Nat.pow 2 (-m.exponent).toNat)

/-
  The number of decimal digits in front of the point of
  a positive quotient.
-/
def integerDigits
    (numerator denominator : Nat) : Int :=
  if denominator ≤ numerator then
    ((Nat.toDigits 10 (numerator / denominator)).length :
      Int)
  else
    1 -
      ((Nat.toDigits 10
          ((denominator - 1) / numerator)).length :
        Int)

/-
  The point of the decimal grid with unit `10 ^ exponent`
  that reads back as the given bits and is nearest to the
  quotient; of two equally near ones the larger.
-/
def onGrid?
    (bits numerator denominator : Nat)
    (exponent : Int) : Option Decimal :=
  let scaledNumerator :=
    numerator * Nat.pow 10 (-exponent).toNat
  let scaledDenominator :=
    denominator * Nat.pow 10 exponent.toNat
  let below := scaledNumerator / scaledDenominator
  let twice := 2 * (scaledNumerator % scaledDenominator)
  let lower : Decimal := ⟨false, below, exponent⟩
  let upper : Decimal := ⟨false, below + 1, exponent⟩
  let candidates :=
    if twice < scaledDenominator then [lower, upper]
    else [upper, lower]
  candidates.find? (fun d => d.magnitudeBits = bits)

/-
  The decimal with the fewest digits that reads back as
  the given bits, and of those the nearest one. Seventeen
  digits always suffice.
-/
def shortest
    (bits : Nat) : Decimal :=
  if bits = 0 then ⟨false, 0, 0⟩
  else
    let (numerator, denominator) :=
      (Magnitude.ofBits bits).quotient
    let leading := integerDigits numerator denominator
    let found :=
      (List.range 17).findSome? fun (count : Nat) =>
        onGrid? bits numerator denominator
          (leading - ((count : Int) + 1))
    found.getD ⟨false, 0, 0⟩

------------------------------------------------------------
-- Text
------------------------------------------------------------

/-
  A decimal written without an exponent. The point is left
  out when no digit other than zero would stand behind it.
-/
def positionalText
    (d : Decimal) : String :=
  let digits := Nat.toDigits 10 d.significand
  if 0 ≤ d.exponent then
    String.ofList
      (digits ++ List.replicate d.exponent.toNat '0')
  else
    let places := (-d.exponent).toNat
    let padded :=
      List.replicate (places + 1 - digits.length) '0' ++
        digits
    let whole := padded.take (padded.length - places)
    let fraction := padded.drop (padded.length - places)
    let significant :=
      (fraction.reverse.dropWhile (· = '0')).reverse
    if significant = [] then String.ofList whole
    else String.ofList (whole ++ '.' :: significant)

/- The shortest text of a number, without an exponent. -/
def positional
    (value : Float) : String :=
  let bits := value.toBits.toNat
  let magnitude := bits % signBit
  let sign := if signBit ≤ bits then "-" else ""
  if infinity < magnitude then "NaN"
  else if magnitude = infinity then sign ++ "inf"
  else sign ++ positionalText (shortest magnitude)

end Binary64

end Dimacs
