import Dimacs.Check
import Dimacs.Decimal.Nearest
import Dimacs.Toml.Character

/-
  Numbers in a TOML document: integers in four bases, floats
  in decimal notation, and what is not finite.

  Key definitions include:
    * `Toml.AreDigits`
    * `Toml.digits?`
    * `Toml.integer?`
    * `Toml.IsFloat`
    * `Toml.Value`
    * `Toml.number?`
-/

namespace Dimacs

namespace Toml

------------------------------------------------------------
-- Integers
------------------------------------------------------------

/-
  Whether a text consists of digits among which single
  underscores stand. The flag tells whether a digit came
  just before.
-/
def isDigits
    (base : Nat)
    (afterDigit : Bool) : List Char → Bool
  | [] => afterDigit
  | c :: rest =>
      if c = '_' then afterDigit && isDigits base false rest
      else (digit? base c).isSome && isDigits base true rest

/-
  Digits, at least one, which may be divided by underscores.
-/
def AreDigits
    (base : Nat)
    (text : List Char) : Prop :=
  isDigits base false text = true

instance (base : Nat) (text : List Char) :
    Decidable (AreDigits base text) :=
  inferInstanceAs (Decidable (_ = true))

/-
  The number that arises when a digit is appended, if it
  fits into 64 bits.
-/
def appendDigit?
    (base value : Nat)
    (c : Char) : Option Nat :=
  ((digit? base c).map (value * base + ·)).filter
    fun value => decide (value ≤ Check.maxUnsigned64)

/- The value of digits, if it fits into 64 bits. -/
def digits?
    (base : Nat)
    (text : List Char) : Option Nat :=
  if AreDigits base text then
    (text.filter fun c => decide (c ≠ '_')).foldlM
      (appendDigit? base) 0
  else none

/-
  Decimal digits that start a number, so that there are
  no leading zeros.
-/
def AreLeading : List Char → Prop
  | '0' :: _ :: _ => False
  | text => AreDigits 10 text

instance (text : List Char) :
    Decidable (AreLeading text) := by
  unfold AreLeading
  split <;> infer_instance

/- The value of a decimal integer without a sign. -/
def decimal?
    (text : List Char) : Option Nat :=
  if AreLeading text then digits? 10 text else none

/- The text behind an optional plus sign. -/
def dropPlus : List Char → List Char
  | '+' :: rest => rest
  | text => text

/- The text behind an optional minus sign. -/
def dropMinus : List Char → List Char
  | '-' :: rest => rest
  | text => text

/-
  The value of an integer without a plus sign. Only decimal
  integers may have a minus sign.
-/
def signed? : List Char → Option Int
  | '0' :: 'x' :: rest => (digits? 16 rest).map Int.ofNat
  | '0' :: 'o' :: rest => (digits? 8 rest).map Int.ofNat
  | '0' :: 'b' :: rest => (digits? 2 rest).map Int.ofNat
  | '-' :: rest =>
      (decimal? rest).map fun value => -(value : Int)
  | text => (decimal? text).map Int.ofNat

/-
  The value of an integer, which has to fit into 64 bits
  with its sign.
-/
def integer?
    (text : List Char) : Option Int :=
  (signed? text).filter fun value =>
    decide (Check.FitsInt64 value)

------------------------------------------------------------
-- Floats
------------------------------------------------------------

/-
  The text in front of the first exponent mark, and the text
  from it on.
-/
def splitExponent
    (text : List Char) : List Char × List Char :=
  text.span fun c => !decide (IsExponentMark c)

/-
  The text in front of the first point, and the text
  from it on.
-/
def splitPoint
    (text : List Char) : List Char × List Char :=
  text.span fun c => decide (c ≠ '.')

/-
  An exponent, if there is one: a mark, an optional
  sign, and digits.
-/
def IsExponentPart : List Char → Prop
  | [] => True
  | _ :: '+' :: digits => AreDigits 10 digits
  | _ :: '-' :: digits => AreDigits 10 digits
  | _ :: digits => AreDigits 10 digits

instance (text : List Char) :
    Decidable (IsExponentPart text) := by
  unfold IsExponentPart
  split <;> infer_instance

/- A point with the digits behind it, if there is one. -/
def IsFractionPart : List Char → Prop
  | [] => True
  | _ :: digits => AreDigits 10 digits

instance (text : List Char) :
    Decidable (IsFractionPart text) := by
  unfold IsFractionPart
  split <;> infer_instance

/-
  The notation of a float: an integer that is followed by a
  fraction, an exponent, or both.
-/
def IsFloatNotation
    (text : List Char) : Prop :=
  let (mantissa, exponent) := splitExponent text
  let (whole, fraction) := splitPoint mantissa
  AreLeading (dropMinus whole) ∧
    IsFractionPart fraction ∧
    IsExponentPart exponent ∧
    ¬ (fraction = [] ∧ exponent = [])

instance (text : List Char) :
    Decidable (IsFloatNotation text) :=
  inferInstanceAs (Decidable (_ ∧ _))

/-
  The numeral that a float denotes once its
  underscores are removed.
-/
def numeral?
    (text : List Char) : Option Numeral :=
  let digits := text.filter fun c => decide (c ≠ '_')
  Numeral.ofBytes? (digits.map fun c => c.toUInt8)

/- A float, which has to be near to a finite number. -/
def IsFloat
    (text : List Char) : Prop :=
  IsFloatNotation text ∧
    ∃ n ∈ numeral? text,
      n.limited.magnitudeBits < Binary64.infinity

instance (text : List Char) :
    Decidable (IsFloat text) :=
  inferInstanceAs (Decidable (_ ∧ _))

/- The name of a number that is not finite. -/
def IsSpecial
    (text : List Char) : Prop :=
  dropMinus text = ['i', 'n', 'f'] ∨
    dropMinus text = ['n', 'a', 'n']

instance (text : List Char) :
    Decidable (IsSpecial text) :=
  inferInstanceAs (Decidable (_ ∨ _))

------------------------------------------------------------
-- Values
------------------------------------------------------------

/- An integer, or a value of another kind. -/
inductive Value where
  | integer (value : Int)
  | other
deriving DecidableEq

/-
  The value of a number, in front of which a plus
  sign may stand.
-/
def number?
    (text : List Char) : Option Value :=
  let unsigned := dropPlus text
  match integer? unsigned with
  | some value => some (.integer value)
  | none =>
      if IsFloat unsigned ∨ IsSpecial unsigned then
        some .other
      else none

end Toml

end Dimacs
