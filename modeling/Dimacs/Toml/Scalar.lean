import Dimacs.Toml.Number
import Dimacs.Toml.Token

/-
  Values that are written without quotes and brackets:
  truth values, numbers, dates and times. They are read
  token by token, because points, colons, plus signs and
  one kind of blank may stand within them.

  Key definitions include:
    * `Toml.Moment`
    * `Toml.Moment.next?`
    * `Toml.Scalar`
    * `Toml.Scalar.ofBare?`
    * `Toml.Scalar.next?`
    * `Toml.Scalar.value?`
-/

namespace Dimacs

namespace Toml

------------------------------------------------------------
-- Dates and Times
------------------------------------------------------------

/-
  How far a date or a time has been read. A name that ends
  in `From` asks for the part that it names, the others
  tell that this part has just been read.
-/
inductive Moment where
  | day
  | hourFrom
  | hour
  | minuteFrom
  | minute
  | secondFrom
  | second
  | fractionFrom
  | fraction
  | zoneFrom
  | zone
  | zoneMinuteFrom
  | zoneMinute
deriving DecidableEq

namespace Moment

/-
  What a further token leads to, if it can be part of the
  date or time. A single space may separate the hour from
  the day. The parts themselves are not looked into.
-/
def next? : Moment → Token → Option Moment
  | day, .blank [' '] => some hourFrom
  | day, .colon => some minuteFrom
  | hourFrom, .bare _ => some hour
  | hour, .colon => some minuteFrom
  | minuteFrom, .bare _ => some minute
  | minute, .colon => some secondFrom
  | secondFrom, .bare _ => some second
  | second, .point => some fractionFrom
  | second, .plus => some zoneFrom
  | second, .colon => some zoneMinuteFrom
  | fractionFrom, .bare _ => some fraction
  | fraction, .plus => some zoneFrom
  | fraction, .colon => some zoneMinuteFrom
  | zoneFrom, .bare _ => some zone
  | zone, .colon => some zoneMinuteFrom
  | zoneMinuteFrom, .bare _ => some zoneMinute
  | _, _ => none

/-
  A date or time may end here. Behind the space that
  follows a day nothing has to come.
-/
def IsComplete
    (m : Moment) : Prop :=
  m = day ∨
    m = hourFrom ∨
    m = hour ∨
    m = second ∨
    m = fraction ∨
    m = zone ∨
    m = zoneMinute

instance (m : Moment) :
    Decidable m.IsComplete :=
  inferInstanceAs (Decidable (_ ∨ _))

end Moment

------------------------------------------------------------
-- Scalars
------------------------------------------------------------

/-
  What has been read of a value: a truth value, the text of
  a number in reverse, or a part of a date or time. A number
  without a sign of its own may turn out to be a time.
-/
inductive Scalar where
  | truth
  | unsigned (text : List Char)
  | number (text : List Char)
  | moment (m : Moment)
deriving DecidableEq

namespace Scalar

/-
  A minus sign that stands neither first nor behind
  an exponent mark.
-/
def HasInnerMinus
    (text : List Char) : Prop :=
  '-' ∈ text.tail ∧
    ¬ ∃ pair ∈ text.zip text.tail,
      IsExponentMark pair.1 ∧ pair.2 = '-'

-- Only the text is searched, even where all characters
-- could be enumerated.
instance (text : List Char) :
    Decidable (HasInnerMinus text) :=
  have :
      Decidable
        (∃ pair ∈ text.zip text.tail,
          IsExponentMark pair.1 ∧ pair.2 = '-') :=
    List.decidableBEx _ _
  inferInstanceAs (Decidable (_ ∧ ¬ _))

/- A text that starts a date rather than a number. -/
def IsDate
    (text : List Char) : Prop :=
  'T' ∈ text ∨ 't' ∈ text ∨ HasInnerMinus text

instance (text : List Char) :
    Decidable (IsDate text) :=
  inferInstanceAs (Decidable (_ ∨ _))

/- A text that starts a number or a date. -/
def IsNumeric
    (text : List Char) : Prop :=
  text = ['i', 'n', 'f'] ∨ text = ['n', 'a', 'n'] ∨
    ∃ c ∈ text.head?, c = '-' ∨ c.isDigit = true

instance (text : List Char) :
    Decidable (IsNumeric text) :=
  have :
      Decidable
        (∃ c ∈ text.head?, c = '-' ∨ c.isDigit = true) :=
    text.head?.decidableExistsMem
  inferInstanceAs (Decidable (_ ∨ _ ∨ _))

/- The scalar that a bare text starts, if it starts one. -/
def ofBare?
    (text : List Char) : Option Scalar :=
  if text = ['t', 'r', 'u', 'e'] ∨
      text = ['f', 'a', 'l', 's', 'e'] then
    some .truth
  else if ¬ IsNumeric text then none
  else if IsDate text then some (.moment .day)
  else some (.unsigned text.reverse)

/- The characters by which a token may continue a number. -/
def continued? : Token → Option (List Char)
  | .bare text => some text
  | .point => some ['.']
  | .plus => some ['+']
  | _ => none

/-
  What a further token leads to, if it can be part
  of the scalar.
-/
def next? : Scalar → Token → Option Scalar
  | truth, _ => none
  | unsigned _, .colon => some (.moment .minuteFrom)
  | unsigned text, token
  | number text, token =>
      (continued? token).map fun more =>
        .number (more.reverse ++ text)
  | moment m, token => (m.next? token).map .moment

/-
  The value of a scalar that ends here, unless
  it is malformed.
-/
def value? : Scalar → Option Value
  | truth => some .other
  | unsigned text
  | number text => number? text.reverse
  | moment m => if m.IsComplete then some .other else none

end Scalar

end Toml

end Dimacs
