import Dimacs.Check

/-
  Variables as they are numbered internally, their two
  literals, and polarity hints.

  Key definitions include:
    * `Variable`
    * `Literal`
    * `Variable.literal`
    * `Phase`
    * `Phase.of`
-/

namespace Dimacs

------------------------------------------------------------
-- Variables and Literals
------------------------------------------------------------

/-
  An internal variable. Internal variables are numbered
  from zero in the order in which they first occur.
-/
structure Variable where
  index : Nat
deriving DecidableEq

/-
  A literal, encoded as twice its variable, plus one if
  it is negative.
-/
structure Literal where
  encoding : Nat
deriving DecidableEq

/-
  The variable that is meant unless another one is given.
-/
def Variable.standard : Variable := ⟨0⟩

/- The literal that is meant unless another one is given. -/
def Literal.standard : Literal := ⟨0⟩

/-
  The literal of a variable with a given polarity, held
  to 32 bits.
-/
def Variable.literal
    (v : Variable)
    (negative : Bool) : Except Violation Literal :=
  match Check.uint32 (v.index * 2 + negative.toNat) with
  | .ok encoding => .ok ⟨encoding⟩
  | .error violation => .error violation

namespace Literal

/- The variable of a literal. -/
def var
    (l : Literal) : Variable :=
  ⟨l.encoding / 2⟩

/- The polarity of a literal. -/
def isNegative
    (l : Literal) : Bool :=
  decide (l.encoding % 2 ≠ 0)

end Literal

------------------------------------------------------------
-- Phases
------------------------------------------------------------

/- A polarity hint for a variable. -/
inductive Phase where
  | negative
  | unset
  | positive
deriving DecidableEq

namespace Phase

/- The phase of a variable for which there is no hint. -/
def standard : Phase := unset

/- The phase of a signed value; zero is no hint. -/
def of
    (value : Int) : Phase :=
  if value < 0 then negative
  else if value = 0 then unset
  else positive

/- The sign of a phase. -/
def toInt : Phase → Int
  | negative => -1
  | unset => 0
  | positive => 1

end Phase

end Dimacs
