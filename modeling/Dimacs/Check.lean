/-
  Checks by which the library holds its own assumptions to
  account: preconditions, bounds of arrays, widths of
  machine numbers and sizes of allocations. A check that
  fails is a `Violation`, which is an outcome apart from the
  rejection of an input.

  Key definitions include:
    * `Violation`
    * `Check.require`
    * `Check.inBounds`
    * `Check.int32`
    * `Check.int64`
    * `Check.uint32`
    * `Check.allocation`
    * `Check.appendDigit?`
-/

namespace Dimacs

------------------------------------------------------------
-- Violations
------------------------------------------------------------

/-
  A failed check. A position is out of bounds when it is
  not below the bound.
-/
inductive Violation where
  | assertion
  | outOfBounds (index bound : Nat)
  | overflow
  | capacityOverflow
deriving DecidableEq

namespace Violation

/- The wording of a failed check. -/
def message : Violation → String
  | assertion => "assertion failed"
  | outOfBounds index bound =>
      s!"array index out of bounds: {index} (range is 0..{bound})"
  | overflow => "attempt to multiply with overflow"
  | capacityOverflow => "capacity overflow"

end Violation

namespace Check

------------------------------------------------------------
-- Preconditions and Bounds
------------------------------------------------------------

/- A condition that callers promise. -/
def require
    (condition : Prop)
    [Decidable condition] : Except Violation Unit :=
  if condition then .ok () else .error .assertion

/- A position has to lie below the bound. -/
def inBounds
    (bound index : Nat) : Except Violation Unit :=
  if index < bound then .ok ()
  else .error (.outOfBounds index bound)

------------------------------------------------------------
-- Widths
------------------------------------------------------------

/- The largest unsigned number of 32 bits. -/
def maxUnsigned32 : Nat := 4294967295

/- The largest unsigned number of 64 bits. -/
def maxUnsigned64 : Nat := 18446744073709551615

/- A signed number of 32 bits. -/
def FitsInt32
    (value : Int) : Prop :=
  -2147483648 ≤ value ∧ value ≤ 2147483647

instance (value : Int) :
    Decidable (FitsInt32 value) :=
  inferInstanceAs (Decidable (_ ∧ _))

/- A signed number of 64 bits. -/
def FitsInt64
    (value : Int) : Prop :=
  -9223372036854775808 ≤ value ∧ value ≤ 9223372036854775807

instance (value : Int) :
    Decidable (FitsInt64 value) :=
  inferInstanceAs (Decidable (_ ∧ _))

/- The value itself, if it is a signed number of 32 bits. -/
def int32
    (value : Int) : Except Violation Int :=
  if FitsInt32 value then .ok value else .error .overflow

/- The value itself, if it is a signed number of 64 bits. -/
def int64
    (value : Int) : Except Violation Int :=
  if FitsInt64 value then .ok value else .error .overflow

/-
  The value itself, if it is an unsigned number of 32 bits.
-/
def uint32
    (value : Nat) : Except Violation Nat :=
  if value ≤ maxUnsigned32 then .ok value
  else .error .overflow

/-
  The largest number of bytes that one
  allocation may occupy.
-/
def maxAllocation : Nat := 9223372036854775807

/- An allocation of a number of bytes has to be possible. -/
def allocation
    (bytes : Nat) : Except Violation Unit :=
  if bytes ≤ maxAllocation then .ok ()
  else .error .capacityOverflow

/-
  The number that arises when a decimal digit is appended,
  or nothing if the product or the sum leaves the width
  whose largest number is `width`.
-/
def appendDigit?
    (width value digit : Nat) : Option Nat :=
  if value * 10 ≤ width then
    if value * 10 + digit ≤ width then
      some (value * 10 + digit)
    else none
  else none

/-
  Appending a digit yields the decimal value, or nothing
  beyond the width.
-/
theorem appendDigit?_eq
    (width value digit : Nat) :
    appendDigit? width value digit =
      if value * 10 + digit ≤ width then
        some (value * 10 + digit)
      else none := by
  unfold appendDigit?
  split
  · rfl
  · split
    · omega
    · rfl

end Check

end Dimacs
