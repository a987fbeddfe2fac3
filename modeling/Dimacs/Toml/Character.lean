/-
  The characters of a TOML document: the classes they fall
  into, the digits of four bases, and the line ends.

  Key definitions include:
    * `Toml.IsBlank`
    * `Toml.IsText`
    * `Toml.IsBare`
    * `Toml.digit?`
    * `Toml.foldLineEnds`
-/

namespace Dimacs

namespace Toml

------------------------------------------------------------
-- Classes
------------------------------------------------------------

/- White space within a line. -/
def IsBlank
    (c : Char) : Prop :=
  c = ' ' ∨ c = '\t'

instance (c : Char) :
    Decidable (IsBlank c) :=
  inferInstanceAs (Decidable (_ ∨ _))

/- A blank or the end of a line. -/
def IsGap
    (c : Char) : Prop :=
  IsBlank c ∨ c = '\n'

instance (c : Char) :
    Decidable (IsGap c) :=
  inferInstanceAs (Decidable (_ ∨ _))

/- A character that may stand in a comment. -/
def IsComment
    (c : Char) : Prop :=
  c = '\t' ∨ ' ' ≤ c

instance (c : Char) :
    Decidable (IsComment c) :=
  inferInstanceAs (Decidable (_ ∨ _))

/- A character that may stand in a string as it is. -/
def IsText
    (c : Char) : Prop :=
  IsComment c ∧ c ≠ '\x7f'

instance (c : Char) :
    Decidable (IsText c) :=
  inferInstanceAs (Decidable (_ ∧ _))

/-
  A character of a key without quotes, and of most values.
-/
def IsBare
    (c : Char) : Prop :=
  c.isAlphanum = true ∨ c = '_' ∨ c = '-'

instance (c : Char) :
    Decidable (IsBare c) :=
  inferInstanceAs (Decidable (_ ∨ _))

/- The mark in front of an exponent. -/
def IsExponentMark
    (c : Char) : Prop :=
  c = 'e' ∨ c = 'E'

instance (c : Char) :
    Decidable (IsExponentMark c) :=
  inferInstanceAs (Decidable (_ ∨ _))

------------------------------------------------------------
-- Digits
------------------------------------------------------------

/- The value of a digit in a base of at most sixteen. -/
def digit?
    (base : Nat)
    (c : Char) : Option Nat :=
  let value? :=
    if '0' ≤ c ∧ c ≤ '9' then some (c.toNat - 48)
    else if 'a' ≤ c ∧ c ≤ 'f' then some (c.toNat - 87)
    else if 'A' ≤ c ∧ c ≤ 'F' then some (c.toNat - 55)
    else none
  value?.filter fun value => decide (value < base)

------------------------------------------------------------
-- Line Ends
------------------------------------------------------------

/-
  Write every line end as a line feed alone. A carriage
  return that is not followed by a line feed is kept, and
  no class above contains it.
-/
def foldLineEnds
    (text : List Char) : List Char :=
  fold [] text
where
  /-
    Go through a text; what has been written is
    kept in reverse.
  -/
  fold
      (written : List Char) : List Char → List Char
    | [] => written.reverse
    | c :: rest =>
        if c = '\r' ∧ rest.head? = some '\n' then
          fold written rest
        else fold (c :: written) rest

end Toml

end Dimacs
