/-
  The bytes that have a meaning in a problem file or in a
  hint file, the classes they fall into, and the value of
  a run of decimal digits.

  Key definitions include:
    * `Byte.IsDigit`
    * `Byte.IsBlank`
    * `Byte.IsSpace`
    * `Byte.IsLower`
    * `Byte.digit`
    * `Byte.decimal`
    * `Byte.longDecimal`
    * `Byte.ofDecimal`
-/

namespace Dimacs

namespace Byte

------------------------------------------------------------
-- Named Bytes
------------------------------------------------------------

/- The byte that ends a line. -/
abbrev lineFeed : UInt8 := 10

/-
  The byte that may stand before a line feed,
  and nowhere else.
-/
abbrev carriageReturn : UInt8 := 13

/- The horizontal tabulator. -/
abbrev tab : UInt8 := 9

/- A single space. -/
abbrev space : UInt8 := 32

/- The sign of a negative number. -/
abbrev minus : UInt8 := 45

/- The optional sign of a number that is not negative. -/
abbrev plus : UInt8 := 43

/- The decimal point. -/
abbrev point : UInt8 := 46

/- The byte between an index and its score. -/
abbrev comma : UInt8 := 44

/- The byte between the name of an option and its value. -/
abbrev equals : UInt8 := 61

/- The digit zero. -/
abbrev zero : UInt8 := 48

/- The byte that starts a comment. -/
abbrev letterC : UInt8 := 99

/- The byte that starts the header. -/
abbrev letterP : UInt8 := 112

/- The second letter of the format name. -/
abbrev letterN : UInt8 := 110

/- The third letter of the format name. -/
abbrev letterF : UInt8 := 102

/- The small exponent mark. -/
abbrev letterE : UInt8 := 101

/- The capital exponent mark. -/
abbrev capitalE : UInt8 := 69

------------------------------------------------------------
-- Classes
------------------------------------------------------------

/- A decimal digit. -/
def IsDigit
    (b : UInt8) : Prop :=
  48 ≤ b ∧ b ≤ 57

instance (b : UInt8) :
    Decidable (IsDigit b) :=
  inferInstanceAs (Decidable (_ ∧ _))

/-
  A space or a tabulator, the bytes of a blank run
  within a line.
-/
def IsBlank
    (b : UInt8) : Prop :=
  b = space ∨ b = tab

instance (b : UInt8) :
    Decidable (IsBlank b) :=
  inferInstanceAs (Decidable (_ ∨ _))

/- The six bytes that separate the tokens of a hint file. -/
def IsSpace
    (b : UInt8) : Prop :=
  b = space ∨
    b = tab ∨
    b = lineFeed ∨
    b = carriageReturn ∨
    b = 11 ∨
    b = 12

instance (b : UInt8) :
    Decidable (IsSpace b) :=
  inferInstanceAs (Decidable (_ ∨ _))

/-
  A small letter, the only kind of letter in the name
  of an option.
-/
def IsLower
    (b : UInt8) : Prop :=
  97 ≤ b ∧ b ≤ 122

instance (b : UInt8) :
    Decidable (IsLower b) :=
  inferInstanceAs (Decidable (_ ∧ _))

/- A sign in front of a number. -/
def IsSign
    (b : UInt8) : Prop :=
  b = minus ∨ b = plus

instance (b : UInt8) :
    Decidable (IsSign b) :=
  inferInstanceAs (Decidable (_ ∨ _))

/- An exponent mark. -/
def IsExponentMark
    (b : UInt8) : Prop :=
  b = letterE ∨ b = capitalE

instance (b : UInt8) :
    Decidable (IsExponentMark b) :=
  inferInstanceAs (Decidable (_ ∨ _))

------------------------------------------------------------
-- Numbers
------------------------------------------------------------

/- The value of a decimal digit. -/
def digit
    (b : UInt8) : Nat :=
  b.toNat - 48

/- A digit is worth at most nine. -/
theorem digit_le_nine
    {b : UInt8}
    (h : IsDigit b) :
    digit b ≤ 9 := by
  have hUpper := UInt8.le_iff_toNat_le.mp h.2
  have : (57 : UInt8).toNat = 57 := rfl
  unfold digit
  omega

/-
  The number a run of decimal digits denotes; leading
  zeros are allowed.
-/
def decimal
    (digits : List UInt8) : Nat :=
  digits.foldl (fun value b => value * 10 + digit b) 0

/- Digits that follow shift the number in front of them. -/
theorem foldl_decimal
    (value : Nat)
    (digits : List UInt8) :
    digits.foldl (fun value b => value * 10 + digit b)
        value =
      value * Nat.pow 10 digits.length +
        decimal digits := by
  induction digits generalizing value with
  | nil => simp [decimal]
  | cons b rest ih =>
      have hRest := ih (0 * 10 + digit b)
      unfold decimal
      rw [List.foldl_cons, List.foldl_cons, ih, hRest,
        List.length_cons, Nat.pow_eq, Nat.pow_eq,
        Nat.pow_succ, Nat.add_mul, Nat.add_mul,
        Nat.mul_assoc, Nat.mul_comm 10, Nat.zero_mul,
        Nat.zero_add, Nat.add_assoc]

theorem decimal_append
    (front back : List UInt8) :
    decimal (front ++ back) =
      decimal front * Nat.pow 10 back.length +
        decimal back := by
  rw [decimal, List.foldl_append, foldl_decimal]
  rfl

/-
  The number a long run of digits denotes, computed from its
  halves, because numbers of the same length are multiplied
  faster than one digit after the other is appended.
-/
def longDecimal
    (digits : List UInt8) : Nat :=
  if digits.length ≤ 64 then decimal digits
  else
    let half := digits.length / 2
    longDecimal (digits.take half) *
        Nat.pow 10 (digits.drop half).length +
      longDecimal (digits.drop half)
termination_by digits.length
decreasing_by
  · simp only [List.length_take]
    omega
  · simp only [List.length_drop]
    omega

theorem longDecimal_eq
    (digits : List UInt8) :
    longDecimal digits = decimal digits := by
  fun_induction longDecimal digits with
  | case1 => rfl
  | case2 digits hLong half ihFront ihBack =>
      rw [ihFront, ihBack, ← decimal_append,
        List.take_append_drop]

/- The digits of a number, without leading zeros. -/
def ofDecimal
    (value : Nat) : List UInt8 :=
  (Nat.toDigits 10 value).map (fun c => c.toUInt8)

/-
  A text that consists of bytes below 128, one
  character per byte.
-/
def text
    (bytes : List UInt8) : String :=
  String.ofList (bytes.map (fun b => Char.ofNat b.toNat))

end Byte

end Dimacs
