import Dimacs.Proofs.Header.Grammar
import Mathlib.Tactic.IntervalCases

/-
  The decimal digits of a number, written last digit last.
  They denote the number, and start with a zero only if the
  number is zero.

  Key definitions include:
    * `Byte.ofDigit`

  Main statements:
    * `Byte.ofDecimal_induction`
    * `Byte.exists_ofDecimal_eq_cons`
    * `Byte.decimal_ofDecimal`
    * `isNumeral_ofDecimal`
-/

namespace Dimacs

namespace Byte

variable {value : Nat}

------------------------------------------------------------
-- Single Digits
------------------------------------------------------------

/- The decimal digit of a number below ten. -/
def ofDigit
    (value : Nat) : UInt8 :=
  UInt8.ofNat (48 + value)

theorem toUInt8_digitChar
    (h : value < 10) :
    (Nat.digitChar value).toUInt8 = ofDigit value := by
  interval_cases value <;> rfl

theorem toNat_ofDigit
    (h : value < 10) :
    (ofDigit value).toNat = 48 + value := by
  apply UInt8.toNat_ofNat_of_lt'
  have hSize : UInt8.size = 256 := rfl
  omega

theorem isDigit_ofDigit
    (h : value < 10) :
    IsDigit (ofDigit value) := by
  have hNat := toNat_ofDigit h
  have hLower : (48 : UInt8).toNat = 48 := rfl
  have hUpper : (57 : UInt8).toNat = 57 := rfl
  constructor
  · apply UInt8.le_iff_toNat_le.mpr
    omega
  · apply UInt8.le_iff_toNat_le.mpr
    omega

theorem digit_ofDigit
    (h : value < 10) :
    digit (ofDigit value) = value := by
  rw [digit, toNat_ofDigit h, Nat.add_sub_cancel_left]

------------------------------------------------------------
-- Runs of Digits
------------------------------------------------------------

theorem ofDecimal_of_lt
    (h : value < 10) :
    ofDecimal value = [ofDigit value] := by
  rw [ofDecimal, Nat.toDigits_of_lt_base h,
    List.map_singleton, toUInt8_digitChar h]

/- The last digit comes off the end. -/
theorem ofDecimal_of_le
    (h : 10 ≤ value) :
    ofDecimal value =
      ofDecimal (value / 10) ++ [ofDigit (value % 10)] := by
  have hLast : value % 10 < 10 :=
    Nat.mod_lt value (by omega)
  rw [ofDecimal, Nat.toDigits_of_base_le (by omega) h,
    List.map_append, List.map_singleton,
    toUInt8_digitChar hLast, ofDecimal]

/-
  A property of all runs of digits holds if one more
  digit keeps it.
-/
theorem ofDecimal_induction
    {motive : Nat → List UInt8 → Prop}
    (single :
      ∀ value, value < 10 → motive value [ofDigit value])
    (snoc :
      ∀ value digits,
        10 ≤ value →
        motive (value / 10) digits →
        motive value (digits ++ [ofDigit (value % 10)]))
    (value : Nat) :
    motive value (ofDecimal value) := by
  induction value using Nat.strongRecOn with
  | ind value ih =>
      by_cases hSmall : value < 10
      · rw [ofDecimal_of_lt hSmall]
        exact single value hSmall
      · have hLarge := Nat.not_lt.mp hSmall
        rw [ofDecimal_of_le hLarge]
        exact snoc value _ hLarge
          (ih (value / 10) (by omega))

/-
  There is a first digit, and only that of zero is a zero.
-/
theorem exists_ofDecimal_eq_cons
    (value : Nat) :
    ∃ first rest,
      ofDecimal value = first :: rest ∧
      (value ≠ 0 → first ≠ zero) := by
  apply ofDecimal_induction
    (motive :=
      fun value digits =>
        ∃ first rest,
          digits = first :: rest ∧
          (value ≠ 0 → first ≠ zero))
  · intro value hSmall
    refine ⟨ofDigit value, [], rfl, ?_⟩
    intro hNonzero hFirst
    have hSame := congrArg UInt8.toNat hFirst
    have hZero : zero.toNat = 48 := rfl
    rw [toNat_ofDigit hSmall] at hSame
    omega
  · intro value digits hLarge ih
    rcases ih with ⟨first, rest, rfl, hFirst⟩
    refine ⟨first, rest ++ [ofDigit (value % 10)], rfl, ?_⟩
    intro hNonzero
    exact hFirst (by omega)

theorem isDigit_of_mem_ofDecimal
    (value : Nat) :
    ∀ b ∈ ofDecimal value, IsDigit b := by
  apply ofDecimal_induction
    (motive := fun _ digits => ∀ b ∈ digits, IsDigit b)
  · intro value hSmall b hb
    rw [List.mem_singleton.mp hb]
    exact isDigit_ofDigit hSmall
  · intro value digits hLarge ih b hb
    rcases List.mem_append.mp hb with hFront | hLast
    · exact ih b hFront
    · rw [List.mem_singleton.mp hLast]
      exact isDigit_ofDigit (Nat.mod_lt value (by omega))

/- The digits of a number denote it. -/
theorem decimal_ofDecimal
    (value : Nat) :
    decimal (ofDecimal value) = value := by
  apply ofDecimal_induction
    (motive := fun value digits => decimal digits = value)
  · intro value hSmall
    rw [decimal, List.foldl_cons, List.foldl_nil,
      Nat.zero_mul, Nat.zero_add, digit_ofDigit hSmall]
  · intro value digits hLarge ih
    have hLast : value % 10 < 10 :=
      Nat.mod_lt value (by omega)
    rw [decimal, List.foldl_append, List.foldl_cons,
      List.foldl_nil, digit_ofDigit hLast]
    change decimal digits * 10 + value % 10 = value
    rw [ih]
    omega

end Byte

/-
  The digits of a number within a limit are a
  numeral within it.
-/
theorem isNumeral_ofDecimal
    {limit value : Nat}
    (h : value ≤ limit) :
    IsNumeral limit (Byte.ofDecimal value) := by
  rcases Byte.exists_ofDecimal_eq_cons value with
    ⟨first, rest, hDigits, _⟩
  refine ⟨?_, Byte.isDigit_of_mem_ofDecimal value, ?_⟩
  · rw [hDigits]
    exact List.cons_ne_nil first rest
  · rw [Byte.decimal_ofDecimal]
    exact h

end Dimacs
