import Dimacs.Cursor.Basic
import Dimacs.Decimal.Nearest

/-
  Scanners for the tokens of hint files. Each skips white
  space, then reads one number as far as it goes; what it
  consumed before it met a malformed byte stays consumed.

  Key definitions include:
    * `Scanner`
    * `Cursor.skipSpaces`
    * `Cursor.scanChar`
    * `Cursor.scanDigits`
    * `Cursor.scanInt`
    * `Cursor.scanUnsigned`
    * `Cursor.scanFloatText`
    * `Cursor.scanFloat`
-/

namespace Dimacs

/-
  A reader that moves a cursor and fails only when a check
  of its own arithmetic does. A malformed token is not a
  failure but an answer of `none`.
-/
abbrev Scanner (α : Type) : Type :=
  EStateM Violation Cursor α

namespace Cursor

------------------------------------------------------------
-- White Space and Single Bytes
------------------------------------------------------------

/- Skip the white space in front of a token. -/
def skipSpaces
    (c : Cursor) : Cursor :=
  match _h : c.takeIf
      (fun b => decide (Byte.IsSpace b)) with
  | (some _, c') => skipSpaces c'
  | (none, c') => c'
termination_by c.remaining
decreasing_by exact remaining_lt_of_takeIf _h

/- Consume the expected byte if it is the next one. -/
def scanChar
    (expected : UInt8)
    (c : Cursor) : Bool × Cursor :=
  match c.takeIf (fun b => b == expected) with
  | (some _, c') => (true, c')
  | (none, c') => (false, c')

------------------------------------------------------------
-- Integers
------------------------------------------------------------

/- The largest value a run of digits may have. -/
def maxValue : Int := 4294967295

/-
  The number in front of a decimal digit, computed
  in 64 bits.
-/
def accumulate
    (value : Int)
    (b : UInt8) : Except Violation Int :=
  match Check.int64 (value * 10) with
  | .error violation => .error violation
  | .ok scaled =>
      Check.int64 (scaled + (Byte.digit b : Int))

/-
  Read digits behind the given value. The digit that would
  make the value too large is left where it is.
-/
def digitsFrom
    (value : Int)
    (c : Cursor) :
      EStateM.Result Violation Cursor (Option Int) :=
  match _h : c.peek with
  | (some b, c') =>
      if Byte.IsDigit b then
        match accumulate value b with
        | .error violation => .error violation c'
        | .ok value' =>
            if maxValue < value' then .ok none c'
            else digitsFrom value' c'.next.2
      else .ok (some value) c'
  | (none, c') => .ok (some value) c'
termination_by c.remaining
decreasing_by exact remaining_lt_of_peek _h

/- One or more decimal digits. -/
def scanDigits : Scanner (Option Int) :=
  fun c =>
    match c.peek with
    | (some b, c') =>
        if Byte.IsDigit b then digitsFrom 0 c'
        else .ok none c'
    | (none, c') => .ok none c'

/- The number behind a sign, computed in 64 bits. -/
def applySign
    (sign : Option UInt8)
    (magnitude : Int) : Except Violation Int :=
  Check.int64
    (if sign = some Byte.minus then -magnitude
    else magnitude)

/- An optionally signed decimal that fits 32 bits. -/
def scanInt : Scanner (Option Int) :=
  fun c =>
    match c.skipSpaces.takeIf
        (fun b => decide (Byte.IsSign b)) with
    | (sign, c') =>
        match scanDigits c' with
        | .error violation c'' => .error violation c''
        | .ok none c'' => .ok none c''
        | .ok (some magnitude) c'' =>
            match applySign sign magnitude with
            | .error violation => .error violation c''
            | .ok value =>
                .ok
                  (if Check.FitsInt32 value then some value
                  else none) c''

/-
  An unsigned decimal that fits 32 bits, with an
  optional plus sign.
-/
def scanUnsigned : Scanner (Option Nat) :=
  fun c =>
    match c.skipSpaces.scanChar Byte.plus with
    | (_, c') =>
        match scanDigits c' with
        | .error violation c'' => .error violation c''
        | .ok none c'' => .ok none c''
        | .ok (some value) c'' =>
            .ok
              (if value ≤ maxValue then some value.toNat
              else none) c''

------------------------------------------------------------
-- Decimal Fractions
------------------------------------------------------------

/- Consume a run of digits, which may be empty. -/
def takeDigits
    (digits : Array UInt8)
    (c : Cursor) : List UInt8 × Cursor :=
  match _h : c.takeIf
      (fun b => decide (Byte.IsDigit b)) with
  | (some b, c') => takeDigits (digits.push b) c'
  | (none, c') => (digits.toList, c')
termination_by c.remaining
decreasing_by exact remaining_lt_of_takeIf _h

/-
  The significand of a fraction: digits with an optional
  point. In the text that is handed on, a point has a digit
  on both sides. There is no text if there is no digit.
-/
def scanSignificand
    (c : Cursor) : Option (List UInt8) × Cursor :=
  match takeDigits #[] c with
  | (whole, c₁) =>
      match c₁.scanChar Byte.point with
      | (false, c₂) =>
          (if whole = [] then none else some whole, c₂)
      | (true, c₂) =>
          match takeDigits #[] c₂ with
          | (fraction, c₃) =>
              if whole = [] ∧ fraction = [] then (none, c₃)
              else
                let left :=
                  if whole = [] then [Byte.zero] else whole
                let right :=
                  if fraction = [] then [Byte.zero]
                  else fraction
                (some (left ++ Byte.point :: right), c₃)

/-
  The exponent of a fraction. It may be missing, but an
  exponent mark without digits makes the token malformed.
-/
def scanExponent
    (c : Cursor) : Option (List UInt8) × Cursor :=
  match c.takeIf
      (fun b => decide (Byte.IsExponentMark b)) with
  | (none, c₁) => (some [], c₁)
  | (some mark, c₁) =>
      match c₁.takeIf (fun b => decide (Byte.IsSign b)) with
      | (sign, c₂) =>
          match takeDigits #[] c₂ with
          | (digits, c₃) =>
              (if digits = [] then none
                else some (mark :: sign.toList ++ digits),
                c₃)

/- The text of a decimal fraction, ready for conversion. -/
def scanFloatText
    (c : Cursor) : Option (List UInt8) × Cursor :=
  match c.skipSpaces.takeIf
      (fun b => decide (Byte.IsSign b)) with
  | (sign, c₁) =>
      match scanSignificand c₁ with
      | (none, c₂) => (none, c₂)
      | (some significand, c₂) =>
          match scanExponent c₂ with
          | (none, c₃) => (none, c₃)
          | (some exponent, c₃) =>
              (some
                  (sign.toList ++ significand ++ exponent),
                c₃)

/-
  A decimal fraction, rounded to the
  nearest floating-point number.
-/
def scanFloat
    (c : Cursor) : Option Float × Cursor :=
  match scanFloatText c with
  | (text, c') =>
      ((text.bind Numeral.ofBytes?).map Numeral.toFloat, c')

------------------------------------------------------------
-- Progress
------------------------------------------------------------

theorem remaining_skipSpaces
    (c : Cursor) :
    c.skipSpaces.remaining ≤ c.remaining := by
  fun_induction skipSpaces c with
  | case1 c b c' h ih =>
      exact Nat.le_trans ih
        (Nat.le_of_lt (remaining_lt_of_takeIf h))
  | case2 c c' h =>
      have hTake := c.remaining_takeIf
        (fun b => decide (Byte.IsSpace b))
      rw [h] at hTake
      exact hTake

theorem remaining_scanChar
    (expected : UInt8)
    (c : Cursor) :
    (c.scanChar expected).2.remaining ≤ c.remaining := by
  have hTake := c.remaining_takeIf (fun b => b == expected)
  unfold scanChar
  split
  · next h =>
      rw [h] at hTake
      exact hTake
  · next h =>
      rw [h] at hTake
      exact hTake

theorem remaining_digitsFrom
    {value : Int}
    {found : Option Int}
    {c c' : Cursor}
    (h : digitsFrom value c = .ok found c') :
    c'.remaining ≤ c.remaining := by
  revert h
  fun_induction digitsFrom value c with
  | case1 value c b c₁ hPeek hDigit violation hStep =>
      intro h
      cases h
  | case2 value c b c₁ hPeek hDigit value' hStep hLarge =>
      intro h
      cases h
      have hLe := c.remaining_peek
      rw [hPeek] at hLe
      exact hLe
  | case3 value c b c₁ hPeek hDigit value' hStep hLarge ih
        =>
      intro h
      exact Nat.le_trans (ih h)
        (Nat.le_of_lt (remaining_lt_of_peek hPeek))
  | case4 value c b c₁ hPeek hDigit =>
      intro h
      cases h
      have hLe := c.remaining_peek
      rw [hPeek] at hLe
      exact hLe
  | case5 value c c₁ hPeek =>
      intro h
      cases h
      have hLe := c.remaining_peek
      rw [hPeek] at hLe
      exact hLe

/- The byte that was looked at is looked at again. -/
theorem peek_peek
    {c c' : Cursor}
    {b : Option UInt8}
    (h : c.peek = (b, c')) :
    c'.peek = (b, c') := by
  rcases c with
    ⟨rest, ended, lookahead, line, failure, name⟩
  rcases lookahead with _ | b'
  · rcases hFetch :
        fetch ⟨rest, ended, none, line, failure, name⟩ with
      ⟨b', c''⟩
    simp only [peek, hFetch, Prod.mk.injEq] at h
    rw [← h.1, ← h.2]
    rfl
  · simp only [peek, Prod.mk.injEq] at h
    rw [← h.1, ← h.2]
    rfl

/- A run of digits holds at least one. -/
theorem remaining_lt_of_scanDigits
    {value : Int}
    {c c' : Cursor}
    (h : scanDigits c = .ok (some value) c') :
    c'.remaining < c.remaining := by
  unfold scanDigits at h
  split at h
  · next b c₁ hPeek =>
      split at h
      · next hDigit =>
          rw [digitsFrom] at h
          split at h
          · next b' c₂ hAgain =>
              rw [peek_peek hPeek] at hAgain
              cases hAgain
              rw [if_pos hDigit] at h
              split at h
              · cases h
              · split at h
                · cases h
                · exact Nat.lt_of_le_of_lt
                    (remaining_digitsFrom h)
                    (remaining_lt_of_peek hPeek)
          · next c₂ hAgain =>
              rw [peek_peek hPeek] at hAgain
              cases hAgain
      · cases h
  · cases h

theorem remaining_lt_of_scanInt
    {value : Int}
    {c c' : Cursor}
    (h : scanInt c = .ok (some value) c') :
    c'.remaining < c.remaining := by
  unfold scanInt at h
  split at h
  next sign c₁ hSign =>
    have hLe := c.skipSpaces.remaining_takeIf
      (fun b => decide (Byte.IsSign b))
    rw [hSign] at hLe
    split at h
    · cases h
    · cases h
    · next magnitude c₂ hDigits =>
        split at h
        · cases h
        · simp only [EStateM.Result.ok.injEq] at h
          rw [← h.2]
          exact Nat.lt_of_lt_of_le
            (remaining_lt_of_scanDigits hDigits)
            (Nat.le_trans hLe c.remaining_skipSpaces)

theorem remaining_lt_of_scanUnsigned
    {value : Nat}
    {c c' : Cursor}
    (h : scanUnsigned c = .ok (some value) c') :
    c'.remaining < c.remaining := by
  unfold scanUnsigned at h
  split at h
  next signed c₁ hSign =>
    have hLe := c.skipSpaces.remaining_scanChar Byte.plus
    rw [hSign] at hLe
    split at h
    · cases h
    · cases h
    · next value' c₂ hDigits =>
        simp only [EStateM.Result.ok.injEq] at h
        rw [← h.2]
        exact Nat.lt_of_lt_of_le
          (remaining_lt_of_scanDigits hDigits)
          (Nat.le_trans hLe c.remaining_skipSpaces)

theorem remaining_takeDigits
    (digits : Array UInt8)
    (c : Cursor) :
    (takeDigits digits c).2.remaining ≤ c.remaining := by
  fun_induction takeDigits digits c with
  | case1 digits c b c' h ih =>
      exact Nat.le_trans ih
        (Nat.le_of_lt (remaining_lt_of_takeIf h))
  | case2 digits c c' h =>
      have hTake := c.remaining_takeIf
        (fun b => decide (Byte.IsDigit b))
      rw [h] at hTake
      exact hTake

theorem remaining_scanSignificand
    (c : Cursor) :
    (scanSignificand c).2.remaining ≤ c.remaining := by
  have hWhole := remaining_takeDigits #[] c
  unfold scanSignificand
  split
  next whole c₁ h₁ =>
    rw [h₁] at hWhole
    have hPoint := c₁.remaining_scanChar Byte.point
    split
    · next c₂ h₂ =>
        rw [h₂] at hPoint
        exact Nat.le_trans hPoint hWhole
    · next c₂ h₂ =>
        rw [h₂] at hPoint
        have hFraction := remaining_takeDigits #[] c₂
        split
        next fraction c₃ h₃ =>
          rw [h₃] at hFraction
          have hAll := Nat.le_trans hFraction
            (Nat.le_trans hPoint hWhole)
          split
          · exact hAll
          · exact hAll

theorem remaining_scanExponent
    (c : Cursor) :
    (scanExponent c).2.remaining ≤ c.remaining := by
  have hMark := c.remaining_takeIf
    (fun b => decide (Byte.IsExponentMark b))
  unfold scanExponent
  split
  · next c₁ h₁ =>
      rw [h₁] at hMark
      exact hMark
  · next mark c₁ h₁ =>
      rw [h₁] at hMark
      have hSign := c₁.remaining_takeIf
        (fun b => decide (Byte.IsSign b))
      split
      next sign c₂ h₂ =>
        rw [h₂] at hSign
        have hDigits := remaining_takeDigits #[] c₂
        split
        next digits c₃ h₃ =>
          rw [h₃] at hDigits
          exact Nat.le_trans hDigits
            (Nat.le_trans hSign hMark)

theorem remaining_scanFloat
    (c : Cursor) :
    (scanFloat c).2.remaining ≤ c.remaining := by
  have hSign := c.skipSpaces.remaining_takeIf
    (fun b => decide (Byte.IsSign b))
  have hSpaces := c.remaining_skipSpaces
  unfold scanFloat scanFloatText
  split
  next text c' hText =>
    split at hText
    next sign c₁ h₁ =>
      rw [h₁] at hSign
      have hSignificand := remaining_scanSignificand c₁
      split at hText
      · next c₂ h₂ =>
          rw [h₂] at hSignificand
          cases hText
          exact Nat.le_trans hSignificand
            (Nat.le_trans hSign hSpaces)
      · next significand c₂ h₂ =>
          rw [h₂] at hSignificand
          have hExponent := remaining_scanExponent c₂
          split at hText
          · next c₃ h₃ =>
              rw [h₃] at hExponent
              cases hText
              exact Nat.le_trans hExponent
                (Nat.le_trans hSignificand
                  (Nat.le_trans hSign hSpaces))
          · next exponent c₃ h₃ =>
              rw [h₃] at hExponent
              cases hText
              exact Nat.le_trans hExponent
                (Nat.le_trans hSignificand
                  (Nat.le_trans hSign hSpaces))

end Cursor

end Dimacs
