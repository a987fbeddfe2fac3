import Dimacs.Cursor.Call
import Dimacs.Proofs.Cursor.Reading
import Dimacs.Proofs.Hint.Scanning

/-
  A scanner moves a cursor only by looking at bytes and by
  consuming them. Which bytes a call consumed is what these
  moves were answered.

  Key definitions include:
    * `Cursor.Moves`
    * `Cursor.Reaches`

  Main statements:
    * `Cursor.reaches_skipSpaces`
    * `Cursor.reaches_scanInt`
    * `Cursor.reaches_scanUnsigned`
    * `Cursor.reaches_scanFloat`
    * `Cursor.exists_moves_of_call`
-/

namespace Dimacs

namespace Cursor

------------------------------------------------------------
-- Moves
------------------------------------------------------------

/-
  Looking at bytes and consuming bytes leads from one cursor
  to the other.
-/
inductive Moves
    (start : Cursor) : List UInt8 → Cursor → Prop
  | stay : Moves start [] start
  | peek
      {bytes : List UInt8}
      {c : Cursor}
      (h : Moves start bytes c) :
      Moves start bytes c.peek.2
  | next
      {bytes : List UInt8}
      {c : Cursor}
      (h : Moves start bytes c) :
      Moves start (bytes ++ c.next.1.toList) c.next.2

/- One cursor is reached from the other by moves. -/
def Reaches
    (start c : Cursor) : Prop :=
  ∃ bytes, start.Moves bytes c

variable {start c c' : Cursor}

theorem Moves.trans
    {front back : List UInt8}
    (hFront : start.Moves front c)
    (hBack : c.Moves back c') :
    start.Moves (front ++ back) c' := by
  induction hBack with
  | stay =>
      rw [List.append_nil]
      exact hFront
  | peek _ ih => exact ih.peek
  | next _ ih =>
      rw [← List.append_assoc]
      exact ih.next

theorem Reaches.trans
    (hFirst : start.Reaches c)
    (hSecond : c.Reaches c') :
    start.Reaches c' := by
  rcases hFirst with ⟨front, hFront⟩
  rcases hSecond with ⟨back, hBack⟩
  exact ⟨front ++ back, hFront.trans hBack⟩

theorem reaches_peek
    {ahead : Option UInt8}
    (hPeek : c.peek = (ahead, c')) :
    c.Reaches c' := by
  have hMoves : c.Moves [] c.peek.2 := .peek .stay
  rw [hPeek] at hMoves
  exact ⟨[], hMoves⟩

theorem reaches_next
    (c : Cursor) :
    c.Reaches c.next.2 :=
  ⟨_, .next .stay⟩

------------------------------------------------------------
-- White Space and Single Bytes
------------------------------------------------------------

theorem reaches_takeIf
    {test : UInt8 → Bool}
    {found : Option UInt8}
    (hTake : c.takeIf test = (found, c')) :
    c.Reaches c' := by
  unfold takeIf at hTake
  split at hTake
  · next b c₁ hPeek =>
      have hSeen := reaches_peek hPeek
      split at hTake
      · cases hTake
        exact hSeen.trans c₁.reaches_next
      · cases hTake
        exact hSeen
  · next c₁ hPeek =>
      cases hTake
      exact reaches_peek hPeek

theorem reaches_skipSpaces
    (c : Cursor) :
    c.Reaches c.skipSpaces := by
  fun_induction skipSpaces c with
  | case1 c b c₁ hTake ih =>
      exact (reaches_takeIf hTake).trans ih
  | case2 c c₁ hTake => exact reaches_takeIf hTake

theorem reaches_scanChar
    {expected : UInt8}
    {found : Bool}
    (hScan : c.scanChar expected = (found, c')) :
    c.Reaches c' := by
  unfold scanChar at hScan
  split at hScan
  · next b c₁ hTake =>
      cases hScan
      exact reaches_takeIf hTake
  · next c₁ hTake =>
      cases hScan
      exact reaches_takeIf hTake

------------------------------------------------------------
-- Integers
------------------------------------------------------------

theorem reaches_digitsFrom
    {value : Int}
    {found : Option Int}
    (hScan : digitsFrom value c = .ok found c') :
    c.Reaches c' := by
  fun_induction digitsFrom value c with
  | case1 value c b c₁ hPeek hDigit violation hStep =>
      cases hScan
  | case2 value c b c₁ hPeek hDigit value' hStep hLarge =>
      cases hScan
      exact reaches_peek hPeek
  | case3 value c b c₁ hPeek hDigit value' hStep hLarge ih
        =>
      exact (reaches_peek hPeek).trans
        (c₁.reaches_next.trans (ih hScan))
  | case4 value c b c₁ hPeek hDigit =>
      cases hScan
      exact reaches_peek hPeek
  | case5 value c c₁ hPeek =>
      cases hScan
      exact reaches_peek hPeek

theorem reaches_scanDigits
    {found : Option Int}
    (hScan : scanDigits c = .ok found c') :
    c.Reaches c' := by
  unfold scanDigits at hScan
  split at hScan
  · next b c₁ hPeek =>
      have hSeen := reaches_peek hPeek
      split at hScan
      · exact hSeen.trans (reaches_digitsFrom hScan)
      · cases hScan
        exact hSeen
  · next c₁ hPeek =>
      cases hScan
      exact reaches_peek hPeek

theorem reaches_scanInt
    {found : Option Int}
    (hScan : scanInt c = .ok found c') :
    c.Reaches c' := by
  unfold scanInt at hScan
  split at hScan
  next sign c₁ hSign =>
    have hSigned :=
      c.reaches_skipSpaces.trans (reaches_takeIf hSign)
    split at hScan
    · cases hScan
    · next c₂ hDigits =>
        cases hScan
        exact hSigned.trans (reaches_scanDigits hDigits)
    · next magnitude c₂ hDigits =>
        split at hScan
        · cases hScan
        · cases hScan
          exact hSigned.trans (reaches_scanDigits hDigits)

theorem reaches_scanUnsigned
    {found : Option Nat}
    (hScan : scanUnsigned c = .ok found c') :
    c.Reaches c' := by
  unfold scanUnsigned at hScan
  split at hScan
  next signed c₁ hSign =>
    have hSigned :=
      c.reaches_skipSpaces.trans (reaches_scanChar hSign)
    split at hScan
    · cases hScan
    · next c₂ hDigits =>
        cases hScan
        exact hSigned.trans (reaches_scanDigits hDigits)
    · next value c₂ hDigits =>
        cases hScan
        exact hSigned.trans (reaches_scanDigits hDigits)

------------------------------------------------------------
-- Decimal Fractions
------------------------------------------------------------

theorem reaches_takeDigits
    {digits : Array UInt8}
    {found : List UInt8}
    (hTake : takeDigits digits c = (found, c')) :
    c.Reaches c' := by
  fun_induction takeDigits digits c with
  | case1 digits c b c₁ hByte ih =>
      exact (reaches_takeIf hByte).trans (ih hTake)
  | case2 digits c c₁ hByte =>
      cases hTake
      exact reaches_takeIf hByte

theorem reaches_scanSignificand
    {found : Option (List UInt8)}
    (hScan : scanSignificand c = (found, c')) :
    c.Reaches c' := by
  unfold scanSignificand at hScan
  split at hScan
  next whole c₁ hWhole =>
    have hDigits := reaches_takeDigits hWhole
    split at hScan
    · next c₂ hPoint =>
        cases hScan
        exact hDigits.trans (reaches_scanChar hPoint)
    · next c₂ hPoint =>
        have hPointed :=
          hDigits.trans (reaches_scanChar hPoint)
        split at hScan
        next fraction c₃ hFraction =>
          have hAll :=
            hPointed.trans (reaches_takeDigits hFraction)
          split at hScan
          · cases hScan
            exact hAll
          · cases hScan
            exact hAll

theorem reaches_scanExponent
    {found : Option (List UInt8)}
    (hScan : scanExponent c = (found, c')) :
    c.Reaches c' := by
  unfold scanExponent at hScan
  split at hScan
  · next c₁ hMark =>
      cases hScan
      exact reaches_takeIf hMark
  · next mark c₁ hMark =>
      split at hScan
      next sign c₂ hSign =>
        have hSigned := (reaches_takeIf hMark).trans
          (reaches_takeIf hSign)
        split at hScan
        next digits c₃ hDigits =>
          cases hScan
          exact hSigned.trans (reaches_takeDigits hDigits)

theorem reaches_scanFloatText
    {found : Option (List UInt8)}
    (hScan : scanFloatText c = (found, c')) :
    c.Reaches c' := by
  unfold scanFloatText at hScan
  split at hScan
  next sign c₁ hSign =>
    have hSigned :=
      c.reaches_skipSpaces.trans (reaches_takeIf hSign)
    split at hScan
    · next c₂ hSignificand =>
        cases hScan
        exact hSigned.trans
          (reaches_scanSignificand hSignificand)
    · next significand c₂ hSignificand =>
        have hDigits := hSigned.trans
          (reaches_scanSignificand hSignificand)
        split at hScan
        · next c₃ hExponent =>
            cases hScan
            exact hDigits.trans
              (reaches_scanExponent hExponent)
        · next exponent c₃ hExponent =>
            cases hScan
            exact hDigits.trans
              (reaches_scanExponent hExponent)

theorem reaches_scanFloat
    (c : Cursor) :
    c.Reaches (scanFloat c).2 := by
  unfold scanFloat
  rcases hText : scanFloatText c with ⟨found, c₁⟩
  exact reaches_scanFloatText hText

------------------------------------------------------------
-- Calls
------------------------------------------------------------

/-
  Every call succeeds, and all but one only move the cursor.
-/
theorem exists_moves_of_call
    {call : Call}
    (c : Cursor)
    (hMove : call ≠ .takeFailure) :
    ∃ c', c.perform call = .ok c' ∧ c.Reaches c' := by
  cases call with
  | next => exact ⟨_, rfl, c.reaches_next⟩
  | peek => exact ⟨_, rfl, reaches_peek rfl⟩
  | skipSpaces => exact ⟨_, rfl, c.reaches_skipSpaces⟩
  | scanChar expected =>
      exact ⟨_, rfl, reaches_scanChar rfl⟩
  | scanInt =>
      rcases completes_scanInt c with ⟨found, c', hScan, _⟩
      refine ⟨c', ?_, reaches_scanInt hScan⟩
      rw [perform, hScan, ofScan]
  | scanUnsigned =>
      rcases completes_scanUnsigned c with
        ⟨found, c', hScan, _⟩
      refine ⟨c', ?_, reaches_scanUnsigned hScan⟩
      rw [perform, hScan, ofScan]
  | scanFloat => exact ⟨_, rfl, reaches_scanFloat c⟩
  | takeFailure => exact absurd rfl hMove

end Cursor

end Dimacs
