import Dimacs.Problem.Header

/-
  The loop over the lines before the header, one line at a
  time: what the first byte of a line leads to. And the end
  of the header line, taken apart into its gap and the line
  end.

  Key definitions include:
    * `Parser.headerEnd`

  Main statements:
    * `Parser.preamble_of_end`
    * `Parser.preamble_of_header`
    * `Parser.preamble_of_line`
    * `Parser.preamble_of_refusal`
    * `Parser.afterClauses_eq`
-/

namespace Dimacs

namespace Parser

------------------------------------------------------------
-- Lines before the Header
------------------------------------------------------------

variable {strictness : Strictness}
variable {atStart : Bool}
variable {p : Preamble}
variable {b : UInt8}
variable {c c₁ c' : Cursor}

theorem preamble_of_end
    (hNext : c.next = (none, c')) :
    preamble strictness atStart p c =
      (p,
        fail
          (if atStart then .emptyFile else .endBeforeHeader)
          c') := by
  rw [preamble]
  split <;> simp_all

theorem preamble_of_header
    (hNext : c.next = (some Byte.letterP, c')) :
    preamble strictness atStart p c = (p, .ok () c') := by
  rw [preamble]
  split <;> simp_all

theorem preamble_of_line
    {directive : Option Directive}
    (hNext : c.next = (some b, c₁))
    (hHeader : b ≠ Byte.letterP)
    (hLine :
      preambleLine strictness p.enabled b c₁ =
        .ok directive c') :
    preamble strictness atStart p c =
      preamble strictness false (p.record directive)
        c' := by
  rw [preamble]
  split <;> simp_all
  split <;> simp_all

theorem preamble_of_refusal
    {e : ParseError}
    (hNext : c.next = (some b, c₁))
    (hHeader : b ≠ Byte.letterP)
    (hLine :
      preambleLine strictness p.enabled b c₁ =
        .error e c') :
    preamble strictness atStart p c = (p, .error e c') := by
  rw [preamble]
  split <;> simp_all
  split <;> simp_all

------------------------------------------------------------
-- The End of the Header Line
------------------------------------------------------------

/-
  The byte behind the closing gap, which has to begin
  the line end.
-/
def headerEnd : Option UInt8 → Parser Unit
  | none => fail .endAfterClauses
  | some b =>
      if b = Byte.carriageReturn then finishLine
      else if b = Byte.lineFeed then pure ()
      else fail .lineFeedAfterClauses

theorem afterClauses_eq
    (strictness : Strictness)
    (ahead : Option UInt8) :
    afterClauses strictness ahead =
      if ahead = none then fail .endInClauses
      else
        (if strictness.IsPedantic then pure ahead
            else skipBlanks ahead) >>=
            headerEnd :=
          by 
  unfold afterClauses
  split
  · rfl
  · split <;> rfl

end Parser

end Dimacs
