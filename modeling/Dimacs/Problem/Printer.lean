import Dimacs.Formula.Basic

/-
  The written form of a problem: a header line, then one
  line for each clause, which lists its literals and ends
  with a zero.

  Key definitions include:
    * `Printer.number`
    * `Printer.clauseLine`
    * `Printer.problem`
    * `Formula.print`
-/

namespace Dimacs

namespace Printer

------------------------------------------------------------
-- Lines
------------------------------------------------------------

/- A signed number in decimal, without leading zeros. -/
def number
    (value : Int) : List UInt8 :=
  if value < 0 then
    Byte.minus :: Byte.ofDecimal value.natAbs
  else Byte.ofDecimal value.natAbs

/-
  A clause on a line of its own; a space
  follows each literal.
-/
def clauseLine
    (clause : List Int) : List UInt8 :=
  clause.flatMap
      (fun literal => number literal ++ [Byte.space]) ++
    [Byte.zero, Byte.lineFeed]

/- The header line. -/
def headerLine
    (header : Header) : List UInt8 :=
  [Byte.letterP, Byte.space, Byte.letterC, Byte.letterN,
      Byte.letterF, Byte.space] ++
    Byte.ofDecimal header.variableCount ++
    Byte.space :: Byte.ofDecimal header.clauseCount ++
    [Byte.lineFeed]

------------------------------------------------------------
-- Problems
------------------------------------------------------------

/-
  A problem that declares a number of variables and
  all its clauses.
-/
def problem
    (variableCount : Nat)
    (clauses : List (List Int)) : List UInt8 :=
  headerLine ⟨variableCount, clauses.length⟩ ++
    clauses.flatMap clauseLine

end Printer

/-
  The written form of a formula that declares a
  number of variables.
-/
def Formula.print
    (variableCount : Nat)
    (f : Formula) : Except Violation (List UInt8) := do
  let clauses ← f.externalClauses
  pure (Printer.problem variableCount clauses)

end Dimacs
