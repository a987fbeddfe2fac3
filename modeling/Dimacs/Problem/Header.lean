import Dimacs.Problem.Directive
import Dimacs.Problem.Strictness

/-
  The part of a problem up to and including its header:
  blank lines and comment lines, then the line that
  declares the number of variables and of clauses.

  Key definitions include:
    * `Header`
    * `Preamble`
    * `Parser.preambleLine`
    * `Parser.preamble`
    * `Parser.headerLine`
    * `Parser.header`
-/

namespace Dimacs

------------------------------------------------------------
-- Declarations
------------------------------------------------------------

/- The largest index a variable may have. -/
def maxVariable : Nat := 2147483646

/- What the header declares. -/
structure Header where
  variableCount : Nat
  clauseCount : Nat
deriving DecidableEq

/-
  What the lines before the header leave behind: the
  options with all directives applied, and what was printed.
-/
structure Preamble where
  options : Options
  printed : List String
deriving DecidableEq

namespace Preamble

/- Directives are read unless they are switched off. -/
def enabled
    (p : Preamble) : Bool :=
  decide (p.options.embedded ≠ 0)

/-
  Account for a line and the directive in it, if
  there was one.
-/
def record
    (p : Preamble) : Option Directive → Preamble
  | none => p
  | some d =>
      { options := d.apply p.options
        printed := p.printed ++ d.notices p.options }

end Preamble

namespace Parser

------------------------------------------------------------
-- Lines before the Header
------------------------------------------------------------

/-
  Read the rest of a line whose first byte is
  not the header's.
-/
def preambleLine
    (strictness : Strictness)
    (enabled : Bool)
    (first : UInt8) : Parser (Option Directive) :=
  if first = Byte.carriageReturn then do
    finishLine
    if strictness.IsPedantic then
      failBefore (some Byte.lineFeed) .emptyLine
    else pure none
  else if first = Byte.lineFeed then
    if strictness.IsPedantic then
      failBefore (some Byte.lineFeed) .emptyLine
    else pure none
  else if first = Byte.letterC then headerComment enabled
  else fail .expectedCommentOrHeader

theorem advances_preambleLine
    (strictness : Strictness)
    (enabled : Bool)
    (first : UInt8) :
    Advances (preambleLine strictness enabled first) :=
  advances_ite
    (advances_bind advances_finishLine fun _ =>
      advances_ite (advances_failBefore _ _)
        (advances_pure _))
    (advances_ite
      (advances_ite (advances_failBefore _ _)
        (advances_pure _))
      (advances_ite (advances_headerComment _)
        (advances_fail _)))

/-
  Read all lines before the header, and the first letter of
  the header itself.
-/
def preamble
    (strictness : Strictness)
    (atStart : Bool)
    (p : Preamble)
    (c : Cursor) :
      Preamble × EStateM.Result ParseError Cursor Unit :=
  match _h : c.next with
  | (none, c') =>
      (p,
        fail
          (if atStart then .emptyFile else .endBeforeHeader)
          c')
  | (some b, c') =>
      if b = Byte.letterP then (p, .ok () c')
      else
        match _hLine : preambleLine strictness p.enabled b
            c' with
        | .ok directive c'' =>
            preamble strictness false (p.record directive)
              c''
        | .error e c'' => (p, .error e c'')
termination_by c.remaining
decreasing_by
  exact Nat.lt_of_le_of_lt
    (advances_preambleLine _ _ _ _ _ _ _hLine)
    (Cursor.remaining_lt_of_next _h)

------------------------------------------------------------
-- The Header Line
------------------------------------------------------------

/-
  The first byte of a field, which may stand behind blanks.
-/
def fieldStart
    (strictness : Strictness) : Parser (Option UInt8) :=
  if strictness.IsPedantic then byte else byteAfterBlanks

/-
  Compare a byte that was read with the expected one,
  and read another.
-/
def expect
    (expected : UInt8)
    (fault : Fault)
    (ahead : Option UInt8) : Parser (Option UInt8) :=
  if ahead = some expected then byte
  else failBefore ahead fault

/- The format name behind the first letter of the header. -/
def formatName
    (strictness : Strictness) : Parser (Option UInt8) := do
  let ahead ← byte
  if ahead = some Byte.space then
    let ahead ← fieldStart strictness
    let ahead ← expect Byte.letterC .letterCAfterP ahead
    let ahead ← expect Byte.letterN .letterNAfterPC ahead
    let ahead ← expect Byte.letterF .letterFAfterPCN ahead
    if ahead = some Byte.space then fieldStart strictness
    else failBefore ahead .spaceAfterFormat
  else failBefore ahead .spaceAfterP

/-
  The declared number of variables, whose first
  byte was read.
-/
def variablesField
    (ahead : Option UInt8) : Parser (Nat × Option UInt8) :=
  match ahead with
  | some b =>
      if Byte.IsDigit b then
        number maxVariable .variablesTooLarge b
      else failBefore (some b) .digitAfterFormat
  | none => failBefore none .digitAfterFormat

/-
  The single space that has to follow the
  number of variables.
-/
def afterVariables
    (ahead : Option UInt8) : Parser Unit :=
  match ahead with
  | none => fail .endInVariables
  | some b =>
      if b = Byte.carriageReturn then do
        finishLine
        failBefore (some Byte.lineFeed)
          .lineFeedAfterVariables
      else if b = Byte.lineFeed then
        failBefore (some Byte.lineFeed)
          .lineFeedAfterVariables
      else if b = Byte.space then pure ()
      else fail .spaceAfterVariables

/-
  The declared number of clauses, whose first byte was read.
-/
def clausesField
    (ahead : Option UInt8) : Parser (Nat × Option UInt8) :=
  match ahead with
  | some b =>
      if Byte.IsDigit b then
        number Check.maxUnsigned64 .clausesTooLarge b
      else fail .expectedClauses
  | none => fail .expectedClauses

/-
  The end of the header line, behind the number of clauses.
-/
def afterClauses
    (strictness : Strictness)
    (ahead : Option UInt8) : Parser Unit :=
  if ahead = none then fail .endInClauses
  else do
    let ahead ←
      if strictness.IsPedantic then pure ahead
      else skipBlanks ahead
    match ahead with
    | none => fail .endAfterClauses
    | some b =>
        if b = Byte.carriageReturn then finishLine
        else if b = Byte.lineFeed then pure ()
        else fail .lineFeedAfterClauses

/- Read the header line behind its first letter. -/
def headerLine
    (strictness : Strictness) : Parser Header := do
  let ahead ← formatName strictness
  let (variableCount, ahead) ← variablesField ahead
  afterVariables ahead
  let ahead ← fieldStart strictness
  let (clauseCount, ahead) ← clausesField ahead
  afterClauses strictness ahead
  pure ⟨variableCount, clauseCount⟩

/- Read everything up to and including the header line. -/
def header
    (strictness : Strictness)
    (o : Options)
    (c : Cursor) :
      Preamble × EStateM.Result ParseError Cursor Header :=
  match preamble strictness true
      { options := o, printed := [] } c with
  | (p, .ok () c') => (p, headerLine strictness c')
  | (p, .error e c') => (p, .error e c')

end Parser

end Dimacs
