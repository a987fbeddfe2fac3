import Dimacs.Cursor.Basic

/-
  The rules a problem file can break, each with a wording
  of its own, and the reasons why a problem is not loaded.

  Key definitions include:
    * `Fault`
    * `Fault.message`
    * `ParseError`
    * `ParseError.display`
-/

namespace Dimacs

------------------------------------------------------------
-- Faults
------------------------------------------------------------

/-
  A broken rule. The first group can arise before the
  header, the second in the header line, the third among
  the clauses; a lone carriage return can stand anywhere.
-/
inductive Fault where
  | emptyFile
  | endBeforeHeader
  | loneCarriageReturn
  | emptyLine
  | endInHeaderComment
  | expectedCommentOrHeader
  | spaceAfterP
  | letterCAfterP
  | letterNAfterPC
  | letterFAfterPCN
  | spaceAfterFormat
  | digitAfterFormat
  | variablesTooLarge
  | endInVariables
  | lineFeedAfterVariables
  | spaceAfterVariables
  | expectedClauses
  | clausesTooLarge
  | endInClauses
  | endAfterClauses
  | lineFeedAfterClauses
  | endInClauseComment
  | endAfterMinus
  | lineFeedAfterMinus
  | digitAfterMinus
  | nonzeroAfterMinus
  | digitOrMinus
  | indexTooLarge
  | endAfterLiteral
  | endAfterZero
  | endInCommentAfterLiteral
  | spaceAfterLiteral
  | variableExceeded
  | tooManyClauses
  | zeroMissing
  | oneClauseMissing
  | clausesMissing
deriving DecidableEq

namespace Fault

/-
  The advice that ends the wording of a rule
  relaxed reading drops.
-/
def tryRelaxed
    (message : String) : String :=
  message ++ " (try '--relaxed' parsing)"

/- The wording of a fault. -/
def message : Fault → String
  | emptyFile => "empty file"
  | endBeforeHeader => "end-of-file before header"
  | loneCarriageReturn =>
      "expected new-line after carriage-return"
  | emptyLine => "unexpected empty line"
  | endInHeaderComment => "end-of-file in header comment"
  | expectedCommentOrHeader =>
      "expected 'c' or 'p' at start of line"
  | spaceAfterP => "expected space after 'p'"
  | letterCAfterP => "expected 'c' after 'p '"
  | letterNAfterPC => "expected 'n' after 'p c'"
  | letterFAfterPCN => "expected 'f' after 'p cn'"
  | spaceAfterFormat => "expected space after 'p cnf'"
  | digitAfterFormat => "expected digit after 'p cnf '"
  | variablesTooLarge => "maximum variable too large"
  | endInVariables =>
    "unexpected end-of-file while parsing maximum variable"
  | lineFeedAfterVariables =>
      "unexpected new-line after maximum variable"
  | spaceAfterVariables =>
      "expected space after maximum variable"
  | expectedClauses =>
      "expected number of clauses after maximum variable"
  | clausesTooLarge => "number of clauses too large"
  | endInClauses =>
    "unexpected end-of-file while parsing number of clauses"
  | endAfterClauses =>
    "unexpected end-of-file after parsing number of clauses"
  | lineFeedAfterClauses =>
      "expected new-line after parsing number of clauses"
  | endInClauseComment =>
      "unexpected end-of-file in comment after header"
  | endAfterMinus => "unexpected end-of-file after '-'"
  | lineFeedAfterMinus => "unexpected new-line after '-'"
  | digitAfterMinus => "expected digit after '-'"
  | nonzeroAfterMinus => "expected non-zero digit after '-'"
  | digitOrMinus => "expected digit or '-'"
  | indexTooLarge => "variable index too large"
  | endAfterLiteral =>
      "unexpected end-of-file after literal"
  | endAfterZero =>
      "unexpected end-of-file after trailing zero"
  | endInCommentAfterLiteral =>
      "unexpected end-of-file in comment after literal"
  | spaceAfterLiteral =>
      "expected white space after literal"
  | variableExceeded =>
      tryRelaxed "maximum variable index exceeded"
  | tooManyClauses => tryRelaxed "too many clauses"
  | zeroMissing => "trailing zero missing"
  | oneClauseMissing => tryRelaxed "one clause missing"
  | clausesMissing =>
      tryRelaxed "more than one clause missing"

end Fault

------------------------------------------------------------
-- Parse Errors
------------------------------------------------------------

/-
  Why a problem was not loaded: a line breaks a rule, the
  source could not be read, or one of the library's own
  checks failed.
-/
inductive ParseError where
  | malformed (line : Nat) (fault : Fault)
  | unreadable (text : String)
  | violated (violation : Violation)
deriving DecidableEq

namespace ParseError

/- The wording of a read failure. -/
def readFailure
    (text : String) : String :=
  s!"read error: {text}"

/- The text of a parse error. -/
def display : ParseError → String
  | malformed line fault =>
      Cursor.located line fault.message
  | unreadable text => readFailure text
  | violated violation => violation.message

end ParseError

end Dimacs
