import Dimacs.Problem.Body

/-
  Reading a whole problem: the lines before the header, the
  header, the clauses. A read failure takes precedence over
  whatever it caused.

  Key definitions include:
    * `Summary`
    * `Outcome`
    * `parseProblem`
-/

namespace Dimacs

------------------------------------------------------------
-- Outcomes
------------------------------------------------------------

/-
  What the header declared, and the number of clauses
  that were read.
-/
structure Summary where
  header : Header
  parsed : Nat
deriving DecidableEq

/-
  Everything a reading leaves behind: its result, the events
  for the storage, the options after all directives, the
  lines that were printed, and the cursor.
-/
structure Outcome where
  result : Except ParseError Summary
  events : List Event
  options : Options
  printed : List String
  cursor : Cursor

/-
  Take a pending read failure, which replaces the result.
  A failed check of the library itself is never replaced.
-/
def settle : EStateM.Result ParseError Cursor Summary →
    Except ParseError Summary × Cursor
  | .error (.violated violation) c =>
      (.error (.violated violation), c)
  | .error e c =>
      match c.takeFailure with
      | (some text, c') => (.error (.unreadable text), c')
      | (none, c') => (.error e, c')
  | .ok summary c =>
      match c.takeFailure with
      | (some text, c') => (.error (.unreadable text), c')
      | (none, c') => (.ok summary, c')

/-
  The outcome of a reading that ended before the clauses.
-/
def Outcome.early
    (p : Preamble)
    (e : ParseError)
    (c : Cursor) : Outcome where
  result := (settle (.error e c)).1
  events := []
  options := p.options
  printed := p.printed
  cursor := (settle (.error e c)).2

/- What is printed once the header has been read. -/
def Header.notices
    (header : Header)
    (o : Options) : List String :=
  let variableCount := header.variableCount
  let clauseCount := header.clauseCount
  o.log 0
    s!"parsed 'p cnf {variableCount} {clauseCount}' header"

------------------------------------------------------------
-- Problems
------------------------------------------------------------

/-
  The outcome of a reading that got as far as the clauses.
-/
def Outcome.complete
    (p : Preamble)
    (header : Header)
    (t : Tally)
    (result : EStateM.Result ParseError Cursor Nat) :
      Outcome :=
  let settled :=
    settle
      (match result with
      | .ok parsed c =>
          .ok { header := header, parsed := parsed } c
      | .error e c => .error e c)
  { result := settled.1
    events :=
      .reserve header.variableCount :: t.events.toList
    options := p.options
    printed := p.printed ++ header.notices p.options
    cursor := settled.2 }

/- Read a problem with the given options to start from. -/
def parseProblem
    (strictness : Strictness)
    (o : Options)
    (c : Cursor) : Outcome :=
  match Parser.header strictness o c with
  | (p, .error e c₁) => .early p e c₁
  | (p, .ok header c₁) =>
      match Parser.body strictness header .empty c₁ with
      | (t, result) => .complete p header t result

end Dimacs
