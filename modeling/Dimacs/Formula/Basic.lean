import Dimacs.Formula.Translation
import Dimacs.Problem.Body
import Dimacs.Storage.ClauseStore
import Dimacs.Storage.Table

/-
  The storage of a problem: its clauses over internal
  variables, the translation of the variables, and the
  hints that belong to them.

  Key definitions include:
    * `Formula`
    * `Formula.reserve`
    * `Formula.add`
    * `Formula.applyEvents`
    * `Formula.externalClause`
-/

namespace Dimacs

------------------------------------------------------------
-- Formulas
------------------------------------------------------------

/-
  A problem as it is stored. The pending literals are those
  of the clause that is being added; initial and neural
  phases are polarity hints of different origin. A formula
  is inconsistent once the empty clause was added.
-/
structure Formula where
  translation : Translation
  clauses : ClauseStore
  pending : Buffer 4 Literal
  initial : Table 1 Phase
  neural : Table 1 Phase
  order : Buffer 4 Variable
  inconsistent : Bool
  reserved : Nat

namespace Formula

/- A formula to which nothing was added. -/
def empty : Formula where
  translation := .empty
  clauses := .empty
  pending := .empty
  initial := .empty
  neural := .empty
  order := .empty
  inconsistent := false
  reserved := 0

/- The number of distinct variables that occur. -/
def variableCount
    (f : Formula) : Nat :=
  f.translation.size

/- The number of finished clauses. -/
def clauseCount
    (f : Formula) : Nat :=
  f.clauses.size

/- The number of literals in finished clauses. -/
def literalCount
    (f : Formula) : Nat :=
  f.clauses.literalCount

/- There are literals behind the last end of a clause. -/
def hasOpenClause
    (f : Formula) : Bool :=
  decide (f.pending.size ≠ 0)

------------------------------------------------------------
-- Adding
------------------------------------------------------------

/- Prepare for the declared number of variables. -/
def reserve
    (count : Nat)
    (f : Formula) : Formula :=
  match f with
  | ⟨translation, clauses, pending, initial, neural, order,
      inconsistent, _⟩ =>
      ⟨translation.reserve count, clauses, pending,
        initial.grow count .unset, neural.grow count .unset,
        order, inconsistent, count⟩

/- Finish the clause that is being added. -/
def endClause
    (f : Formula) : Formula :=
  match f with
  | ⟨translation, clauses, pending, initial, neural, order,
      inconsistent, reserved⟩ =>
      ⟨translation, clauses.push pending.items,
        pending.clear, initial, neural, order,
        inconsistent || decide (pending.size = 0), reserved⟩

/-
  Append a literal to the clause that is being added. Every
  variable that occurs has a place for its phases.
-/
def addLiteral
    (index : Nat)
    (negative : Bool)
    (f : Formula) : Except Violation Formula :=
  match f with
  | ⟨translation, clauses, pending, initial, neural, order,
      inconsistent, reserved⟩ => do
      let (v, translation) ←
        translation.importVariable index
      let size := translation.size
      let l ← v.literal negative
      pure ⟨translation, clauses, pending.push l,
        initial.grow size .unset, neural.grow size .unset,
        order, inconsistent, reserved⟩

/-
  Add a literal to the current clause; zero ends the clause.
-/
def add
    (value : Int)
    (f : Formula) : Except Violation Formula :=
  if value = 0 then .ok f.endClause
  else do
    Check.require (value.natAbs ≤ maxVariable)
    f.addLiteral value.natAbs (decide (value < 0))

/- Do what a reader asked for. -/
def applyEvent
    (f : Formula) : Event → Except Violation Formula
  | .reserve count => .ok (f.reserve count)
  | .add value => f.add value

/- Do all that a reader asked for, in order. -/
def applyEvents
    (f : Formula) : List Event → Except Violation Formula
  | [] => .ok f
  | event :: rest =>
      match f.applyEvent event with
      | .ok f' => f'.applyEvents rest
      | .error violation => .error violation

------------------------------------------------------------
-- Clauses
------------------------------------------------------------

/- The literals of a clause. -/
def clause
    (f : Formula)
    (index : Nat) : Except Violation (List Literal) := do
  let literals ← f.clauses.clause index
  pure literals.toList

/- A clause as it stood in the file. -/
def externalClause
    (f : Formula)
    (index : Nat) : Except Violation (List Int) := do
  let literals ← f.clause index
  literals.mapM f.translation.exportLiteral

/- All clauses as they stood in the file. -/
def externalClauses
    (f : Formula) : Except Violation (List (List Int)) :=
  (List.range f.clauseCount).mapM f.externalClause

end Formula

end Dimacs
