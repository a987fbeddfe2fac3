import Dimacs.Literal
import Dimacs.Storage.Buffer

/-
  Clauses in a flat buffer: the literals of all clauses
  back to back, and a table of offsets that ends with a
  sentinel behind the last literal.

  Key definitions include:
    * `ClauseStore`
    * `ClauseStore.push`
    * `ClauseStore.clause`
    * `ClauseStore.range`
-/

namespace Dimacs

------------------------------------------------------------
-- Clause Stores
------------------------------------------------------------

/-
  Clause `i` occupies the literals from offset `i` up to
  offset `i + 1`.
-/
structure ClauseStore where
  literals : Buffer 4 Literal
  offsets : Buffer 8 Nat

namespace ClauseStore

/-
  A store without clauses, which holds the sentinel only.
-/
def empty : ClauseStore where
  literals := .empty
  offsets := Buffer.empty.push 0

/- The number of clauses. -/
def size
    (s : ClauseStore) : Nat :=
  s.offsets.size - 1

/- The number of literals in all clauses. -/
def literalCount
    (s : ClauseStore) : Nat :=
  s.literals.size

/- Append a clause, which may be empty. -/
def push
    (s : ClauseStore)
    (clause : Array Literal) : ClauseStore :=
  match s with
  | ⟨literals, offsets⟩ =>
      let literals := literals.extend clause
      let stop := literals.size
      ⟨literals, offsets.push stop⟩

/- The positions at which a clause starts and stops. -/
def range
    (s : ClauseStore)
    (index : Nat) : Except Violation (Nat × Nat) := do
  Check.require (index < s.size)
  let start ← s.offsets.get index
  let stop ← s.offsets.get (index + 1)
  pure (start, stop)

/- The literals of a clause. -/
def clause
    (s : ClauseStore)
    (index : Nat) : Except Violation (Array Literal) := do
  let (start, stop) ← s.range index
  s.literals.slice start stop

/-
  Give back the room reserved for clauses that never came.
-/
def shrink
    (s : ClauseStore) : ClauseStore where
  literals := s.literals.shrink
  offsets := s.offsets.shrink

/- The number of bytes the clauses occupy. -/
def heapSpace
    (s : ClauseStore) : Nat :=
  s.literals.heapSpace + s.offsets.heapSpace

end ClauseStore

end Dimacs
