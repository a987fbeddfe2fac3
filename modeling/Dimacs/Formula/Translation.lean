import Dimacs.Literal
import Dimacs.Storage.Buffer

/-
  The translation between external variables, as they are
  numbered in a file, and internal ones, which are numbered
  from zero in the order of first occurrence.

  Key definitions include:
    * `Translation`
    * `Translation.reserve`
    * `Translation.importVariable`
    * `Translation.lookup`
    * `Translation.externalIndex`
    * `Translation.exportLiteral`
-/

namespace Dimacs

------------------------------------------------------------
-- Translations
------------------------------------------------------------

/-
  Two tables that are inverse to each other: the positive
  literal of each external index that occurred, and the
  external index of each internal variable.
-/
structure Translation where
  internal : Buffer 8 (Option Literal)
  external : Buffer 4 Nat

namespace Translation

/- A translation in which nothing has occurred. -/
def empty : Translation where
  internal := .empty
  external := .empty

/- The number of distinct variables that occurred. -/
def size
    (t : Translation) : Nat :=
  t.external.size

/- The number of bytes both tables occupy. -/
def heapSpace
    (t : Translation) : Nat :=
  t.internal.heapSpace + t.external.heapSpace

------------------------------------------------------------
-- Growth
------------------------------------------------------------

/-
  Make room for the indices up to a number, which is
  one of them.
-/
def cover
    (index : Nat)
    (internal : Buffer 8 (Option Literal)) :
      Buffer 8 (Option Literal) :=
  if internal.size ≤ index then
    internal.resize (index + 1) none
  else internal

/- Prepare for a number of variables. -/
def reserve
    (count : Nat)
    (t : Translation) : Translation :=
  match t with
  | ⟨internal, external⟩ =>
      ⟨cover count internal, external.reserveExact count⟩

/-
  The internal variable of an external index; a new one is
  made on its first occurrence.
-/
def importVariable
    (index : Nat)
    (t : Translation) :
      Except Violation (Variable × Translation) :=
  match t with
  | ⟨internal, external⟩ => do
      Check.require (0 < index)
      let internal := cover index internal
      match ← internal.get index with
      | some known => pure (known.var, ⟨internal, external⟩)
      | none =>
          let size ← Check.uint32 external.size
          let made ← Variable.literal ⟨size⟩ false
          let internal ← internal.set index (some made)
          pure (⟨size⟩, ⟨internal, external.push index⟩)

/-
  Give back the room reserved for variables that never came.
-/
def shrink
    (t : Translation) : Translation where
  internal := t.internal.shrink
  external := t.external.shrink

------------------------------------------------------------
-- Lookup
------------------------------------------------------------

/-
  The positive literal of an external index that occurred.
-/
def lookup
    (t : Translation)
    (index : Nat) : Option Literal :=
  match t.internal.items[index]? with
  | some found => found
  | none => none

/- The external index of an internal variable. -/
def externalIndex
    (t : Translation)
    (v : Variable) : Except Violation Nat :=
  t.external.get v.index

/- The signed external form of a literal. -/
def exportLiteral
    (t : Translation)
    (l : Literal) : Except Violation Int := do
  let magnitude ← t.externalIndex l.var
  Check.int32
    (if l.isNegative then -(magnitude : Int)
    else (magnitude : Int))

end Translation

end Dimacs
