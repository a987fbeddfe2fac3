import Dimacs.Literal
import Dimacs.Storage.Buffer

/-
  A table indexed by variables. It never grows on its own:
  its size is set once the number of variables is known.

  Key definitions include:
    * `Table`
    * `Table.grow`
    * `Table.tryGrow`
    * `Table.fill`
    * `Table.get`
    * `Table.set`
-/

namespace Dimacs

------------------------------------------------------------
-- Tables
------------------------------------------------------------

/- One element for each variable below the size. -/
structure Table (width : Nat) (α : Type) where
  buffer : Buffer width α

namespace Table

variable {width : Nat} {α : Type}

/- A table without elements. -/
def empty : Table width α where
  buffer := .empty

/- The number of elements. -/
def size
    (t : Table width α) : Nat :=
  t.buffer.size

/- The elements in the order of their variables. -/
def toList
    (t : Table width α) : List α :=
  t.buffer.toList

/- The number of bytes the table occupies. -/
def heapSpace
    (t : Table width α) : Nat :=
  t.buffer.heapSpace

/- Extend a table to a size; it never becomes smaller. -/
def grow
    (t : Table width α)
    (size : Nat)
    (x : α) : Table width α :=
  if t.size < size then
    ⟨(t.buffer.reserveExact (size - t.size)).resize size x⟩
  else t

/-
  Extend a table, unless the allocation would
  become too large.
-/
def tryGrow
    (t : Table width α)
    (size : Nat)
    (x : α) : Except Violation (Table width α) :=
  match Check.allocation
      (t.buffer.reserveExact (size - t.size)).heapSpace with
  | .ok () => .ok (t.grow size x)
  | .error violation => .error violation

/- Give every element the same value. -/
def fill
    (t : Table width α)
    (x : α) : Table width α :=
  match t with
  | ⟨⟨items, capacity⟩⟩ =>
      ⟨⟨items.map (fun _ => x), capacity⟩⟩

/-
  Replace the elements by those of a list, as far
  as both reach.
-/
def overwrite
    (t : Table width α)
    (xs : Array α) : Table width α :=
  match t with
  | ⟨⟨items, capacity⟩⟩ =>
      ⟨⟨items.mapIdx (fun index x => xs[index]?.getD x),
        capacity⟩⟩

/- The element of a variable. -/
def get
    (t : Table width α)
    (v : Variable) : Except Violation α :=
  t.buffer.get v.index

/- Replace the element of a variable. -/
def set
    (t : Table width α)
    (v : Variable)
    (x : α) : Except Violation (Table width α) :=
  match t with
  | ⟨buffer⟩ =>
      match buffer.set v.index x with
      | .ok buffer' => .ok ⟨buffer'⟩
      | .error violation => .error violation

end Table

end Dimacs
