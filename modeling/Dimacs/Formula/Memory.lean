import Dimacs.Formula.Basic

/-
  The memory a formula occupies, by part and in total, and
  the release of what was reserved in vain.

  Key definitions include:
    * `Formula.shrink`
    * `Formula.memoryParts`
    * `Formula.memoryTotal`
    * `Formula.heapSpace`
-/

namespace Dimacs

namespace Formula

/-
  Give back the room reserved for variables and clauses
  that never came.
-/
def shrink
    (f : Formula) : Formula :=
  { f with
    translation := f.translation.shrink
    clauses := f.clauses.shrink
    pending := f.pending.shrink }

/- The number of bytes each part occupies. -/
def memoryParts
    (f : Formula) : List (String × Nat) :=
  [("clauses", f.clauses.heapSpace),
    ("translation",
      f.translation.internal.heapSpace +
        f.translation.external.heapSpace),
    ("phases", f.initial.heapSpace + f.neural.heapSpace),
    ("rest", f.pending.heapSpace + f.order.heapSpace)]

/- The number of bytes of all parts together. -/
def memoryTotal
    (f : Formula) : Nat :=
  f.memoryParts.foldr (fun part total => part.2 + total) 0

/-
  The number of bytes a formula occupies: those of
  all its containers.
-/
def heapSpace
    (f : Formula) : Nat :=
  f.translation.heapSpace + f.clauses.heapSpace +
    f.pending.heapSpace + f.initial.heapSpace +
    f.neural.heapSpace + f.order.heapSpace

end Formula

end Dimacs
