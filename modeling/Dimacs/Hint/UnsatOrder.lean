import Dimacs.Cursor.Scan

/-
  Unsat-order files: external variable indices, separated
  by white space. The first malformed token ends the file.

  Key definitions include:
    * `UnsatOrder.read`
-/

namespace Dimacs

namespace UnsatOrder

/- Read all indices behind those given. -/
def readIndices
    (indices : Array Nat)
    (c : Cursor) :
      EStateM.Result Violation Cursor (Array Nat) :=
  match _h : c.scanUnsigned with
  | .error violation c' => .error violation c'
  | .ok none c' => .ok indices c'
  | .ok (some index) c' =>
      readIndices (indices.push index) c'
termination_by c.remaining
decreasing_by exact Cursor.remaining_lt_of_scanUnsigned _h

/- Read the indices of a file in order. -/
def read : Scanner (List Nat) :=
  fun c =>
    match readIndices #[] c with
    | .error violation c' => .error violation c'
    | .ok indices c' => .ok indices.toList c'

end UnsatOrder

end Dimacs
