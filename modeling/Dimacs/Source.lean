/-
  A byte source: what a file or a stream delivers, byte by
  byte, with read failures at the places where they occur.

  Key definitions include:
    * `Item`
    * `Source`
    * `Source.ofBytes`
    * `Source.bytes`
    * `Source.failures`
    * `Source.upcoming`
-/

namespace Dimacs

------------------------------------------------------------
-- Items
------------------------------------------------------------

/-
  One delivery of a source: a byte, or the text of
  a read failure.
-/
inductive Item where
  | byte (value : UInt8)
  | failure (text : String)
deriving DecidableEq

/-
  A finite source; behind its last item there is only
  end of file.
-/
abbrev Source : Type :=
  List Item

namespace Source

/-
  A source that delivers the given bytes without failing.
-/
def ofBytes
    (bytes : List UInt8) : Source :=
  bytes.map Item.byte

/-
  The bytes of a source, in order, with the
  failures left out.
-/
def bytes : Source → List UInt8
  | [] => []
  | .byte b :: rest => b :: bytes rest
  | .failure _ :: rest => bytes rest

/- The failures of a source, in order. -/
def failures : Source → List String
  | [] => []
  | .byte _ :: rest => failures rest
  | .failure text :: rest => text :: failures rest

/- The bytes that come before the first failure. -/
def upcoming : Source → List UInt8
  | .byte b :: rest => b :: upcoming rest
  | .failure _ :: _ => []
  | [] => []

/- A source of bytes never fails. -/
theorem failures_ofBytes
    (bs : List UInt8) :
    failures (ofBytes bs) = [] := by
  induction bs with
  | nil => rfl
  | cons b rest ih =>
      simpa [ofBytes, failures] using ih

end Source

end Dimacs
