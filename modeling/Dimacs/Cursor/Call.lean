import Dimacs.Cursor.Scan

/-
  Everything that can be asked of a cursor, as data, and the
  cursor that a call leaves behind.

  Key definitions include:
    * `Call`
    * `Cursor.perform`
-/

namespace Dimacs

/- A request to a cursor. -/
inductive Call where
  | next
  | peek
  | skipSpaces
  | scanChar (expected : UInt8)
  | scanInt
  | scanUnsigned
  | scanFloat
  | takeFailure
deriving DecidableEq

namespace Cursor

/- Where a scanner left the cursor, whatever it found. -/
def ofScan {α : Type} :
  EStateM.Result Violation Cursor α →
  Except Violation Cursor
  | .ok _ c => .ok c
  | .error violation _ => .error violation

/- Do what a call asks for. -/
def perform
    (c : Cursor) : Call → Except Violation Cursor
  | .next => .ok c.next.2
  | .peek => .ok c.peek.2
  | .skipSpaces => .ok c.skipSpaces
  | .scanChar expected => .ok (c.scanChar expected).2
  | .scanInt => ofScan (scanInt c)
  | .scanUnsigned => ofScan (scanUnsigned c)
  | .scanFloat => .ok (scanFloat c).2
  | .takeFailure => .ok c.takeFailure.2

end Cursor

end Dimacs
