import Dimacs.Byte
import Dimacs.Check
import Dimacs.Source

/-
  A cursor over a byte source. It counts lines, holds at
  most one byte of lookahead, and keeps a read failure
  until somebody takes it. While a failure is kept, the
  cursor reports end of file.

  Key definitions include:
    * `Cursor`
    * `Cursor.next`
    * `Cursor.peek`
    * `Cursor.takeIf`
    * `Cursor.unreadLine`
    * `Cursor.takeFailure`
    * `Cursor.readable`
    * `Cursor.remaining`
-/

namespace Dimacs

------------------------------------------------------------
-- Cursors
------------------------------------------------------------

/-
  The state of reading: what the source still holds and
  whether it has reported its end, a lookahead (which may
  be end of file), the line of the byte consumed last, the
  failure that waits to be taken, and the name used in
  diagnostics.
-/
structure Cursor where
  rest : Source
  ended : Bool
  lookahead : Option (Option UInt8)
  line : Nat
  failure : Option String
  name : String

namespace Cursor

/- A cursor before the first byte of a source. -/
def ofSource
    (source : Source)
    (name : String) : Cursor where
  rest := source
  ended := false
  lookahead := none
  line := 1
  failure := none
  name := name

/-
  Ask the source for its next byte. A failure is kept and
  reported as end of file, also by all later requests.
-/
def fetch
    (c : Cursor) : Option UInt8 × Cursor :=
  match c.failure with
  | some _ => (none, c)
  | none =>
      match c.rest with
      | [] => (none, { c with ended := true })
      | .byte b :: rest => (some b, { c with rest := rest })
      | .failure text :: rest =>
          (none,
            { c with rest := rest, failure := some text })

/-
  The lookahead if there is one, else what
  the source delivers.
-/
def draw
    (c : Cursor) : Option UInt8 × Cursor :=
  match c.lookahead with
  | some b => (b, { c with lookahead := none })
  | none => c.fetch

/- Consume one byte; a line feed starts a new line. -/
def next
    (c : Cursor) : Option UInt8 × Cursor :=
  match c.draw with
  | (some b, c') =>
      (some b,
        if b = Byte.lineFeed then
          { c' with line := c'.line + 1 }
        else c')
  | (none, c') => (none, c')

/- Look at the next byte without consuming it. -/
def peek
    (c : Cursor) : Option UInt8 × Cursor :=
  match c.lookahead with
  | some b => (b, c)
  | none =>
      match c.fetch with
      | (b, c') => (b, { c' with lookahead := some b })

/- Consume the next byte if it satisfies the test. -/
def takeIf
    (test : UInt8 → Bool)
    (c : Cursor) : Option UInt8 × Cursor :=
  match c.peek with
  | (some b, c') =>
      if test b then (some b, c'.next.2) else (none, c')
  | (none, c') => (none, c')

/-
  Undo the line count of a line feed that was read as the
  lookahead of a token. Only a line feed that was counted
  can be uncounted.
-/
def unreadLine
    (ahead : Option UInt8)
    (c : Cursor) : Except Violation Cursor :=
  if ahead = some Byte.lineFeed then
    match Check.require (1 < c.line) with
    | .ok () => .ok { c with line := c.line - 1 }
    | .error violation => .error violation
  else .ok c

/-
  Take the failure that ended the stream, if there was one.
-/
def takeFailure
    (c : Cursor) : Option String × Cursor :=
  (c.failure, { c with failure := none })

/-
  The bytes that can be read before the next failure or the
  end of file.
-/
def readable
    (c : Cursor) : List UInt8 :=
  let rest :=
    match c.failure with
    | none => c.rest.upcoming
    | some _ => []
  match c.lookahead with
  | none => rest
  | some (some b) => b :: rest
  | some none => []

/- A message together with the line it refers to. -/
def located
    (line : Nat)
    (message : String) : String :=
  s!"{message} at line {line}"

------------------------------------------------------------
-- Progress
------------------------------------------------------------

/-
  A bound on the number of bytes that can still be read:
  the items of the source and a byte of lookahead.
-/
def remaining
    (c : Cursor) : Nat :=
  c.rest.length +
    match c.lookahead with
    | some (some _) => 1
    | _ => 0

/- Consuming a byte brings the end nearer. -/
theorem remaining_next_add
    (c : Cursor) :
    c.next.2.remaining + c.next.1.isSome.toNat ≤
      c.remaining := by
  rcases c with
    ⟨rest, ended, lookahead, line, failure, name⟩
  rcases lookahead with _ | _ | b
  · rcases failure with _ | text
    · rcases rest with _ | ⟨_ | _, rest⟩
      · simp [next, draw, fetch, remaining]
      · simp only [next, draw, fetch, remaining]
        split <;> simp
      · simp [next, draw, fetch, remaining]
    · simp [next, draw, fetch, remaining]
  · simp [next, draw, remaining]
  · simp only [next, draw, remaining]
    split <;> simp

/- A consumed byte is no longer there. -/
theorem remaining_lt_of_next
    {c c' : Cursor}
    {b : UInt8}
    (h : c.next = (some b, c')) :
    c'.remaining < c.remaining := by
  have hStep := c.remaining_next_add
  rw [h] at hStep
  simp at hStep
  omega

/- At the end of file nothing is gained. -/
theorem remaining_le_of_next
    {c c' : Cursor}
    {b : Option UInt8}
    (h : c.next = (b, c')) :
    c'.remaining ≤ c.remaining := by
  have hStep := c.remaining_next_add
  rw [h] at hStep
  simp at hStep
  omega

/- Looking ahead loses nothing. -/
theorem remaining_peek
    (c : Cursor) :
    c.peek.2.remaining ≤ c.remaining := by
  rcases c with
    ⟨rest, ended, lookahead, line, failure, name⟩
  rcases lookahead with _ | _ | b
  · rcases failure with _ | text
    · rcases rest with _ | ⟨_ | _, rest⟩ <;>
        simp [peek, fetch, remaining]
    · simp [peek, fetch, remaining]
  · simp [peek, remaining]
  · simp [peek, remaining]

/- The byte that was looked at is the next one. -/
theorem next_peek
    (c : Cursor) :
    c.peek.2.next.1 = c.peek.1 := by
  rcases c with
    ⟨rest, ended, lookahead, line, failure, name⟩
  rcases lookahead with _ | _ | b
  · rcases hFetch :
        fetch ⟨rest, ended, none, line, failure, name⟩ with
      ⟨_ | b, c'⟩ <;>
      simp [peek, hFetch, next, draw]
  · simp [peek, next, draw]
  · simp [peek, next, draw]

/-
  Consuming a byte that was looked at brings the end nearer.
-/
theorem remaining_lt_of_peek
    {c c' : Cursor}
    {b : UInt8}
    (h : c.peek = (some b, c')) :
    c'.next.2.remaining < c.remaining := by
  have hPeek := c.remaining_peek
  have hNext := c.next_peek
  rw [h] at hPeek hNext
  have hStep := c'.remaining_next_add
  simp at hNext
  rw [hNext] at hStep
  simp at hStep hPeek
  omega

/- A byte that was taken is no longer there. -/
theorem remaining_lt_of_takeIf
    {test : UInt8 → Bool}
    {c c' : Cursor}
    {b : UInt8}
    (h : c.takeIf test = (some b, c')) :
    c'.remaining < c.remaining := by
  unfold takeIf at h
  split at h
  · next b' c'' hPeek =>
      split at h
      · simp at h
        rw [← h.2]
        exact remaining_lt_of_peek hPeek
      · simp at h
  · simp at h

/- Taking a byte or leaving it never brings bytes back. -/
theorem remaining_takeIf
    (test : UInt8 → Bool)
    (c : Cursor) :
    (c.takeIf test).2.remaining ≤ c.remaining := by
  unfold takeIf
  have hPeek := c.remaining_peek
  split
  · next b c' h =>
      rw [h] at hPeek
      split
      · exact Nat.le_of_lt (remaining_lt_of_peek h)
      · exact hPeek
  · next c' h =>
      rw [h] at hPeek
      exact hPeek

end Cursor

end Dimacs
