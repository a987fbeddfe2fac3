import Dimacs.Problem.Fault

/-
  Readers of a problem file, and the pieces that comments,
  header and clauses share: single bytes, errors at the
  right line, line ends, blank runs and bounded numbers.

  Key definitions include:
    * `Parser`
    * `Parser.Advances`
    * `Parser.fail`
    * `Parser.failBefore`
    * `Parser.finishLine`
    * `Parser.skipBlanks`
    * `Parser.number`
-/

namespace Dimacs

/-
  A reader that moves a cursor and may reject what it finds.
-/
abbrev Parser (α : Type) : Type :=
  EStateM ParseError Cursor α

namespace Parser

variable {α β : Type}

------------------------------------------------------------
-- Progress
------------------------------------------------------------

/- A successful reader never brings bytes back. -/
def Advances
    (p : Parser α) : Prop :=
  ∀ c a c', p c = .ok a c' → c'.remaining ≤ c.remaining

theorem advances_pure
    (a : α) :
    Advances (pure a) := by
  intro c a' c' h
  cases h
  exact Nat.le_refl _

theorem advances_bind
    {p : Parser α}
    {f : α → Parser β}
    (hp : Advances p)
    (hf : ∀ a, Advances (f a)) :
    Advances (p >>= f) := by
  intro c b c' h
  change EStateM.bind p f c = _ at h
  unfold EStateM.bind at h
  split at h
  · next a c₁ hFirst =>
      exact Nat.le_trans (hf a c₁ b c' h) (hp c a c₁ hFirst)
  · cases h

theorem advances_ite
    {condition : Prop}
    [Decidable condition]
    {p q : Parser α}
    (hp : Advances p)
    (hq : Advances q) :
    Advances (if condition then p else q) := by
  split
  · exact hp
  · exact hq

------------------------------------------------------------
-- Bytes and Errors
------------------------------------------------------------

/- Consume one byte. -/
def byte : Parser (Option UInt8) :=
  fun c => .ok c.next.1 c.next.2

/- Reject the input at the current line. -/
def fail
    (fault : Fault) : Parser α :=
  fun c => .error (.malformed c.line fault) c

/- Hold the library to a condition it relies on. -/
def require
    (condition : Prop)
    [Decidable condition] : Parser Unit :=
  fun c =>
    match Check.require condition with
    | .ok () => .ok () c
    | .error violation => .error (.violated violation) c

/- Uncount a line feed that was read as a lookahead. -/
def unreadLine
    (ahead : Option UInt8) : Parser Unit :=
  fun c =>
    match c.unreadLine ahead with
    | .ok c' => .ok () c'
    | .error violation => .error (.violated violation) c

/-
  Reject the input at the line of a token,
  before its lookahead.
-/
def failBefore
    (ahead : Option UInt8)
    (fault : Fault) : Parser α := do
  unreadLine ahead
  fail fault

theorem advances_byte :
    Advances byte := by
  intro c a c' h
  cases h
  exact Cursor.remaining_le_of_next rfl

theorem advances_fail
    (fault : Fault) :
    Advances (fail fault : Parser α) := by
  intro c a c' h
  cases h

theorem advances_require
    (condition : Prop)
    [Decidable condition] :
    Advances (require condition) := by
  intro c a c' h
  unfold require at h
  split at h
  · cases h
    exact Nat.le_refl _
  · cases h

theorem advances_failBefore
    (ahead : Option UInt8)
    (fault : Fault) :
    Advances (failBefore ahead fault : Parser α) := by
  intro c a c' h
  change EStateM.bind (unreadLine ahead)
      (fun _ => fail fault) c =
    _ at h
  unfold EStateM.bind at h
  split at h
  · cases h
  · cases h

------------------------------------------------------------
-- Line Ends and Blank Runs
------------------------------------------------------------

/-
  Consume the line feed that has to follow
  a carriage return.
-/
def finishLine : Parser Unit := do
  let ahead ← byte
  if ahead = some Byte.lineFeed then pure ()
  else fail .loneCarriageReturn

/- The first byte that is no blank. -/
def pastBlanks
    (c : Cursor) : Option UInt8 × Cursor :=
  match _h : c.next with
  | (some b, c') =>
      if Byte.IsBlank b then pastBlanks c' else (some b, c')
  | (none, c') => (none, c')
termination_by c.remaining
decreasing_by exact Cursor.remaining_lt_of_next _h

/- Consume a blank run and the byte behind it. -/
def byteAfterBlanks : Parser (Option UInt8) :=
  fun c => .ok (pastBlanks c).1 (pastBlanks c).2

/-
  Skip a blank run that starts at a byte already consumed.
-/
def skipBlanks : Option UInt8 → Parser (Option UInt8)
  | some b =>
      if Byte.IsBlank b then byteAfterBlanks
      else pure (some b)
  | none => pure none

theorem advances_finishLine :
    Advances finishLine :=
  advances_bind advances_byte fun _ =>
    advances_ite (advances_pure ()) (advances_fail _)

theorem remaining_pastBlanks
    (c : Cursor) :
    (pastBlanks c).2.remaining ≤ c.remaining := by
  fun_induction pastBlanks c with
  | case1 c b c' h hBlank ih =>
      exact Nat.le_trans ih (Cursor.remaining_le_of_next h)
  | case2 c b c' h hBlank =>
      exact Cursor.remaining_le_of_next h
  | case3 c c' h =>
      exact Cursor.remaining_le_of_next h

theorem advances_byteAfterBlanks :
    Advances byteAfterBlanks := by
  intro c a c' h
  cases h
  exact remaining_pastBlanks c

theorem advances_skipBlanks
    (ahead : Option UInt8) :
    Advances (skipBlanks ahead) := by
  rcases ahead with _ | b
  · exact advances_pure none
  · exact advances_ite advances_byteAfterBlanks
      (advances_pure (some b))

------------------------------------------------------------
-- Bounded Numbers
------------------------------------------------------------

/-
  A value followed by a digit, computed in 64 bits, if it
  does not exceed the limit.
-/
def extend?
    (limit value : Nat)
    (b : UInt8) : Option Nat :=
  (Check.appendDigit? Check.maxUnsigned64 value
      (Byte.digit b)).filter
    (fun extended => decide (extended ≤ limit))

/-
  Read digits behind the given value, up to and including
  the byte behind the last digit. The digit that exceeds
  the limit is the last one consumed.
-/
def numberFrom
    (limit : Nat)
    (fault : Fault)
    (value : Nat)
    (c : Cursor) :
      EStateM.Result ParseError Cursor
        (Nat × Option UInt8) :=
  match _h : c.next with
  | (some b, c') =>
      if Byte.IsDigit b then
        match extend? limit value b with
        | some extended =>
            numberFrom limit fault extended c'
        | none => fail fault c'
      else .ok (value, some b) c'
  | (none, c') => .ok (value, none) c'
termination_by c.remaining
decreasing_by exact Cursor.remaining_lt_of_next _h

/-
  Read a number whose first digit was consumed, and the
  byte behind it.
-/
def number
    (limit : Nat)
    (fault : Fault)
    (first : UInt8) : Parser (Nat × Option UInt8) := do
  require (Byte.IsDigit first)
  numberFrom limit fault (Byte.digit first)

theorem advances_numberFrom
    (limit : Nat)
    (fault : Fault)
    (value : Nat) :
    Advances (numberFrom limit fault value) := by
  intro c a c'
  fun_induction numberFrom limit fault value c with
  | case1 value c b c₁ h hDigit extended hExtend ih =>
      intro hRun
      exact Nat.le_trans (ih hRun)
        (Cursor.remaining_le_of_next h)
  | case2 value c b c₁ h hDigit hExtend =>
      intro hRun
      cases hRun
  | case3 value c b c₁ h hDigit =>
      intro hRun
      cases hRun
      exact Cursor.remaining_le_of_next h
  | case4 value c c₁ h =>
      intro hRun
      cases hRun
      exact Cursor.remaining_le_of_next h

theorem advances_number
    (limit : Nat)
    (fault : Fault)
    (first : UInt8) :
    Advances (number limit fault first) :=
  advances_bind (advances_require _) fun _ =>
    advances_numberFrom limit fault (Byte.digit first)

end Parser

end Dimacs
