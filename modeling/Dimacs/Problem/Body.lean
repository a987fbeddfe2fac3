import Dimacs.Problem.Header

/-
  The clauses behind the header: tokens of the clause text,
  the limits the header sets, and the events they cause.

  Key definitions include:
    * `Event`
    * `Token`
    * `Parser.token`
    * `Tally`
    * `Parser.accept`
    * `Parser.closeBody`
    * `Parser.body`
-/

namespace Dimacs

------------------------------------------------------------
-- Events and Tokens
------------------------------------------------------------

/-
  What a reader tells the storage: prepare for a number of
  variables, or add a literal. Zero ends a clause.
-/
inductive Event where
  | reserve (count : Nat)
  | add (literal : Int)
deriving DecidableEq

/-
  A piece of the clause text: white space or a comment, the
  end of the text, or a numeral with the byte behind it.
-/
inductive Token where
  | gap
  | finish
  | numeral
      (negative : Bool)
      (index : Nat)
      (ahead : Option UInt8)

namespace Parser

------------------------------------------------------------
-- Tokens
------------------------------------------------------------

/-
  Skip the rest of a comment among the clauses. Pedantic
  reading insists on its line feed.
-/
def clauseComment
    (strictness : Strictness)
    (fault : Fault)
    (c : Cursor) :
      EStateM.Result ParseError Cursor (Option UInt8) :=
  match _h : c.next with
  | (some b, c') =>
      if b = Byte.lineFeed then .ok (some Byte.lineFeed) c'
      else clauseComment strictness fault c'
  | (none, c') =>
      if strictness.IsPedantic then fail fault c'
      else .ok none c'
termination_by c.remaining
decreasing_by exact Cursor.remaining_lt_of_next _h

/- The first digit behind a minus sign. -/
def digitAfterMinus : Parser UInt8 := do
  match ← byte with
  | none => fail .endAfterMinus
  | some b =>
      if b = Byte.lineFeed then
        failBefore (some b) .lineFeedAfterMinus
      else if b = Byte.zero then fail .nonzeroAfterMinus
      else if Byte.IsDigit b then pure b
      else fail .digitAfterMinus

/-
  What may stand behind a numeral: white space, a comment,
  or the end of the text. The result is the byte at which
  the numeral was seen to end.
-/
def afterNumeral
    (strictness : Strictness)
    (index : Nat)
    (ahead : Option UInt8) : Parser (Option UInt8) :=
  match ahead with
  | none =>
      if strictness.IsPedantic then
        fail
          (if index ≠ 0 then .endAfterLiteral
          else .endAfterZero)
      else pure none
  | some b =>
      if b = Byte.carriageReturn then do
        finishLine
        pure (some Byte.lineFeed)
      else if b = Byte.letterC then
        clauseComment strictness .endInCommentAfterLiteral
      else if Byte.IsBlank b ∨ b = Byte.lineFeed then
        pure (some b)
      else fail .spaceAfterLiteral

/-
  Read a numeral whose first digit was consumed, and
  what ends it.
-/
def numeral
    (strictness : Strictness)
    (negative : Bool)
    (first : UInt8) : Parser Token := do
  let (index, ahead) ←
    number maxVariable .indexTooLarge first
  let ahead ← afterNumeral strictness index ahead
  pure (.numeral negative index ahead)

/- Read one token whose first byte was consumed. -/
def tokenFrom
    (strictness : Strictness)
    (first : UInt8) : Parser Token :=
  if Byte.IsBlank first ∨ first = Byte.lineFeed then
    pure .gap
  else if first = Byte.carriageReturn then do
    finishLine
    pure .gap
  else if first = Byte.letterC then do
    match ← clauseComment strictness
        .endInClauseComment with
    | some _ => pure .gap
    | none => pure .finish
  else if first = Byte.minus then do
    let digit ← digitAfterMinus
    numeral strictness true digit
  else if Byte.IsDigit first then
    numeral strictness false first
  else fail .digitOrMinus

/- Read one token. -/
def token
    (strictness : Strictness) : Parser Token := do
  match ← byte with
  | none => pure .finish
  | some first => tokenFrom strictness first

------------------------------------------------------------
-- Progress
------------------------------------------------------------

theorem advances_clauseComment
    (strictness : Strictness)
    (fault : Fault) :
    Advances (clauseComment strictness fault) := by
  intro c a c'
  fun_induction clauseComment strictness fault c with
  | case1 c c₁ h =>
      intro hRun
      cases hRun
      exact Cursor.remaining_le_of_next h
  | case2 c b c₁ h hFeed ih =>
      intro hRun
      exact Nat.le_trans (ih hRun)
        (Cursor.remaining_le_of_next h)
  | case3 c c₁ h hPedantic =>
      intro hRun
      cases hRun
  | case4 c c₁ h hPedantic =>
      intro hRun
      cases hRun
      exact Cursor.remaining_le_of_next h

theorem advances_digitAfterMinus :
    Advances digitAfterMinus :=
  advances_bind advances_byte fun ahead => by
    rcases ahead with _ | b
    · exact advances_fail _
    · exact advances_ite (advances_failBefore _ _)
        (advances_ite (advances_fail _)
          (advances_ite (advances_pure _)
            (advances_fail _)))

theorem advances_afterNumeral
    (strictness : Strictness)
    (index : Nat)
    (ahead : Option UInt8) :
    Advances (afterNumeral strictness index ahead) := by
  rcases ahead with _ | b
  · exact advances_ite (advances_fail _) (advances_pure _)
  · exact advances_ite
      (advances_bind advances_finishLine fun _ =>
        advances_pure _)
      (advances_ite (advances_clauseComment _ _)
        (advances_ite (advances_pure _) (advances_fail _)))

theorem advances_numeral
    (strictness : Strictness)
    (negative : Bool)
    (first : UInt8) :
    Advances (numeral strictness negative first) :=
  advances_bind (advances_number _ _ _) fun _ =>
    advances_bind (advances_afterNumeral _ _ _) fun _ =>
      advances_pure _

theorem advances_tokenFrom
    (strictness : Strictness)
    (first : UInt8) :
    Advances (tokenFrom strictness first) :=
  advances_ite (advances_pure _)
    (advances_ite
      (advances_bind advances_finishLine fun _ =>
        advances_pure _)
      (advances_ite
        (advances_bind (advances_clauseComment _ _)
          fun ahead => by
            rcases ahead with _ | b <;>
              exact advances_pure _)
        (advances_ite
          (advances_bind advances_digitAfterMinus fun _ =>
            advances_numeral _ _ _)
          (advances_ite (advances_numeral _ _ _)
            (advances_fail _)))))

/-
  A token other than the end of the text consumes a byte.
-/
theorem remaining_lt_of_token
    {strictness : Strictness}
    {c c' : Cursor}
    {found : Token}
    (h : token strictness c = .ok found c')
    (hFound : found ≠ .finish) :
    c'.remaining < c.remaining := by
  simp only [token, bind, EStateM.bind, byte] at h
  rcases hNext : c.next with ⟨_ | b, c₁⟩
  · simp only [hNext] at h
    cases h
    exact absurd rfl hFound
  · simp only [hNext] at h
    exact Nat.lt_of_le_of_lt
      (advances_tokenFrom _ _ _ _ _ h)
      (Cursor.remaining_lt_of_next hNext)

end Parser

------------------------------------------------------------
-- Clauses
------------------------------------------------------------

/-
  What has been read of the clauses: the events so far, the
  number of finished clauses, and whether one is unfinished.
-/
structure Tally where
  events : Array Event
  parsed : Nat
  unfinished : Bool
deriving DecidableEq

namespace Tally

/- Nothing has been read. -/
def empty : Tally where
  events := #[]
  parsed := 0
  unfinished := false

/- Account for a literal or for the end of a clause. -/
def add
    (t : Tally)
    (literal : Int) : Tally where
  events := t.events.push (.add literal)
  parsed := if literal = 0 then t.parsed + 1 else t.parsed
  unfinished := decide (literal ≠ 0)

end Tally

namespace Parser

/-
  The literal with a given sign and index, held
  to its width.
-/
def literal
    (negative : Bool)
    (index : Nat) : Parser Int :=
  fun c =>
    match Check.int32
        (if negative then -(index : Int)
        else (index : Int)) with
    | .ok signed => .ok signed c
    | .error violation => .error (.violated violation) c

/-
  Compare a numeral with the header: its index must have
  been declared, and so must the clause that a zero ends.
  Relaxed reading compares nothing.
-/
def accept
    (strictness : Strictness)
    (header : Header)
    (parsed : Nat)
    (negative : Bool)
    (index : Nat)
    (ahead : Option UInt8) : Parser Int :=
  if ¬ strictness.IsRelaxed ∧
      header.variableCount < index then
    failBefore ahead .variableExceeded
  else if ¬ strictness.IsRelaxed ∧
      index = 0 ∧
      parsed = header.clauseCount then
    failBefore ahead .tooManyClauses
  else literal negative index

/-
  Compare what has been read with the header at the end
  of the text.
-/
def closeBody
    (strictness : Strictness)
    (header : Header)
    (t : Tally) : Parser Nat :=
  if t.unfinished then fail .zeroMissing
  else if ¬ strictness.IsRelaxed ∧
      t.parsed < header.clauseCount then
    fail
      (if t.parsed + 1 = header.clauseCount then
        .oneClauseMissing
      else .clausesMissing)
  else pure t.parsed

/- Read all clauses and tell how many there were. -/
def body
    (strictness : Strictness)
    (header : Header)
    (t : Tally)
    (c : Cursor) :
      Tally × EStateM.Result ParseError Cursor Nat :=
  match _h : token strictness c with
  | .error e c' => (t, .error e c')
  | .ok .finish c' => (t, closeBody strictness header t c')
  | .ok .gap c' => body strictness header t c'
  | .ok (.numeral negative index ahead) c' =>
      match _hAccept : accept strictness header t.parsed
          negative index ahead c' with
      | .error e c'' => (t, .error e c'')
      | .ok value c'' =>
          body strictness header (t.add value) c''
termination_by c.remaining
decreasing_by
  · exact remaining_lt_of_token _h nofun
  · refine Nat.lt_of_le_of_lt ?_
      (remaining_lt_of_token _h nofun)
    refine advances_ite (advances_failBefore _ _)
      (advances_ite (advances_failBefore _ _) ?_) _ _ _
      _hAccept
    intro c₁ a c₂ hLiteral
    unfold literal at hLiteral
    split at hLiteral
    · cases hLiteral
      exact Nat.le_refl _
    · cases hLiteral

end Parser

end Dimacs
