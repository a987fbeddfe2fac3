import Dimacs.Problem.Parse
import Dimacs.Proofs.Clauses.Steps
import Dimacs.Proofs.Header.Comment
import Dimacs.Proofs.Header.Steps
import Dimacs.Proofs.Position.Tracking

/-
  Every reader of a problem keeps track. None of them fails
  a check of the library, and the clauses are only read to
  the end by seeing the end of file.

  Key definitions include:
    * `Parser.HasFound`

  Main statements:
    * `Parser.tracks_skipComment`
    * `Parser.tracks_headerLine`
    * `Parser.lands_header`
    * `Parser.tracks_token`
    * `Parser.lands_body`
-/

namespace Dimacs

namespace Parser

variable {α : Type}
variable {start : Cursor}

/-
  A result is at a known place if it is so
  without its value.
-/
theorem lands_of_outline
    {place : Cursor → Prop}
    {r : EStateM.Result ParseError Cursor α}
    (h : Lands start (fun _ c => place c) (outline r)) :
    Lands start (fun _ c => place c) r := by
  cases r with
  | ok a c =>
      cases h with
      | ok h => exact .ok h
  | error e c =>
      cases h with
      | malformed h => exact .malformed h

section

variable (hFresh : start.IsFresh)

include hFresh

------------------------------------------------------------
-- Lines before the Header
------------------------------------------------------------

theorem tracks_skipComment
    (ahead : Option UInt8) :
    Tracks start (start.HasSeen ahead) (skipComment ahead)
      (fun _ c => start.HasReached c) := by
  intro c hc
  fun_induction skipComment ahead c with
  | case1 c => exact tracks_fail_at_end c hc
  | case2 c => exact .ok hc.hasReached
  | case3 c hFeed =>
      exact (tracks_finishLine hFresh c hc.hasReached).mono
        fun _ _ => Cursor.HasSeen.hasReached
  | case4 c b hFeed hReturn ih =>
      exact ih (hc.hasReached.next hFresh rfl)

/-
  Directives make no difference to where a
  comment line ends.
-/
theorem tracks_headerComment
    (enabled : Bool) :
    Tracks start start.HasReached (headerComment enabled)
      (fun _ c => start.HasReached c) := by
  intro c hc
  apply lands_of_outline
  rw [outline_headerComment]
  exact tracks_skipComment hFresh _ _ (hc.next hFresh rfl)

theorem tracks_emptyLine
    (strictness : Strictness) :
    Tracks start (start.HasSeen (some Byte.lineFeed))
      (if strictness.IsPedantic then
        failBefore (some Byte.lineFeed) .emptyLine
      else pure (none : Option Directive))
      (fun _ c => start.HasReached c) :=
  tracks_ite (fun _ => tracks_failBefore hFresh nofun)
    (fun _ =>
      tracks_pure fun _ => Cursor.HasSeen.hasReached)

theorem tracks_preambleLine
    (strictness : Strictness)
    (enabled : Bool)
    (first : UInt8) :
    Tracks start (start.HasSeen (some first))
      (preambleLine strictness enabled first)
      (fun _ c => start.HasReached c) := by
  apply tracks_ite
  · intro _
    exact tracks_bind ((tracks_finishLine hFresh).behind _)
      fun _ => tracks_emptyLine hFresh strictness
  · intro _
    apply tracks_ite
    · rintro rfl
      exact tracks_emptyLine hFresh strictness
    · intro hFeed
      apply tracks_ite
      · intro _
        exact (tracks_headerComment hFresh enabled).behind _
      · intro _
        exact tracks_fail_at_byte hFeed

theorem lands_preamble
    {c : Cursor}
    (strictness : Strictness)
    (atStart : Bool)
    (p : Preamble)
    (hc : start.HasReached c) :
    Lands start (fun _ c => start.HasReached c)
      (preamble strictness atStart p c).2 := by
  fun_induction preamble strictness atStart p c with
  | case1 atStart p c c₁ hNext =>
      exact tracks_fail_at_end c₁ (hc.next hFresh hNext)
  | case2 atStart p c c₁ hNext =>
      exact .ok (hc.next hFresh hNext).hasReached
  | case3 atStart p c b c₁ hNext hHeader directive c₂ hLine
        ih =>
      have hTracks :=
        tracks_preambleLine hFresh strictness p.enabled b
      exact ih (hTracks.of_ok (hc.next hFresh hNext) hLine)
  | case4 atStart p c b c₁ hNext hHeader e c₂ hLine =>
      have hTracks :=
        tracks_preambleLine hFresh strictness p.enabled b
      exact hTracks.of_error (hc.next hFresh hNext) hLine

------------------------------------------------------------
-- The Header Line
------------------------------------------------------------

theorem tracks_fieldStart
    (strictness : Strictness) :
    Tracks start start.HasReached (fieldStart strictness)
      (fun ahead c => start.HasSeen ahead c) :=
  tracks_ite (fun _ => tracks_byte hFresh)
    (fun _ => tracks_byteAfterBlanks hFresh)

theorem tracks_expect
    (expected : UInt8)
    (fault : Fault)
    (hFault : fault ≠ .expectedClauses)
    (ahead : Option UInt8) :
    Tracks start (start.HasSeen ahead)
      (expect expected fault ahead)
      (fun ahead c => start.HasSeen ahead c) :=
  tracks_ite
    (fun _ => (tracks_byte hFresh).behind _)
    (fun _ => tracks_failBefore hFresh hFault)

theorem tracks_formatName
    (strictness : Strictness) :
    Tracks start start.HasReached (formatName strictness)
      (fun ahead c => start.HasSeen ahead c) := by
  refine tracks_bind (tracks_byte hFresh) fun _ =>
    tracks_ite ?_ ?_
  · intro _
    refine tracks_bind
      ((tracks_fieldStart hFresh strictness).behind _)
      fun _ => ?_
    refine tracks_bind
      (tracks_expect hFresh _ .letterCAfterP nofun _)
      fun _ => ?_
    refine tracks_bind
      (tracks_expect hFresh _ .letterNAfterPC nofun _)
      fun _ => ?_
    refine tracks_bind
      (tracks_expect hFresh _ .letterFAfterPCN nofun _)
      fun _ => ?_
    exact tracks_ite
      (fun _ =>
        (tracks_fieldStart hFresh strictness).behind _)
      (fun _ => tracks_failBefore hFresh nofun)
  · intro _
    exact tracks_failBefore hFresh nofun

theorem tracks_variablesField
    (ahead : Option UInt8) :
    Tracks start (start.HasSeen ahead)
      (variablesField ahead)
      (fun r c => start.HasSeen r.2 c) := by
  cases ahead with
  | none => exact tracks_failBefore hFresh nofun
  | some b =>
      apply tracks_ite
      · intro hDigit
        have hNumber := tracks_number hFresh maxVariable
          .variablesTooLarge (by decide) hDigit
        exact hNumber.mono
          (fun _ => Cursor.HasSeen.hasReached)
          (fun _ _ h => h.2)
      · intro _
        exact tracks_failBefore hFresh nofun

theorem tracks_afterVariables
    (ahead : Option UInt8) :
    Tracks start (start.HasSeen ahead)
      (afterVariables ahead)
      (fun _ c => start.HasReached c) := by
  cases ahead with
  | none => exact tracks_fail_at_end
  | some b =>
      apply tracks_ite
      · intro _
        exact tracks_bind
          ((tracks_finishLine hFresh).behind _) fun _ =>
          tracks_failBefore hFresh nofun
      · intro _
        apply tracks_ite
        · rintro rfl
          exact tracks_failBefore hFresh nofun
        · intro hFeed
          exact tracks_ite
            (fun _ =>
              tracks_pure fun _ =>
                Cursor.HasSeen.hasReached)
            (fun _ => tracks_fail_at_byte hFeed)

/-
  The one error that does not look at what was seen last.
-/
theorem tracks_clausesField
    (ahead : Option UInt8) :
    Tracks start (start.HasSeen ahead) (clausesField ahead)
      (fun r c => start.HasSeen r.2 c) := by
  cases ahead with
  | none => exact tracks_fail_at_end
  | some b =>
      apply tracks_ite
      · intro hDigit
        have hNumber :=
          tracks_number hFresh Check.maxUnsigned64
            .clausesTooLarge (by decide) hDigit
        exact hNumber.mono
          (fun _ => Cursor.HasSeen.hasReached)
          (fun _ _ h => h.2)
      · intro _
        exact tracks_fail fun _ => rfl

theorem tracks_headerEnd
    (ahead : Option UInt8) :
    Tracks start (start.HasSeen ahead) (headerEnd ahead)
      (fun _ c => start.HasReached c) := by
  cases ahead with
  | none => exact tracks_fail_at_end
  | some b =>
      apply tracks_ite
      · intro _
        exact (tracks_finishLine hFresh).mono
          (fun _ => Cursor.HasSeen.hasReached)
          (fun _ _ => Cursor.HasSeen.hasReached)
      · intro _
        exact tracks_ite
          (fun _ =>
            tracks_pure fun _ => Cursor.HasSeen.hasReached)
          tracks_fail_at_byte

theorem tracks_afterClauses
    (strictness : Strictness)
    (ahead : Option UInt8) :
    Tracks start (start.HasSeen ahead)
      (afterClauses strictness ahead)
      (fun _ c => start.HasReached c) := by
  rw [afterClauses_eq]
  apply tracks_ite
  · rintro rfl
    exact tracks_fail_at_end
  · intro _
    have hGap :
        Tracks start (start.HasSeen ahead)
          (if strictness.IsPedantic then pure ahead
          else skipBlanks ahead)
          (fun ahead c => start.HasSeen ahead c) :=
      tracks_ite (fun _ => tracks_pure fun _ => id)
        (fun _ => tracks_skipBlanks hFresh ahead)
    exact tracks_bind hGap fun ahead =>
      tracks_headerEnd hFresh ahead

theorem tracks_headerLine
    (strictness : Strictness) :
    Tracks start start.HasReached (headerLine strictness)
      (fun _ c => start.HasReached c) := by
  refine tracks_bind (tracks_formatName hFresh strictness)
    fun _ => ?_
  refine tracks_bind (tracks_variablesField hFresh _)
    fun _ => ?_
  refine tracks_bind (tracks_afterVariables hFresh _)
    fun _ => ?_
  refine tracks_bind (tracks_fieldStart hFresh strictness)
    fun _ => ?_
  refine tracks_bind (tracks_clausesField hFresh _) fun _ =>
    ?_
  refine tracks_bind
    (tracks_afterClauses hFresh strictness _) fun _ => ?_
  exact tracks_pure fun _ => id

/-
  The header ends at a known place, whether it is
  read or rejected.
-/
theorem lands_header
    {c : Cursor}
    (strictness : Strictness)
    (o : Options)
    (hc : start.HasReached c) :
    Lands start (fun _ c => start.HasReached c)
      (header strictness o c).2 := by
  have hPreamble := lands_preamble hFresh strictness true
    { options := o, printed := [] } hc
  unfold header
  generalize preamble strictness true
        { options := o, printed := [] } c =
      r at hPreamble ⊢
  rcases r with ⟨p, result⟩
  cases hPreamble with
  | ok h => exact tracks_headerLine hFresh strictness _ h
  | malformed h => exact .malformed h

------------------------------------------------------------
-- Tokens
------------------------------------------------------------

omit hFresh in
/-
  Where a token leaves the reading: a numeral with the byte
  at which it was seen to end, and the end of the text only
  at the end of file.
-/
def HasFound
    (start : Cursor) : Token → Cursor → Prop
  | .gap, c => start.HasReached c
  | .finish, c => start.HasSeen none c
  | .numeral _ index ahead, c =>
      index ≤ maxVariable ∧ start.HasSeen ahead c

theorem tracks_clauseComment
    (strictness : Strictness)
    (fault : Fault) :
    Tracks start start.HasReached
      (clauseComment strictness fault)
      (fun ahead c => start.HasSeen ahead c) := by
  intro c hc
  fun_induction clauseComment strictness fault c with
  | case1 c c₁ hNext => exact .ok (hc.next hFresh hNext)
  | case2 c b c₁ hNext hFeed ih =>
      exact ih (hc.next hFresh hNext).hasReached
  | case3 c c₁ hNext hPedantic =>
      exact tracks_fail_at_end c₁ (hc.next hFresh hNext)
  | case4 c c₁ hNext hPedantic =>
      exact .ok (hc.next hFresh hNext)

theorem tracks_digitAfterMinus :
    Tracks start start.HasReached digitAfterMinus
      (fun digit c =>
        Byte.IsDigit digit ∧
        start.HasSeen (some digit) c) := by
  refine tracks_bind (tracks_byte hFresh) fun ahead => ?_
  cases ahead with
  | none => exact tracks_fail_at_end
  | some b =>
      refine tracks_ite
        (fun _ => tracks_failBefore hFresh nofun)
        fun hFeed => ?_
      refine tracks_ite (fun _ => tracks_fail_at_byte hFeed)
        fun _ => ?_
      exact tracks_ite
        (fun hDigit => tracks_pure fun _ hc => ⟨hDigit, hc⟩)
        (fun _ => tracks_fail_at_byte hFeed)

theorem tracks_afterNumeral
    (strictness : Strictness)
    (index : Nat)
    (ahead : Option UInt8) :
    Tracks start (start.HasSeen ahead)
      (afterNumeral strictness index ahead)
      (fun ahead c => start.HasSeen ahead c) := by
  cases ahead with
  | none =>
      exact tracks_ite (fun _ => tracks_fail_at_end)
        (fun _ => tracks_pure fun _ => id)
  | some b =>
      apply tracks_ite
      · intro _
        exact tracks_bind
          ((tracks_finishLine hFresh).behind _) fun _ =>
          tracks_pure fun _ => id
      · intro _
        apply tracks_ite
        · intro _
          exact (tracks_clauseComment hFresh strictness
              _).behind _
        · intro _
          apply tracks_ite
          · intro _
            exact tracks_pure fun _ => id
          · intro hOther
            exact tracks_fail_at_byte fun hFeed =>
              hOther (.inr hFeed)

theorem tracks_numeral
    (strictness : Strictness)
    (negative : Bool)
    {first : UInt8}
    (hFirst : Byte.IsDigit first) :
    Tracks start start.HasReached
      (numeral strictness negative first)
      (HasFound start) := by
  refine tracks_bind
    (tracks_number hFresh _ _ (by decide) hFirst) fun r =>
    ?_
  refine tracks_of_and fun hIndex => ?_
  refine tracks_bind
    (tracks_afterNumeral hFresh strictness r.1 r.2) fun _ =>
    ?_
  exact tracks_pure fun _ hc => ⟨hIndex, hc⟩

theorem tracks_tokenFrom
    (strictness : Strictness)
    (first : UInt8) :
    Tracks start (start.HasSeen (some first))
      (tokenFrom strictness first) (HasFound start) := by
  apply tracks_ite
  · intro _
    exact tracks_pure fun _ => Cursor.HasSeen.hasReached
  · intro hGap
    apply tracks_ite
    · intro _
      exact tracks_bind
        ((tracks_finishLine hFresh).behind _) fun _ =>
        tracks_pure fun _ => Cursor.HasSeen.hasReached
    · intro _
      apply tracks_ite
      · intro _
        refine tracks_bind
          ((tracks_clauseComment hFresh strictness _).behind
            _) fun ahead => ?_
        cases ahead with
        | none => exact tracks_pure fun _ => id
        | some b =>
            exact tracks_pure fun _ =>
              Cursor.HasSeen.hasReached
      · intro _
        apply tracks_ite
        · intro _
          refine tracks_bind
            ((tracks_digitAfterMinus hFresh).behind _)
            fun digit => ?_
          refine tracks_of_and fun hDigit => ?_
          exact (tracks_numeral hFresh strictness true
              hDigit).behind _
        · intro _
          exact tracks_ite
            (fun hDigit =>
              (tracks_numeral hFresh strictness false
                  hDigit).behind _)
            (fun _ =>
              tracks_fail_at_byte fun hFeed =>
                hGap (.inr hFeed))

theorem tracks_token
    (strictness : Strictness) :
    Tracks start start.HasReached (token strictness)
      (HasFound start) := by
  refine tracks_bind (tracks_byte hFresh) fun ahead => ?_
  cases ahead with
  | none => exact tracks_pure fun _ => id
  | some b => exact tracks_tokenFrom hFresh strictness b

------------------------------------------------------------
-- Clauses
------------------------------------------------------------

/-
  An index that a variable may have always makes a literal.
-/
theorem tracks_accept
    (strictness : Strictness)
    (declared : Header)
    (parsed : Nat)
    (negative : Bool)
    {index : Nat}
    (hIndex : index ≤ maxVariable)
    (ahead : Option UInt8) :
    Tracks start (start.HasSeen ahead)
      (accept strictness declared parsed negative index
        ahead) (fun _ c => start.HasReached c) := by
  refine tracks_ite
    (fun _ => tracks_failBefore hFresh nofun) fun _ => ?_
  refine tracks_ite
    (fun _ => tracks_failBefore hFresh nofun) fun _ => ?_
  intro c hc
  rw [literal_eq negative hIndex]
  exact .ok hc.hasReached

omit hFresh in
theorem tracks_closeBody
    (strictness : Strictness)
    (declared : Header)
    (t : Tally) :
    Tracks start (start.HasSeen none)
      (closeBody strictness declared t)
      (fun _ c => start.HasSeen none c) :=
  tracks_ite (fun _ => tracks_fail_at_end)
    (fun _ =>
      tracks_ite (fun _ => tracks_fail_at_end)
        (fun _ => tracks_pure fun _ => id))

/-
  The clauses are read to the end of file, or rejected at
  a known place.
-/
theorem lands_body
    {c : Cursor}
    (strictness : Strictness)
    (declared : Header)
    (t : Tally)
    (hc : start.HasReached c) :
    Lands start (fun _ c => start.HasSeen none c)
      (body strictness declared t c).2 := by
  have hTokens := tracks_token hFresh strictness
  fun_induction body strictness declared t c with
  | case1 t c e c₁ hToken =>
      exact hTokens.of_error hc hToken
  | case2 t c c₁ hToken =>
      exact tracks_closeBody strictness declared t c₁
        (hTokens.of_ok hc hToken)
  | case3 t c c₁ hToken ih =>
      exact ih (hTokens.of_ok hc hToken)
  | case4 t c negative index ahead c₁ hToken e c₂ hAccept =>
      rcases hTokens.of_ok hc hToken with ⟨hIndex, hSeen⟩
      have hTracks := tracks_accept hFresh strictness
        declared t.parsed negative hIndex ahead
      exact hTracks.of_error hSeen hAccept
  | case5 t c negative index ahead c₁ hToken value c₂
        hAccept ih =>
      rcases hTokens.of_ok hc hToken with ⟨hIndex, hSeen⟩
      have hTracks := tracks_accept hFresh strictness
        declared t.parsed negative hIndex ahead
      exact ih (hTracks.of_ok hSeen hAccept)

end

end Parser

end Dimacs
