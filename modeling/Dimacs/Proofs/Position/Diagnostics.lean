import Dimacs.Proofs.Position.Readers
import Dimacs.Proofs.Problem.Outcome

/-
  The line that an error names. It is the line of the byte
  at which the error was found, also if this byte is the
  line feed that ends the line. There is one exception: a
  line feed in place of the number of clauses is reported on
  the line behind it.

  Key definitions include:
    * `Outcome.StoppedAt`

  Main statements:
    * `Cursor.rest_of_readsUpTo`
    * `settle_malformed_iff`
    * `error_names_line`
    * `missing_clause_count_is_reported_late`
-/

namespace Dimacs

namespace Cursor

------------------------------------------------------------
-- What Was Consumed
------------------------------------------------------------

variable {c c' : Cursor}

/-
  A byte that was given out was the first item
  of the source.
-/
theorem rest_of_next
    {b : UInt8}
    (hAhead : c.lookahead = none)
    (hFailure : c.failure = none)
    (hNext : c.next = (some b, c')) :
    c.rest = .byte b :: c'.rest ∧
      c'.lookahead = none ∧
      c'.failure = none ∧
      c'.ended = c.ended := by
  have hDelivers := delivers_of_next hNext
  cases hDelivers with
  | seenByte b hSeen =>
      rw [hAhead] at hSeen
      cases hSeen
  | byte b rest _ _ hRest =>
      exact ⟨hRest, hAhead, hFailure, rfl⟩

/-
  The bytes that were read were the first items
  of the source.
-/
theorem rest_of_reads
    {bytes : List UInt8}
    (hAhead : c.lookahead = none)
    (hFailure : c.failure = none)
    (h : c.Reads bytes c') :
    c.rest = Source.ofBytes bytes ++ c'.rest ∧
      c'.failure = none ∧
      c'.ended = c.ended := by
  induction bytes generalizing c with
  | nil =>
      rw [reads_nil] at h
      subst h
      exact ⟨rfl, hFailure, rfl⟩
  | cons b bytes ih =>
      rcases h with ⟨c₁, hNext, hReads⟩
      rcases rest_of_next hAhead hFailure hNext with
        ⟨hRest, hAhead₁, hFailure₁, hEnded₁⟩
      rcases ih hAhead₁ hFailure₁ hReads with
        ⟨hBehind, hFree, hEnded⟩
      refine ⟨?_, hFree, hEnded.trans hEnded₁⟩
      rw [hRest, hBehind]
      rfl

/-
  What was seen last belongs to what was consumed. It is the
  end of file if the source has reported its end.
-/
theorem rest_of_readsUpTo
    {before : List UInt8}
    {ahead : Option UInt8}
    (hAhead : c.lookahead = none)
    (hFailure : c.failure = none)
    (hBegun : c.ended = false)
    (h : c.ReadsUpTo before ahead c')
    (hFree : c'.failure = none) :
    c.rest =
        Source.ofBytes (before ++ ahead.toList) ++ c'.rest ∧
      (c'.ended = true ↔ ahead = none) := by
  cases ahead with
  | some b =>
      rcases rest_of_reads hAhead hFailure
          (readsUpTo_some.mp h) with
        ⟨hRest, _, hEnded⟩
      refine ⟨hRest, ?_⟩
      rw [hEnded, hBegun]
      exact iff_of_false Bool.false_ne_true
        (Option.some_ne_none b)
  | none =>
      rcases h with ⟨c₁, hReads, hNext⟩
      rcases rest_of_reads hAhead hFailure hReads with
        ⟨hRest, hFailure₁, _⟩
      have hAhead₁ := lookahead_of_reads hAhead hReads
      rw [Option.toList_none, List.append_nil]
      have hDelivers := delivers_of_next hNext
      cases hDelivers with
      | seenEnd hSeen =>
          rw [hAhead₁] at hSeen
          cases hSeen
      | waiting text _ hWaiting =>
          rw [hFailure₁] at hWaiting
          cases hWaiting
      | failure text rest _ _ _ => cases hFree
      | finished _ _ _ => exact ⟨hRest, iff_of_true rfl rfl⟩

end Cursor

------------------------------------------------------------
-- Errors of a Whole Reading
------------------------------------------------------------

/-
  A reading settles for a broken rule if it met one and
  no failure waits.
-/
theorem settle_malformed_iff
    {result : EStateM.Result ParseError Cursor Summary}
    {line : Nat}
    {fault : Fault} :
    (settle result).1 = .error (.malformed line fault) ↔
      ∃ c,
        result = .error (.malformed line fault) c ∧
        c.failure = none := by
  constructor
  · intro h
    cases result with
    | ok summary c =>
        simp only [settle, Cursor.takeFailure] at h
        cases hFailure : c.failure <;> simp [hFailure] at h
    | error e c =>
        cases e with
        | violated violation => simp [settle] at h
        | malformed line' fault' =>
            simp only [settle, Cursor.takeFailure] at h
            cases hFailure : c.failure with
            | none =>
                simp only [hFailure, Except.error.injEq]
                  at h
                exact ⟨c, by rw [h], hFailure⟩
            | some text => simp [hFailure] at h
        | unreadable text =>
            simp only [settle, Cursor.takeFailure] at h
            cases hFailure : c.failure <;>
              simp [hFailure] at h
  · intro h
    rcases h with ⟨c, rfl, hFailure⟩
    simp only [settle, Cursor.takeFailure, hFailure]

/- A broken rule leaves the cursor where it was found. -/
theorem settle_malformed
    {line : Nat}
    {fault : Fault}
    {c : Cursor}
    (hFailure : c.failure = none) :
    (settle (.error (.malformed line fault) c)).2 = c := by
  simp only [settle, Cursor.takeFailure, hFailure]
  rw [← hFailure]

theorem Parser.Lands.blames
    {α : Type}
    {start c : Cursor}
    {post : α → Cursor → Prop}
    {line : Nat}
    {fault : Fault}
    (h :
      Lands start post (.error (.malformed line fault) c)) :
    start.Blames line fault c := by
  cases h with
  | malformed h => exact h

/-
  A reading that met a broken rule blames the line it
  reports, and stops there.
-/
theorem blames_of_malformed
    {strictness : Strictness}
    {o : Options}
    {start : Cursor}
    {line : Nat}
    {fault : Fault}
    (hFresh : start.IsFresh)
    (h :
      (parseProblem strictness o start).result =
        .error (.malformed line fault)) :
    start.Blames line fault
        (parseProblem strictness o start).cursor ∧
      (parseProblem strictness o start).cursor.failure =
        none := by
  have hReached := Cursor.hasReached_self start
  have hHeader :=
    Parser.lands_header hFresh strictness o hReached
  rcases hRun : Parser.header strictness o start with
    ⟨p, ⟨declared, c₁⟩ | ⟨e, c₁⟩⟩
  · rw [hRun] at hHeader
    rw [parseProblem_of_header hRun] at h ⊢
    cases hHeader with
    | ok hReached₁ =>
        have hBody := Parser.lands_body hFresh strictness
          declared .empty hReached₁
        generalize Parser.body strictness declared .empty
              c₁ =
            r at h hBody ⊢
        rcases r with ⟨t, ⟨parsed, c₂⟩ | ⟨e, c₂⟩⟩
        · rcases settle_malformed_iff.mp h with
            ⟨c, hError, _⟩
          cases hError
        · rcases settle_malformed_iff.mp h with
            ⟨c, hError, hFailure⟩
          cases hError
          rw [Outcome.complete, settle_malformed hFailure]
          exact ⟨hBody.blames, hFailure⟩
  · rw [hRun] at hHeader
    rw [parseProblem_of_refusal hRun] at h ⊢
    rcases settle_malformed_iff.mp h with
      ⟨c, hError, hFailure⟩
    cases hError
    rw [Outcome.early, settle_malformed hFailure]
    exact ⟨hHeader.blames, hFailure⟩

------------------------------------------------------------
-- The Line of an Error
------------------------------------------------------------

/-
  Where a reading of a source stopped: behind the bytes that
  stood before, and behind the byte at which it stopped. It
  stopped at no byte if it had seen the end of file.
-/
structure Outcome.StoppedAt
    (source : Source)
    (outcome : Outcome)
    (before : List UInt8)
    (offending : Option UInt8) : Prop where
  consumed :
      source =
        Source.ofBytes (before ++ offending.toList) ++
          outcome.cursor.rest
  ended : outcome.cursor.ended = true ↔ offending = none

/-
  An error names the line on which it was found: the line
  feeds in front of the offending byte are counted, and the
  offending byte is not. Only a line feed in place of the
  number of clauses is counted as well.
-/
theorem error_names_line
    (strictness : Strictness)
    (o : Options)
    (source : Source)
    (name : String)
    (line : Nat)
    (fault : Fault)
    (hError :
      (parseProblem strictness o
          (.ofSource source name)).result =
        .error (.malformed line fault)) :
    ∃ before offending,
      (parseProblem strictness o
          (.ofSource source name)).StoppedAt source before
        offending ∧
      line =
        1 + before.count Byte.lineFeed +
          fault.overshoot offending := by
  have hFresh := Cursor.isFresh_ofSource source name
  rcases blames_of_malformed hFresh hError with
    ⟨⟨before, offending, c₁, hReads, hCursor, hLine⟩,
      hFailure⟩
  rw [hCursor] at hFailure
  rcases Cursor.rest_of_readsUpTo rfl rfl rfl hReads
      hFailure with
    ⟨hRest, hEnded⟩
  refine ⟨before, offending, ⟨?_, ?_⟩, hLine⟩
  · rw [hCursor]
    exact hRest
  · rw [hCursor]
    exact hEnded

/-
  A line feed behind the number of variables is blamed on
  the line it ends.
-/
theorem line_feed_after_variables_names_line :
    (parseProblem .normal .standard
        (.ofSource
          (.ofBytes [112, 32, 99, 110, 102, 32, 49, 13, 10])
          "")).result =
      .error (.malformed 1 .lineFeedAfterVariables) ∧
    ∃ before offending,
      (parseProblem .normal .standard
          (.ofSource
            (.ofBytes
              [112, 32, 99, 110, 102, 32, 49, 13, 10])
            "")).StoppedAt
        (.ofBytes [112, 32, 99, 110, 102, 32, 49, 13, 10])
        before offending ∧
      1 =
        1 +
          before.count Byte.lineFeed +
          Fault.lineFeedAfterVariables.overshoot
            offending := by
  have hError :
      (parseProblem .normal .standard
          (.ofSource
            (.ofBytes
              [112, 32, 99, 110, 102, 32, 49, 13, 10])
            "")).result =
        .error (.malformed 1 .lineFeedAfterVariables) := by
    decide +kernel
  exact ⟨hError,
    error_names_line .normal .standard _ "" 1
      .lineFeedAfterVariables hError⟩

/-
  A line feed in place of the number of clauses is blamed on
  the line behind it: in a text of one line, on the second.
-/
theorem missing_clause_count_is_reported_late :
    ¬ ∀ line fault before offending,
      (parseProblem .normal .standard
          (.ofSource
            (.ofBytes
              [112, 32, 99, 110, 102, 32, 49, 32, 10])
            "")).result =
        .error (.malformed line fault) →
      (parseProblem .normal .standard
          (.ofSource
            (.ofBytes
              [112, 32, 99, 110, 102, 32, 49, 32, 10])
            "")).StoppedAt
        (.ofBytes [112, 32, 99, 110, 102, 32, 49, 32, 10])
        before offending →
      line = 1 + before.count Byte.lineFeed := by
  intro hClaim
  have hError :
      (parseProblem .normal .standard
          (.ofSource
            (.ofBytes
              [112, 32, 99, 110, 102, 32, 49, 32, 10])
            "")).result =
        .error (.malformed 2 .expectedClauses) := by
    decide +kernel
  have hStopped :
      (parseProblem .normal .standard
          (.ofSource
            (.ofBytes
              [112, 32, 99, 110, 102, 32, 49, 32, 10])
            "")).StoppedAt
        (.ofBytes [112, 32, 99, 110, 102, 32, 49, 32, 10])
        [112, 32, 99, 110, 102, 32, 49, 32]
        (some Byte.lineFeed) :=
    ⟨by decide +kernel, by decide +kernel⟩
  exact absurd
    (hClaim 2 .expectedClauses _ _ hError hStopped)
    (by decide)

end Dimacs
