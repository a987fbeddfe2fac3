import Dimacs.Proofs.Parser.Simulation
import Dimacs.Proofs.Position.Diagnostics

/-
  A read failure is never taken for the end of file. A
  source that fails behind some bytes is read like these
  bytes alone. If the reading of the bytes runs into their
  end, the failure is what is reported instead.

  Key definitions include:
    * `Cursor.Cut`
    * `Outcome.InterruptedBy`

  Main statements:
    * `Cursor.isSimulation_cut`
    * `settle_of_cut`
    * `parseProblem_interrupted`
-/

namespace Dimacs

namespace Cursor

------------------------------------------------------------
-- Failing and Ending Sources
------------------------------------------------------------

variable {text : String}
variable {later : Source}

/-
  Two cursors over the same bytes. Behind the bytes, the
  first one meets a failure and the second one the end of
  file, and both report the end of file from then on.
-/
inductive Cut
    (text : String)
    (later : Source) : Cursor → Cursor → Prop
  | ahead
      (bytes : List UInt8)
      (line : Nat)
      (name : String) :
      Cut text later
        ⟨Source.ofBytes bytes ++ .failure text :: later,
          false, none, line, none, name⟩
        ⟨Source.ofBytes bytes, false, none, line, none,
          name⟩
  | met (line : Nat) (name : String) :
      Cut text later
        ⟨later, false, none, line, some text, name⟩
        ⟨[], true, none, line, none, name⟩

theorem cut_ofSource
    (bytes : List UInt8)
    (text : String)
    (later : Source)
    (name : String) :
    Cut text later
      (ofSource
        (Source.ofBytes bytes ++ .failure text :: later)
        name) (ofSource (Source.ofBytes bytes) name) :=
  .ahead bytes 1 name

/- No reader can tell the two cursors apart. -/
theorem isSimulation_cut :
    IsSimulation (Cut text later) := by
  constructor
  · intro c d h
    cases h with
    | ahead bytes line name => cases bytes <;> rfl
    | met line name => rfl
  · intro c d h
    cases h with
    | ahead bytes line name =>
        cases bytes with
        | nil => exact .met line name
        | cons b bytes =>
            rw [next_of_draw rfl, next_of_draw rfl]
            exact .ahead bytes (lineBehind b line) name
    | met line name => exact .met line name
  · intro c d h
    cases h with
    | ahead bytes line name => rfl
    | met line name => rfl
  · intro c d h _
    cases h with
    | ahead bytes line name =>
        exact .ahead bytes (line - 1) name
    | met line name => exact .met (line - 1) name

end Cursor

------------------------------------------------------------
-- Interrupted Readings
------------------------------------------------------------

/-
  How the reading of a failing source follows from the
  reading of the bytes in front of the failure. A reading
  that does not see the end of file rejects the bytes, and
  both readings reject them in the same way.
-/
structure Outcome.InterruptedBy
    (text : String)
    (cut whole : Outcome) : Prop where
  events : cut.events = whole.events
  printed : cut.printed = whole.printed
  options : cut.options = whole.options
  failed :
      whole.cursor.ended = true →
      cut.result = .error (.unreadable text)
  rejected :
      whole.cursor.ended = false →
      ∃ line fault,
        whole.result = .error (.malformed line fault) ∧
        cut.result = .error (.malformed line fault)
  refused : ∀ summary, cut.result ≠ .ok summary
  taken : cut.cursor.failure = none

/-
  A reading that has seen the end of file has met the end
  of its source.
-/
theorem ended_of_hasSeen_none
    {start c : Cursor}
    (hFresh : start.IsFresh)
    (hFree : start.failure = none)
    (hBegun : start.ended = false)
    (hFailure : c.failure = none)
    (h : start.HasSeen none c) :
    c.ended = true := by
  rcases h with ⟨before, hReads⟩
  have hRest := Cursor.rest_of_readsUpTo hFresh.lookahead
    hFree hBegun hReads hFailure
  exact hRest.2.mpr rfl

/-
  What two readings settle for that no reader could tell
  apart, if a success means that the end of file was seen.
-/
theorem settle_of_cut
    {text : String}
    {later : Source}
    {start : Cursor}
    {left right : EStateM.Result ParseError Cursor Summary}
    (hFresh : start.IsFresh)
    (hFree : start.failure = none)
    (hBegun : start.ended = false)
    (hSame :
      Parser.SameResult (Cursor.Cut text later) left right)
    (hLands :
      Parser.Lands start (fun _ c => start.HasSeen none c)
        right) :
    ((settle right).2.ended = true →
        (settle left).1 = .error (.unreadable text)) ∧
      ((settle right).2.ended = false →
        ∃ line fault,
          (settle right).1 =
            .error (.malformed line fault) ∧
          (settle left).1 =
            .error (.malformed line fault)) ∧
      (settle left).2.failure = none := by
  cases hLands with
  | ok hSeen =>
      cases hSame with
      | ok summary hCut =>
          cases hCut with
          | ahead bytes line name =>
              have hEnded := ended_of_hasSeen_none hFresh
                hFree hBegun rfl hSeen
              cases hEnded
          | met line name =>
              exact ⟨fun _ => rfl, nofun, rfl⟩
  | malformed hBlames =>
      cases hSame with
      | error e hCut =>
          cases hCut with
          | ahead bytes line name =>
              exact ⟨nofun, fun _ => ⟨_, _, rfl, rfl⟩, rfl⟩
          | met line name =>
              exact ⟨fun _ => rfl, nofun, rfl⟩

/-
  With the end of file seen or not, an interrupted reading
  does not succeed.
-/
theorem Outcome.InterruptedBy.of_settled
    {text : String}
    {cut whole : Outcome}
    (hEvents : cut.events = whole.events)
    (hPrinted : cut.printed = whole.printed)
    (hOptions : cut.options = whole.options)
    (hSettled :
      (whole.cursor.ended = true →
        cut.result = .error (.unreadable text)) ∧
      (whole.cursor.ended = false →
        ∃ line fault,
          whole.result = .error (.malformed line fault) ∧
          cut.result = .error (.malformed line fault)) ∧
      cut.cursor.failure = none) :
    Outcome.InterruptedBy text cut whole := by
  rcases hSettled with ⟨hFailed, hRejected, hTaken⟩
  refine ⟨hEvents, hPrinted, hOptions, hFailed, hRejected,
    ?_, hTaken⟩
  intro summary hOk
  cases hEnded : whole.cursor.ended with
  | true =>
      rw [hFailed hEnded] at hOk
      cases hOk
  | false =>
      rcases hRejected hEnded with ⟨line, fault, _, hError⟩
      rw [hError] at hOk
      cases hOk

/-
  Readings that no reader could tell apart differ only in
  what they settle for.
-/
theorem interruptedBy_of_cut
    {strictness : Strictness}
    {o : Options}
    {text : String}
    {later : Source}
    {c d : Cursor}
    (hFresh : d.IsFresh)
    (hFree : d.failure = none)
    (hBegun : d.ended = false)
    (hCut : Cursor.Cut text later c d) :
    Outcome.InterruptedBy text (parseProblem strictness o c)
      (parseProblem strictness o d) := by
  have hHeader := Parser.header_respects
    Cursor.isSimulation_cut strictness o hCut
  have hLands := Parser.lands_header hFresh strictness o
    (Cursor.hasReached_self d)
  rcases hLeft : Parser.header strictness o c with ⟨p, left⟩
  rcases hRight : Parser.header strictness o d with
    ⟨p', right⟩
  rw [hRight] at hLands
  rw [hLeft, hRight] at hHeader
  rcases hHeader with ⟨hSameLines, hSame⟩
  change p = p' at hSameLines
  subst hSameLines
  cases hSame with
  | error e hCut₁ =>
      rw [parseProblem_of_refusal hLeft,
        parseProblem_of_refusal hRight]
      refine .of_settled rfl rfl rfl ?_
      cases hLands with
      | malformed hBlames =>
          exact settle_of_cut hFresh hFree hBegun
            (.error _ hCut₁) (.malformed hBlames)
  | ok declared hCut₁ =>
      rw [parseProblem_of_header hLeft,
        parseProblem_of_header hRight]
      cases hLands with
      | ok hReached =>
          have hBody :=
            Parser.body_respects Cursor.isSimulation_cut
              strictness declared .empty hCut₁
          have hLands := Parser.lands_body hFresh strictness
            declared .empty hReached
          generalize Parser.body strictness declared .empty
                _ =
              left at hBody ⊢
          generalize Parser.body strictness declared .empty
                _ =
              right at hBody hLands ⊢
          rcases left with ⟨t, left⟩
          rcases right with ⟨t', right⟩
          rcases hBody with ⟨hTally, hSame⟩
          change t = t' at hTally
          subst hTally
          refine .of_settled rfl rfl rfl ?_
          cases hSame with
          | ok parsed hCut₂ =>
              cases hLands with
              | ok hSeen =>
                  exact settle_of_cut hFresh hFree hBegun
                    (.ok _ hCut₂) (.ok hSeen)
          | error e hCut₂ =>
              cases hLands with
              | malformed hBlames =>
                  exact settle_of_cut hFresh hFree hBegun
                    (.error _ hCut₂) (.malformed hBlames)

/-
  A source that fails behind some bytes is never accepted.
  Its reading does what the reading of the bytes alone does,
  and reports the failure if that one sees the end of file.
-/
theorem parseProblem_interrupted
    (strictness : Strictness)
    (o : Options)
    (bytes : List UInt8)
    (text : String)
    (later : Source)
    (name : String) :
    Outcome.InterruptedBy text
      (parseProblem strictness o
        (.ofSource
          (Source.ofBytes bytes ++ .failure text :: later)
          name))
      (parseProblem strictness o
        (.ofSource (.ofBytes bytes) name)) :=
  interruptedBy_of_cut
    (Cursor.isFresh_ofSource (.ofBytes bytes) name) rfl rfl
    (Cursor.cut_ofSource bytes text later name)

end Dimacs
