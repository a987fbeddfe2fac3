import Dimacs.Proofs.Position.Readers
import Dimacs.Proofs.Problem.Outcome

/-
  Reading a source from its start never fails a check of the
  library: the only errors are those that blame a line, and
  a read failure that takes their place.

  Main statements:
    * `settle_violated_iff`
    * `result_ne_violated`
-/

namespace Dimacs

/-
  A reading settles for a failed check only if it met one.
-/
theorem settle_violated_iff
    {result : EStateM.Result ParseError Cursor Summary}
    {violation : Violation} :
    (settle result).1 = .error (.violated violation) ↔
      ∃ c, result = .error (.violated violation) c := by
  constructor
  · intro h
    cases result with
    | ok summary c =>
        simp only [settle, Cursor.takeFailure] at h
        cases hFailure : c.failure <;> simp [hFailure] at h
    | error e c =>
        cases e with
        | violated violation' =>
            simp only [settle, Except.error.injEq] at h
            exact ⟨c, by rw [h]⟩
        | malformed line fault =>
            simp only [settle, Cursor.takeFailure] at h
            cases hFailure : c.failure <;>
              simp [hFailure] at h
        | unreadable text =>
            simp only [settle, Cursor.takeFailure] at h
            cases hFailure : c.failure <;>
              simp [hFailure] at h
  · intro h
    rcases h with ⟨c, rfl⟩
    rfl

/- A reader that keeps track fails no check. -/
theorem Parser.Lands.ne_violated
    {α : Type}
    {start c : Cursor}
    {post : α → Cursor → Prop}
    {r : EStateM.Result ParseError Cursor α}
    {violation : Violation}
    (h : Lands start post r) :
    r ≠ .error (.violated violation) c := by
  cases h with
  | ok h => exact nofun
  | malformed h => exact nofun

/- A reading that starts afresh fails no check. -/
theorem result_ne_violated
    {start : Cursor}
    (hFresh : start.IsFresh)
    (strictness : Strictness)
    (o : Options)
    (violation : Violation) :
    (parseProblem strictness o start).result ≠
      .error (.violated violation) := by
  have hReached := Cursor.hasReached_self start
  have hHeader :=
    Parser.lands_header hFresh strictness o hReached
  intro hViolated
  rcases hRun : Parser.header strictness o start with
    ⟨p, ⟨declared, c₁⟩ | ⟨e, c₁⟩⟩
  · rw [hRun] at hHeader
    rw [parseProblem_of_header hRun] at hViolated
    cases hHeader with
    | ok hReached₁ =>
        have hBody := Parser.lands_body hFresh strictness
          declared .empty hReached₁
        generalize Parser.body strictness declared .empty
              c₁ =
            r at hViolated hBody
        rcases r with ⟨t, ⟨parsed, c₂⟩ | ⟨e, c₂⟩⟩
        · rcases settle_violated_iff.mp hViolated with
            ⟨c, hError⟩
          cases hError
        · rcases settle_violated_iff.mp hViolated with
            ⟨c, hError⟩
          cases hError
          exact hBody.ne_violated rfl
  · rw [hRun] at hHeader
    rw [parseProblem_of_refusal hRun] at hViolated
    rcases settle_violated_iff.mp hViolated with ⟨c, hError⟩
    cases hError
    exact hHeader.ne_violated rfl

end Dimacs
