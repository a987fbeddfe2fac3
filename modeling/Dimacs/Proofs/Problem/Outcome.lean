import Dimacs.Problem.Parse
import Dimacs.Proofs.Parser.Simulation

/-
  The outcome of a whole reading, from what the header and
  the clauses came to.

  Key definitions include:
    * `Parser.verdict`

  Main statements:
    * `parseProblem_of_refusal`
    * `parseProblem_of_header`
    * `settle_ok_iff`
    * `settle_of_failure_eq_none`
    * `parseProblem_ok_iff`
-/

namespace Dimacs

namespace Parser

variable {α : Type}

/- What a reading came to, wherever it ended. -/
def verdict :
  EStateM.Result ParseError Cursor α → Except ParseError α
  | .ok a _ => .ok a
  | .error e _ => .error e

end Parser

instance decidableEqExcept {ε α : Type} [DecidableEq ε]
  [DecidableEq α] :
    DecidableEq (Except ε α)
  | .ok a, .ok b =>
      decidable_of_iff (a = b) ⟨congrArg _, Except.ok.inj⟩
  | .error e, .error e' =>
      decidable_of_iff (e = e')
        ⟨congrArg _, Except.error.inj⟩
  | .ok _, .error _ => .isFalse nofun
  | .error _, .ok _ => .isFalse nofun

variable {strictness : Strictness}
variable {o : Options}
variable {p : Preamble}
variable {declared : Header}
variable {c c' : Cursor}

------------------------------------------------------------
-- Header and Clauses
------------------------------------------------------------

theorem parseProblem_of_refusal
    {e : ParseError}
    (h : Parser.header strictness o c = (p, .error e c')) :
    parseProblem strictness o c = .early p e c' := by
  rw [parseProblem, h]

theorem parseProblem_of_header
    (h :
      Parser.header strictness o c = (p, .ok declared c')) :
    parseProblem strictness o c =
      .complete p declared
        (Parser.body strictness declared .empty c').1
        (Parser.body strictness declared .empty c').2 := by
  rw [parseProblem, h]

@[simp] theorem events_complete
    (t : Tally)
    (result : EStateM.Result ParseError Cursor Nat) :
    (Outcome.complete p declared t result).events =
      .reserve declared.variableCount :: t.events.toList :=
  rfl

------------------------------------------------------------
-- Settling
------------------------------------------------------------

/-
  A reading settles for a success if it succeeded and
  no failure waits.
-/
theorem settle_ok_iff
    {result : EStateM.Result ParseError Cursor Summary}
    {summary : Summary} :
    (settle result).1 = .ok summary ↔
      ∃ c, result = .ok summary c ∧ c.failure = none := by
  cases result with
  | ok summary' c =>
      simp only [settle, Cursor.takeFailure]
      cases hFailure : c.failure with
      | none =>
          simp only [Except.ok.injEq,
            EStateM.Result.ok.injEq]
          constructor
          · intro h
            exact ⟨c, ⟨h, rfl⟩, hFailure⟩
          · intro h
            rcases h with ⟨_, ⟨h, _⟩, _⟩
            exact h
      | some text =>
          simp only [reduceCtorEq, EStateM.Result.ok.injEq,
            false_iff]
          intro h
          rcases h with ⟨_, ⟨_, rfl⟩, hNone⟩
          rw [hFailure] at hNone
          cases hNone
  | error e c =>
      simp only [reduceCtorEq, false_and, exists_false,
        iff_false]
      cases e with
      | violated violation => exact nofun
      | malformed line fault =>
          simp only [settle, Cursor.takeFailure]
          cases c.failure <;> exact nofun
      | unreadable text =>
          simp only [settle, Cursor.takeFailure]
          cases c.failure <;> exact nofun

/- Without a failure that waits, the verdict stands. -/
theorem settle_of_failure_eq_none
    {result : EStateM.Result ParseError Cursor Summary}
    (h : (Parser.endOf result).failure = none) :
    (settle result).1 = Parser.verdict result := by
  cases result with
  | ok summary c =>
      change c.failure = none at h
      simp only [settle, Cursor.takeFailure, h,
        Parser.verdict]
  | error e c =>
      change c.failure = none at h
      cases e with
      | violated violation => rfl
      | malformed line fault =>
          simp only [settle, Cursor.takeFailure, h,
            Parser.verdict]
      | unreadable text =>
          simp only [settle, Cursor.takeFailure, h,
            Parser.verdict]

/-
  Without a failure that waits, the clauses
  decide the result.
-/
theorem result_complete
    {t : Tally}
    {result : EStateM.Result ParseError Cursor Nat}
    (h : (Parser.endOf result).failure = none) :
    (Outcome.complete p declared t result).result =
      (Parser.verdict result).map
        (Summary.mk declared) := by
  cases result with
  | ok parsed c => exact settle_of_failure_eq_none h
  | error e c => exact settle_of_failure_eq_none h

theorem result_complete_ok_iff
    {t : Tally}
    {result : EStateM.Result ParseError Cursor Nat}
    {summary : Summary}
    (h : (Parser.endOf result).failure = none) :
    (Outcome.complete p declared t result).result =
        .ok summary ↔
      declared = summary.header ∧
        Parser.verdict result = .ok summary.parsed := by
  rcases summary with ⟨header, parsed⟩
  rw [result_complete h]
  cases Parser.verdict result with
  | ok parsed' =>
      simp only [Except.map, Except.ok.injEq,
        Summary.mk.injEq]
  | error e =>
      simp only [Except.map, reduceCtorEq, and_false]

theorem result_complete_error_iff
    {t : Tally}
    {result : EStateM.Result ParseError Cursor Nat}
    {e : ParseError}
    (h : (Parser.endOf result).failure = none) :
    (Outcome.complete p declared t result).result =
        .error e ↔
      Parser.verdict result = .error e := by
  rw [result_complete h]
  cases Parser.verdict result with
  | ok parsed => simp only [Except.map, reduceCtorEq]
  | error e' => simp only [Except.map, Except.error.injEq]

/-
  A whole reading succeeds if the header and the clauses
  were read and no failure waits.
-/
theorem parseProblem_ok_iff
    {summary : Summary} :
    (parseProblem strictness o c).result = .ok summary ↔
      ∃ p c₁ t c₂,
        Parser.header strictness o c =
          (p, .ok summary.header c₁) ∧
        Parser.body strictness summary.header .empty c₁ =
          (t, .ok summary.parsed c₂) ∧
        c₂.failure = none := by
  rcases hHeader : Parser.header strictness o c with
    ⟨p, ⟨declared, c₁⟩ | ⟨e, c₁⟩⟩
  · rw [parseProblem_of_header hHeader]
    rcases hBody :
        Parser.body strictness declared .empty c₁ with
      ⟨t, ⟨parsed, c₂⟩ | ⟨e, c₂⟩⟩
    · simp only [Outcome.complete, settle_ok_iff,
        EStateM.Result.ok.injEq]
      constructor
      · intro h
        rcases h with ⟨_, ⟨rfl, rfl⟩, hFailure⟩
        exact ⟨p, c₁, t, c₂, rfl, hBody, hFailure⟩
      · intro h
        rcases h with
          ⟨_, _, t', c₃, hSame, hBody', hFailure⟩
        cases hSame
        rw [hBody] at hBody'
        cases hBody'
        exact ⟨c₂, ⟨rfl, rfl⟩, hFailure⟩
    · simp only [Outcome.complete, settle_ok_iff,
        reduceCtorEq, false_and, exists_false, false_iff]
      intro h
      rcases h with ⟨_, _, t', c₃, hSame, hBody', _⟩
      cases hSame
      rw [hBody] at hBody'
      cases hBody'
  · rw [parseProblem_of_refusal hHeader]
    simp only [Outcome.early, settle_ok_iff, reduceCtorEq,
      false_and, exists_false, false_iff]
    intro h
    rcases h with ⟨_, _, _, _, hSame, _⟩
    cases hSame

end Dimacs
