import Dimacs.Proofs.Formula.Hints
import Dimacs.Proofs.Options.Directives
import Dimacs.Proofs.Problem.Events
import Dimacs.Proofs.Problem.Safety

/-
  Every operation keeps what a formula holds and adds its
  own literals at the end, so that a run of operations holds
  what its operations added. No file can fail a check of a
  formula that such a run leads to.

  Main statements:
    * `Formula.Holds.after`
    * `Formula.holds_run`
    * `Formula.no_check_fails`
-/

namespace Dimacs

namespace Formula

variable {f : Formula}
variable {literals : List Int}

------------------------------------------------------------
-- One Operation
------------------------------------------------------------

theorem after_of_ok
    {f' : Formula}
    {operation : Operation}
    (h : f.perform operation = .ok f') :
    f.after operation = f' := by
  rw [after, h]

/- What is refused leaves no trace. -/
theorem after_of_error
    {operation : Operation}
    {violation : Violation}
    (h : f.perform operation = .error violation) :
    f.after operation = f := by
  rw [after, h]

theorem Holds.append_nil
    (h : f.Holds literals) :
    f.Holds (literals ++ []) := by
  rw [List.append_nil]
  exact h

/-
  An event is applied if it is admitted, and
  else adds nothing.
-/
theorem Holds.after_apply
    (h : f.Holds literals)
    (event : Event) :
    (f.after (.apply event)).Holds
      (literals ++ (Operation.apply event).added) := by
  by_cases hEvent : IsAdmitted event
  · rcases h.exists_applyEvent hEvent with
      ⟨f', hApply, hHolds⟩
    have hPerform : f.perform (.apply event) = .ok f' :=
      hApply
    rw [after_of_ok hPerform]
    exact hHolds
  · cases event with
    | reserve count => exact absurd trivial hEvent
    | add value =>
        have hValue : ¬ value.natAbs ≤ maxVariable := hEvent
        have hPerform :
            f.perform (.apply (.add value)) =
              .error .assertion :=
          add_of_gt f (Nat.not_le.mp hValue)
        rw [after_of_error hPerform, Operation.added,
          Event.accepted?, if_neg hValue]
        exact h.append_nil

/-
  Each operation adds its literals behind those
  that were there.
-/
theorem Holds.after
    (h : f.Holds literals)
    (operation : Operation) :
    (f.after operation).Holds
      (literals ++ operation.added) := by
  cases operation with
  | apply event => exact h.after_apply event
  | readProblem strictness o c =>
      rcases h.exists_applyEvents
          (isAdmitted_of_mem_events strictness o c) with
        ⟨f', hApply, hHolds⟩
      have hPerform :
          f.perform (.readProblem strictness o c) =
            .ok f' :=
        hApply
      rw [after_of_ok hPerform]
      exact hHolds
  | applyPhase event =>
      cases hPerform : f.perform (.applyPhase event) with
      | ok f' =>
          rw [after_of_ok hPerform]
          exact (h.applyPhaseEvent hPerform).append_nil
      | error violation =>
          rw [after_of_error hPerform]
          exact h.append_nil
  | readBackbone b c =>
      rcases h.exists_readBackbone b c with
        ⟨entries, f', c', hRead, hHolds⟩
      have hPerform :
          f.perform (.readBackbone b c) = .ok f' := by
        rw [perform, hRead]
        rfl
      rw [after_of_ok hPerform]
      exact hHolds.append_nil
  | randomize seed => exact (h.randomize seed).append_nil
  | addToOrder index =>
      exact (h.addToOrder index).append_nil
  | readUnsatOrder c =>
      rcases h.exists_readUnsatOrder c with
        ⟨entries, f', c', hRead, hHolds⟩
      have hPerform :
          f.perform (.readUnsatOrder c) = .ok f' := by
        rw [perform, hRead]
        rfl
      rw [after_of_ok hPerform]
      exact hHolds.append_nil
  | shrink => exact h.shrink.append_nil

------------------------------------------------------------
-- Runs
------------------------------------------------------------

theorem Holds.foldl_after
    (h : f.Holds literals)
    (operations : List Operation) :
    (operations.foldl Formula.after f).Holds
      (literals ++ Operation.addedBy operations) := by
  induction operations generalizing f literals with
  | nil =>
      rw [Operation.addedBy, List.flatMap_nil,
        List.append_nil]
      exact h
  | cons operation operations ih =>
      rw [Operation.addedBy, List.flatMap_cons,
        ← List.append_assoc]
      exact ih (h.after operation)

/- A run of operations holds what its operations added. -/
theorem holds_run
    (operations : List Operation) :
    (run operations).Holds (Operation.addedBy operations) :=
  holds_empty.foldl_after operations

------------------------------------------------------------
-- Safety
------------------------------------------------------------

/-
  Whatever was done to a formula, and whatever a source
  holds and wherever it fails: the problem is read without a
  failed check and stored as far as it was read, and both
  kinds of hint files are read to their end. A directive
  that names a setting finds it by its name.
-/
theorem no_check_fails
    (operations : List Operation)
    (strictness : Strictness)
    (o : Options)
    (b : Backbone)
    (source : Source)
    (name : String) :
    (∀ violation,
        (parseProblem strictness o
            (.ofSource source name)).result ≠
          .error (.violated violation)) ∧
      (∃ f',
        (run operations).applyEvents
            (parseProblem strictness o
              (.ofSource source name)).events =
          .ok f') ∧
      (∃ entries f' c',
        (run operations).readBackbone b
            (.ofSource source name) =
          .ok (entries, f') c') ∧
      (∃ entries f' c',
        (run operations).readUnsatOrder
            (.ofSource source name) =
          .ok (entries, f') c') ∧
      ∀ setting : Setting,
        Setting.ofName? setting.name = some setting := by
  have hHolds := holds_run operations
  refine ⟨?_, ?_, ?_, ?_, ?_⟩
  · exact result_ne_violated
      (Cursor.isFresh_ofSource source name) strictness o
  · rcases hHolds.exists_applyEvents
        (isAdmitted_of_mem_events strictness o
          (.ofSource source name)) with
      ⟨f', hApply, _⟩
    exact ⟨f', hApply⟩
  · rcases hHolds.exists_readBackbone b
        (.ofSource source name) with
      ⟨entries, f', c', hRead, _⟩
    exact ⟨entries, f', c', hRead⟩
  · rcases hHolds.exists_readUnsatOrder
        (.ofSource source name) with
      ⟨entries, f', c', hRead, _⟩
    exact ⟨entries, f', c', hRead⟩
  · intro setting
    exact Setting.ofName?_eq_some_iff.mpr rfl

end Formula

end Dimacs
