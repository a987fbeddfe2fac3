import Dimacs.Proofs.Formula.Room

/-
  The memory that a formula occupies. Its parts add up to
  the whole, phases have no room to spare, and once a
  formula is shrunk, the sizes of its other tables tell the
  bytes: those of the clauses from their numbers, and those
  of the translation from the largest index that was ever
  mentioned. Shrinking changes nothing but the room.

  Key definitions include:
    * `extentOf`
    * `Operation.mentioned`
    * `Formula.IsMeasured`
    * `Formula.HasContentsOf`

  Main statements:
    * `extentOf_le_iff`
    * `Formula.IsMeasured.applyEvents`
    * `Formula.IsMeasured.after`
    * `Formula.isMeasured_run`
    * `Formula.hasContentsOf_shrink`
    * `Formula.run_accounts_for_memory`
-/

namespace Dimacs

------------------------------------------------------------
-- Mentioned Indices
------------------------------------------------------------

/-
  The size of a table with a place for each of some indices:
  it ends behind the largest one.
-/
def extentOf
    (indices : List Nat) : Nat :=
  match indices.max? with
  | none => 0
  | some largest => largest + 1

theorem extentOf_le_iff
    {indices : List Nat}
    {size : Nat} :
    extentOf indices ≤ size ↔
      ∀ index ∈ indices, index < size := by
  rw [extentOf]
  split
  · next hNone =>
      rw [List.max?_eq_none_iff] at hNone
      subst hNone
      simp
  · next largest hLargest =>
      rw [List.max?_eq_some_iff] at hLargest
      constructor
      · intro hSize index hIndex
        exact Nat.lt_of_le_of_lt (hLargest.2 index hIndex)
          hSize
      · intro hAll
        exact hAll largest hLargest.1

/-
  One more index extends a table that ends in front of it.
-/
theorem extentOf_snoc
    (indices : List Nat)
    (index : Nat) :
    extentOf (indices ++ [index]) =
      max (extentOf indices) (index + 1) := by
  apply eq_of_forall_ge_iff
  intro size
  rw [Nat.max_le, extentOf_le_iff, extentOf_le_iff]
  constructor
  · intro hAll
    exact
      ⟨fun other hOther =>
          hAll other (List.mem_append_left _ hOther),
        hAll index List.mem_append_cons_self⟩
  · intro hBoth other hOther
    rcases List.mem_append.mp hOther with hOld | hNew
    · exact hBoth.1 other hOld
    · exact List.mem_singleton.mp hNew ▸ hBoth.2

/-
  The number that an event reserves, or the index of the
  literal that it adds.
-/
def Event.mentioned? : Event → Option Nat
  | .reserve count => some count
  | .add value =>
      if 1 ≤ value.natAbs ∧ value.natAbs ≤ maxVariable then
        some value.natAbs
      else none

namespace Operation

/-
  All numbers that an operation reserves, and all indices
  that it adds.
-/
def mentioned : Operation → List Nat
  | .apply event => event.mentioned?.toList
  | .readProblem strictness o c =>
      (parseProblem strictness o c).events.filterMap
        Event.mentioned?
  | _ => []

def mentionedBy
    (operations : List Operation) : List Nat :=
  operations.flatMap mentioned

end Operation

namespace Formula

variable {f f' : Formula}
variable {literals : List Int}
variable {indices : List Nat}

------------------------------------------------------------
-- Measures
------------------------------------------------------------

/-
  The table of internal variables ends behind the largest of
  the mentioned indices, and phases have no room to spare.
-/
structure IsMeasured
    (f : Formula)
    (indices : List Nat) : Prop where
  internal : f.translation.internal.size = extentOf indices
  initial : f.initial.IsTight
  neural : f.neural.IsTight

theorem isMeasured_empty :
    empty.IsMeasured [] :=
  ⟨rfl, Table.isTight_empty, Table.isTight_empty⟩

theorem IsMeasured.append_nil
    (h : f.IsMeasured indices) :
    f.IsMeasured (indices ++ []) := by
  rw [List.append_nil]
  exact h

theorem IsMeasured.reserve
    (h : f.IsMeasured indices)
    (count : Nat) :
    (f.reserve count).IsMeasured (indices ++ [count]) := by
  rcases f with
    ⟨translation, clauses, pending, initial, neural, order,
      inconsistent, reserved⟩
  refine ⟨?_, h.initial.grow count .unset,
    h.neural.grow count .unset⟩
  rw [extentOf_snoc, ← h.internal]
  exact Translation.size_cover count translation.internal

theorem IsMeasured.addLiteral
    {index : Nat}
    {negative : Bool}
    (h : f.IsMeasured indices)
    (hAdd : f.addLiteral index negative = .ok f') :
    f'.IsMeasured (indices ++ [index]) := by
  rcases exists_of_addLiteral hAdd with
    ⟨v, t, l, hImport, _, rfl⟩
  refine ⟨?_, h.initial.grow t.size .unset,
    h.neural.grow t.size .unset⟩
  rw [extentOf_snoc, ← h.internal, ← Translation.size_cover]
  exact (Translation.room_of_importVariable hImport).1

theorem IsMeasured.applyEvent
    {event : Event}
    (h : f.IsMeasured indices)
    (hApply : f.applyEvent event = .ok f') :
    f'.IsMeasured (indices ++ event.mentioned?.toList) := by
  rcases cases_of_applyEvent hApply with
    ⟨count, rfl, rfl⟩ | ⟨rfl, rfl⟩ |
    ⟨value, rfl, hIndex, hAdd⟩
  · exact h.reserve count
  · exact IsMeasured.append_nil
      ⟨h.internal, h.initial, h.neural⟩
  · have hMentioned :
        (Event.add value).mentioned? = some value.natAbs :=
      if_pos hIndex
    rw [hMentioned]
    exact h.addLiteral hAdd

theorem IsMeasured.applyEvents
    {events : List Event}
    (h : f.IsMeasured indices)
    (hApply : f.applyEvents events = .ok f') :
    f'.IsMeasured
      (indices ++ events.filterMap Event.mentioned?) := by
  induction events generalizing f indices with
  | nil =>
      cases hApply
      exact h.append_nil
  | cons event events ih =>
      rw [Formula.applyEvents] at hApply
      split at hApply
      · next f₁ hEvent =>
          rw [filterMap_cons_toList, ← List.append_assoc]
          exact ih (h.applyEvent hEvent) hApply
      · cases hApply

------------------------------------------------------------
-- Hints
------------------------------------------------------------

theorem IsMeasured.applyPhaseEvent
    {event : PhaseEvent}
    (h : f.IsMeasured indices)
    (hApply : f.applyPhaseEvent event = .ok f') :
    f'.IsMeasured indices := by
  rcases exists_of_applyPhaseEvent hApply with
    ⟨initial, neural, rfl, hInitial, hNeural⟩
  exact ⟨h.internal, h.initial.of_hasRoomOf hInitial,
    h.neural.of_hasRoomOf hNeural⟩

theorem IsMeasured.applyPhaseEvents
    {events : List PhaseEvent}
    (h : f.IsMeasured indices)
    (hApply : f.applyPhaseEvents events = .ok f') :
    f'.IsMeasured indices := by
  induction events generalizing f with
  | nil =>
      cases hApply
      exact h
  | cons event events ih =>
      rw [Formula.applyPhaseEvents] at hApply
      split at hApply
      · next f₁ hEvent =>
          exact ih (h.applyPhaseEvent hEvent) hApply
      · cases hApply

theorem IsMeasured.foldl_addToOrder
    (h : f.IsMeasured indices)
    (listed : List Nat) :
    (listed.foldl addToOrder f).IsMeasured indices := by
  induction listed generalizing f with
  | nil => exact h
  | cons index listed ih =>
      apply ih
      unfold addToOrder
      split
      · exact ⟨h.internal, h.initial, h.neural⟩
      · exact h

------------------------------------------------------------
-- Operations
------------------------------------------------------------

/-
  Hint files mention no index that a table would
  be extended for.
-/
theorem IsMeasured.of_readBackbone
    {b : Backbone}
    {c c' : Cursor}
    {entries : Nat}
    (h : f.IsMeasured indices)
    (hRead : f.readBackbone b c = .ok (entries, f') c') :
    f'.IsMeasured indices := by
  rw [readBackbone] at hRead
  split at hRead
  · cases hRead
  · split at hRead
    · cases hRead
    · next hApply =>
        cases hRead
        exact h.applyPhaseEvents hApply

theorem IsMeasured.of_readUnsatOrder
    {c c' : Cursor}
    {entries : Nat}
    (h : f.IsMeasured indices)
    (hRead : f.readUnsatOrder c = .ok (entries, f') c') :
    f'.IsMeasured indices := by
  rw [readUnsatOrder] at hRead
  split at hRead
  · cases hRead
  · next listed _ _ =>
      cases hRead
      exact h.foldl_addToOrder listed

/-
  A table is extended for all that an operation mentions,
  and for nothing else.
-/
theorem IsMeasured.after
    (h : f.IsMeasured indices)
    (hHolds : f.Holds literals)
    (operation : Operation) :
    (f.after operation).IsMeasured
      (indices ++ operation.mentioned) := by
  cases operation with
  | apply event =>
      cases hPerform : f.perform (.apply event) with
      | ok f' =>
          rw [after_of_ok hPerform]
          exact h.applyEvent hPerform
      | error violation =>
          -- Only literals out of range are refused, and
          -- those mention nothing.
          have hRefused : event.mentioned? = none := by
            cases event with
            | reserve count => cases hPerform
            | add value =>
                apply if_neg
                intro hIndex
                rcases hHolds.exists_add hIndex.2 with
                  ⟨f', hAdd, _⟩
                rw [perform, Formula.applyEvent, hAdd]
                  at hPerform
                cases hPerform
          rw [after_of_error hPerform, Operation.mentioned,
            hRefused]
          exact h.append_nil
  | readProblem strictness o c =>
      rcases hHolds.exists_applyEvents
          (isAdmitted_of_mem_events strictness o c) with
        ⟨f', hApply, _⟩
      have hPerform :
          f.perform (.readProblem strictness o c) =
            .ok f' :=
        hApply
      rw [after_of_ok hPerform]
      exact h.applyEvents hApply
  | applyPhase event =>
      cases hPerform : f.perform (.applyPhase event) with
      | ok f' =>
          rw [after_of_ok hPerform]
          exact (h.applyPhaseEvent hPerform).append_nil
      | error violation =>
          rw [after_of_error hPerform]
          exact h.append_nil
  | readBackbone b c =>
      rcases hHolds.exists_readBackbone b c with
        ⟨entries, f', c', hRead, _⟩
      have hPerform :
          f.perform (.readBackbone b c) = .ok f' := by
        rw [perform, hRead]
        rfl
      rw [after_of_ok hPerform]
      exact (h.of_readBackbone hRead).append_nil
  | randomize seed =>
      have hInitial : (f.randomize seed).initial.IsTight :=
        h.initial.of_hasRoomOf
          (Table.hasRoomOf_overwrite f.initial _)
      exact IsMeasured.append_nil
        ⟨h.internal, hInitial, h.neural⟩
  | addToOrder index =>
      exact (h.foldl_addToOrder [index]).append_nil
  | readUnsatOrder c =>
      rcases hHolds.exists_readUnsatOrder c with
        ⟨entries, f', c', hRead, _⟩
      have hPerform :
          f.perform (.readUnsatOrder c) = .ok f' := by
        rw [perform, hRead]
        rfl
      rw [after_of_ok hPerform]
      exact (h.of_readUnsatOrder hRead).append_nil
  | shrink =>
      exact IsMeasured.append_nil
        ⟨h.internal, h.initial, h.neural⟩

theorem IsMeasured.foldl_after
    (h : f.IsMeasured indices)
    (hHolds : f.Holds literals)
    (operations : List Operation) :
    (operations.foldl Formula.after f).IsMeasured
      (indices ++ Operation.mentionedBy operations) := by
  induction operations generalizing f indices literals with
  | nil => exact h.append_nil
  | cons operation operations ih =>
      rw [Operation.mentionedBy, List.flatMap_cons,
        ← List.append_assoc]
      exact ih (h.after hHolds operation)
        (hHolds.after operation)

/-
  A run of operations is measured by what
  its operations mention.
-/
theorem isMeasured_run
    (operations : List Operation) :
    (run operations).IsMeasured
      (Operation.mentionedBy operations) :=
  isMeasured_empty.foldl_after holds_empty operations

------------------------------------------------------------
-- Shrinking
------------------------------------------------------------

/-
  Whatever a formula tells but its memory: clauses, pending
  literals, the translation in both directions, phases, the
  order and what was noted on the way.
-/
structure HasContentsOf
    (f f' : Formula) : Prop where
  clauseCount : f'.clauseCount = f.clauseCount
  literalCount : f'.literalCount = f.literalCount
  clause : f'.clause = f.clause
  externalClause : f'.externalClause = f.externalClause
  pending : f'.pending.toList = f.pending.toList
  hasOpenClause : f'.hasOpenClause = f.hasOpenClause
  variableCount : f'.variableCount = f.variableCount
  lookup : f'.translation.lookup = f.translation.lookup
  externalIndex :
      f'.translation.externalIndex =
        f.translation.externalIndex
  exportLiteral :
      f'.translation.exportLiteral =
        f.translation.exportLiteral
  initialPhase : f'.initialPhase = f.initialPhase
  neuralPhase : f'.neuralPhase = f.neuralPhase
  order : f'.order.toList = f.order.toList
  inconsistent : f'.inconsistent = f.inconsistent
  reserved : f'.reserved = f.reserved

theorem hasContentsOf_shrink
    (f : Formula) :
    f.HasContentsOf f.shrink := by
  constructor <;> rfl

/- Behind the last clause there is one more offset. -/
theorem Holds.heapSpace_shrink_clauses
    (h : f.Holds literals) :
    f.shrink.clauses.heapSpace =
      4 * f.literalCount + 8 * (f.clauseCount + 1) := by
  have hOffsets := congrArg List.length h.clauses.offsets
  rw [Buffer.length_toList, List.length_map,
    List.length_range, ← h.clauses.size] at hOffsets
  change f.clauses.literals.size * 4 +
      f.clauses.offsets.size * 8 =
    _
  rw [hOffsets, Nat.mul_comm, Nat.mul_comm _ 8]
  rfl

theorem IsMeasured.heapSpace_shrink_translation
    (h : f.IsMeasured indices) :
    f.shrink.translation.heapSpace =
      8 * extentOf indices + 4 * f.variableCount := by
  change f.translation.internal.size * 8 +
      f.translation.external.size * 4 =
    _
  rw [h.internal, Nat.mul_comm, Nat.mul_comm _ 4]
  rfl

/-
  All containers of a formula are counted in one
  of its parts.
-/
theorem memoryTotal_eq_heapSpace
    (f : Formula) :
    f.memoryTotal = f.heapSpace := by
  simp only [memoryTotal, memoryParts, List.foldr_cons,
    List.foldr_nil, heapSpace, Translation.heapSpace]
  omega

/-
  Whatever was done to a formula, the parts of its memory
  add up to the whole, and phases occupy one byte for each
  of them. Shrinking changes no contents. It leaves room for
  the literals and the offsets of all clauses, for each
  variable, and for the indices up to the largest one that
  was reserved or added.
-/
theorem run_accounts_for_memory
    (operations : List Operation) :
    (run operations).memoryTotal =
        (run operations).heapSpace ∧
      (run operations).memoryParts.lookup "phases" =
        some
          ((run operations).initial.size +
            (run operations).neural.size) ∧
      ((run operations).initial.IsTight ∧
        (run operations).neural.IsTight) ∧
      (run operations).HasContentsOf
        (run operations).shrink ∧
      (run operations).shrink.memoryParts.lookup "clauses" =
        some
          (4 * (run operations).literalCount +
            8 * ((run operations).clauseCount + 1)) ∧
      (run operations).shrink.memoryParts.lookup
          "translation" =
        some
          (8 * extentOf (Operation.mentionedBy operations) +
            4 * (run operations).variableCount) := by
  have hHolds := holds_run operations
  have hMeasured := isMeasured_run operations
  refine ⟨memoryTotal_eq_heapSpace _, ?_,
    ⟨hMeasured.initial, hMeasured.neural⟩,
    hasContentsOf_shrink _, ?_, ?_⟩
  · change some
        ((run operations).initial.heapSpace +
          (run operations).neural.heapSpace) =
      _
    rw [Table.heapSpace_of_isTight hMeasured.initial,
      Table.heapSpace_of_isTight hMeasured.neural,
      Nat.mul_one, Nat.mul_one]
  · rw [← hHolds.heapSpace_shrink_clauses]
    rfl
  · rw [← hMeasured.heapSpace_shrink_translation]
    rfl

end Formula

end Dimacs
