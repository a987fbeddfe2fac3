import Dimacs.Proofs.Formula.Contents
import Dimacs.Proofs.Formula.Run
import Dimacs.Proofs.Printer.Reading

/-
  Printing and reading are inverse: a formula without an
  open clause is printed, and what is printed is read as the
  same problem, down to the numbering of its variables.

  Key definitions include:
    * `Formula.IsSameProblem`

  Main statements:
    * `Formula.Holds.isSameProblem`
    * `Formula.exists_applyEvents_problem`
    * `Formula.print_is_read_back`
-/

namespace Dimacs

namespace Formula

variable {f f' : Formula}
variable {literals : List Int}

------------------------------------------------------------
-- Formulas with the Same Literals
------------------------------------------------------------

/-
  Both formulas have the same clauses over the same internal
  variables, and translate them in the same way. They may
  differ in hints and in the room they have.
-/
structure IsSameProblem
    (f f' : Formula) : Prop where
  clauseCount : f'.clauseCount = f.clauseCount
  clause : ∀ index, f'.clause index = f.clause index
  lookup :
      ∀ index,
        f'.translation.lookup index =
          f.translation.lookup index
  externalIndex :
      ∀ v,
        f'.translation.externalIndex v =
          f.translation.externalIndex v
  inconsistent : f'.inconsistent = f.inconsistent

/- The literals that were added determine the problem. -/
theorem Holds.isSameProblem
    (h : f.Holds literals)
    (h' : f'.Holds literals) :
    f.IsSameProblem f' where
  clauseCount := by
    rw [h.clauseCount_eq, h'.clauseCount_eq]
  clause := by
    intro index
    by_cases hIndex : index < (clausesOf literals).length
    · rw [h.clause_eq_ok hIndex, h'.clause_eq_ok hIndex]
    · have hBeyond := Nat.not_lt.mp hIndex
      rw [h.clause_eq_error hBeyond,
        h'.clause_eq_error hBeyond]
  lookup := by
    intro index
    rw [h.sound.lookup, h'.sound.lookup, h.indices,
      h'.indices]
  externalIndex := by
    intro v
    have hIndices :
        f'.translation.indices = f.translation.indices := by
      rw [h.indices, h'.indices]
    exact Buffer.get_eq_of_toList_eq hIndices v.index
  inconsistent := by
    rw [Bool.eq_iff_iff, h.inconsistent, h'.inconsistent]

------------------------------------------------------------
-- Reading Back
------------------------------------------------------------

/- Literals in range are all accepted. -/
theorem filterMap_accepted
    (count : Nat)
    (h : ∀ value ∈ literals, value.natAbs ≤ maxVariable) :
    (Event.reserve count ::
          literals.map Event.add).filterMap
        Event.accepted? =
      literals := by
  rw [List.filterMap_cons, List.filterMap_map]
  change literals.filterMap
      (fun value => (Event.add value).accepted?) =
    literals
  induction literals with
  | nil => rfl
  | cons value literals ih =>
      rw [List.forall_mem_cons] at h
      rw [List.filterMap_cons, Event.accepted?, if_pos h.1]
      exact congrArg (List.cons value) (ih h.2)

/-
  Without unfinished literals, there is nothing but clauses.
-/
theorem terminated_clausesOf_of_closed
    (h : unfinishedOf literals = []) :
    terminated (clausesOf literals) = literals := by
  have hAll := terminated_clausesOf literals
  rw [h, List.append_nil] at hAll
  exact hAll

/-
  The printed clauses of a sequence without unfinished
  literals are read into an empty formula that holds
  the same sequence.
-/
theorem exists_applyEvents_problem
    {variableCount : Nat}
    (strictness : Strictness)
    (o : Options)
    (name : String)
    (hClosed : unfinishedOf literals = [])
    (hDeclared :
      ∀ clause ∈ clausesOf literals,
        ∀ value ∈ clause, value.natAbs ≤ variableCount)
    (hVariables : variableCount ≤ maxVariable)
    (hClauses :
      (clausesOf literals).length ≤ Check.maxUnsigned64) :
    (parseProblem strictness o
          (.ofSource
            (.ofBytes
              (Printer.problem variableCount
                (clausesOf literals))) name)).result =
        .ok
          ⟨⟨variableCount, (clausesOf literals).length⟩,
            (clausesOf literals).length⟩ ∧
      ∃ f',
        empty.applyEvents
            (parseProblem strictness o
              (.ofSource
                (.ofBytes
                  (Printer.problem variableCount
                    (clausesOf literals))) name)).events =
          .ok f' ∧
        f'.Holds literals := by
  have hNonzero := (ne_zero_of_mem literals).1
  rcases parseProblem_problem strictness o name hNonzero
      hDeclared hVariables hClauses with
    ⟨hResult, hEvents⟩
  have hSame := terminated_clausesOf_of_closed hClosed
  have hRange :
      ∀ value ∈ literals, value.natAbs ≤ maxVariable := by
    intro value hValue
    rw [← hSame] at hValue
    exact Nat.le_trans
      (natAbs_le_of_mem_terminated hDeclared value hValue)
      hVariables
  have hAdmitted := isAdmitted_of_mem_events strictness o
    (.ofSource
      (.ofBytes
        (Printer.problem variableCount
          (clausesOf literals))) name)
  rcases holds_empty.exists_applyEvents hAdmitted with
    ⟨f', hApply, hHolds⟩
  refine ⟨hResult, f', hApply, ?_⟩
  rw [hEvents, hSame,
    filterMap_accepted variableCount hRange,
    List.nil_append] at hHolds
  exact hHolds

/-
  A formula without an open clause is printed with any
  number of variables that covers its literals. What is
  printed is accepted at every strictness with the numbers
  it declares, and makes an empty formula the same problem.
  A file declares its number of clauses in 64 bits.
-/
theorem print_is_read_back
    (operations : List Operation)
    (variableCount : Nat)
    (hClosed : (run operations).hasOpenClause = false)
    (hDeclared :
      ∀ index clause,
        (run operations).externalClause index = .ok clause →
        ∀ value ∈ clause, value.natAbs ≤ variableCount)
    (hVariables : variableCount ≤ maxVariable)
    (hClauses :
      (run operations).clauseCount ≤ Check.maxUnsigned64) :
    ∃ text,
      (run operations).print variableCount = .ok text ∧
      ∀ strictness o name,
        (parseProblem strictness o
            (.ofSource (.ofBytes text) name)).result =
          .ok
            ⟨⟨variableCount, (run operations).clauseCount⟩,
              (run operations).clauseCount⟩ ∧
        ∃ f',
          empty.applyEvents
              (parseProblem strictness o
                (.ofSource (.ofBytes text) name)).events =
            .ok f' ∧
          (run operations).IsSameProblem f' := by
  have hHolds := holds_run operations
  have hUnfinished :
      unfinishedOf (Operation.addedBy operations) = [] := by
    by_contra hOpen
    rw [hHolds.hasOpenClause_iff.mpr hOpen] at hClosed
    cases hClosed
  have hMagnitudes :
      ∀ clause ∈ clausesOf (Operation.addedBy operations),
        ∀ value ∈ clause, value.natAbs ≤ variableCount := by
    intro clause hClause
    rcases List.getElem?_of_mem hClause with ⟨index, hIndex⟩
    exact hDeclared index clause
      (hHolds.externalClause_ok_iff.mpr hIndex)
  rw [hHolds.clauseCount_eq] at hClauses ⊢
  refine
    ⟨Printer.problem variableCount
        (clausesOf (Operation.addedBy operations)), ?_, ?_⟩
  · rw [print, hHolds.externalClauses_eq]
    rfl
  · intro strictness o name
    rcases exists_applyEvents_problem strictness o name
        hUnfinished hMagnitudes hVariables hClauses with
      ⟨hResult, f', hApply, hRead⟩
    exact ⟨hResult, f', hApply, hHolds.isSameProblem hRead⟩

/-
  A tautology over a variable that is not the first, and
  an empty clause.
-/
theorem sparse_clauses_are_read_back :
    ∃ operations text,
      operations =
        [.reserve 2, .add 5, .add (-5), .add 0, .add 0].map
          Operation.apply ∧
      (run operations).print 7 = .ok text ∧
      ∀ strictness o name,
        (parseProblem strictness o
            (.ofSource (.ofBytes text) name)).result =
          .ok ⟨⟨7, 2⟩, 2⟩ ∧
        ∃ f',
          empty.applyEvents
              (parseProblem strictness o
                (.ofSource (.ofBytes text) name)).events =
            .ok f' ∧
          (run operations).IsSameProblem f' := by
  generalize hOperations :
      [.reserve 2, .add 5, .add (-5), .add 0, .add 0].map
          Operation.apply =
        operations
  have hClosed :
      (run operations).hasOpenClause = false := by
    rw [← hOperations]
    decide +kernel
  have hCount : (run operations).clauseCount = 2 := by
    rw [← hOperations]
    decide +kernel
  have hMagnitudes :
      ∀ clause ∈ clausesOf (Operation.addedBy operations),
        ∀ value ∈ clause, value.natAbs ≤ 7 := by
    rw [← hOperations]
    decide +kernel
  have hDeclared :
      ∀ index clause,
        (run operations).externalClause index = .ok clause →
        ∀ value ∈ clause, value.natAbs ≤ 7 := by
    intro index clause hClause
    have hFound :=
      (holds_run operations).externalClause_ok_iff.mp
        hClause
    exact hMagnitudes clause (List.mem_of_getElem? hFound)
  have hClauses :
      (run operations).clauseCount ≤
        Check.maxUnsigned64 := by
    rw [hCount]
    decide
  rcases print_is_read_back operations 7 hClosed hDeclared
      (by decide) hClauses with
    ⟨text, hPrint, hRead⟩
  rw [hCount] at hRead
  exact ⟨operations, text, rfl, hPrint, hRead⟩

end Formula

end Dimacs
