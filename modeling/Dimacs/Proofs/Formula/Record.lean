import Dimacs.Proofs.Formula.Contents
import Dimacs.Proofs.Formula.Run

/-
  A formula is a record of what was added to it: its clauses
  are the literals between the zeros, as they were given,
  and nothing that is done later changes them. A literal
  that is out of range leaves no trace.

  Key definitions include:
    * `Formula.Records`

  Main statements:
    * `Formula.Holds.records`
    * `Formula.Holds.clause_of_later`
    * `Formula.Holds.exists_add_iff`
    * `Formula.run_append_refused`
    * `Formula.run_records`
-/

namespace Dimacs

/- The magnitudes of all literals, as a set. -/
def magnitudes
    (literals : List Int) : Finset Nat :=
  ((literals.filter (fun literal => literal ≠ 0)).map
    Int.natAbs).toFinset

namespace Formula

variable {f : Formula}
variable {literals : List Int}

/-
  A formula that tells what the given literals and zeros
  say. Clauses are kept with duplicates and opposite
  literals, and empty ones are kept as well.
-/
structure Records
    (f : Formula)
    (literals : List Int) : Prop where
  clauseCount : f.clauseCount = (clausesOf literals).length
  clause :
      ∀ index clause,
        f.externalClause index = .ok clause ↔
        (clausesOf literals)[index]? = some clause
  clauses : f.externalClauses = .ok (clausesOf literals)
  open_iff :
      f.hasOpenClause = true ↔ unfinishedOf literals ≠ []
  inconsistent :
      f.inconsistent = true ↔ [] ∈ clausesOf literals
  literalCount :
      f.literalCount = (clausesOf literals).flatten.length
  variableCount :
      f.variableCount = (magnitudes literals).card

/- There are as many variables as distinct magnitudes. -/
theorem Holds.variableCount_eq_card
    (h : f.Holds literals) :
    f.variableCount = (magnitudes literals).card := by
  have hNodup : (indicesOf literals).Nodup := by
    rw [← h.indices]
    exact h.sound.nodup
  have hSame :
      magnitudes literals =
        (indicesOf literals).toFinset := by
    apply Finset.ext
    intro index
    rw [magnitudes, indicesOf, List.mem_toFinset,
      List.mem_toFinset, List.mem_eraseDups]
  rw [h.variableCount_eq, hSame,
    List.toFinset_card_of_nodup hNodup]

theorem Holds.records
    (h : f.Holds literals) :
    f.Records literals where
  clauseCount := h.clauseCount_eq
  clause := fun _ _ => h.externalClause_ok_iff
  clauses := h.externalClauses_eq
  open_iff := h.hasOpenClause_iff
  inconsistent := h.inconsistent
  literalCount := h.literalCount_eq
  variableCount := h.variableCount_eq_card

------------------------------------------------------------
-- Later Operations
------------------------------------------------------------

/-
  A clause stays as it is when further literals are added.
-/
theorem Holds.clause_of_later
    {f' : Formula}
    {later : List Int}
    {index : Nat}
    {clause : List Literal}
    (h : f.Holds literals)
    (h' : f'.Holds (literals ++ later))
    (hClause : f.clause index = .ok clause) :
    f'.clause index = .ok clause := by
  by_cases hIndex : index < (clausesOf literals).length
  · have hClauses := prefix_clausesOf_append literals later
    have hIndices := prefix_indicesOf_append literals later
    have hIndex' :=
      Nat.lt_of_lt_of_le hIndex hClauses.length_le
    rw [h.clause_eq_ok hIndex] at hClause
    rw [h'.clause_eq_ok hIndex', ← hClause,
      ← hClauses.getElem hIndex]
    refine congrArg _ (map_encode_of_extended hIndices ?_)
    intro value hValue
    exact natAbs_mem_of_clause (List.getElem_mem hIndex)
      hValue
  · rw [h.clause_eq_error (Nat.not_lt.mp hIndex)] at hClause
    cases hClause

theorem run_append
    (before later : List Operation) :
    run (before ++ later) =
      later.foldl Formula.after (run before) :=
  List.foldl_append

------------------------------------------------------------
-- Literals out of Range
------------------------------------------------------------

/- Exactly the literals in range are accepted, and zero. -/
theorem Holds.exists_add_iff
    {value : Int}
    (h : f.Holds literals) :
    (∃ f', f.add value = .ok f') ↔
      value.natAbs ≤ maxVariable := by
  constructor
  · intro hAdd
    by_contra hValue
    rcases hAdd with ⟨f', hAdd⟩
    rw [add_of_gt f (Nat.not_le.mp hValue)] at hAdd
    cases hAdd
  · intro hValue
    rcases h.exists_add hValue with ⟨f', hAdd, _⟩
    exact ⟨f', hAdd⟩

/-
  A run goes on as if what was refused had not
  been asked for.
-/
theorem run_append_refused
    {operation : Operation}
    {violation : Violation}
    (before later : List Operation)
    (h :
      (run before).perform operation = .error violation) :
    run (before ++ operation :: later) =
      run (before ++ later) := by
  rw [run_append, List.foldl_cons, after_of_error h,
    run_append]

------------------------------------------------------------
-- Runs
------------------------------------------------------------

/-
  Whatever is done to a formula, it records the literals and
  zeros that were added, and no later operation changes one
  of its clauses. Exactly the literals in range are
  accepted, also where the formula is changed in place.
  There one that is refused leaves behind the formula as it
  was, and so a run goes on as if it had never been given.
-/
theorem run_records
    (operations : List Operation) :
    (run operations).Records
        (Operation.addedBy operations) ∧
      (∀ later index clause,
        (run operations).clause index = .ok clause →
        (run (operations ++ later)).clause index =
          .ok clause) ∧
      (∀ value,
        (∃ f', (run operations).add value = .ok f') ↔
          value.natAbs ≤ maxVariable) ∧
      (∀ value f',
        addInPlace value (run operations) = .ok () f' ↔
          (run operations).add value = .ok f') ∧
      ∀ value later, maxVariable < value.natAbs →
        (run operations).add value = .error .assertion ∧
          addInPlace value (run operations) =
            .error .assertion (run operations) ∧
          run (operations ++
              .apply (.add value) :: later) =
            run (operations ++ later) := by
  have hHolds := holds_run operations
  refine
    ⟨hHolds.records, ?_, fun value => hHolds.exists_add_iff,
      fun value f' => addInPlace_eq_ok_iff, ?_⟩
  · intro later index clause hClause
    rw [run_append]
    exact hHolds.clause_of_later (hHolds.foldl_after later)
      hClause
  · intro value later hValue
    have hAdd := add_of_gt (run operations) hValue
    have hPerform :
        (run operations).perform (.apply (.add value)) =
          .error .assertion :=
      hAdd
    exact
      ⟨hAdd, addInPlace_of_gt (run operations) hValue,
        run_append_refused operations later hPerform⟩

end Formula

end Dimacs
