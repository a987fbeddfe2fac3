import Dimacs.Proofs.Formula.History

/-
  What a formula that holds a sequence of literals and zeros
  tells about its clauses, internally and as they stood in
  the file. There are no other clauses.

  Main statements:
    * `Formula.Holds.clause_eq_ok`
    * `Formula.Holds.clause_eq_error`
    * `Formula.Holds.externalClause_ok_iff`
    * `Formula.Holds.externalClauses_eq`
    * `Formula.Holds.var_lt`
-/

namespace Dimacs

open Translation (encode)

/-
  A list is computed element by element if no
  element is refused.
-/
theorem mapM_eq_ok
    {ε α β : Type}
    {g : α → Except ε β}
    {f : α → β}
    {xs : List α}
    (h : ∀ x ∈ xs, g x = .ok (f x)) :
    xs.mapM g = .ok (xs.map f) := by
  induction xs with
  | nil => rfl
  | cons x xs ih =>
      rw [List.forall_mem_cons] at h
      rw [List.mapM_cons, h.1, ih h.2]
      rfl

namespace Formula

variable {f : Formula}
variable {literals : List Int}
variable {index : Nat}

------------------------------------------------------------
-- Internal Clauses
------------------------------------------------------------

theorem Holds.clauseCount_eq
    (h : f.Holds literals) :
    f.clauseCount = (clausesOf literals).length := by
  rw [clauseCount, h.clauses.size, List.length_map]

/-
  A clause consists of the literals that stand
  for its numbers.
-/
theorem Holds.clause_eq_ok
    (h : f.Holds literals)
    (hIndex : index < (clausesOf literals).length) :
    f.clause index =
      .ok
        ((clausesOf literals)[index].map
          (encode (indicesOf literals))) := by
  have hStored :
      index <
        ((clausesOf literals).map
          (List.map
            (encode (indicesOf literals)))).length := by
    rw [List.length_map]
    exact hIndex
  rcases h.clauses.clause hStored with
    ⟨found, hClause, hFound⟩
  rw [List.getElem_map] at hFound
  rw [clause, hClause, ← hFound]
  rfl

/- Behind the last clause there is none. -/
theorem Holds.clause_eq_error
    (h : f.Holds literals)
    (hIndex : (clausesOf literals).length ≤ index) :
    f.clause index = .error .assertion := by
  have hCount :
      f.clauses.size = (clausesOf literals).length :=
    h.clauseCount_eq
  have hRequire :
      Check.require (index < f.clauses.size) =
        .error .assertion := by
    rw [hCount]
    exact if_neg (Nat.not_lt.mpr hIndex)
  rw [clause, ClauseStore.clause, ClauseStore.range,
    hRequire]
  rfl

/-
  The literals of indices that occurred have
  variables that occur.
-/
theorem Holds.var_lt
    {value : Int}
    (h : f.Holds literals)
    (hValue : value.natAbs ∈ indicesOf literals) :
    (encode (indicesOf literals) value).var.index <
      f.variableCount := by
  rw [Translation.var_encode, h.variableCount_eq]
  exact List.idxOf_lt_length_iff.mpr hValue

------------------------------------------------------------
-- External Clauses
------------------------------------------------------------

/- A clause is given back as it stood in the file. -/
theorem Holds.externalClause_eq_ok
    (h : f.Holds literals)
    (hIndex : index < (clausesOf literals).length) :
    f.externalClause index =
      .ok (clausesOf literals)[index] := by
  have hExport :
      ∀ value ∈ (clausesOf literals)[index],
        (f.translation.exportLiteral ∘
              encode (indicesOf literals)) value =
          .ok value := by
    intro value hValue
    have hMem :=
      natAbs_mem_of_clause (List.getElem_mem hIndex) hValue
    rw [← h.indices] at hMem ⊢
    exact h.sound.exportLiteral_encode hMem
  rw [externalClause, h.clause_eq_ok hIndex]
  change (List.map _ _).mapM f.translation.exportLiteral = _
  rw [List.mapM_map, mapM_eq_ok hExport, List.map_id']

theorem Holds.externalClause_ok_iff
    {clause : List Int}
    (h : f.Holds literals) :
    f.externalClause index = .ok clause ↔
      (clausesOf literals)[index]? = some clause := by
  by_cases hIndex : index < (clausesOf literals).length
  · rw [h.externalClause_eq_ok hIndex,
      List.getElem?_eq_getElem hIndex, Except.ok.injEq,
      Option.some.injEq]
  · have hBeyond := Nat.not_lt.mp hIndex
    rw [externalClause, h.clause_eq_error hBeyond,
      List.getElem?_eq_none hBeyond]
    exact ⟨nofun, nofun⟩

/-
  All clauses are given back, in the order in which
  they were finished.
-/
theorem Holds.externalClauses_eq
    (h : f.Holds literals) :
    f.externalClauses = .ok (clausesOf literals) := by
  have hEach :
      ∀ index ∈ List.range (clausesOf literals).length,
        f.externalClause index =
          .ok ((clausesOf literals)[index]?.getD []) := by
    intro index hIndex
    have hLt := List.mem_range.mp hIndex
    rw [h.externalClause_eq_ok hLt,
      List.getElem?_eq_getElem hLt]
    rfl
  have hAll :
      (List.range (clausesOf literals).length).map
          (fun index =>
            (clausesOf literals)[index]?.getD []) =
        clausesOf literals := by
    apply List.ext_getElem
    · rw [List.length_map, List.length_range]
    · intro index hLeft hRight
      rw [List.getElem_map, List.getElem_range,
        List.getElem?_eq_getElem hRight]
      rfl
  rw [externalClauses, h.clauseCount_eq, mapM_eq_ok hEach,
    hAll]

------------------------------------------------------------
-- Numbers
------------------------------------------------------------

theorem Holds.literalCount_eq
    (h : f.Holds literals) :
    f.literalCount =
      (clausesOf literals).flatten.length := by
  rw [literalCount, h.clauses.literalCount,
    ← List.map_flatten, List.length_map]

theorem Holds.hasOpenClause_iff
    (h : f.Holds literals) :
    f.hasOpenClause = true ↔
      unfinishedOf literals ≠ [] := by
  have hSize :
      f.pending.size = (unfinishedOf literals).length := by
    rw [← Buffer.length_toList, h.pending, List.length_map]
  rw [hasOpenClause, decide_eq_true_eq, hSize]
  exact not_congr List.length_eq_zero_iff

end Formula

end Dimacs
