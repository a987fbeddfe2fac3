import Dimacs.Proofs.Formula.Numbering
import Mathlib.Data.List.Induction

/-
  What a sequence of literals and zeros says: the clauses
  between its zeros, the literals behind the last zero, and
  the indices in the order in which they first occur. Each
  of the three is followed through one more element.

  Key definitions include:
    * `clausesOf`
    * `unfinishedOf`
    * `indicesOf`
    * `terminated`

  Main statements:
    * `clausesOf_snoc_zero`
    * `unfinishedOf_snoc`
    * `indicesOf_snoc`
    * `prefix_clausesOf_append`
    * `prefix_indicesOf_append`
    * `terminated_clausesOf`
    * `mem_indicesOf`
-/

namespace Dimacs

open Translation (remember)

/- The clauses that zeros finish. -/
def clausesOf
    (literals : List Int) : List (List Int) :=
  (literals.splitOn 0).dropLast

/- The literals behind the last zero. -/
def unfinishedOf
    (literals : List Int) : List Int :=
  (literals.splitOn 0).getLastD []

/-
  The indices of all literals, in the order
  of first occurrence.
-/
def indicesOf
    (literals : List Int) : List Nat :=
  ((literals.filter (fun literal => literal ≠ 0)).map
    Int.natAbs).eraseDups

/-
  The literals of clauses, with a zero behind each clause.
-/
def terminated
    (clauses : List (List Int)) : List Int :=
  clauses.flatMap (fun clause => clause ++ [0])

@[simp] theorem clausesOf_nil :
    clausesOf [] = [] :=
  rfl

variable {value : Int}

------------------------------------------------------------
-- One More Zero
------------------------------------------------------------

theorem splitOn_snoc_zero
    (literals : List Int) :
    (literals ++ [0]).splitOn 0 =
      literals.splitOn 0 ++ [[]] :=
  List.splitOnP_append_cons literals []
    (beq_self_eq_true (0 : Int))

/- A zero finishes the clause that was left unfinished. -/
theorem clausesOf_snoc_zero
    (literals : List Int) :
    clausesOf (literals ++ [0]) =
      clausesOf literals ++ [unfinishedOf literals] := by
  have hSplit := List.splitOn_ne_nil 0 literals
  rw [clausesOf, splitOn_snoc_zero, List.dropLast_concat,
    clausesOf, unfinishedOf, List.getLastD_eq_getLast?,
    List.getLast?_eq_some_getLast hSplit, Option.getD_some,
    List.dropLast_append_getLast hSplit]

theorem unfinishedOf_snoc_zero
    (literals : List Int) :
    unfinishedOf (literals ++ [0]) = [] := by
  rw [unfinishedOf, splitOn_snoc_zero, List.getLastD_concat]

theorem indicesOf_snoc_zero
    (literals : List Int) :
    indicesOf (literals ++ [0]) = indicesOf literals := by
  rw [indicesOf, List.filter_append]
  simp [indicesOf]

------------------------------------------------------------
-- One More Literal
------------------------------------------------------------

/- A literal is appended to the last part. -/
theorem splitOn_snoc
    (literals : List Int)
    (hValue : value ≠ 0) :
    (literals ++ [value]).splitOn 0 =
      (literals.splitOn 0).dropLast ++
        [(literals.splitOn 0).getLastD [] ++ [value]] := by
  have hOther : (value == 0) = false :=
    beq_false_of_ne hValue
  unfold List.splitOn
  induction literals with
  | nil =>
      rw [List.nil_append,
        List.splitOnP_cons_eq_if_modifyHead, hOther]
      rfl
  | cons literal literals ih =>
      have hSplit := List.splitOnP_ne_nil
        (fun x => x == (0 : Int)) literals
      rw [List.cons_append,
        List.splitOnP_cons_eq_if_modifyHead,
        List.splitOnP_cons_eq_if_modifyHead, ih]
      generalize List.splitOnP (fun x => x == (0 : Int))
            literals =
          parts at hSplit
      -- The head of the parts is also the last part if
      -- there is no other.
      rcases parts with _ | ⟨part, _ | ⟨next, parts⟩⟩
      · exact absurd rfl hSplit
      · cases literal == 0 <;> rfl
      · cases literal == 0 <;> rfl

theorem clausesOf_snoc
    (literals : List Int)
    (hValue : value ≠ 0) :
    clausesOf (literals ++ [value]) =
      clausesOf literals := by
  rw [clausesOf, splitOn_snoc literals hValue,
    List.dropLast_concat, clausesOf]

theorem unfinishedOf_snoc
    (literals : List Int)
    (hValue : value ≠ 0) :
    unfinishedOf (literals ++ [value]) =
      unfinishedOf literals ++ [value] := by
  rw [unfinishedOf, splitOn_snoc literals hValue,
    List.getLastD_concat, unfinishedOf]

/- One more index is kept only if it has not occurred. -/
theorem eraseDups_snoc
    (indices : List Nat)
    (index : Nat) :
    (indices ++ [index]).eraseDups =
      remember index indices.eraseDups := by
  rw [List.eraseDups_append, remember]
  simp only [List.mem_eraseDups]
  by_cases hMem : index ∈ indices
  · have hNone : [index].removeAll indices = [] := by
      simpa [List.removeAll] using hMem
    rw [if_pos hMem, hNone, List.eraseDups_nil,
      List.append_nil]
  · have hKeep : [index].removeAll indices = [index] := by
      simpa [List.removeAll] using hMem
    rw [if_neg hMem, hKeep]
    rfl

theorem indicesOf_snoc
    (literals : List Int)
    (hValue : value ≠ 0) :
    indicesOf (literals ++ [value]) =
      remember value.natAbs (indicesOf literals) := by
  have hKeep :
      [value].filter (fun literal => literal ≠ 0) =
        [value] := by
    simp [hValue]
  rw [indicesOf, List.filter_append, hKeep, List.map_append,
    List.map_singleton, eraseDups_snoc, indicesOf]

------------------------------------------------------------
-- Longer Sequences
------------------------------------------------------------

/- Clauses that are finished stay as they are. -/
theorem prefix_clausesOf_append
    (literals later : List Int) :
    clausesOf literals <+:
      clausesOf (literals ++ later) := by
  induction later using List.reverseRecOn with
  | nil => rw [List.append_nil]
  | append_singleton later value ih =>
      rw [← List.append_assoc]
      by_cases hValue : value = 0
      · subst hValue
        rw [clausesOf_snoc_zero]
        exact ih.trans (List.prefix_append _ _)
      · rw [clausesOf_snoc _ hValue]
        exact ih

/- Indices that occurred keep their order. -/
theorem prefix_indicesOf_append
    (literals later : List Int) :
    indicesOf literals <+:
      indicesOf (literals ++ later) := by
  induction later using List.reverseRecOn with
  | nil => rw [List.append_nil]
  | append_singleton later value ih =>
      rw [← List.append_assoc]
      by_cases hValue : value = 0
      · subst hValue
        rw [indicesOf_snoc_zero]
        exact ih
      · rw [indicesOf_snoc _ hValue]
        exact ih.trans (Translation.prefix_remember _ _)

------------------------------------------------------------
-- Whole Sequences
------------------------------------------------------------

/-
  Clauses and unfinished literals are all there is
  to a sequence.
-/
theorem terminated_clausesOf
    (literals : List Int) :
    terminated (clausesOf literals) ++
        unfinishedOf literals =
      literals := by
  induction literals using List.reverseRecOn with
  | nil => rfl
  | append_singleton literals value ih =>
      by_cases hValue : value = 0
      · subst hValue
        rw [clausesOf_snoc_zero, unfinishedOf_snoc_zero,
          terminated, List.flatMap_append,
          List.flatMap_singleton, ← terminated,
          ← List.append_assoc, ih, List.append_nil]
      · rw [clausesOf_snoc literals hValue,
          unfinishedOf_snoc literals hValue,
          ← List.append_assoc, ih]

theorem mem_indicesOf
    {index : Nat}
    {literals : List Int} :
    index ∈ indicesOf literals ↔
      ∃ value ∈ literals,
        value ≠ 0 ∧ value.natAbs = index := by
  simp [indicesOf, List.mem_eraseDups, and_assoc]

/-
  The literals of clauses are no zeros, and neither
  are unfinished ones.
-/
theorem ne_zero_of_mem
    (literals : List Int) :
    (∀ clause ∈ clausesOf literals,
        ∀ value ∈ clause, value ≠ 0) ∧
      ∀ value ∈ unfinishedOf literals, value ≠ 0 := by
  induction literals using List.reverseRecOn with
  | nil => exact ⟨nofun, nofun⟩
  | append_singleton literals value ih =>
      by_cases hValue : value = 0
      · subst hValue
        rw [clausesOf_snoc_zero, unfinishedOf_snoc_zero]
        refine ⟨?_, nofun⟩
        intro clause hClause
        rcases List.mem_append.mp hClause with hOld | hLast
        · exact ih.1 clause hOld
        · rw [List.mem_singleton.mp hLast]
          exact ih.2
      · rw [clausesOf_snoc literals hValue,
          unfinishedOf_snoc literals hValue]
        refine ⟨ih.1, ?_⟩
        intro other hOther
        rcases List.mem_append.mp hOther with hOld | hLast
        · exact ih.2 other hOld
        · rw [List.mem_singleton.mp hLast]
          exact hValue

/- The indices of unfinished literals have occurred. -/
theorem natAbs_mem_of_unfinished
    {literals : List Int}
    (h : value ∈ unfinishedOf literals) :
    value.natAbs ∈ indicesOf literals := by
  refine mem_indicesOf.mpr
    ⟨value, ?_, (ne_zero_of_mem literals).2 value h, rfl⟩
  rw [← terminated_clausesOf literals]
  exact List.mem_append_right _ h

/- The indices of the literals of a clause have occurred. -/
theorem natAbs_mem_of_clause
    {literals clause : List Int}
    (hClause : clause ∈ clausesOf literals)
    (h : value ∈ clause) :
    value.natAbs ∈ indicesOf literals := by
  refine mem_indicesOf.mpr
    ⟨value, ?_,
      (ne_zero_of_mem literals).1 clause hClause value h,
      rfl⟩
  rw [← terminated_clausesOf literals]
  refine List.mem_append_left _
    (List.mem_flatMap.mpr ⟨clause, hClause, ?_⟩)
  exact List.mem_append_left _ h

end Dimacs
