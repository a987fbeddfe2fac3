import Dimacs.Proofs.Storage.Contents
import Dimacs.Storage.ClauseStore

/-
  A clause store holds a list of clauses: the literals back
  to back, and for each clause the number of literals in
  front of it. What was pushed is read back unchanged, also
  after further clauses were pushed.

  Key definitions include:
    * `ClauseStore.Stores`

  Main statements:
    * `ClauseStore.Stores.push`
    * `ClauseStore.Stores.shrink`
    * `ClauseStore.Stores.clause`
-/

namespace Dimacs

namespace ClauseStore

/- The number of literals in front of a clause. -/
def offset
    (clauses : List (List Literal))
    (index : Nat) : Nat :=
  (clauses.take index).flatten.length

/-
  The store holds these clauses, in order. The last offset
  is the sentinel behind all literals.
-/
structure Stores
    (s : ClauseStore)
    (clauses : List (List Literal)) : Prop where
  literals : s.literals.toList = clauses.flatten
  offsets :
      s.offsets.toList =
        (List.range (clauses.length + 1)).map
          (offset clauses)

variable {s : ClauseStore}
variable {clauses : List (List Literal)}

------------------------------------------------------------
-- Offsets
------------------------------------------------------------

/-
  Clauses at the end do not move the clauses in
  front of them.
-/
theorem offset_append
    {index : Nat}
    (clause : List Literal)
    (h : index ≤ clauses.length) :
    offset (clauses ++ [clause]) index =
      offset clauses index := by
  rw [offset, List.take_append_of_le_length h, offset]

theorem offset_length
    (clauses : List (List Literal)) :
    offset clauses clauses.length =
      clauses.flatten.length := by
  rw [offset, List.take_length]

theorem offset_succ
    {index : Nat}
    (h : index < clauses.length) :
    offset clauses (index + 1) =
      offset clauses index + clauses[index].length := by
  rw [offset, List.take_succ_eq_append_getElem h,
    List.flatten_append, List.length_append,
    List.flatten_singleton, offset]

/- No clause starts behind the last literal. -/
theorem offset_le
    (clauses : List (List Literal))
    (index : Nat) :
    offset clauses index ≤ clauses.flatten.length := by
  have hSplit := congrArg (fun l => l.flatten.length)
    (List.take_append_drop index clauses)
  simp only [List.flatten_append, List.length_append]
    at hSplit
  unfold offset
  omega

/-
  The literals between two offsets are those of the clause.
-/
theorem flatten_between
    {index : Nat}
    (h : index < clauses.length) :
    (clauses.flatten.take (offset clauses (index + 1))).drop
        (offset clauses index) =
      clauses[index] := by
  have hFront :
      clauses.flatten =
        ((clauses.take index).flatten ++ clauses[index]) ++
          (clauses.drop (index + 1)).flatten := by
    rw [← List.flatten_singleton (l := clauses[index]),
      ← List.flatten_append,
      ← List.take_succ_eq_append_getElem h,
      ← List.flatten_append, List.take_append_drop]
  have hStop :
      offset clauses (index + 1) =
        ((clauses.take index).flatten ++
          clauses[index]).length := by
    rw [offset_succ h, List.length_append]
    rfl
  rw [hStop, hFront, List.take_left, offset, List.drop_left]

------------------------------------------------------------
-- Operations
------------------------------------------------------------

theorem stores_empty :
    empty.Stores [] :=
  ⟨rfl, rfl⟩

/- A clause that is pushed is the last one. -/
theorem Stores.push
    (h : s.Stores clauses)
    (clause : Array Literal) :
    (s.push clause).Stores
      (clauses ++ [clause.toList]) := by
  rcases s with ⟨literals, offsets⟩
  have hLiterals :
      (literals.extend clause).toList =
        clauses.flatten ++ clause.toList := by
    rw [Buffer.toList_extend, h.literals]
  constructor
  · change (literals.extend clause).toList = _
    rw [hLiterals, List.flatten_append,
      List.flatten_singleton]
  · -- The offsets in front stay, and the new sentinel
    -- is the number of all literals.
    have hFront :
        (List.range (clauses.length + 1)).map
            (offset (clauses ++ [clause.toList])) =
          (List.range (clauses.length + 1)).map
            (offset clauses) := by
      apply List.map_congr_left
      intro index hIndex
      exact offset_append _
        (Nat.le_of_lt_succ (List.mem_range.mp hIndex))
    have hStop :
        (literals.extend clause).size =
          offset (clauses ++ [clause.toList])
            (clauses.length + 1) := by
      have hLength :
          clauses.length + 1 =
            (clauses ++ [clause.toList]).length := by
        simp
      rw [← Buffer.length_toList, hLiterals, hLength,
        offset_length, List.flatten_append,
        List.flatten_singleton]
    change (offsets.push
        (literals.extend clause).size).toList =
      _
    rw [Buffer.toList_push, h.offsets, hStop,
      List.length_append, List.length_singleton,
      List.range_succ (n := clauses.length + 1),
      List.map_append, hFront]
    rfl

theorem Stores.shrink
    (h : s.Stores clauses) :
    s.shrink.Stores clauses :=
  ⟨h.literals, h.offsets⟩

------------------------------------------------------------
-- Reading Back
------------------------------------------------------------

theorem Stores.size
    (h : s.Stores clauses) :
    s.size = clauses.length := by
  have hLength := congrArg List.length h.offsets
  rw [Buffer.length_toList, List.length_map,
    List.length_range] at hLength
  rw [ClauseStore.size, hLength, Nat.add_sub_cancel]

theorem Stores.literalCount
    (h : s.Stores clauses) :
    s.literalCount = clauses.flatten.length := by
  rw [ClauseStore.literalCount, ← Buffer.length_toList,
    h.literals]

/-
  Offsets are found at the clauses and behind the last one.
-/
theorem Stores.get_offset
    {index : Nat}
    (h : s.Stores clauses)
    (hIndex : index ≤ clauses.length) :
    s.offsets.get index = .ok (offset clauses index) := by
  rw [Buffer.get_eq_ok_iff, h.offsets, List.getElem?_map,
    List.getElem?_range (Nat.lt_succ_of_le hIndex)]
  rfl

/- Every clause that was pushed is read back as it was. -/
theorem Stores.clause
    {index : Nat}
    (h : s.Stores clauses)
    (hIndex : index < clauses.length) :
    ∃ found,
      s.clause index = .ok found ∧
      found.toList = clauses[index] := by
  have hBound :
      ∀ index, offset clauses index ≤ s.literals.size := by
    intro index
    rw [← Buffer.length_toList, h.literals]
    exact offset_le clauses index
  rcases Buffer.slice_eq_ok (hBound index)
      (hBound (index + 1)) with
    ⟨found, hSlice, hFound⟩
  have hRequire : Check.require (index < s.size) = .ok () :=
    if_pos (h.size ▸ hIndex)
  refine ⟨found, ?_, ?_⟩
  · simp only [ClauseStore.clause, range, hRequire,
      h.get_offset (Nat.le_of_lt hIndex),
      h.get_offset hIndex, bind, Except.bind, pure,
      Except.pure]
    exact hSlice
  · rw [hFound, h.literals, flatten_between hIndex]

end ClauseStore

end Dimacs
