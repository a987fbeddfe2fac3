import Dimacs.Proofs.Storage.Clauses

/-
  A clause store behind any number of operations: the table
  of offsets cuts the literals into one range for each
  clause that was pushed, empty clauses included, and every
  such range holds what was pushed. Positions behind the
  last clause are refused.

  Key definitions include:
    * `ClauseStore.Operation`
    * `ClauseStore.run`
    * `ClauseStore.pushed`
    * `ClauseStore.Tiles`

  Main statements:
    * `ClauseStore.Stores.perform`
    * `ClauseStore.stores_run`
    * `ClauseStore.tiles_offset`
    * `ClauseStore.offsets_tile_literals`
-/

namespace Dimacs

namespace ClauseStore

------------------------------------------------------------
-- Operations
------------------------------------------------------------

/- A request to a clause store. -/
inductive Operation where
  | push (clause : Array Literal)
  | shrink

/- Do what an operation asks for. -/
def perform
    (s : ClauseStore) : Operation → ClauseStore
  | .push clause => s.push clause
  | .shrink => s.shrink

/-
  The store that operations lead to, one after the other.
-/
def run
    (operations : List Operation) : ClauseStore :=
  operations.foldl perform empty

/- The clauses that operations push, in order. -/
def pushed
    (operations : List Operation) : List (Array Literal) :=
  operations.filterMap fun
    | .push clause => some clause
    | .shrink => none

/-
  Ranges that cover the positions from one bound up to
  another: each starts where the one before it stops.
-/
def Tiles : Nat → List (Nat × Nat) → Nat → Prop
  | low, [], high => low = high
  | low, (start, stop) :: ranges, high =>
      start = low ∧ start ≤ stop ∧ Tiles stop ranges high

variable {s : ClauseStore}
variable {clauses : List (List Literal)}
variable {operations : List Operation}

------------------------------------------------------------
-- Stored Clauses
------------------------------------------------------------

/- An operation adds the clause that it pushes. -/
theorem Stores.perform
    (h : s.Stores clauses)
    (operation : Operation) :
    (s.perform operation).Stores
      (clauses ++
        (pushed [operation]).map Array.toList) := by
  cases operation with
  | push clause => exact h.push clause
  | shrink =>
      rw [show pushed [.shrink] = [] from rfl, List.map_nil,
        List.append_nil]
      exact h.shrink

/-
  Several operations add the clauses that they
  push, in order.
-/
theorem Stores.foldl_perform
    (h : s.Stores clauses)
    (operations : List Operation) :
    (operations.foldl ClauseStore.perform s).Stores
      (clauses ++
        (pushed operations).map Array.toList) := by
  induction operations generalizing s clauses with
  | nil =>
      rw [show pushed [] = [] from rfl, List.map_nil,
        List.append_nil]
      exact h
  | cons operation operations ih =>
      have hCons :
          pushed (operation :: operations) =
            pushed [operation] ++ pushed operations := by
        rw [← List.singleton_append, pushed,
          List.filterMap_append]
        rfl
      rw [hCons, List.map_append, ← List.append_assoc]
      exact ih (h.perform operation)

theorem stores_run
    (operations : List Operation) :
    (run operations).Stores
      ((pushed operations).map Array.toList) :=
  stores_empty.foldl_perform operations

------------------------------------------------------------
-- Offsets
------------------------------------------------------------

/-
  A clause that stands further behind does
  not start earlier.
-/
theorem offset_mono
    {index later : Nat}
    (clauses : List (List Literal))
    (h : index ≤ later) :
    offset clauses index ≤ offset clauses later := by
  have hFront := offset_le (clauses.take later) index
  rw [offset, List.take_take, Nat.min_eq_left h] at hFront
  exact hFront

/- A further range extends a tiling. -/
theorem Tiles.snoc
    {low middle high : Nat}
    {ranges : List (Nat × Nat)}
    (h : Tiles low ranges middle)
    (hHigh : middle ≤ high) :
    Tiles low (ranges ++ [(middle, high)]) high := by
  induction ranges generalizing low with
  | nil =>
      cases h
      exact ⟨rfl, hHigh, rfl⟩
  | cons range ranges ih => exact ⟨h.1, h.2.1, ih h.2.2⟩

/-
  Neighbouring offsets bound ranges that leave nothing out.
-/
theorem tiles_offset
    (clauses : List (List Literal))
    (count : Nat) :
    Tiles 0
      ((List.range count).map fun index =>
        (offset clauses index, offset clauses (index + 1)))
      (offset clauses count) := by
  induction count with
  | zero => rfl
  | succ count ih =>
      rw [List.range_succ, List.map_append]
      exact ih.snoc
        (offset_mono clauses (Nat.le_succ count))

------------------------------------------------------------
-- Access
------------------------------------------------------------

theorem Stores.range
    {index : Nat}
    (h : s.Stores clauses)
    (hIndex : index < clauses.length) :
    s.range index =
      .ok
        (offset clauses index,
          offset clauses (index + 1)) := by
  have hRequire : Check.require (index < s.size) = .ok () :=
    if_pos (h.size ▸ hIndex)
  simp only [ClauseStore.range, hRequire,
    h.get_offset (Nat.le_of_lt hIndex), h.get_offset hIndex,
    bind, Except.bind, pure, Except.pure]

/-
  Behind the last clause the precondition fails, before any
  position is looked up.
-/
theorem range_of_le
    {index : Nat}
    (h : s.size ≤ index) :
    s.range index = .error .assertion := by
  have hRequire :
      Check.require (index < s.size) = .error .assertion :=
    if_neg (Nat.not_lt.mpr h)
  simp only [ClauseStore.range, hRequire, bind, Except.bind]

theorem clause_of_le
    {index : Nat}
    (h : s.size ≤ index) :
    s.clause index = .error .assertion := by
  simp only [ClauseStore.clause, range_of_le h, bind,
    Except.bind]

/-
  Whatever was pushed into a store, the offsets begin with
  zero, do not decrease, are one more than the clauses and
  end with the number of literals. The ranges between them
  tile the literals, and each clause is read back as it was
  pushed. Every other index is refused as a broken
  precondition.
-/
theorem offsets_tile_literals
    (operations : List Operation) :
    (run operations).offsets.toList.head? = some 0 ∧
      (run operations).offsets.toList.Pairwise (· ≤ ·) ∧
      (run operations).size = (pushed operations).length ∧
      (run operations).offsets.size =
        (run operations).size + 1 ∧
      (run operations).offsets.toList.getLast? =
        some (run operations).literalCount ∧
      (∀ (index : Nat)
          (hIndex : index < (pushed operations).length),
        (run operations).clause index =
          .ok (pushed operations)[index]) ∧
      (∃ ranges : List (Nat × Nat),
        ranges.length = (run operations).size ∧
        (∀ (index : Nat) (hIndex : index < ranges.length),
          (run operations).range index =
            .ok ranges[index]) ∧
        Tiles 0 ranges (run operations).literalCount) ∧
      (∀ index,
        (run operations).size ≤ index →
        (run operations).clause index = .error .assertion ∧
          (run operations).range index =
            .error .assertion) := by
  have hStores := stores_run operations
  have hSize := hStores.size
  have hOffsets := hStores.offsets
  have hCount := hStores.literalCount
  rw [← offset_length] at hCount
  generalize run operations = s at *
  rw [List.length_map] at hSize
  refine ⟨?_, ?_, hSize, ?_, ?_, ?_, ?_,
    fun index hIndex =>
      ⟨clause_of_le hIndex, range_of_le hIndex⟩⟩
  · rw [hOffsets, List.range_succ_eq_map]
    rfl
  · rw [hOffsets, List.pairwise_map]
    exact List.pairwise_lt_range.imp fun hLess =>
      offset_mono _ (Nat.le_of_lt hLess)
  · rw [← Buffer.length_toList, hOffsets, List.length_map,
      List.length_range, List.length_map, hSize]
  · rw [hOffsets, List.range_succ, List.map_append,
      List.map_singleton, List.getLast?_concat, hCount]
  · intro index hIndex
    have hBound :
        index <
          ((pushed operations).map
            Array.toList).length := by
      rwa [List.length_map]
    rcases hStores.clause hBound with ⟨found, hFound, hSame⟩
    rw [List.getElem_map] at hSame
    rw [hFound, Array.toList_inj.mp hSame]
  · refine ⟨_, ?_, ?_, hCount ▸ tiles_offset _ _⟩
    · rw [List.length_map, List.length_range,
        List.length_map, hSize]
    · intro index hIndex
      rw [List.length_map, List.length_range] at hIndex
      rw [hStores.range hIndex, List.getElem_map,
        List.getElem_range]

/-
  An empty clause is read back, and an index behind the
  clauses is refused.
-/
theorem empty_clause_is_read_back :
    (run [.push #[⟨2⟩, ⟨5⟩], .push #[], .shrink,
        .push #[⟨2⟩]]).clause 1 = .ok #[] ∧
      (run [.push #[⟨2⟩, ⟨5⟩], .push #[], .shrink,
        .push #[⟨2⟩]]).range 3 = .error .assertion := by
  have hTiles := offsets_tile_literals
    [.push #[⟨2⟩, ⟨5⟩], .push #[], .shrink, .push #[⟨2⟩]]
  rcases hTiles with
    ⟨_, _, hSize, _, _, hClause, _, hBehind⟩
  exact ⟨hClause 1 (by decide),
    (hBehind 3 (Nat.le_of_eq hSize)).2⟩

end ClauseStore

end Dimacs
