import Dimacs.Storage.Table

/-
  What buffers and tables hold after each operation,
  whatever room they have: access by position, resizing, and
  the operations on a table, which keep or extend its size.

  Key definitions include:
    * `Table.HasRoomOf`

  Main statements:
    * `Buffer.get_eq_ok_iff`
    * `Buffer.exists_set`
    * `Buffer.slice_eq_ok`
    * `Buffer.toList_resize`
    * `Table.size_grow`
    * `Table.exists_set`
    * `Table.hasRoomOf_of_set`
-/

namespace Dimacs

------------------------------------------------------------
-- Buffers
------------------------------------------------------------

namespace Buffer

variable {width : Nat} {α : Type}
variable {b b' : Buffer width α}

theorem length_toList
    (b : Buffer width α) :
    b.toList.length = b.size :=
  Array.length_toList

/- Access succeeds at the positions of the elements. -/
theorem get_eq_ok_iff
    {index : Nat}
    {x : α} :
    b.get index = .ok x ↔ b.toList[index]? = some x := by
  rw [toList, Array.getElem?_toList, get]
  cases b.items[index]? <;> simp

/- Access depends on the elements only, not on the room. -/
theorem get_eq_of_toList_eq
    (h : b'.toList = b.toList)
    (index : Nat) :
    b'.get index = b.get index := by
  have hItems : b'.items = b.items := Array.toList_inj.mp h
  rw [get, get, size, size, hItems]

/-
  An element is replaced if there is one at the position.
-/
theorem exists_set
    {index : Nat}
    (x : α)
    (h : index < b.size) :
    ∃ b',
      b.set index x = .ok b' ∧
      b'.toList = b.toList.set index x := by
  rcases b with ⟨items, capacity⟩
  refine
    ⟨⟨items.setIfInBounds index x, capacity⟩, if_pos h, ?_⟩
  exact Array.toList_setIfInBounds

/- Replacing an element keeps the number of elements. -/
theorem size_set
    {index : Nat}
    {x : α}
    (h : b.set index x = .ok b') :
    b'.size = b.size := by
  rcases b with ⟨items, capacity⟩
  rw [set] at h
  split at h
  · cases h
    exact Array.size_setIfInBounds
  · cases h

/- An element that is replaced needs no room. -/
theorem capacity_set
    {index : Nat}
    {x : α}
    (h : b.set index x = .ok b') :
    b'.capacity = b.capacity := by
  rcases b with ⟨items, capacity⟩
  rw [set] at h
  split at h
  · cases h
    rfl
  · cases h

/- Positions up to the end bound a slice. -/
theorem slice_eq_ok
    {start stop : Nat}
    (hStart : start ≤ b.size)
    (hStop : stop ≤ b.size) :
    ∃ xs, b.slice start stop = .ok xs ∧
      xs.toList = (b.toList.take stop).drop start := by
  have hFirst :
      Check.inBounds (b.size + 1) start = .ok () :=
    if_pos (Nat.lt_succ_of_le hStart)
  have hLast : Check.inBounds (b.size + 1) stop = .ok () :=
    if_pos (Nat.lt_succ_of_le hStop)
  refine ⟨b.items.extract start stop, ?_, ?_⟩
  · rw [slice, hFirst, hLast]
  · rw [Array.toList_extract, List.extract_eq_take_drop,
      List.drop_take]
    rfl

/-
  A buffer that is too small is filled up with one element.
-/
theorem toList_resize
    {size : Nat}
    (x : α)
    (h : b.size < size) :
    (b.resize size x).toList =
      b.toList ++ List.replicate (size - b.size) x := by
  have hItems :
      (b.ensure size).items.toList = b.items.toList :=
    b.toList_ensure size
  have hSize : (b.ensure size).items.size = b.size := by
    rw [← Array.length_toList, hItems, Array.length_toList]
    rfl
  rw [resize, if_neg (Nat.not_le.mpr h)]
  simp only [toList, Array.toList_append,
    Array.toList_replicate, hItems, hSize]

theorem size_resize
    {size : Nat}
    (x : α)
    (h : b.size < size) :
    (b.resize size x).size = size := by
  rw [← length_toList, toList_resize x h,
    List.length_append, List.length_replicate,
    length_toList]
  omega

theorem size_reserveExact
    (additional : Nat)
    (b : Buffer width α) :
    (b.reserveExact additional).size = b.size := by
  rw [← length_toList, toList_reserveExact, length_toList]

end Buffer

------------------------------------------------------------
-- Tables
------------------------------------------------------------

namespace Table

variable {width : Nat} {α : Type}
variable {t t' : Table width α}

/- A table grows to the size, or is that large already. -/
theorem size_grow
    (t : Table width α)
    (size : Nat)
    (x : α) :
    (t.grow size x).size = max t.size size := by
  by_cases h : t.size < size
  · have hSmall :
        (t.buffer.reserveExact (size - t.size)).size <
          size := by
      rw [Buffer.size_reserveExact]
      exact h
    rw [grow, if_pos h, Nat.max_eq_right (Nat.le_of_lt h)]
    exact Buffer.size_resize x hSmall
  · rw [grow, if_neg h, Nat.max_eq_left (Nat.not_lt.mp h)]

@[simp] theorem size_fill
    (t : Table width α)
    (x : α) :
    (t.fill x).size = t.size :=
  Array.size_map

@[simp] theorem size_overwrite
    (t : Table width α)
    (xs : Array α) :
    (t.overwrite xs).size = t.size :=
  Array.size_mapIdx

/- The variables below the size have a place. -/
theorem exists_set
    {v : Variable}
    (x : α)
    (h : v.index < t.size) :
    ∃ t', t.set v x = .ok t' := by
  rcases Buffer.exists_set x h with ⟨b', hSet, _⟩
  refine ⟨⟨b'⟩, ?_⟩
  rw [set, hSet]

theorem size_set
    {v : Variable}
    {x : α}
    (h : t.set v x = .ok t') :
    t'.size = t.size := by
  rw [set] at h
  split at h
  · next b' hSet =>
      cases h
      exact Buffer.size_set hSet
  · cases h

/- As many elements as before, in the same allocation. -/
structure HasRoomOf
    (t t' : Table width α) : Prop where
  size : t'.size = t.size
  capacity : t'.buffer.capacity = t.buffer.capacity

theorem hasRoomOf_self
    (t : Table width α) :
    t.HasRoomOf t :=
  ⟨rfl, rfl⟩

theorem hasRoomOf_fill
    (t : Table width α)
    (x : α) :
    t.HasRoomOf (t.fill x) :=
  ⟨size_fill t x, rfl⟩

theorem hasRoomOf_overwrite
    (t : Table width α)
    (xs : Array α) :
    t.HasRoomOf (t.overwrite xs) :=
  ⟨size_overwrite t xs, rfl⟩

theorem hasRoomOf_of_set
    {v : Variable}
    {x : α}
    (h : t.set v x = .ok t') :
    t.HasRoomOf t' := by
  refine ⟨size_set h, ?_⟩
  rw [set] at h
  split at h
  · next b' hSet =>
      cases h
      exact Buffer.capacity_set hSet
  · cases h

end Table

end Dimacs
