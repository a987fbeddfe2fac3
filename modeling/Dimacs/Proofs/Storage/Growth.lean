import Dimacs.Proofs.Storage.Contents

/-
  How the allocation of a buffer grows. A buffer that is
  full grows by one half, or to what is needed if that is
  more. If there is room left, but not enough, the
  reservation falls short of what it aims for by this room:
  the allocation then stays smaller, or at least doubles.
  Tables grow to their size, without room to spare.

  Key definitions include:
    * `Buffer.IsAllocated`
    * `Buffer.GrowsByHalf`
    * `Buffer.grownCapacity`
    * `Buffer.Operation`
    * `Buffer.run`
    * `Table.IsTight`

  Main statements:
    * `Buffer.capacity_push_of_full`
    * `Buffer.capacity_extend_of_lt`
    * `Buffer.isAllocated_run`
    * `Buffer.full_buffer_grows_by_half`
    * `Table.capacity_grow`
    * `Table.IsTight.grow`
-/

namespace Dimacs

namespace Buffer

variable {width : Nat} {α : Type}
variable {b b' : Buffer width α}

------------------------------------------------------------
-- Sizes
------------------------------------------------------------

theorem size_push
    (b : Buffer width α)
    (x : α) :
    (b.push x).size = b.size + 1 := by
  rw [← length_toList, toList_push, List.length_append,
    List.length_singleton, length_toList]

theorem size_extend
    (b : Buffer width α)
    (xs : Array α) :
    (b.extend xs).size = b.size + xs.size := by
  rw [← length_toList, toList_extend, List.length_append,
    length_toList, Array.length_toList]

/- A buffer that is large enough is cut off. -/
theorem size_resize_of_le
    {size : Nat}
    (x : α)
    (h : size ≤ b.size) :
    (b.resize size x).size = size := by
  have hItems :
      (b.resize size x).items = b.items.take size := by
    rw [resize, if_pos h]
  rw [Buffer.size, hItems, Array.size_extract, Nat.sub_zero]
  exact Nat.min_eq_left h

------------------------------------------------------------
-- Capacities
------------------------------------------------------------

theorem capacity_reserveExact
    (additional : Nat)
    (b : Buffer width α) :
    (b.reserveExact additional).capacity =
      if additional ≤ b.capacity - b.size then b.capacity
      else b.size + additional := by
  unfold reserveExact
  split <;> rfl

theorem capacity_ensure
    (needed : Nat)
    (b : Buffer width α) :
    (b.ensure needed).capacity =
      if needed ≤ b.capacity then b.capacity
      else
        max (2 * b.capacity)
            (max needed (minCapacity width)) :=
          by 
  unfold ensure
  split <;> rfl

/- What is needed finds room. -/
theorem le_capacity_ensure
    (needed : Nat)
    (b : Buffer width α) :
    needed ≤ (b.ensure needed).capacity := by
  rw [capacity_ensure]
  split
  · assumption
  · omega

theorem capacity_push
    (b : Buffer width α)
    (x : α) :
    (b.push x).capacity =
      ((if b.size = b.capacity then
          b.reserveExact
            (nextCapacity b.capacity - b.capacity)
        else b).ensure (b.size + 1)).capacity :=
  rfl

theorem capacity_extend
    (b : Buffer width α)
    (xs : Array α) :
    (b.extend xs).capacity =
      ((if b.capacity < b.size + xs.size then
          b.reserveExact
            (max (nextCapacity b.capacity)
                (b.size + xs.size) -
              b.capacity)
        else b).ensure (b.size + xs.size)).capacity :=
  rfl

/- Room that is left is used before any other. -/
theorem capacity_push_of_lt
    (x : α)
    (h : b.size < b.capacity) :
    (b.push x).capacity = b.capacity := by
  rw [capacity_push, if_neg (Nat.ne_of_lt h),
    capacity_ensure]
  exact if_pos h

theorem capacity_extend_of_le
    {xs : Array α}
    (h : b.size + xs.size ≤ b.capacity) :
    (b.extend xs).capacity = b.capacity := by
  rw [capacity_extend, if_neg (Nat.not_lt.mpr h),
    capacity_ensure]
  exact if_pos h

------------------------------------------------------------
-- Elements and Allocations
------------------------------------------------------------

/- The elements fit into the allocation. -/
def IsAllocated
    (b : Buffer width α) : Prop :=
  b.size ≤ b.capacity

theorem isAllocated_empty :
    (empty : Buffer width α).IsAllocated :=
  Nat.le_refl 0

theorem isAllocated_push
    (b : Buffer width α)
    (x : α) :
    (b.push x).IsAllocated := by
  rw [IsAllocated, size_push, capacity_push]
  exact le_capacity_ensure _ _

theorem isAllocated_extend
    (b : Buffer width α)
    (xs : Array α) :
    (b.extend xs).IsAllocated := by
  rw [IsAllocated, size_extend, capacity_extend]
  exact le_capacity_ensure _ _

theorem IsAllocated.resize
    (h : b.IsAllocated)
    (size : Nat)
    (x : α) :
    (b.resize size x).IsAllocated := by
  by_cases hSize : size ≤ b.size
  · have hCapacity :
        (b.resize size x).capacity = b.capacity := by
      rw [Buffer.resize, if_pos hSize]
    rw [IsAllocated, size_resize_of_le x hSize, hCapacity]
    exact Nat.le_trans hSize h
  · have hCapacity :
        (b.resize size x).capacity =
          (b.ensure size).capacity := by
      rw [Buffer.resize, if_neg hSize]
    rw [IsAllocated, size_resize x (Nat.not_le.mp hSize),
      hCapacity]
    exact le_capacity_ensure size b

theorem IsAllocated.reserveExact
    (h : b.IsAllocated)
    (additional : Nat) :
    (b.reserveExact additional).IsAllocated := by
  rw [IsAllocated, size_reserveExact, capacity_reserveExact]
  split
  · exact h
  · exact Nat.le_add_right _ _

------------------------------------------------------------
-- Growth in Numbers
------------------------------------------------------------

/-
  A capacity has grown by one half, or to what is needed if
  that is more; below eight elements it may grow further.
-/
def GrowsByHalf
    (capacity needed grown : Nat) : Prop :=
  max (capacity * 3 / 2) needed ≤ grown ∧
    grown ≤ max 8 (max (capacity * 3 / 2) needed)

instance (capacity needed grown : Nat) :
    Decidable (GrowsByHalf capacity needed grown) :=
  inferInstanceAs (Decidable (_ ∧ _))

/-
  The capacity that results if a growth aims for a target.
  The reservation counts from the elements, so that the room
  that is left is missing from it. If that is not enough,
  the allocation at least doubles.
-/
def grownCapacity
    (width size capacity target needed : Nat) : Nat :=
  let reserved := max capacity (target - (capacity - size))
  if needed ≤ reserved then reserved
  else max (2 * reserved) (max needed (minCapacity width))

theorem minCapacity_eq
    (width : Nat) :
    minCapacity width = 8 ∨ minCapacity width = 4 := by
  unfold minCapacity
  split
  · exact .inl rfl
  · exact .inr rfl

/-
  A reservation falls short of its target by the room
  that is left.
-/
theorem IsAllocated.capacity_reserve_up_to
    (h : b.IsAllocated)
    (target : Nat) :
    (b.reserveExact (target - b.capacity)).capacity =
      max b.capacity (target - (b.capacity - b.size)) := by
  have hRoom : b.size ≤ b.capacity := h
  rw [capacity_reserveExact]
  split <;> omega

theorem IsAllocated.capacity_ensure_reserved
    (h : b.IsAllocated)
    (target needed : Nat) :
    ((b.reserveExact (target - b.capacity)).ensure
        needed).capacity =
      grownCapacity width b.size b.capacity target
        needed := by
  rw [capacity_ensure, h.capacity_reserve_up_to,
    grownCapacity]

/- A push onto a full buffer aims for one half more. -/
theorem capacity_push_of_full
    (x : α)
    (h : b.size = b.capacity) :
    (b.push x).capacity =
      grownCapacity width b.capacity b.capacity
        (nextCapacity b.capacity) (b.capacity + 1) := by
  have hAllocated : b.IsAllocated := Nat.le_of_eq h
  rw [capacity_push, if_pos h,
    hAllocated.capacity_ensure_reserved, h]

/-
  An extension without enough room aims for one half more,
  or for what is needed.
-/
theorem IsAllocated.capacity_extend_of_lt
    {xs : Array α}
    (h : b.IsAllocated)
    (hMore : b.capacity < b.size + xs.size) :
    (b.extend xs).capacity =
      grownCapacity width b.size b.capacity
        (max (nextCapacity b.capacity) (b.size + xs.size))
        (b.size + xs.size) := by
  rw [capacity_extend, if_pos hMore,
    h.capacity_ensure_reserved]

section Numbers

variable {size capacity count : Nat}

theorem nextCapacity_of_pos
    (h : 0 < capacity) :
    nextCapacity capacity = capacity * 3 / 2 := by
  rw [nextCapacity, if_neg (Nat.ne_of_gt h)]

/-
  The next capacity is one half more, but for the first one.
-/
theorem nextCapacity_bounds
    (capacity : Nat) :
    max capacity (capacity * 3 / 2) ≤
        nextCapacity capacity ∧
      nextCapacity capacity ≤ max 4 (capacity * 3 / 2) := by
  unfold nextCapacity
  split <;> omega

/-
  Half of one element is none: only from this capacity there
  is no next one.
-/
theorem lt_nextCapacity
    (h : capacity ≠ 1) :
    capacity < nextCapacity capacity := by
  unfold nextCapacity
  split <;> omega

/- Without room left, a reservation reaches the target. -/
theorem grownCapacity_of_full
    {target needed : Nat}
    (width : Nat)
    (hTarget : capacity ≤ target)
    (hNeeded : needed ≤ target) :
    grownCapacity width capacity capacity target needed =
      target := by
  have hReserved :
      max capacity (target - (capacity - capacity)) =
        target := by
    rw [Nat.sub_self, Nat.sub_zero,
      Nat.max_eq_right hTarget]
  rw [grownCapacity, hReserved]
  exact if_pos hNeeded

theorem growsByHalf_of_push
    (width capacity : Nat) :
    GrowsByHalf capacity (capacity + 1)
      (grownCapacity width capacity capacity
        (nextCapacity capacity) (capacity + 1)) := by
  have hNext := nextCapacity_bounds capacity
  by_cases hOne : capacity = 1
  · subst hOne
    -- Nothing is reserved, and the smallest
    -- capacity is allocated.
    rcases minCapacity_eq width with hWidth | hWidth
    · rw [grownCapacity, hWidth]
      decide
    · rw [grownCapacity, hWidth]
      decide
  · have hMore := lt_nextCapacity hOne
    rw [grownCapacity_of_full width (Nat.le_of_lt hMore)
      hMore]
    constructor
    · omega
    · omega

theorem growsByHalf_of_full
    (width capacity count : Nat) :
    GrowsByHalf capacity (capacity + count)
      (grownCapacity width capacity capacity
        (max (nextCapacity capacity) (capacity + count))
        (capacity + count)) := by
  have hNext := nextCapacity_bounds capacity
  rw [grownCapacity_of_full width (by omega)
    (Nat.le_max_right _ _)]
  constructor
  · omega
  · omega

/-
  With room left, a growth stays below what one half more or
  the need would come to, or at least doubles the capacity.
-/
theorem grownCapacity_of_room
    (width : Nat)
    (hRoom : size < capacity)
    (hMore : capacity < size + count) :
    let grown := grownCapacity width size capacity
      (max (nextCapacity capacity) (size + count))
      (size + count)
    grown < max (capacity * 3 / 2) (size + count) ∨
      2 * capacity ≤ grown := by
  rw [nextCapacity_of_pos (Nat.zero_lt_of_lt hRoom),
    grownCapacity]
  dsimp only
  split
  · left
    omega
  · right
    omega

/-
  Beyond the smallest capacities, growing by one half takes
  a full buffer, or luck.
-/
theorem growsByHalf_iff
    (width : Nat)
    (hSize : size ≤ capacity)
    (hMore : capacity < size + count)
    (hLarge : 4 < capacity) :
    GrowsByHalf capacity (size + count)
        (grownCapacity width size capacity
          (max (nextCapacity capacity) (size + count))
          (size + count)) ↔
      size = capacity ∨
        size = 0 ∧ count = 2 * capacity := by
  have hWidth := minCapacity_eq width
  rw [nextCapacity_of_pos (Nat.zero_lt_of_lt hLarge),
    GrowsByHalf, grownCapacity]
  split
  · omega
  · omega

/- No growth goes beyond twice of what it aims for. -/
theorem grownCapacity_le
    (width : Nat)
    (hSize : size ≤ capacity)
    (hMore : capacity < size + count) :
    grownCapacity width size capacity
        (max (nextCapacity capacity) (size + count))
        (size + count) ≤
      max 8
        (2 * max (capacity * 3 / 2) (size + count)) := by
  have hWidth := minCapacity_eq width
  have hNext := nextCapacity_bounds capacity
  rw [grownCapacity]
  split
  · omega
  · omega

end Numbers

------------------------------------------------------------
-- Operations
------------------------------------------------------------

/- A request to a buffer. -/
inductive Operation (α : Type) where
  | push (x : α)
  | extend (xs : Array α)
  | resize (size : Nat) (x : α)
  | reserveExact (additional : Nat)
  | clear
  | shrink
  | clone

/- Do what an operation asks for. -/
def perform
    (b : Buffer width α) : Operation α → Buffer width α
  | .push x => b.push x
  | .extend xs => b.extend xs
  | .resize size x => b.resize size x
  | .reserveExact additional => b.reserveExact additional
  | .clear => b.clear
  | .shrink => b.shrink
  | .clone => b.clone

/-
  The buffer that operations lead to, one after the other.
-/
def run
    (operations : List (Operation α)) : Buffer width α :=
  operations.foldl perform empty

theorem IsAllocated.perform
    (h : b.IsAllocated)
    (operation : Operation α) :
    (b.perform operation).IsAllocated := by
  cases operation with
  | push x => exact isAllocated_push b x
  | extend xs => exact isAllocated_extend b xs
  | resize size x => exact h.resize size x
  | reserveExact additional =>
      exact h.reserveExact additional
  | clear => exact Nat.zero_le b.capacity
  | shrink => exact Nat.le_refl b.size
  | clone => exact Nat.le_refl b.size

theorem IsAllocated.foldl_perform
    (h : b.IsAllocated)
    (operations : List (Operation α)) :
    (operations.foldl Buffer.perform b).IsAllocated := by
  induction operations generalizing b with
  | nil => exact h
  | cons operation operations ih =>
      exact ih (h.perform operation)

/-
  Whatever is done to a buffer, its elements fit
  into its allocation.
-/
theorem isAllocated_run
    (operations : List (Operation α)) :
    (run operations : Buffer width α).IsAllocated :=
  isAllocated_empty.foldl_perform operations

------------------------------------------------------------
-- Growth
------------------------------------------------------------

/-
  Whatever was done to a buffer, room that suffices is kept,
  and without room left it grows by one half, or to what is
  needed. With room left that does not suffice, an extension
  stays below that or doubles the capacity at least. But for
  the smallest capacities, an extension grows by one half
  only if the buffer is full, or if it is empty and exactly
  twice its capacity is needed.
-/
theorem full_buffer_grows_by_half
    {operations : List (Operation α)}
    (h : b = run operations) :
    (∀ x,
        b.size + 1 ≤ b.capacity →
        (b.push x).capacity = b.capacity) ∧
      (∀ xs,
        b.size + xs.size ≤ b.capacity →
        (b.extend xs).capacity = b.capacity) ∧
      (∀ x,
        b.capacity < b.size + 1 →
        GrowsByHalf b.capacity (b.size + 1)
          (b.push x).capacity) ∧
      ∀ xs,
        b.capacity < b.size + xs.size →
        (b.size = b.capacity →
            GrowsByHalf b.capacity (b.size + xs.size)
              (b.extend xs).capacity) ∧
          (b.size < b.capacity →
            (b.extend xs).capacity <
                max (b.capacity * 3 / 2)
                  (b.size + xs.size) ∨
              2 * b.capacity ≤ (b.extend xs).capacity) ∧
          b.size + xs.size ≤ (b.extend xs).capacity ∧
          (b.extend xs).capacity ≤
            max 8
              (2 *
                max (b.capacity * 3 / 2)
                  (b.size + xs.size)) ∧
          (4 < b.capacity →
            (GrowsByHalf b.capacity (b.size + xs.size)
                (b.extend xs).capacity ↔
              b.size = b.capacity ∨
                b.size = 0 ∧
                  xs.size = 2 * b.capacity)) := by
  have hAllocated : b.IsAllocated :=
    h ▸ isAllocated_run operations
  refine ⟨fun x => capacity_push_of_lt x,
    fun xs => capacity_extend_of_le, ?_, ?_⟩
  · intro x hMore
    have hFull : b.size = b.capacity :=
      Nat.le_antisymm hAllocated (Nat.le_of_lt_succ hMore)
    rw [capacity_push_of_full x hFull, hFull]
    exact growsByHalf_of_push width b.capacity
  · intro xs hMore
    have hEnough :
        b.size + xs.size ≤ (b.extend xs).capacity := by
      rw [← size_extend]
      exact isAllocated_extend b xs
    rw [hAllocated.capacity_extend_of_lt hMore] at hEnough ⊢
    refine ⟨?_, ?_, hEnough, ?_, ?_⟩
    · intro hFull
      rw [hFull]
      exact growsByHalf_of_full width b.capacity xs.size
    · intro hRoom
      exact grownCapacity_of_room width hRoom hMore
    · exact grownCapacity_le width hAllocated hMore
    · exact growsByHalf_iff width hAllocated hMore

/-
  A full buffer of ten gets room for fifteen, and one with
  two elements does not.
-/
theorem room_for_ten_becomes_room_for_fifteen :
    ((run [.reserveExact 10, .resize 10 0] :
        Buffer 4 Nat).push 0).capacity = 15 ∧
      ¬ GrowsByHalf 10 11
        ((run [.reserveExact 10, .extend #[1, 2]] :
            Buffer 4 Nat).extend
          (Array.replicate 9 0)).capacity := by
  have hFull :
      (run [.reserveExact 10, .resize 10 0] :
          Buffer 4 Nat) =
        run _ :=
    rfl
  have hRoom :
      (run [.reserveExact 10, .extend #[1, 2]] :
          Buffer 4 Nat) =
        run _ :=
    rfl
  constructor
  · have hGrows :=
      (full_buffer_grows_by_half hFull).2.2.1 0 (by decide)
    exact Nat.le_antisymm hGrows.2 hGrows.1
  · rcases (full_buffer_grows_by_half hRoom).2.2.2
        (Array.replicate 9 0) (by decide) with
      ⟨_, _, _, _, hGrows⟩
    exact fun h =>
      absurd ((hGrows (by decide)).mp h) (by decide)

/-
  Two of ten places are taken, and nine more elements are
  appended: the capacity is doubled.
-/
theorem extension_with_room_left_doubles :
    (run [.reserveExact 10, .extend #[1, 2]] :
          Buffer 4 Nat).capacity =
        10 ∧
      ((run [.reserveExact 10, .extend #[1, 2]] :
            Buffer 4 Nat).extend
          (Array.replicate 9 0)).capacity =
        20 ∧
      ¬ GrowsByHalf
        (run [.reserveExact 10, .extend #[1, 2]] :
          Buffer 4 Nat).capacity
        ((run [.reserveExact 10, .extend #[1, 2]] :
            Buffer 4 Nat).size +
          (Array.replicate 9 0).size)
        ((run [.reserveExact 10, .extend #[1, 2]] :
            Buffer 4 Nat).extend
          (Array.replicate 9 0)).capacity := by
  decide

end Buffer

------------------------------------------------------------
-- Tables
------------------------------------------------------------

namespace Table

variable {width : Nat} {α : Type}
variable {t t' : Table width α}

/- A table without room to spare. -/
def IsTight
    (t : Table width α) : Prop :=
  t.buffer.capacity = t.size

theorem heapSpace_of_isTight
    (h : t.IsTight) :
    t.heapSpace = t.size * width := by
  rw [heapSpace, Buffer.heapSpace, h]

theorem isTight_empty :
    (empty : Table width α).IsTight :=
  rfl

/- A table that is large enough stays as it is. -/
theorem grow_of_le
    {size : Nat}
    (x : α)
    (h : size ≤ t.size) :
    t.grow size x = t := by
  rw [grow, if_neg (Nat.not_lt.mpr h)]

/-
  A table has no other room than what is reserved for it.
-/
theorem capacity_grow
    (t : Table width α)
    (size : Nat)
    (x : α) :
    (t.grow size x).buffer.capacity =
      (t.buffer.reserveExact (size - t.size)).capacity := by
  by_cases hSize : t.size < size
  · have hLess : t.buffer.size < size := hSize
    have hBelow :
        ¬ size ≤
          (t.buffer.reserveExact (size - t.size)).size := by
      rw [Buffer.size_reserveExact]
      exact Nat.not_le.mpr hLess
    have hRoom :
        size ≤
          (t.buffer.reserveExact
            (size - t.size)).capacity := by
      rw [Buffer.capacity_reserveExact, Table.size]
      split <;> omega
    rw [grow, if_pos hSize, Buffer.resize, if_neg hBelow]
    dsimp only
    rw [Buffer.capacity_ensure, if_pos hRoom]
  · have hLarge : size ≤ t.size := Nat.not_lt.mp hSize
    rw [grow_of_le x hLarge, Nat.sub_eq_zero_of_le hLarge]
    rfl

/- A table that grows gets room for exactly its elements. -/
theorem IsTight.grow
    (h : t.IsTight)
    (size : Nat)
    (x : α) :
    (t.grow size x).IsTight := by
  have hTight : t.buffer.capacity = t.buffer.size := h
  rw [IsTight, capacity_grow, size_grow,
    Buffer.capacity_reserveExact, Table.size]
  split <;> omega

theorem IsTight.of_hasRoomOf
    (h : t.IsTight)
    (hRoom : t.HasRoomOf t') :
    t'.IsTight :=
  hRoom.capacity.trans (h.trans hRoom.size.symm)

end Table

end Dimacs
