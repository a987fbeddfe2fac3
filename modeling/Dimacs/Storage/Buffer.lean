import Dimacs.Check

/-
  A growable array that accounts for its capacity. It grows
  by one half; room that is known to be needed can be
  reserved exactly.

  Key definitions include:
    * `Buffer`
    * `Buffer.push`
    * `Buffer.extend`
    * `Buffer.resize`
    * `Buffer.reserveExact`
    * `Buffer.heapSpace`
    * `Buffer.tryReserve`
    * `Buffer.tryResize`
-/

namespace Dimacs

------------------------------------------------------------
-- Buffers
------------------------------------------------------------

/-
  Elements that occupy `width` bytes each, in an allocation
  that has room for `capacity` of them.
-/
structure Buffer (width : Nat) (α : Type) where
  items : Array α
  capacity : Nat

namespace Buffer

variable {width : Nat} {α : Type}

/- A buffer that allocated nothing. -/
def empty : Buffer width α where
  items := #[]
  capacity := 0

/- The number of elements. -/
def size
    (b : Buffer width α) : Nat :=
  b.items.size

/- The elements in order. -/
def toList
    (b : Buffer width α) : List α :=
  b.items.toList

/- The number of bytes the allocation occupies. -/
def heapSpace
    (b : Buffer width α) : Nat :=
  b.capacity * width

------------------------------------------------------------
-- Growth
------------------------------------------------------------

/-
  Make room for a number of further elements, and not for
  more. Room that is there already is kept.
-/
def reserveExact
    (additional : Nat)
    (b : Buffer width α) : Buffer width α :=
  if additional ≤ b.capacity - b.size then b
  else { b with capacity := b.size + additional }

/-
  The smallest allocation that arises without
  an exact reservation.
-/
def minCapacity
    (width : Nat) : Nat :=
  if width = 1 then 8 else 4

/-
  Make room for a number of elements in all. If there is
  not enough, the allocation at least doubles.
-/
def ensure
    (needed : Nat)
    (b : Buffer width α) : Buffer width α :=
  if needed ≤ b.capacity then b
  else
    { b with
      capacity :=
        max (2 * b.capacity)
          (max needed (minCapacity width)) }

/- The capacity to aim for when there is no room left. -/
def nextCapacity
    (capacity : Nat) : Nat :=
  if capacity = 0 then 4 else capacity * 3 / 2

/- Append an element. -/
def push
    (b : Buffer width α)
    (x : α) : Buffer width α :=
  let grown :=
    if b.size = b.capacity then
      b.reserveExact (nextCapacity b.capacity - b.capacity)
    else b
  match grown.ensure (b.size + 1) with
  | ⟨items, capacity⟩ => ⟨items.push x, capacity⟩

/- Append all elements of an array. -/
def extend
    (b : Buffer width α)
    (xs : Array α) : Buffer width α :=
  let grown :=
    if b.capacity < b.size + xs.size then
      b.reserveExact
        (max (nextCapacity b.capacity) (b.size + xs.size) -
          b.capacity)
    else b
  match grown.ensure (b.size + xs.size) with
  | ⟨items, capacity⟩ => ⟨items ++ xs, capacity⟩

/-
  Drop elements at the end, or append copies of
  one element there.
-/
def resize
    (b : Buffer width α)
    (size : Nat)
    (x : α) : Buffer width α :=
  if size ≤ b.size then
    match b with
    | ⟨items, capacity⟩ => ⟨items.take size, capacity⟩
  else
    match b.ensure size with
    | ⟨items, capacity⟩ =>
        ⟨items ++ Array.replicate (size - items.size) x,
          capacity⟩

/- Drop all elements and keep the allocation. -/
def clear
    (b : Buffer width α) : Buffer width α :=
  { b with items := #[] }

/- Give back the room that holds no elements. -/
def shrink
    (b : Buffer width α) : Buffer width α :=
  { b with capacity := b.size }

/- A copy, which has no room to spare. -/
def clone
    (b : Buffer width α) : Buffer width α :=
  { b with capacity := b.size }

------------------------------------------------------------
-- Limits
------------------------------------------------------------

/-
  Make room as `reserveExact` does, unless the allocation
  would become too large.
-/
def tryReserve
    (b : Buffer width α)
    (additional : Nat) :
      Except Violation (Buffer width α) :=
  let reserved := b.reserveExact additional
  match Check.allocation reserved.heapSpace with
  | .ok () => .ok reserved
  | .error violation => .error violation

/-
  Resize, unless the allocation would become too large,
  which is found out before any element is copied.
-/
def tryResize
    (b : Buffer width α)
    (size : Nat)
    (x : α) : Except Violation (Buffer width α) :=
  match Check.allocation (b.ensure size).heapSpace with
  | .ok () => .ok (b.resize size x)
  | .error violation => .error violation

------------------------------------------------------------
-- Access
------------------------------------------------------------

/- The element at a position. -/
def get
    (b : Buffer width α)
    (index : Nat) : Except Violation α :=
  match b.items[index]? with
  | some x => .ok x
  | none => .error (.outOfBounds index b.size)

/- Replace the element at a position. -/
def set
    (b : Buffer width α)
    (index : Nat)
    (x : α) : Except Violation (Buffer width α) :=
  match b with
  | ⟨items, capacity⟩ =>
      if index < items.size then
        .ok ⟨items.setIfInBounds index x, capacity⟩
      else .error (.outOfBounds index items.size)

/-
  The elements from one position up to another; both may be
  at the end.
-/
def slice
    (b : Buffer width α)
    (start stop : Nat) : Except Violation (Array α) :=
  match Check.inBounds (b.size + 1) start with
  | .error violation => .error violation
  | .ok () =>
      match Check.inBounds (b.size + 1) stop with
      | .error violation => .error violation
      | .ok () => .ok (b.items.extract start stop)

------------------------------------------------------------
-- Contents
------------------------------------------------------------

theorem toList_reserveExact
    (additional : Nat)
    (b : Buffer width α) :
    (b.reserveExact additional).toList = b.toList := by
  unfold reserveExact
  split <;> rfl

theorem toList_ensure
    (needed : Nat)
    (b : Buffer width α) :
    (b.ensure needed).toList = b.toList := by
  unfold ensure
  split <;> rfl

theorem toList_push
    (b : Buffer width α)
    (x : α) :
    (b.push x).toList = b.toList ++ [x] := by
  unfold push
  split
  · next hSize =>
      have hItems := toList_ensure (b.size + 1)
        (b.reserveExact
          (nextCapacity b.capacity - b.capacity))
      rw [toList_reserveExact] at hItems
      simp only [toList] at hItems ⊢
      rw [← hItems]
      simp
  · next hSize =>
      have hItems := toList_ensure (b.size + 1) b
      simp only [toList] at hItems ⊢
      rw [← hItems]
      simp

theorem toList_extend
    (b : Buffer width α)
    (xs : Array α) :
    (b.extend xs).toList = b.toList ++ xs.toList := by
  unfold extend
  split
  · next hSize =>
      have hItems := toList_ensure (b.size + xs.size)
        (b.reserveExact
          (max (nextCapacity b.capacity)
              (b.size + xs.size) -
            b.capacity))
      rw [toList_reserveExact] at hItems
      simp only [toList] at hItems ⊢
      rw [← hItems]
      simp
  · next hSize =>
      have hItems := toList_ensure (b.size + xs.size) b
      simp only [toList] at hItems ⊢
      rw [← hItems]
      simp

end Buffer

end Dimacs
