import Dimacs.Proofs.Storage.Growth

/-
  Requests that may be too large. Each one comes to what it
  comes to without a limit, as long as the allocation that
  results is not larger than one may be, and is refused
  otherwise. The limit is checked before any element is
  copied, on an allocation that is the resulting one.

  Key definitions include:
    * `Check.Limits`

  Main statements:
    * `Check.Limits.eq_ok_iff`
    * `Check.Limits.eq_error_iff`
    * `Buffer.limits_tryReserve`
    * `Buffer.IsAllocated.limits_tryResize`
    * `Table.limits_tryGrow`
    * `Buffer.IsAllocated.of_tryReserve`
    * `Buffer.IsAllocated.of_tryResize`
-/

namespace Dimacs

------------------------------------------------------------
-- Limits
------------------------------------------------------------

namespace Check

variable {α : Type}
variable {attempt : Except Violation α}
variable {outcome a : α}
variable {bytes : Nat}
variable {violation : Violation}

/-
  An attempt has its outcome if the outcome occupies a
  number of bytes that one allocation may have.
-/
structure Limits
    (attempt : Except Violation α)
    (outcome : α)
    (bytes : Nat) : Prop where
  accepted : bytes ≤ maxAllocation → attempt = .ok outcome
  refused : maxAllocation < bytes →
    attempt = .error .capacityOverflow

theorem Limits.eq_ok_iff
    (h : Limits attempt outcome bytes) :
    attempt = .ok a ↔
      bytes ≤ maxAllocation ∧ outcome = a := by
  by_cases hBytes : bytes ≤ maxAllocation
  · simp [h.accepted hBytes, hBytes]
  · simp [h.refused (Nat.not_le.mp hBytes), hBytes]

theorem Limits.eq_error_iff
    (h : Limits attempt outcome bytes) :
    attempt = .error violation ↔
      maxAllocation < bytes ∧
        violation = .capacityOverflow := by
  by_cases hBytes : bytes ≤ maxAllocation
  · simp [h.accepted hBytes, Nat.not_lt.mpr hBytes]
  · simp [h.refused (Nat.not_le.mp hBytes),
      Nat.not_le.mp hBytes, eq_comm]

/- What is checked in front of an outcome limits it. -/
theorem limits_of_allocation
    (outcome : α)
    (bytes : Nat) :
    Limits
      (match allocation bytes with
      | .ok () => .ok outcome
      | .error violation => .error violation)
      outcome bytes where
  accepted := by
    intro hBytes
    rw [allocation, if_pos hBytes]
  refused := by
    intro hBytes
    rw [allocation, if_neg (Nat.not_le.mpr hBytes)]

end Check

open Check (Limits)

------------------------------------------------------------
-- Buffers
------------------------------------------------------------

namespace Buffer

variable {width : Nat} {α : Type}
variable {b b' : Buffer width α}

theorem limits_tryReserve
    (b : Buffer width α)
    (additional : Nat) :
    Limits (b.tryReserve additional)
      (b.reserveExact additional)
      (b.reserveExact additional).heapSpace :=
  Check.limits_of_allocation _ _

/- Before it is resized, a buffer has its final capacity. -/
theorem IsAllocated.capacity_resize
    (h : b.IsAllocated)
    (size : Nat)
    (x : α) :
    (b.resize size x).capacity =
      (b.ensure size).capacity := by
  by_cases hSize : size ≤ b.size
  · have hRoom : size ≤ b.capacity := Nat.le_trans hSize h
    rw [Buffer.resize, if_pos hSize, capacity_ensure,
      if_pos hRoom]
  · rw [Buffer.resize, if_neg hSize]

theorem IsAllocated.limits_tryResize
    (h : b.IsAllocated)
    (size : Nat)
    (x : α) :
    Limits (b.tryResize size x) (b.resize size x)
      (b.resize size x).heapSpace := by
  have hSpace :
      (b.resize size x).heapSpace =
        (b.ensure size).heapSpace := by
    rw [heapSpace, h.capacity_resize, heapSpace]
  rw [hSpace]
  exact Check.limits_of_allocation _ _

/- What was accepted has room for its elements. -/
theorem IsAllocated.of_tryReserve
    {additional : Nat}
    (h : b.IsAllocated)
    (hReserve : b.tryReserve additional = .ok b') :
    b'.IsAllocated := by
  rcases (limits_tryReserve b additional).eq_ok_iff.mp
    hReserve with ⟨_, rfl⟩
  exact h.reserveExact additional

theorem IsAllocated.of_tryResize
    {size : Nat}
    {x : α}
    (h : b.IsAllocated)
    (hResize : b.tryResize size x = .ok b') :
    b'.IsAllocated := by
  rcases (h.limits_tryResize size x).eq_ok_iff.mp
    hResize with ⟨_, rfl⟩
  exact h.resize size x

end Buffer

------------------------------------------------------------
-- Tables
------------------------------------------------------------

namespace Table

variable {width : Nat} {α : Type}

theorem limits_tryGrow
    (t : Table width α)
    (size : Nat)
    (x : α) :
    Limits (t.tryGrow size x) (t.grow size x)
      (t.grow size x).heapSpace := by
  have hSpace :
      (t.grow size x).heapSpace =
        (t.buffer.reserveExact
          (size - t.size)).heapSpace := by
    rw [heapSpace, Buffer.heapSpace, capacity_grow,
      Buffer.heapSpace]
  rw [hSpace]
  exact Check.limits_of_allocation _ _

end Table

end Dimacs
