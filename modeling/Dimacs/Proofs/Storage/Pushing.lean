import Dimacs.Proofs.Storage.Growth
import Mathlib.Order.Bounds.Defs
import Mathlib.Order.Monotone.Basic

/-
  The capacity of a buffer to which elements are appended
  one by one. It passes through fixed stages, from four by
  one half more each time, and is always the least one
  that suffices. In whatever way a buffer came about, a
  growth aims for no less than the capacity, also where
  half of it is nothing.

  Key definitions include:
    * `Buffer.stage`
    * `Buffer.stagesFor`
    * `Buffer.pushAll`
    * `Buffer.IsStaged`
    * `Buffer.IsReachable`
    * `Buffer.GrowsTowards`

  Main statements:
    * `Buffer.le_of_isLeast_stagesFor`
    * `Buffer.IsStaged.push`
    * `Buffer.IsStaged.pushAll`
    * `Buffer.IsReachable.isAllocated`
    * `Buffer.pushing_passes_through_stages`
-/

namespace Dimacs

namespace Buffer

variable {width : Nat} {α : Type}
variable {b b' : Buffer width α}

------------------------------------------------------------
-- Stages
------------------------------------------------------------

/-
  The capacities that pushing passes through: four, and one
  half more each time.
-/
def stage : Nat → Nat
  | 0 => 4
  | k + 1 => 3 * stage k / 2

theorem four_le_stage
    (k : Nat) :
    4 ≤ stage k := by
  induction k with
  | zero => exact Nat.le_refl 4
  | succ k ih =>
      rw [stage]
      omega

theorem nextCapacity_stage
    (k : Nat) :
    nextCapacity (stage k) = stage (k + 1) := by
  have hStage := four_le_stage k
  rw [nextCapacity_of_pos (by omega), Nat.mul_comm, stage]

theorem stage_strictMono :
    StrictMono stage := by
  apply strictMono_nat_of_lt_succ
  intro k
  have hStage := four_le_stage k
  rw [stage]
  omega

/- The stages that have room for a number of elements. -/
def stagesFor
    (count : Nat) : Set Nat :=
  {capacity | count ≤ capacity ∧ ∃ k, stage k = capacity}

section Stages

variable {count capacity : Nat}

theorem isLeast_stagesFor_of_le_four
    (h : count ≤ 4) :
    IsLeast (stagesFor count) 4 := by
  refine ⟨⟨h, 0, rfl⟩, ?_⟩
  rintro _ ⟨_, k, rfl⟩
  exact four_le_stage k

/- With room left, the stage stays. -/
theorem isLeast_stagesFor_of_lt
    (h : IsLeast (stagesFor count) capacity)
    (hRoom : count < capacity) :
    IsLeast (stagesFor (count + 1)) capacity := by
  rcases h with ⟨⟨_, hStage⟩, hLeast⟩
  refine ⟨⟨hRoom, hStage⟩, ?_⟩
  intro other hOther
  exact hLeast ⟨Nat.le_of_succ_le hOther.1, hOther.2⟩

/- Without room left, the next stage is the least one. -/
theorem isLeast_stagesFor_of_full
    (h : IsLeast (stagesFor capacity) capacity) :
    IsLeast (stagesFor (capacity + 1))
      (nextCapacity capacity) := by
  rcases h with ⟨⟨_, k, rfl⟩, _⟩
  rw [nextCapacity_stage]
  refine
    ⟨⟨stage_strictMono (Nat.lt_succ_self k), k + 1, rfl⟩,
      ?_⟩
  rintro _ ⟨hRoom, j, rfl⟩
  have hLater : k < j := stage_strictMono.lt_iff_lt.mp hRoom
  exact stage_strictMono.monotone hLater

/-
  The stage before the least one that suffices
  was too small.
-/
theorem le_of_isLeast_stagesFor
    (h : IsLeast (stagesFor count) capacity) :
    capacity ≤ max 4 (3 * (count - 1) / 2) := by
  rcases h with ⟨⟨_, k, rfl⟩, hLeast⟩
  cases k with
  | zero => exact Nat.le_max_left _ _
  | succ k =>
      have hSmaller : stage k < stage (k + 1) :=
        stage_strictMono (Nat.lt_succ_self k)
      have hTooSmall : stage k < count := by
        apply Nat.lt_of_not_le
        intro hRoom
        exact Nat.not_le_of_lt hSmaller
          (hLeast ⟨hRoom, k, rfl⟩)
      rw [stage]
      omega

end Stages

------------------------------------------------------------
-- Repeated Pushing
------------------------------------------------------------

/- Append elements one by one. -/
def pushAll
    (b : Buffer width α)
    (xs : List α) : Buffer width α :=
  xs.foldl push b

/-
  The capacity is the least stage with room
  for the elements.
-/
def IsStaged
    (b : Buffer width α) : Prop :=
  IsLeast (stagesFor b.size) b.capacity

theorem size_pushAll
    (b : Buffer width α)
    (xs : List α) :
    (b.pushAll xs).size = b.size + xs.length := by
  induction xs generalizing b with
  | nil => rfl
  | cons x xs ih =>
      change ((b.push x).pushAll xs).size = _
      rw [ih, size_push, List.length_cons]
      omega

/-
  A push onto a full buffer reaches the next capacity, but
  for a capacity of one.
-/
theorem capacity_push_eq_next
    (x : α)
    (hFull : b.size = b.capacity)
    (hOne : b.capacity ≠ 1) :
    (b.push x).capacity = nextCapacity b.capacity := by
  have hMore := lt_nextCapacity hOne
  rw [capacity_push_of_full x hFull]
  exact grownCapacity_of_full width (Nat.le_of_lt hMore)
    hMore

/-
  Half of one is nothing, so that the smallest
  allocation takes over.
-/
theorem grownCapacity_of_one
    (width : Nat) :
    grownCapacity width 1 1 (nextCapacity 1) (1 + 1) =
      minCapacity width := by
  rcases minCapacity_eq width with hWidth | hWidth
  · rw [grownCapacity, hWidth]
    rfl
  · rw [grownCapacity, hWidth]
    rfl

theorem capacity_push_of_one
    (x : α)
    (hFull : b.size = b.capacity)
    (hOne : b.capacity = 1) :
    (b.push x).capacity = minCapacity width := by
  rw [capacity_push_of_full x hFull, hOne]
  exact grownCapacity_of_one width

theorem isStaged_push_empty
    (x : α) :
    ((empty : Buffer width α).push x).IsStaged := by
  rw [IsStaged, size_push,
    capacity_push_eq_next x rfl Nat.zero_ne_one]
  exact isLeast_stagesFor_of_le_four (Nat.le_add_left 1 3)

/-
  A push keeps the stage, or leads from a full one
  to the next.
-/
theorem IsStaged.push
    (h : b.IsStaged)
    (x : α) :
    (b.push x).IsStaged := by
  have hRoom : b.size ≤ b.capacity := h.1.1
  rw [IsStaged, size_push]
  rcases Nat.lt_or_eq_of_le hRoom with hLeft | hFull
  · rw [capacity_push_of_lt x hLeft]
    exact isLeast_stagesFor_of_lt h hLeft
  · have hOne : b.capacity ≠ 1 := by
      rcases h.1.2 with ⟨k, hStage⟩
      have hFour := four_le_stage k
      omega
    rw [capacity_push_eq_next x hFull hOne, hFull]
    rw [IsStaged, hFull] at h
    exact isLeast_stagesFor_of_full h

theorem IsStaged.pushAll
    (h : b.IsStaged)
    (xs : List α) :
    (b.pushAll xs).IsStaged := by
  induction xs generalizing b with
  | nil => exact h
  | cons x xs ih => exact ih (h.push x)

/- Pushing onto a new buffer reaches stages only. -/
theorem isStaged_pushAll_empty
    {xs : List α}
    (h : xs ≠ []) :
    ((empty : Buffer width α).pushAll xs).IsStaged := by
  cases xs with
  | nil => exact absurd rfl h
  | cons x xs => exact (isStaged_push_empty x).pushAll xs

------------------------------------------------------------
-- Targets of a Growth
------------------------------------------------------------

/-
  The buffers that come about: a new one, what operations
  make of it, and what it becomes when elements are
  overwritten in place.
-/
inductive IsReachable : Buffer width α → Prop
  | empty : IsReachable empty
  | perform
      {b : Buffer width α}
      (h : IsReachable b)
      (operation : Operation α) :
      IsReachable (b.perform operation)
  | overwrite
      {b b' : Buffer width α}
      (h : IsReachable b)
      (hSize : b'.size = b.size)
      (hCapacity : b'.capacity = b.capacity) :
      IsReachable b'

theorem IsReachable.isAllocated
    (h : b.IsReachable) :
    b.IsAllocated := by
  induction h with
  | empty => exact isAllocated_empty
  | perform _ operation ih => exact ih.perform operation
  | overwrite _ hSize hCapacity ih =>
      rw [IsAllocated, hSize, hCapacity]
      exact ih

/-
  To grow towards a target, what the capacity falls short of
  it is reserved, for which the target must not lie below
  the capacity. If that is not enough for what is needed,
  more is allocated.
-/
def GrowsTowards
    (b : Buffer width α)
    (target needed grown : Nat) : Prop :=
  b.capacity ≤ target ∧
    grown =
      ((b.reserveExact (target - b.capacity)).ensure
        needed).capacity

theorem growsTowards_push
    (x : α)
    (hFull : b.size = b.capacity) :
    b.GrowsTowards (nextCapacity b.capacity) (b.size + 1)
      (b.push x).capacity := by
  have hTarget := (nextCapacity_bounds b.capacity).1
  refine ⟨Nat.le_trans (Nat.le_max_left _ _) hTarget, ?_⟩
  rw [capacity_push, if_pos hFull]

theorem growsTowards_extend
    {xs : Array α}
    (hMore : b.capacity < b.size + xs.size) :
    b.GrowsTowards
      (max (nextCapacity b.capacity) (b.size + xs.size))
      (b.size + xs.size) (b.extend xs).capacity := by
  refine
    ⟨Nat.le_trans (Nat.le_of_lt hMore)
        (Nat.le_max_right _ _), ?_⟩
  rw [capacity_extend, if_pos hMore]

------------------------------------------------------------
-- Capacities under Pushing
------------------------------------------------------------

/-
  Elements that are pushed one by one onto a new buffer
  get the least stage that has room for them. However a
  buffer came about, its elements fit into its capacity,
  and the target of a growth never lies below the
  capacity, so that the difference that is reserved is
  exact. From a capacity of one there is no next one, and
  the smallest allocation takes over.
-/
theorem pushing_passes_through_stages :
    (∀ xs : List α,
        xs ≠ [] →
        IsLeast (stagesFor xs.length)
            ((empty : Buffer width α).pushAll xs).capacity ∧
          ((empty : Buffer width α).pushAll xs).capacity ≤
            max 4 (3 * (xs.length - 1) / 2)) ∧
      ∀ b : Buffer width α,
        b.IsReachable →
        b.size ≤ b.capacity ∧
          (∀ x,
            b.size = b.capacity →
            b.GrowsTowards (nextCapacity b.capacity)
              (b.size + 1) (b.push x).capacity) ∧
          (∀ xs,
            b.capacity < b.size + xs.size →
            b.GrowsTowards
              (max (nextCapacity b.capacity)
                (b.size + xs.size)) (b.size + xs.size)
              (b.extend xs).capacity) ∧
          (b.size = b.capacity →
            b.capacity = 1 →
            nextCapacity b.capacity = b.capacity ∧
              ∀ x,
                (b.push x).capacity =
                  minCapacity width) := by
  constructor
  · intro xs hNonempty
    have hStaged :
        ((empty : Buffer width α).pushAll xs).IsStaged :=
      isStaged_pushAll_empty hNonempty
    have hSize :
        ((empty : Buffer width α).pushAll xs).size =
          xs.length := by
      rw [size_pushAll]
      exact Nat.zero_add xs.length
    rw [IsStaged, hSize] at hStaged
    exact ⟨hStaged, le_of_isLeast_stagesFor hStaged⟩
  · intro b hReachable
    refine
      ⟨hReachable.isAllocated, fun x => growsTowards_push x,
        fun xs => growsTowards_extend, ?_⟩
    intro hFull hOne
    refine ⟨?_, fun x => capacity_push_of_one x hFull hOne⟩
    rw [hOne]
    rfl

/-
  Seven elements get room for nine. A buffer with one
  element and no room for another aims for its own
  capacity when it is pushed to, and for what is needed
  when it is extended.
-/
theorem seven_elements_get_room_for_nine :
    IsLeast (stagesFor 7)
        ((empty : Buffer 4 Nat).pushAll
          [1, 2, 3, 4, 5, 6, 7]).capacity ∧
      ((empty : Buffer 4 Nat).pushAll
          [1, 2, 3, 4, 5, 6, 7]).capacity =
        9 ∧
      ∃ b : Buffer 4 Nat,
        b.IsReachable ∧
        b.size = 1 ∧
        b.capacity = 1 ∧
        b.GrowsTowards 1 2 (b.push 8).capacity ∧
        (b.push 8).capacity = 4 ∧
        b.GrowsTowards 3 3 (b.extend #[8, 9]).capacity := by
  have hReachable :
      ((empty.perform (.push 0)).perform .shrink :
        Buffer 4 Nat).IsReachable :=
    (IsReachable.empty.perform (.push 0)).perform .shrink
  rcases pushing_passes_through_stages.2 _ hReachable with
    ⟨_, hPush, hExtend, hOne⟩
  refine
    ⟨(pushing_passes_through_stages.1 [1, 2, 3, 4, 5, 6, 7]
        (List.cons_ne_nil _ _)).1, by decide, _, hReachable,
      rfl, rfl, hPush 8 rfl, (hOne rfl rfl).2 8,
      hExtend #[8, 9] ?_⟩
  decide

end Buffer

end Dimacs
