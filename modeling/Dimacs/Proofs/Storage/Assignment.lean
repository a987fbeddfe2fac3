import Dimacs.Proofs.Storage.Contents

/-
  What a table holds after the elements of variables were
  replaced one after the other: for each variable the last
  element that was assigned to it.

  Key definitions include:
    * `Table.assign`
    * `lastAssigned?`

  Main statements:
    * `Table.get_grow`
    * `Table.fill_eq`
    * `Table.get_of_set`
    * `Table.exists_assign`
    * `Table.get_of_assign`
-/

namespace Dimacs

/-
  The last element that is assigned to a variable, if
  there is one.
-/
def lastAssigned?
    {α : Type}
    (assignments : List (Variable × α))
    (v : Variable) : Option α :=
  (assignments.filterMap fun a =>
    if a.1 = v then some a.2 else none).getLast?

theorem lastAssigned?_cons
    {α : Type}
    (a : Variable × α)
    (assignments : List (Variable × α))
    (v : Variable)
    (x : α) :
    (lastAssigned? (a :: assignments) v).getD x =
      (lastAssigned? assignments v).getD
        (if a.1 = v then a.2 else x) := by
  by_cases hSame : a.1 = v
  · simp only [lastAssigned?, List.filterMap_cons,
      if_pos hSame, List.getLast?_cons, Option.getD_some]
  · simp only [lastAssigned?, List.filterMap_cons,
      if_neg hSame]

namespace Table

variable {width : Nat} {α : Type}
variable {t t' : Table width α}

------------------------------------------------------------
-- Single Elements
------------------------------------------------------------

theorem get_eq_ok_iff
    {v : Variable}
    {x : α} :
    t.get v = .ok x ↔ t.toList[v.index]? = some x :=
  Buffer.get_eq_ok_iff

/- A table that grows keeps its elements. -/
theorem get_grow
    {v : Variable}
    {x : α}
    (size : Nat)
    (y : α)
    (h : t.get v = .ok x) :
    (t.grow size y).get v = .ok x := by
  rw [get_eq_ok_iff] at h ⊢
  by_cases hSize : t.size < size
  · have hSmall :
        (t.buffer.reserveExact (size - t.size)).size <
          size := by
      rw [Buffer.size_reserveExact]
      exact hSize
    have hBound := (List.getElem?_eq_some_iff.mp h).1
    rw [grow, if_pos hSize, toList,
      Buffer.toList_resize y hSmall,
      Buffer.toList_reserveExact]
    rw [toList] at h hBound
    rw [List.getElem?_append_left hBound, h]
  · rw [grow, if_neg hSize]
    exact h

/-
  A table that is filled depends on its size and
  its room only.
-/
theorem fill_eq
    (t : Table width α)
    (x : α) :
    t.fill x =
      ⟨⟨Array.replicate t.size x, t.buffer.capacity⟩⟩ := by
  rcases t with ⟨⟨items, capacity⟩⟩
  rw [fill, Array.map_const']
  rfl

/-
  Whatever a table holds has no influence on what it
  is filled with.
-/
theorem fill_overwrite
    (t : Table width α)
    (xs : Array α)
    (x : α) :
    (t.overwrite xs).fill x = t.fill x := by
  rw [fill_eq, fill_eq, size_overwrite]
  rfl

/- Only the last filling counts. -/
theorem fill_fill
    (t : Table width α)
    (x y : α) :
    (t.fill y).fill x = t.fill x := by
  rw [fill_eq (t.fill y) x, fill_eq t x, size_fill]
  rfl

theorem get_fill
    {v : Variable}
    (x : α)
    (h : v.index < t.size) :
    (t.fill x).get v = .ok x := by
  rw [get_eq_ok_iff, fill_eq]
  simp [toList, Buffer.toList, h]

theorem toList_of_set
    {v : Variable}
    {x : α}
    (h : t.set v x = .ok t') :
    t'.toList = t.toList.set v.index x := by
  rcases t with ⟨⟨items, capacity⟩⟩
  simp only [set, Buffer.set] at h
  split at h
  · next b' hSet =>
      split at hSet
      · cases hSet
        cases h
        exact Array.toList_setIfInBounds
      · cases hSet
  · cases h

/-
  The element of one variable is replaced, and those of the
  others are kept.
-/
theorem get_of_set
    {v w : Variable}
    {x y : α}
    (h : t.set w y = .ok t')
    (hOld : t.get v = .ok x) :
    t'.get v = .ok (if w = v then y else x) := by
  rw [get_eq_ok_iff] at hOld ⊢
  rw [toList_of_set h]
  by_cases hSame : w = v
  · subst hSame
    have hBound := (List.getElem?_eq_some_iff.mp hOld).1
    rw [List.getElem?_set_self hBound, if_pos rfl]
  · have hIndex : w.index ≠ v.index :=
      fun hIndex => hSame (congrArg Variable.mk hIndex)
    rw [List.getElem?_set_ne hIndex, hOld, if_neg hSame]

------------------------------------------------------------
-- One Element after the Other
------------------------------------------------------------

/-
  Replace the elements of variables, one after the other.
-/
def assign
    (t : Table width α) :
      List (Variable × α) → Except Violation (Table width α)
  | [] => .ok t
  | a :: assignments =>
      match t.set a.1 a.2 with
      | .ok t' => t'.assign assignments
      | .error violation => .error violation

/- All variables that have a place can be assigned to. -/
theorem exists_assign
    {assignments : List (Variable × α)}
    (h : ∀ a ∈ assignments, a.1.index < t.size) :
    ∃ t', t.assign assignments = .ok t' := by
  induction assignments generalizing t with
  | nil => exact ⟨t, rfl⟩
  | cons a assignments ih =>
      rw [List.forall_mem_cons] at h
      rcases exists_set a.2 h.1 with ⟨t₁, hSet⟩
      rw [← size_set hSet] at h
      rcases ih h.2 with ⟨t', hAssign⟩
      refine ⟨t', ?_⟩
      rw [assign, hSet]
      exact hAssign

/-
  The last assignment to a variable decides, and without one
  its element is kept.
-/
theorem get_of_assign
    {assignments : List (Variable × α)}
    {v : Variable}
    {x : α}
    (h : t.assign assignments = .ok t')
    (hOld : t.get v = .ok x) :
    t'.get v =
      .ok ((lastAssigned? assignments v).getD x) := by
  induction assignments generalizing t x with
  | nil =>
      cases h
      exact hOld
  | cons a assignments ih =>
      rw [assign] at h
      split at h
      · next t₁ hSet =>
          rw [lastAssigned?_cons]
          exact ih h (get_of_set hSet hOld)
      · cases h

/- Assignments change neither the size nor the room. -/
theorem fill_of_assign
    {assignments : List (Variable × α)}
    (h : t.assign assignments = .ok t')
    (x : α) :
    t'.fill x = t.fill x := by
  induction assignments generalizing t with
  | nil =>
      cases h
      rfl
  | cons a assignments ih =>
      rw [assign] at h
      split at h
      · next t₁ hSet =>
          rw [ih h, fill_eq, fill_eq, size_set hSet,
            (hasRoomOf_of_set hSet).capacity]
      · cases h

end Table

end Dimacs
