import Dimacs.Formula.Operation
import Dimacs.Proofs.Formula.Blocks
import Dimacs.Proofs.Formula.InPlace
import Dimacs.Proofs.Storage.Clauses

/-
  What a formula holds after the literals and zeros of a
  sequence were added to it. The relation between a formula
  and such a sequence is kept by each operation, which adds
  its own literals at the end and changes nothing else.

  Key definitions include:
    * `Formula.Holds`
    * `Formula.IsAdmitted`

  Main statements:
    * `Formula.holds_empty`
    * `Formula.Holds.reserve`
    * `Formula.Holds.endClause`
    * `Formula.Holds.exists_addLiteral`
    * `Formula.exists_of_addLiteral`
    * `Formula.cases_of_applyEvent`
    * `Formula.Holds.exists_applyEvents`
-/

namespace Dimacs

open Translation (encode remember IsIndex)

namespace Formula

/-
  A formula to which the given literals and zeros were
  added. The indices are numbered in the order of first
  occurrence, the clauses are those that zeros finished, and
  all variables have a place for their phases.
-/
structure Holds
    (f : Formula)
    (literals : List Int) : Prop where
  sound : f.translation.IsSound
  indices : f.translation.indices = indicesOf literals
  clauses :
      f.clauses.Stores
        ((clausesOf literals).map
          (List.map (encode (indicesOf literals))))
  pending :
      f.pending.toList =
        (unfinishedOf literals).map
          (encode (indicesOf literals))
  inconsistent :
      f.inconsistent = true ↔ [] ∈ clausesOf literals
  order : ∀ v ∈ f.order.toList, v.index < f.variableCount
  phases : f.initial.size = f.neural.size
  room : max f.variableCount f.reserved ≤ f.initial.size

variable {f : Formula}
variable {literals : List Int}

theorem holds_empty :
    empty.Holds [] where
  sound := Translation.isSound_empty
  indices := rfl
  clauses := ClauseStore.stores_empty
  pending := rfl
  inconsistent := by simp [empty]
  order := nofun
  phases := rfl
  room := Nat.le_refl 0

/- There are as many variables as indices that occurred. -/
theorem Holds.variableCount_eq
    (h : f.Holds literals) :
    f.variableCount = (indicesOf literals).length := by
  rw [← h.indices, Translation.length_indices,
    variableCount]

------------------------------------------------------------
-- Reserving
------------------------------------------------------------

theorem Holds.reserve
    (h : f.Holds literals)
    (count : Nat) :
    (f.reserve count).Holds literals := by
  rcases f with
    ⟨translation, clauses, pending, initial, neural, order,
      inconsistent, reserved⟩
  have hSize :
      (translation.reserve count).size =
        translation.size := by
    rw [← Translation.length_indices,
      Translation.indices_reserve,
      Translation.length_indices]
  have hRoom := h.room
  have hPhases := h.phases
  refine ⟨h.sound.reserve count, ?_, h.clauses, h.pending,
    h.inconsistent, ?_, ?_, ?_⟩
  · exact (Translation.indices_reserve count
        translation).trans h.indices
  · intro v hv
    exact Nat.lt_of_lt_of_eq (h.order v hv) hSize.symm
  · simp only [Formula.reserve, Table.size_grow]
      at hPhases ⊢
    rw [hPhases]
  · simp only [Formula.reserve, variableCount, hSize,
      Table.size_grow] at hRoom ⊢
    omega

------------------------------------------------------------
-- Adding Literals
------------------------------------------------------------

/- A zero finishes the pending clause. -/
theorem Holds.endClause
    (h : f.Holds literals) :
    f.endClause.Holds (literals ++ [0]) := by
  rcases f with
    ⟨translation, clauses, pending, initial, neural, order,
      inconsistent, reserved⟩
  have hPending : pending.items.toList = _ := h.pending
  have hOpen :
      pending.size = 0 ↔ unfinishedOf literals = [] := by
    rw [← Buffer.length_toList, h.pending, List.length_map,
      List.length_eq_zero_iff]
  refine
    ⟨h.sound, ?_, ?_, ?_, ?_, h.order, h.phases, h.room⟩
  · rw [indicesOf_snoc_zero]
    exact h.indices
  · rw [indicesOf_snoc_zero, clausesOf_snoc_zero,
      List.map_append, List.map_singleton, ← hPending]
    exact h.clauses.push pending.items
  · rw [unfinishedOf_snoc_zero]
    rfl
  · have hInconsistent :
        inconsistent = true ↔ [] ∈ clausesOf literals :=
      h.inconsistent
    rw [clausesOf_snoc_zero, List.mem_append,
      List.mem_singleton, ← hInconsistent,
      eq_comm (a := []), ← hOpen]
    change (inconsistent || decide (pending.size = 0)) =
        true ↔
      _
    rw [Bool.or_eq_true, decide_eq_true_eq]

/-
  Indices that occur later leave the literals of
  earlier ones alone.
-/
theorem map_encode_of_extended
    {values : List Int}
    {indices indices' : List Nat}
    (hPrefix : indices <+: indices')
    (h : ∀ value ∈ values, value.natAbs ∈ indices) :
    values.map (encode indices') =
      values.map (encode indices) := by
  apply List.map_congr_left
  intro value hValue
  exact Translation.encode_of_extended hPrefix
    (h value hValue)

theorem map_clausesOf_of_extended
    {indices : List Nat}
    (hPrefix : indicesOf literals <+: indices) :
    (clausesOf literals).map (List.map (encode indices)) =
      (clausesOf literals).map
        (List.map (encode (indicesOf literals))) := by
  apply List.map_congr_left
  intro clause hClause
  exact map_encode_of_extended hPrefix fun value hValue =>
    natAbs_mem_of_clause hClause hValue

/-
  A literal in range is always added, and becomes the
  last pending one.
-/
theorem Holds.exists_addLiteral
    {value : Int}
    (h : f.Holds literals)
    (hIndex : IsIndex value.natAbs) :
    ∃ f',
      f.addLiteral value.natAbs (decide (value < 0)) =
        .ok f' ∧
      f'.Holds (literals ++ [value]) := by
  rcases f with
    ⟨translation, clauses, pending, initial, neural, order,
      inconsistent, reserved⟩
  have hValue : value ≠ 0 := Int.natAbs_pos.mp hIndex.1
  rcases h.sound.exists_importVariable hIndex with
    ⟨t, hImport, hSound, hIndices⟩
  rw [h.indices, ← indicesOf_snoc literals hValue]
    at hIndices
  have hMem : value.natAbs ∈ t.indices := by
    rw [hIndices]
    exact mem_indicesOf.mpr ⟨value, by simp, hValue, rfl⟩
  have hPosition :
      t.indices.idxOf value.natAbs < maxVariable :=
    Nat.lt_of_lt_of_le (List.idxOf_lt_length_iff.mpr hMem)
      (Translation.length_le_of_nodup hSound.nodup
        hSound.inRange)
  have hLiteral :=
    Translation.literal_eq_ok (decide (value < 0)) hPosition
  have hGrown : translation.size ≤ t.size := by
    rw [← Translation.length_indices,
      ← Translation.length_indices, h.indices, hIndices,
      indicesOf_snoc literals hValue, remember]
    split
    · exact Nat.le_refl _
    · simp
  refine
    ⟨⟨t, clauses, pending.push (encode t.indices value),
        initial.grow t.size .unset,
        neural.grow t.size .unset, order, inconsistent,
        reserved⟩, ?_, ?_⟩
  · simp only [addLiteral, hImport, hLiteral, bind,
      Except.bind, pure, Except.pure]
    rfl
  · have hPhases := h.phases
    have hRoom := h.room
    have hPrefix :
        indicesOf literals <+:
          indicesOf (literals ++ [value]) := by
      rw [indicesOf_snoc literals hValue]
      exact Translation.prefix_remember _ _
    refine ⟨hSound, hIndices, ?_, ?_, ?_, ?_, ?_, ?_⟩
    · rw [clausesOf_snoc literals hValue,
        map_clausesOf_of_extended hPrefix]
      exact h.clauses
    · have hOld : pending.toList = _ := h.pending
      rw [unfinishedOf_snoc literals hValue,
        List.map_append, List.map_singleton, ← hIndices,
        Buffer.toList_push, hOld, hIndices,
        map_encode_of_extended hPrefix fun other hOther =>
          natAbs_mem_of_unfinished hOther]
    · rw [clausesOf_snoc literals hValue]
      exact h.inconsistent
    · intro v hv
      exact Nat.lt_of_lt_of_le (h.order v hv) hGrown
    · simp only [Table.size_grow] at hPhases ⊢
      rw [hPhases]
    · simp only [variableCount, Table.size_grow] at hRoom ⊢
      omega

------------------------------------------------------------
-- Events
------------------------------------------------------------

/-
  An event with a literal whose index a variable may have,
  or with none.
-/
def IsAdmitted : Event → Prop
  | .reserve _ => True
  | .add value => value.natAbs ≤ maxVariable

/-
  A literal out of range is refused before
  anything is changed.
-/
theorem add_of_gt
    {value : Int}
    (f : Formula)
    (hValue : maxVariable < value.natAbs) :
    f.add value = .error .assertion := by
  rw [add_eq_settled, addInPlace_of_gt f hValue]
  rfl

/-
  A literal that is added changes the translation,
  the pending literals and the room for phases,
  and nothing else.
-/
theorem exists_of_addLiteral
    {f' : Formula}
    {index : Nat}
    {negative : Bool}
    (h : f.addLiteral index negative = .ok f') :
    ∃ v t l,
      f.translation.importVariable index = .ok (v, t) ∧
      v.literal negative = .ok l ∧
      f' = { f with
        translation := t
        pending := f.pending.push l
        initial := f.initial.grow t.size .unset
        neural := f.neural.grow t.size .unset } := by
  rcases f with
    ⟨translation, clauses, pending, initial, neural, order,
      inconsistent, reserved⟩
  rcases hImport : translation.importVariable index with
    violation | ⟨v, t⟩
  · simp only [addLiteral, hImport, bind, Except.bind] at h
    cases h
  · rcases hLiteral : v.literal negative with violation | l
    · simp only [addLiteral, hImport, hLiteral, bind,
        Except.bind] at h
      cases h
    · simp only [addLiteral, hImport, hLiteral, bind,
        Except.bind, pure, Except.pure] at h
      cases h
      exact ⟨v, t, l, rfl, hLiteral, rfl⟩

/-
  An event that is applied reserves room, ends a clause or
  adds a literal in range.
-/
theorem cases_of_applyEvent
    {f' : Formula}
    {event : Event}
    (h : f.applyEvent event = .ok f') :
    (∃ count,
        event = .reserve count ∧ f' = f.reserve count) ∨
      (event = .add 0 ∧ f' = f.endClause) ∨
      ∃ value,
        event = .add value ∧
        IsIndex value.natAbs ∧
        f.addLiteral value.natAbs (decide (value < 0)) =
          .ok f' := by
  cases event with
  | reserve count =>
      cases h
      exact .inl ⟨count, rfl, rfl⟩
  | add value =>
      change f.add value = .ok f' at h
      by_cases hZero : value = 0
      · subst hZero
        cases h
        exact .inr (.inl ⟨rfl, rfl⟩)
      · by_cases hRange : value.natAbs ≤ maxVariable
        · have hRequire :
              Check.require (value.natAbs ≤ maxVariable) =
                .ok () :=
            if_pos hRange
          rw [add, if_neg hZero, hRequire] at h
          exact .inr
            (.inr
              ⟨value, rfl,
                ⟨Int.natAbs_pos.mpr hZero, hRange⟩, h⟩)
        · rw [add_of_gt f (Nat.not_le.mp hRange)] at h
          cases h

/- A literal in range is added, and so is a zero. -/
theorem Holds.exists_add
    {value : Int}
    (h : f.Holds literals)
    (hValue : value.natAbs ≤ maxVariable) :
    ∃ f',
      f.add value = .ok f' ∧
      f'.Holds (literals ++ [value]) := by
  by_cases hZero : value = 0
  · subst hZero
    exact ⟨f.endClause, if_pos rfl, h.endClause⟩
  · have hRequire :
        Check.require (value.natAbs ≤ maxVariable) =
          .ok () :=
      if_pos hValue
    rcases h.exists_addLiteral
        ⟨Int.natAbs_pos.mpr hZero, hValue⟩ with
      ⟨f', hAdd, hHolds⟩
    refine ⟨f', ?_, hHolds⟩
    rw [add, if_neg hZero, hRequire]
    exact hAdd

theorem Holds.exists_applyEvent
    {event : Event}
    (h : f.Holds literals)
    (hEvent : IsAdmitted event) :
    ∃ f',
      f.applyEvent event = .ok f' ∧
      f'.Holds (literals ++ event.accepted?.toList) := by
  cases event with
  | reserve count =>
      refine ⟨f.reserve count, rfl, ?_⟩
      rw [Event.accepted?, Option.toList_none,
        List.append_nil]
      exact h.reserve count
  | add value =>
      have hValue : value.natAbs ≤ maxVariable := hEvent
      rw [Event.accepted?, if_pos hValue]
      exact h.exists_add hValue

/-
  What the first of some elements gives stands in front of
  what the others give.
-/
theorem filterMap_cons_toList
    {α β : Type}
    (g : α → Option β)
    (x : α)
    (xs : List α) :
    (x :: xs).filterMap g =
      (g x).toList ++ xs.filterMap g := by
  cases hFirst : g x <;> simp [hFirst]

/-
  Events that are admitted are all applied, one
  after the other.
-/
theorem Holds.exists_applyEvents
    {events : List Event}
    (h : f.Holds literals)
    (hEvents : ∀ event ∈ events, IsAdmitted event) :
    ∃ f',
      f.applyEvents events = .ok f' ∧
      f'.Holds
        (literals ++ events.filterMap Event.accepted?) := by
  induction events generalizing f literals with
  | nil =>
      refine ⟨f, rfl, ?_⟩
      rw [List.filterMap_nil, List.append_nil]
      exact h
  | cons event events ih =>
      rw [List.forall_mem_cons] at hEvents
      rcases h.exists_applyEvent hEvents.1 with
        ⟨f₁, hEvent, hHolds₁⟩
      rcases ih hHolds₁ hEvents.2 with ⟨f', hRest, hHolds⟩
      refine ⟨f', ?_, ?_⟩
      · rw [applyEvents, hEvent]
        exact hRest
      · rw [filterMap_cons_toList, ← List.append_assoc]
        exact hHolds

end Formula

end Dimacs
