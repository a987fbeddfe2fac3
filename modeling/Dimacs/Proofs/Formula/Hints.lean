import Dimacs.Formula.Operation
import Dimacs.Proofs.Formula.History
import Dimacs.Proofs.Hint.Scanning

/-
  Hints leave the clauses of a formula alone. Whatever
  a hint file holds, it is about variables that occur,
  and those have a place for their phases, so that no
  file is refused.

  Main statements:
    * `Formula.Holds.rephase`
    * `Formula.exists_of_applyPhaseEvent`
    * `Formula.Holds.exists_applyPhaseEvents`
    * `Formula.Holds.exists_readBackbone`
    * `Formula.Holds.exists_readUnsatOrder`
-/

namespace Dimacs

namespace Formula

variable {f f' : Formula}
variable {literals : List Int}

/- As many phases as before are as good as those before. -/
theorem Holds.rephase
    {initial neural : Table 1 Phase}
    (h : f.Holds literals)
    (hInitial : initial.size = f.initial.size)
    (hNeural : neural.size = f.neural.size) :
    { f with initial := initial, neural := neural }.Holds
      literals where
  sound := h.sound
  indices := h.indices
  clauses := h.clauses
  pending := h.pending
  inconsistent := h.inconsistent
  order := h.order
  phases := hInitial.trans (h.phases.trans hNeural.symm)
  room := Nat.le_trans h.room (Nat.le_of_eq hInitial.symm)

/-
  Variables that occur have a place for both
  kinds of phases.
-/
theorem Holds.lt_size
    {v : Variable}
    (h : f.Holds literals)
    (hv : v.index < f.variableCount) :
    v.index < f.initial.size ∧ v.index < f.neural.size := by
  have hRoom := h.room
  have hPhases := h.phases
  omega

------------------------------------------------------------
-- Phases
------------------------------------------------------------

theorem Holds.randomize
    (h : f.Holds literals)
    (seed : UInt64) :
    (f.randomize seed).Holds literals :=
  h.rephase (Table.size_overwrite f.initial _) rfl

/-
  What a backbone asks for changes phases only, in the room
  that they have.
-/
theorem exists_of_applyPhaseEvent
    {event : PhaseEvent}
    (h : f.applyPhaseEvent event = .ok f') :
    ∃ initial neural,
      f' = { f with initial := initial, neural := neural } ∧
      f.initial.HasRoomOf initial ∧
      f.neural.HasRoomOf neural := by
  cases event with
  | resetInitial phase =>
      cases h
      exact
        ⟨_, _, rfl, Table.hasRoomOf_fill f.initial phase,
          Table.hasRoomOf_self f.neural⟩
  | resetNeural phase =>
      cases h
      exact ⟨_, _, rfl, Table.hasRoomOf_self f.initial,
        Table.hasRoomOf_fill f.neural phase⟩
  | setInitial v phase =>
      cases hSet : f.initial.set v phase with
      | error violation =>
          rw [applyPhaseEvent, setInitial, hSet] at h
          cases h
      | ok initial =>
          rw [applyPhaseEvent, setInitial, hSet] at h
          cases h
          exact ⟨_, _, rfl, Table.hasRoomOf_of_set hSet,
            Table.hasRoomOf_self f.neural⟩
  | setNeural v phase =>
      cases hSet : f.neural.set v phase with
      | error violation =>
          rw [applyPhaseEvent, setNeural, hSet] at h
          cases h
      | ok neural =>
          rw [applyPhaseEvent, setNeural, hSet] at h
          cases h
          exact ⟨_, _, rfl, Table.hasRoomOf_self f.initial,
            Table.hasRoomOf_of_set hSet⟩

theorem Holds.applyPhaseEvent
    {event : PhaseEvent}
    (h : f.Holds literals)
    (hEvent : f.applyPhaseEvent event = .ok f') :
    f'.Holds literals := by
  rcases exists_of_applyPhaseEvent hEvent with
    ⟨initial, neural, rfl, hInitial, hNeural⟩
  exact h.rephase hInitial.size hNeural.size

/- The phase of a variable that occurs can be set. -/
theorem Holds.exists_applyPhaseEvent
    {event : PhaseEvent}
    (h : f.Holds literals)
    (hEvent :
      ∀ v ∈ event.variable?, v.index < f.variableCount) :
    ∃ f', f.applyPhaseEvent event = .ok f' := by
  cases event with
  | resetInitial phase => exact ⟨_, rfl⟩
  | resetNeural phase => exact ⟨_, rfl⟩
  | setInitial v phase =>
      rcases Table.exists_set phase
          (h.lt_size (hEvent v rfl)).1 with
        ⟨initial, hSet⟩
      refine ⟨{ f with initial := initial }, ?_⟩
      rw [Formula.applyPhaseEvent, setInitial, hSet]
      rfl
  | setNeural v phase =>
      rcases Table.exists_set phase
          (h.lt_size (hEvent v rfl)).2 with
        ⟨neural, hSet⟩
      refine ⟨{ f with neural := neural }, ?_⟩
      rw [Formula.applyPhaseEvent, setNeural, hSet]
      rfl

/- The number of variables does not depend on the phases. -/
theorem Holds.variableCount_applyPhaseEvent
    {event : PhaseEvent}
    (h : f.Holds literals)
    (hEvent : f.applyPhaseEvent event = .ok f') :
    f'.variableCount = f.variableCount := by
  rw [(h.applyPhaseEvent hEvent).variableCount_eq,
    h.variableCount_eq]

theorem Holds.exists_applyPhaseEvents
    {events : List PhaseEvent}
    (h : f.Holds literals)
    (hEvents :
      ∀ event ∈ events,
        ∀ v ∈ event.variable?, v.index < f.variableCount) :
    ∃ f',
      f.applyPhaseEvents events = .ok f' ∧
      f'.Holds literals := by
  induction events generalizing f with
  | nil => exact ⟨f, rfl, h⟩
  | cons event events ih =>
      rw [List.forall_mem_cons] at hEvents
      rcases h.exists_applyPhaseEvent hEvents.1 with
        ⟨f₁, hEvent⟩
      have hCount := h.variableCount_applyPhaseEvent hEvent
      rcases ih (h.applyPhaseEvent hEvent)
          (hCount ▸ hEvents.2) with
        ⟨f', hRest, hHolds⟩
      refine ⟨f', ?_, hHolds⟩
      rw [applyPhaseEvents, hEvent]
      exact hRest

------------------------------------------------------------
-- Hint Files
------------------------------------------------------------

/- A variable that is looked up occurs. -/
theorem Holds.lt_of_lookupVariable
    {index : Nat}
    {v : Variable}
    (h : f.Holds literals)
    (hLookup : f.lookupVariable index = some v) :
    v.index < f.variableCount := by
  rw [lookupVariable, h.sound.lookup index] at hLookup
  split at hLookup
  · next hMem =>
      rw [Option.map_some, Translation.var_double]
        at hLookup
      rcases Option.some.inj hLookup with rfl
      rw [variableCount, ← Translation.length_indices]
      exact List.idxOf_lt_length_iff.mpr hMem
  · cases hLookup

/-
  A backbone file is read to its end, and nothing it
  says is refused.
-/
theorem Holds.exists_readBackbone
    (h : f.Holds literals)
    (b : Backbone)
    (c : Cursor) :
    ∃ entries f' c',
      f.readBackbone b c = .ok (entries, f') c' ∧
      f'.Holds literals := by
  rcases Backbone.completes_read f.lookupVariable b c with
    ⟨reading, c', hRead, _⟩
  have hEvents :
      ∀ event ∈ reading.events,
        ∀ v ∈ event.variable?,
          v.index < f.variableCount := by
    intro event hEvent v hv
    rcases Backbone.exists_lookup_of_read hRead event hEvent
        v hv with
      ⟨index, hLookup⟩
    exact h.lt_of_lookupVariable hLookup
  rcases h.exists_applyPhaseEvents hEvents with
    ⟨f', hApply, hHolds⟩
  refine ⟨reading.entries, f', c', ?_, hHolds⟩
  simp only [readBackbone, hRead, hApply]

/- Only variables that occur are put in the order. -/
theorem Holds.addToOrder
    (h : f.Holds literals)
    (index : Nat) :
    (f.addToOrder index).Holds literals := by
  unfold Formula.addToOrder
  split
  · next v hLookup =>
      refine ⟨h.sound, h.indices, h.clauses, h.pending,
        h.inconsistent, ?_, h.phases, h.room⟩
      intro other hOther
      rw [Buffer.toList_push, List.mem_append,
        List.mem_singleton] at hOther
      rcases hOther with hOld | rfl
      · exact h.order other hOld
      · exact h.lt_of_lookupVariable hLookup
  · exact h

theorem Holds.foldl_addToOrder
    (h : f.Holds literals)
    (indices : List Nat) :
    (indices.foldl Formula.addToOrder f).Holds
      literals := by
  induction indices generalizing f with
  | nil => exact h
  | cons index indices ih => exact ih (h.addToOrder index)

/- An unsat-order file is read to its end. -/
theorem Holds.exists_readUnsatOrder
    (h : f.Holds literals)
    (c : Cursor) :
    ∃ entries f' c',
      f.readUnsatOrder c = .ok (entries, f') c' ∧
      f'.Holds literals := by
  rcases UnsatOrder.completes_read c with
    ⟨indices, c', hRead, _⟩
  refine
    ⟨indices.length, indices.foldl Formula.addToOrder f, c',
      ?_, h.foldl_addToOrder indices⟩
  simp only [readUnsatOrder, hRead]

------------------------------------------------------------
-- Room
------------------------------------------------------------

/- Room that is given back held nothing. -/
theorem Holds.shrink
    (h : f.Holds literals) :
    f.shrink.Holds literals where
  sound := h.sound.shrink
  indices := h.indices
  clauses := h.clauses.shrink
  pending := h.pending
  inconsistent := h.inconsistent
  order := h.order
  phases := h.phases
  room := h.room

end Formula

end Dimacs
