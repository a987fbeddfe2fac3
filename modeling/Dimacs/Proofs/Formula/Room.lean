import Dimacs.Formula.Memory
import Dimacs.Proofs.Formula.Run
import Dimacs.Proofs.Header.Grammar
import Dimacs.Proofs.Storage.Growth

/-
  The room that a formula has for its variables. Once room
  was made for all indices up to a number, adding literals
  with such indices resizes no table and moves none, because
  there are no more variables than indices. Reading a
  problem adds only such literals, unless it is relaxed.

  Key definitions include:
    * `Formula.HasRoomFor`
    * `Formula.KeepsRoom`
    * `Formula.IsDeclared`

  Main statements:
    * `Translation.room_of_importVariable`
    * `Formula.HasRoomFor.keepsRoom`
    * `Formula.Holds.exists_keepsRoom`
    * `exists_declared_events`
    * `Formula.reserved_room_suffices`
-/

namespace Dimacs

open Translation (IsIndex)

------------------------------------------------------------
-- Translations
------------------------------------------------------------

namespace Translation

variable {t t' : Translation}
variable {index : Nat}

theorem cover_of_lt
    {internal : Buffer 8 (Option Literal)}
    (h : index < internal.size) :
    cover index internal = internal := by
  rw [cover, if_neg (Nat.not_le.mpr h)]

theorem size_cover
    (index : Nat)
    (internal : Buffer 8 (Option Literal)) :
    (cover index internal).size =
      max internal.size (index + 1) := by
  by_cases hSize : internal.size ≤ index
  · rw [cover, if_pos hSize,
      Buffer.size_resize none (Nat.lt_succ_of_le hSize)]
    omega
  · rw [cover_of_lt (Nat.not_le.mp hSize)]
    omega

/-
  An import makes room for its index, and for a variable
  only if the index has not occurred.
-/
theorem room_of_importVariable
    {v : Variable}
    (h : t.importVariable index = .ok (v, t')) :
    t'.internal.size = (cover index t.internal).size ∧
      t'.internal.capacity =
        (cover index t.internal).capacity ∧
      (t'.external = t.external ∨
        t.lookup index = none ∧
          t'.external = t.external.push index) := by
  rcases t with ⟨internal, external⟩
  by_cases hIndex : 0 < index
  · have hRequire : Check.require (0 < index) = .ok () :=
      if_pos hIndex
    simp only [importVariable, hRequire, bind, Except.bind]
      at h
    rcases hFound : (cover index internal).get index with
      violation | _ | known
    · simp only [hFound] at h
      cases h
    · -- A new variable is made: its literal is put in
      -- its place.
      simp only [hFound] at h
      split at h
      · cases h
      · split at h
        · cases h
        · split at h
          · cases h
          · next changed hSet =>
              cases h
              refine ⟨Buffer.size_set hSet,
                Buffer.capacity_set hSet, .inr ⟨?_, rfl⟩⟩
              rw [← lookup_cover index internal external,
                lookup_eq, Buffer.get_eq_ok_iff.mp hFound]
              rfl
    · simp only [hFound, pure, Except.pure] at h
      cases h
      exact ⟨rfl, rfl, .inl rfl⟩
  · have hRequire :
        Check.require (0 < index) = .error .assertion :=
      if_neg hIndex
    simp only [importVariable, hRequire, bind, Except.bind]
      at h
    cases h

end Translation

namespace Formula

variable {f f' : Formula}
variable {literals : List Int}
variable {count : Nat}

------------------------------------------------------------
-- Room for Variables
------------------------------------------------------------

/-
  There is a place for each index and each variable up to a
  number of them.
-/
structure HasRoomFor
    (count : Nat)
    (f : Formula) : Prop where
  internal : count < f.translation.internal.size
  external : count ≤ f.translation.external.capacity
  initial : count ≤ f.initial.size
  neural : count ≤ f.neural.size

/-
  No table that is indexed by variables was resized or
  moved: the sizes and the capacities are the same, and so
  is the memory that the tables occupy. The table of
  external indices may have more elements.
-/
structure KeepsRoom
    (f f' : Formula) : Prop where
  internalSize :
      f'.translation.internal.size =
        f.translation.internal.size
  internalCapacity :
      f'.translation.internal.capacity =
        f.translation.internal.capacity
  externalCapacity :
      f'.translation.external.capacity =
        f.translation.external.capacity
  initial : f'.initial = f.initial
  neural : f'.neural = f.neural
  translationBytes :
      f'.memoryParts.lookup "translation" =
        f.memoryParts.lookup "translation"
  phasesBytes :
      f'.memoryParts.lookup "phases" =
        f.memoryParts.lookup "phases"

/-
  The memory of the tables follows from their capacities.
-/
theorem keepsRoom_of_tables
    (hSize :
      f'.translation.internal.size =
        f.translation.internal.size)
    (hInternal :
      f'.translation.internal.capacity =
        f.translation.internal.capacity)
    (hExternal :
      f'.translation.external.capacity =
        f.translation.external.capacity)
    (hInitial : f'.initial = f.initial)
    (hNeural : f'.neural = f.neural) :
    f.KeepsRoom f' where
  internalSize := hSize
  internalCapacity := hInternal
  externalCapacity := hExternal
  initial := hInitial
  neural := hNeural
  translationBytes := by
    change some (_ * 8 + _ * 4) = some (_ * 8 + _ * 4)
    rw [hInternal, hExternal]
  phasesBytes := by
    change some (_ + _) = some (_ + _)
    rw [hInitial, hNeural]

theorem keepsRoom_self
    (f : Formula) :
    f.KeepsRoom f :=
  keepsRoom_of_tables rfl rfl rfl rfl rfl

theorem KeepsRoom.trans
    {f₁ f₂ f₃ : Formula}
    (h : f₁.KeepsRoom f₂)
    (h' : f₂.KeepsRoom f₃) :
    f₁.KeepsRoom f₃ :=
  keepsRoom_of_tables (h'.internalSize.trans h.internalSize)
    (h'.internalCapacity.trans h.internalCapacity)
    (h'.externalCapacity.trans h.externalCapacity)
    (h'.initial.trans h.initial) (h'.neural.trans h.neural)

theorem HasRoomFor.of_keepsRoom
    (h : f.HasRoomFor count)
    (hKeeps : f.KeepsRoom f') :
    f'.HasRoomFor count where
  internal := hKeeps.internalSize ▸ h.internal
  external := hKeeps.externalCapacity ▸ h.external
  initial := hKeeps.initial ▸ h.initial
  neural := hKeeps.neural ▸ h.neural

/- Reserving makes room, whatever there was before. -/
theorem hasRoomFor_reserve
    (count : Nat)
    (f : Formula) :
    (f.reserve count).HasRoomFor count := by
  rcases f with
    ⟨translation, clauses, pending, initial, neural, order,
      inconsistent, reserved⟩
  constructor
  · exact Translation.lt_size_cover count
      translation.internal
  · change count ≤
      (translation.external.reserveExact count).capacity
    rw [Buffer.capacity_reserveExact]
    split <;> omega
  · simp only [Formula.reserve, Table.size_grow]
    exact Nat.le_max_right _ _
  · simp only [Formula.reserve, Table.size_grow]
    exact Nat.le_max_right _ _

------------------------------------------------------------
-- Declared Literals
------------------------------------------------------------

/-
  A zero, or a literal whose index is at most
  the declared number.
-/
def IsDeclared
    (count : Nat) : Event → Prop
  | .reserve _ => False
  | .add value => value.natAbs ≤ count

instance (count : Nat) (event : Event) :
    Decidable (IsDeclared count event) :=
  match event with
  | .reserve _ => inferInstanceAs (Decidable False)
  | .add value =>
      inferInstanceAs (Decidable (value.natAbs ≤ count))

/-
  A literal with a declared index finds room. A variable
  that is new is not the last one that there is room for,
  because all variables have different indices.
-/
theorem HasRoomFor.keepsRoom_addLiteral
    {index : Nat}
    {negative : Bool}
    (h : f.HasRoomFor count)
    (hSound : f.translation.IsSound)
    (hDeclared :
      ∀ other ∈ f.translation.indices, other ≤ count)
    (hIndex : 1 ≤ index ∧ index ≤ count)
    (hAdd : f.addLiteral index negative = .ok f') :
    f.KeepsRoom f' := by
  rcases exists_of_addLiteral hAdd with
    ⟨v, t, l, hImport, _, rfl⟩
  rcases Translation.room_of_importVariable hImport with
    ⟨hSize, hCapacity, hExternal⟩
  rw [Translation.cover_of_lt
    (Nat.lt_of_le_of_lt hIndex.2 h.internal)]
    at hSize hCapacity
  have hRoom :
      t.external.capacity =
          f.translation.external.capacity ∧
        t.size ≤ count := by
    rcases hExternal with hSame | ⟨hFresh, hPush⟩
    · refine ⟨congrArg _ hSame, ?_⟩
      rw [Translation.size, hSame, ← Buffer.length_toList]
      exact hSound.length_le hDeclared
    · have hNew : index ∉ f.translation.indices := by
        intro hMem
        rw [hSound.lookup, if_pos hMem] at hFresh
        cases hFresh
      have hLess : f.translation.external.size < count := by
        rw [← Buffer.length_toList]
        exact hSound.length_lt hDeclared hIndex hNew
      rw [Translation.size, hPush, Buffer.size_push]
      exact
        ⟨Buffer.capacity_push_of_lt index
            (Nat.lt_of_lt_of_le hLess h.external), hLess⟩
  exact keepsRoom_of_tables hSize hCapacity hRoom.1
    (Table.grow_of_le Phase.unset
      (Nat.le_trans hRoom.2 h.initial))
    (Table.grow_of_le Phase.unset
      (Nat.le_trans hRoom.2 h.neural))

theorem HasRoomFor.keepsRoom
    {event : Event}
    (h : f.HasRoomFor count)
    (hHolds : f.Holds literals)
    (hLiterals : ∀ value ∈ literals, value.natAbs ≤ count)
    (hEvent : IsDeclared count event)
    (hApply : f.applyEvent event = .ok f') :
    f.KeepsRoom f' := by
  rcases cases_of_applyEvent hApply with
    ⟨other, rfl, _⟩ | ⟨_, rfl⟩ | ⟨value, rfl, hIndex, hAdd⟩
  · exact hEvent.elim
  · exact keepsRoom_of_tables rfl rfl rfl rfl rfl
  · refine h.keepsRoom_addLiteral hHolds.sound ?_
      ⟨hIndex.1, hEvent⟩ hAdd
    intro index hMem
    rw [hHolds.indices] at hMem
    rcases mem_indicesOf.mp hMem with
      ⟨other, hOther, _, rfl⟩
    exact hLiterals other hOther

/-
  Literals with declared indices are all added, and find
  room one after the other.
-/
theorem Holds.exists_keepsRoom
    {events : List Event}
    (hHolds : f.Holds literals)
    (h : f.HasRoomFor count)
    (hCount : count ≤ maxVariable)
    (hLiterals : ∀ value ∈ literals, value.natAbs ≤ count)
    (hEvents : ∀ event ∈ events, IsDeclared count event) :
    ∃ f',
      f.applyEvents events = .ok f' ∧ f.KeepsRoom f' := by
  induction events generalizing f literals with
  | nil => exact ⟨f, rfl, keepsRoom_self f⟩
  | cons event events ih =>
      rw [List.forall_mem_cons] at hEvents
      cases event with
      | reserve other => exact hEvents.1.elim
      | add value =>
          have hValue : value.natAbs ≤ count := hEvents.1
          rcases hHolds.exists_add
              (Nat.le_trans hValue hCount) with
            ⟨f₁, hAdd, hHolds₁⟩
          have hKeeps : f.KeepsRoom f₁ :=
            h.keepsRoom hHolds hLiterals hEvents.1 hAdd
          have hLiterals₁ :
              ∀ other ∈ literals ++ [value],
                other.natAbs ≤ count := by
            intro other hOther
            rcases List.mem_append.mp hOther with
              hOld | hNew
            · exact hLiterals other hOld
            · exact List.mem_singleton.mp hNew ▸ hValue
          rcases ih hHolds₁ (h.of_keepsRoom hKeeps)
              hLiterals₁ hEvents.2 with
            ⟨f', hRest, hKeeps'⟩
          refine ⟨f', ?_, hKeeps.trans hKeeps'⟩
          rw [applyEvents, applyEvent, hAdd]
          exact hRest

end Formula

------------------------------------------------------------
-- Problems
------------------------------------------------------------

/-
  A reading that is not relaxed sends nothing, or
  reserves the declared number and adds literals
  with declared indices.
-/
theorem exists_declared_events
    {strictness : Strictness}
    (hStrict : ¬ strictness.IsRelaxed)
    (o : Options)
    (c : Cursor) :
    (parseProblem strictness o c).events = [] ∨
      ∃ count added,
        count ≤ maxVariable ∧
        (parseProblem strictness o c).events =
          .reserve count :: added ∧
        ∀ event ∈ added,
          Formula.IsDeclared count event := by
  rcases hHeader : Parser.header strictness o c with
    ⟨p, ⟨declared, c₁⟩ | ⟨e, c₁⟩⟩
  · rcases Parser.header_ok_iff.mp ⟨p, hHeader⟩ with
      ⟨text, hAllowed, hDeclared, _⟩
    have hCount : declared.variableCount ≤ maxVariable := by
      rw [← hDeclared]
      exact hAllowed.2.variableDigits.2.2
    rw [parseProblem_of_header hHeader, events_complete]
    refine .inr ⟨declared.variableCount, _, hCount, rfl, ?_⟩
    apply Parser.forall_mem_events_body
    · intro parsed negative index ahead c c' value hIndex
        hAccept
      have hLe := Parser.index_le_of_accept hStrict hAccept
      exact Nat.le_trans
        (Nat.le_of_eq
          (Parser.natAbs_of_accept hIndex hAccept)) hLe
    · exact nofun
  · rw [parseProblem_of_refusal hHeader]
    exact .inl rfl

namespace Formula

/-
  After room was reserved once, literals with indices up to
  the reserved number resize and move no table, and the
  memory of the translation and of the phases stays the
  same. This is so behind each of the literals that a
  reading adds which is not relaxed.
-/
theorem reserved_room_suffices :
    (∀ count ≤ maxVariable,
        ∀ events,
          (∀ event ∈ events, IsDeclared count event) →
          ∃ f,
            (empty.reserve count).applyEvents events =
              .ok f ∧
            (empty.reserve count).KeepsRoom f) ∧
      ∀ strictness : Strictness,
        ¬ strictness.IsRelaxed →
        ∀ o c,
          (parseProblem strictness o c).events = [] ∨
          ∃ count added,
            (parseProblem strictness o c).events =
              .reserve count :: added ∧
            ∀ length,
              ∃ f,
                empty.applyEvents
                    (.reserve count :: added.take length) =
                  .ok f ∧
                (empty.reserve count).KeepsRoom f := by
  have hSuffices :
      ∀ count ≤ maxVariable,
        ∀ events,
          (∀ event ∈ events, IsDeclared count event) →
          ∃ f,
            (empty.reserve count).applyEvents events =
              .ok f ∧
            (empty.reserve count).KeepsRoom f := by
    intro count hCount events hEvents
    exact (holds_empty.reserve count).exists_keepsRoom
      (hasRoomFor_reserve count empty) hCount nofun hEvents
  refine ⟨hSuffices, ?_⟩
  intro strictness hStrict o c
  rcases exists_declared_events hStrict o c with
    hNone | ⟨count, added, hCount, hSent, hAdded⟩
  · exact .inl hNone
  · refine .inr ⟨count, added, hSent, ?_⟩
    intro length
    exact hSuffices count hCount _ fun event hEvent =>
      hAdded event (List.mem_of_mem_take hEvent)

/-
  Three places suffice for two variables, and one for the
  variable of a problem.
-/
theorem declared_variables_find_room :
    (∃ f,
      (empty.reserve 3).applyEvents
          [.add 3, .add (-1), .add 0, .add 3] =
        .ok f ∧
      (empty.reserve 3).KeepsRoom f) ∧
    (parseProblem .normal .standard
        (.ofSource
          (.ofBytes
            [112, 32, 99, 110, 102, 32, 49, 32, 49, 10, 45,
              49, 32, 48]) "")).events =
      [.reserve 1, .add (-1), .add 0] ∧
    ∃ f, empty.applyEvents [.reserve 1, .add (-1)] = .ok f ∧
      (empty.reserve 1).KeepsRoom f := by
  have hEvents :
      (parseProblem .normal .standard
          (.ofSource
            (.ofBytes
              [112, 32, 99, 110, 102, 32, 49, 32, 49, 10,
                45, 49, 32, 48]) "")).events =
        [.reserve 1, .add (-1), .add 0] := by
    decide +kernel
  refine
    ⟨reserved_room_suffices.1 3 (by decide) _ (by decide),
      hEvents, ?_⟩
  rcases reserved_room_suffices.2 .normal (by decide)
      .standard
      (.ofSource
        (.ofBytes
          [112, 32, 99, 110, 102, 32, 49, 32, 49, 10, 45,
            49, 32, 48]) "") with
    hNone | ⟨count, added, hSent, hRoom⟩
  · rw [hEvents] at hNone
    cases hNone
  · rw [hEvents] at hSent
    cases hSent
    exact hRoom 1

end Formula

end Dimacs
