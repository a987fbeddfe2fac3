import Dimacs.Hint.Backbone
import Dimacs.Hint.UnsatOrder

/-
  Reading a hint file never fails a check, whatever the file
  holds: a run of digits is given up before its value leaves
  64 bits, and a number that was read fits 32 bits.

  Key definitions include:
    * `Scanner.Completes`
    * `PhaseEvent.variable?`

  Main statements:
    * `Cursor.completes_digitsFrom`
    * `Cursor.completes_scanInt`
    * `Backbone.completes_read`
    * `Backbone.exists_lookup_of_read`
    * `UnsatOrder.completes_read`
-/

namespace Dimacs

/-
  From a cursor, a scanner yields a result with a property.
-/
def Scanner.Completes
    {α : Type}
    (scan : Scanner α)
    (c : Cursor)
    (post : α → Prop) : Prop :=
  ∃ a c', scan c = .ok a c' ∧ post a

open Scanner (Completes)

variable {c : Cursor}

/- Where nothing was read there is nothing to show. -/
theorem Scanner.forall_mem_none
    {α : Type}
    {post : α → Prop} :
    ∀ a ∈ (none : Option α), post a :=
  fun a h => absurd h (Option.not_mem_none a)

namespace Cursor

------------------------------------------------------------
-- Digits
------------------------------------------------------------

/- The values that a run of digits may have. -/
def IsMagnitude
    (value : Int) : Prop :=
  0 ≤ value ∧ value ≤ maxValue

/- One more digit never leaves 64 bits. -/
theorem accumulate_eq_ok
    {value : Int}
    {b : UInt8}
    (hValue : IsMagnitude value)
    (hDigit : Byte.IsDigit b) :
    accumulate value b =
      .ok (value * 10 + (Byte.digit b : Int)) := by
  have hNine := Byte.digit_le_nine hDigit
  have hUpper : value ≤ 4294967295 := hValue.2
  have hLower := hValue.1
  have hScaled :
      Check.int64 (value * 10) = .ok (value * 10) := by
    refine if_pos ⟨?_, ?_⟩ <;> omega
  rw [accumulate, hScaled]
  refine if_pos ⟨?_, ?_⟩ <;> omega

/- Digits are read to their end, or given up in time. -/
theorem completes_digitsFrom
    {value : Int}
    (hValue : IsMagnitude value) :
    Completes (digitsFrom value) c
      (fun found => ∀ n ∈ found, IsMagnitude n) := by
  unfold Completes
  fun_induction digitsFrom value c with
  | case1 value c b c₁ hPeek hDigit violation hStep =>
      rw [accumulate_eq_ok hValue hDigit] at hStep
      cases hStep
  | case2 value c b c₁ hPeek hDigit value' hStep hLarge =>
      exact ⟨none, c₁, rfl, Scanner.forall_mem_none⟩
  | case3 value c b c₁ hPeek hDigit value' hStep hLarge ih
        =>
      apply ih
      rw [accumulate_eq_ok hValue hDigit] at hStep
      rcases Except.ok.inj hStep with rfl
      refine ⟨?_, Int.not_lt.mp hLarge⟩
      have hLower := hValue.1
      omega
  | case4 value c b c₁ hPeek hDigit =>
      refine ⟨some value, c₁, rfl, ?_⟩
      rintro n ⟨⟩
      exact hValue
  | case5 value c c₁ hPeek =>
      refine ⟨some value, c₁, rfl, ?_⟩
      rintro n ⟨⟩
      exact hValue

theorem completes_scanDigits
    (c : Cursor) :
    Completes scanDigits c
      (fun found => ∀ n ∈ found, IsMagnitude n) := by
  unfold Completes scanDigits
  rcases c.peek with ⟨_ | b, c₁⟩
  · exact ⟨none, c₁, rfl, Scanner.forall_mem_none⟩
  · by_cases hDigit : Byte.IsDigit b
    · simp only [if_pos hDigit]
      exact completes_digitsFrom ⟨Int.le_refl 0, by decide⟩
    · simp only [if_neg hDigit]
      exact ⟨none, c₁, rfl, Scanner.forall_mem_none⟩

------------------------------------------------------------
-- Numbers
------------------------------------------------------------

/- A sign does not lead out of 64 bits either. -/
theorem exists_applySign
    {magnitude : Int}
    (sign : Option UInt8)
    (hMagnitude : IsMagnitude magnitude) :
    ∃ value, applySign sign magnitude = .ok value := by
  have hUpper : magnitude ≤ 4294967295 := hMagnitude.2
  have hLower := hMagnitude.1
  unfold applySign
  split
  · exact ⟨-magnitude, if_pos ⟨by omega, by omega⟩⟩
  · exact ⟨magnitude, if_pos ⟨by omega, by omega⟩⟩

/- A signed number that is read fits 32 bits. -/
theorem completes_scanInt
    (c : Cursor) :
    Completes scanInt c
      (fun found =>
        ∀ value ∈ found, Check.FitsInt32 value) := by
  unfold Completes scanInt
  rcases c.skipSpaces.takeIf
      (fun b => decide (Byte.IsSign b)) with
    ⟨sign, c₁⟩
  rcases completes_scanDigits c₁ with
    ⟨found, c₂, hDigits, hFound⟩
  simp only [hDigits]
  rcases found with _ | magnitude
  · exact ⟨none, c₂, rfl, Scanner.forall_mem_none⟩
  · rcases exists_applySign sign (hFound magnitude rfl) with
      ⟨value, hSign⟩
    simp only [hSign]
    refine ⟨_, c₂, rfl, ?_⟩
    intro value' hValue
    split at hValue
    · next hFits =>
        cases hValue
        exact hFits
    · cases hValue

theorem completes_scanUnsigned
    (c : Cursor) :
    Completes scanUnsigned c (fun _ => True) := by
  unfold Completes scanUnsigned
  rcases c.skipSpaces.scanChar Byte.plus with ⟨signed, c₁⟩
  rcases completes_scanDigits c₁ with
    ⟨_ | value, c₂, hDigits, _⟩
  · simp only [hDigits]
    exact ⟨none, c₂, rfl, trivial⟩
  · simp only [hDigits]
    exact ⟨_, c₂, rfl, trivial⟩

end Cursor

------------------------------------------------------------
-- Backbones
------------------------------------------------------------

theorem ScoreEntry.completes_scan
    (c : Cursor) :
    Completes scan c (fun _ => True) := by
  unfold Completes scan
  rcases Cursor.completes_scanInt c with
    ⟨_ | index, c₁, hIndex, _⟩
  · simp only [hIndex]
    exact ⟨none, c₁, rfl, trivial⟩
  · simp only [hIndex]
    rcases c₁.scanChar Byte.comma with ⟨_ | _, c₂⟩
    · exact ⟨none, c₂, rfl, trivial⟩
    · rcases hScore : c₂.scanFloat with ⟨_ | score, c₃⟩
      · simp only [hScore]
        exact ⟨none, c₃, rfl, trivial⟩
      · simp only [hScore]
        exact ⟨_, c₃, rfl, trivial⟩

/-
  The variable an event sets the phase of, if it
  is about one.
-/
def PhaseEvent.variable? : PhaseEvent → Option Variable
  | .setInitial v _ => some v
  | .setNeural v _ => some v
  | _ => none

namespace Backbone

theorem completes_readScores
    (entries : Array ScoreEntry)
    (c : Cursor) :
    Completes (readScores entries) c (fun _ => True) := by
  unfold Completes
  fun_induction readScores entries c with
  | case1 entries c violation c₁ hScan =>
      rcases ScoreEntry.completes_scan c with
        ⟨entry, c₂, hEntry, _⟩
      rw [hScan] at hEntry
      cases hEntry
  | case2 entries c c₁ hScan =>
      exact ⟨entries, c₁, rfl, trivial⟩
  | case3 entries c entry c₁ hScan ih => exact ih

/-
  The magnitude of an index that was read stays
  within 64 bits.
-/
theorem completes_readPolarities
    (entries : Array Int)
    (c : Cursor) :
    Completes (readPolarities entries) c
      (fun _ => True) := by
  unfold Completes
  fun_induction readPolarities entries c with
  | case1 entries c violation c₁ hScan =>
      rcases Cursor.completes_scanInt c with
        ⟨entry, c₂, hEntry, _⟩
      rw [hScan] at hEntry
      cases hEntry
  | case2 entries c c₁ hScan =>
      exact ⟨entries, c₁, rfl, trivial⟩
  | case3 entries c entry c₁ hScan violation hMagnitude =>
      rcases Cursor.completes_scanInt c with
        ⟨found, c₂, hFound, hFits⟩
      rw [hScan] at hFound
      rcases EStateM.Result.ok.inj hFound with ⟨rfl, _⟩
      rcases hFits entry rfl with ⟨hLower, hUpper⟩
      have hOk :
          Check.int64 entry.natAbs =
            .ok (entry.natAbs : Int) := by
        refine if_pos ⟨?_, ?_⟩ <;> omega
      rw [hOk] at hMagnitude
      cases hMagnitude
  | case4 entries c entry c₁ hScan value hMagnitude ih =>
      exact ih

/- A backbone file is read to its end, whatever it holds. -/
theorem completes_read
    (lookup : Nat → Option Variable)
    (b : Backbone)
    (c : Cursor) :
    Completes (b.read lookup) c (fun _ => True) := by
  unfold Completes Backbone.read
  cases b.mode with
  | scores =>
      rcases completes_readScores #[] c with
        ⟨entries, c', hEntries, _⟩
      simp only [hEntries]
      exact ⟨_, c', rfl, trivial⟩
  | polarities =>
      rcases completes_readPolarities #[] c with
        ⟨entries, c', hEntries, _⟩
      simp only [hEntries]
      exact ⟨_, c', rfl, trivial⟩

theorem exists_lookup_of_known
    {lookup : Nat → Option Variable}
    {index : Int}
    {v : Variable}
    (h : known? lookup index = some v) :
    ∃ external, lookup external = some v := by
  unfold known? at h
  split at h
  · exact ⟨index.toNat, h⟩
  · cases h

theorem exists_lookup_of_scoreEvent
    {lookup : Nat → Option Variable}
    {threshold : Float}
    {entry : ScoreEntry}
    {event : PhaseEvent}
    (h : scoreEvent? lookup threshold entry = some event) :
    ∀ v ∈ event.variable?,
      ∃ external, lookup external = some v := by
  unfold scoreEvent? at h
  split at h
  · cases h
  · next known hKnown =>
      rcases Option.map_eq_some_iff.mp h with
        ⟨phase, _, rfl⟩
      rintro v ⟨⟩
      exact exists_lookup_of_known hKnown

theorem exists_lookup_of_polarityEvent
    {lookup : Nat → Option Variable}
    {entry : Int}
    {event : PhaseEvent}
    (h : polarityEvent? lookup entry = some event) :
    ∀ v ∈ event.variable?,
      ∃ external, lookup external = some v := by
  rcases Option.map_eq_some_iff.mp h with
    ⟨known, hKnown, rfl⟩
  rintro v ⟨⟩
  exact exists_lookup_of_known hKnown

/- Only variables that were looked up get a phase. -/
theorem exists_lookup_of_read
    {lookup : Nat → Option Variable}
    {b : Backbone}
    {reading : Reading}
    {c c' : Cursor}
    (h : b.read lookup c = .ok reading c') :
    ∀ event ∈ reading.events, ∀ v ∈ event.variable?,
      ∃ external, lookup external = some v := by
  unfold Backbone.read at h
  split at h
  · split at h
    · cases h
    · cases h
      rw [List.forall_mem_cons]
      refine ⟨nofun, ?_⟩
      intro event hEvent
      rcases List.mem_filterMap.mp hEvent with
        ⟨entry, _, hCause⟩
      exact exists_lookup_of_scoreEvent hCause
  · split at h
    · cases h
    · cases h
      rw [List.forall_mem_cons]
      refine ⟨nofun, ?_⟩
      intro event hEvent
      rcases List.mem_filterMap.mp hEvent with
        ⟨entry, _, hCause⟩
      exact exists_lookup_of_polarityEvent hCause

end Backbone

------------------------------------------------------------
-- Unsat Orders
------------------------------------------------------------

namespace UnsatOrder

theorem completes_readIndices
    (indices : Array Nat)
    (c : Cursor) :
    Completes (readIndices indices) c (fun _ => True) := by
  unfold Completes
  fun_induction readIndices indices c with
  | case1 indices c violation c₁ hScan =>
      rcases Cursor.completes_scanUnsigned c with
        ⟨index, c₂, hIndex, _⟩
      rw [hScan] at hIndex
      cases hIndex
  | case2 indices c c₁ hScan =>
      exact ⟨indices, c₁, rfl, trivial⟩
  | case3 indices c index c₁ hScan ih => exact ih

/-
  An unsat-order file is read to its end, whatever it holds.
-/
theorem completes_read
    (c : Cursor) :
    Completes read c (fun _ => True) := by
  unfold Completes read
  rcases completes_readIndices #[] c with
    ⟨indices, c', hIndices, _⟩
  simp only [hIndices]
  exact ⟨_, c', rfl, trivial⟩

end UnsatOrder

end Dimacs
