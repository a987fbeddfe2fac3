import Dimacs.Proofs.Cursor.Consumption
import Dimacs.Proofs.Formula.HintFiles

/-
  The readers of hint files always stop. Each round of their
  loops that finds an entry consumes bytes, and the first
  one that finds none is the last, whether the entry is
  malformed, the file ends there, or reading fails. A
  failure that was met still waits to be taken.

  Key definitions include:
    * `TakesUp`
    * `Scanner.Iterates`
    * `Scanner.Stops`

  Main statements:
    * `takesUp_startsWithEntry`
    * `Scanner.Iterates.progress`
    * `Scanner.exists_stops`
    * `Formula.hint_readers_stop`
-/

namespace Dimacs

variable {α : Type}
variable {starts : List UInt8 → α → List UInt8 → Prop}
variable {width : Nat}
variable {text rest : List UInt8}

------------------------------------------------------------
-- The Size of Entries
------------------------------------------------------------

/-
  What stands in front of a text takes up at least so many
  bytes of it.
-/
def TakesUp
    (width : Nat)
    (starts : List UInt8 → α → List UInt8 → Prop) : Prop :=
  ∀ text a rest,
    starts text a rest → rest.length + width ≤ text.length

/- An integer has a digit. -/
theorem IntegerText.Leads.length_lt
    {t : IntegerText}
    (h : t.Leads text rest) :
    rest.length + 1 ≤ text.length := by
  have hDigits :=
    List.length_pos_iff.mpr h.wellFormed.nonempty
  rw [h.text_eq]
  simp only [bytes, List.length_append]
  omega

/- There is a digit, or at least a point with one. -/
theorem SignificandText.IsWellFormed.length_pos
    {s : SignificandText}
    (h : s.IsWellFormed) :
    0 < s.bytes.length := by
  rcases s with ⟨whole, _ | fraction⟩
  · have hWhole : whole ≠ [] := by simpa using h.nonempty
    exact List.length_pos_iff.mpr hWhole
  · simp only [bytes, List.length_append, List.length_cons]
    omega

theorem FractionText.Leads.length_lt
    {t : FractionText}
    (h : t.Leads text rest) :
    rest.length + 1 ≤ text.length := by
  have hDigits := h.wellFormed.significand.length_pos
  rw [h.text_eq]
  simp only [bytes, List.length_append]
  omega

theorem takesUp_startsWithInt :
    TakesUp 1 StartsWithInt := by
  intro text value rest h
  rcases h with ⟨t, hLeads, _⟩
  exact hLeads.length_lt

theorem takesUp_startsWithUnsigned :
    TakesUp 1 StartsWithUnsigned := by
  intro text value rest h
  rcases h with ⟨t, hLeads, _⟩
  exact hLeads.length_lt

/- An entry with a score has two digits and a comma. -/
theorem takesUp_startsWithEntry :
    TakesUp 3 StartsWithEntry := by
  intro text entry rest h
  rcases h with ⟨behind, hIndex, t, hLeads, _⟩
  have hComma := takesUp_startsWithInt _ _ _ hIndex
  have hScore := hLeads.length_lt
  rw [List.length_cons] at hComma
  omega

------------------------------------------------------------
-- Rounds
------------------------------------------------------------

namespace Scanner

variable {scan : Scanner (Option α)}
variable {c c' : Cursor}
variable {rounds : List (α × List UInt8)}
variable {last : List UInt8}

/-
  The rounds of a loop around a scanner. Each of them found
  a value and consumed bytes. The last one found nothing,
  but may have consumed bytes as well.
-/
inductive Iterates
    (scan : Scanner (Option α)) :
    Cursor →
      List (α × List UInt8) →
      List UInt8 →
      Cursor → Prop
  | done
      {c c' : Cursor}
      {last : List UInt8}
      (hScan : scan c = .ok none c')
      (hConsumes : c.Consumes last c') :
      Iterates scan c [] last c'
  | more
      {c c₁ c' : Cursor}
      {a : α}
      {consumed : List UInt8}
      {rounds : List (α × List UInt8)}
      {last : List UInt8}
      (hScan : scan c = .ok (some a) c₁)
      (hConsumes : c.Consumes consumed c₁)
      (hRest : Iterates scan c₁ rounds last c') :
      Iterates scan c ((a, consumed) :: rounds) last c'

/-
  All rounds together consume what they consumed one by one.
-/
theorem Iterates.consumes
    (h : Iterates scan c rounds last c') :
    c.Consumes (rounds.flatMap Prod.snd ++ last) c' := by
  induction h with
  | done _ hConsumes => exact hConsumes
  | more _ hConsumes _ ih =>
      rw [List.flatMap_cons, List.append_assoc]
      exact hConsumes.trans ih

/-
  The values that a scanner gives are found in
  as many rounds.
-/
theorem Lists.exists_iterates
    {values : List α}
    (hReaches :
      ∀ c found c', scan c = .ok found c' → c.Reaches c')
    (hSteady : c.IsSteady)
    (h : Lists scan c values c') :
    ∃ rounds last,
      rounds.map Prod.fst = values ∧
      Iterates scan c rounds last c' := by
  induction h with
  | done hScan =>
      rcases Cursor.exists_consumes hSteady
          (hReaches _ _ _ hScan) with
        ⟨last, hConsumes⟩
      exact ⟨[], last, rfl, .done hScan hConsumes⟩
  | @more c c₁ c' a values hScan _ ih =>
      rcases Cursor.exists_consumes hSteady
          (hReaches _ _ _ hScan) with
        ⟨consumed, hConsumes⟩
      rcases ih (hConsumes.isSteady hSteady) with
        ⟨rounds, last, hValues, hRest⟩
      refine ⟨(a, consumed) :: rounds, last, ?_,
        .more hScan hConsumes hRest⟩
      rw [List.map_cons, hValues]

/-
  A round that finds a value consumes at least what the
  value takes up.
-/
theorem Iterates.progress
    (hRecognizes : Recognizes scan starts)
    (hWidth : TakesUp width starts)
    (h : Iterates scan c rounds last c') :
    ∀ round ∈ rounds, width ≤ round.2.length := by
  induction h with
  | done => exact nofun
  | @more c c₁ c' a consumed rounds last hScan hConsumes _
        ih =>
      -- What was consumed is what the text lacks
      -- behind the value.
      have hStarts :=
        (hRecognizes c a c₁.readable).mp ⟨c₁, hScan, rfl⟩
      have hShorter := hWidth _ _ _ hStarts
      rw [hConsumes.readable, List.length_append]
        at hShorter
      have hRound : width ≤ consumed.length := by omega
      exact List.forall_mem_cons.mpr ⟨hRound, ih⟩

/-
  There are no more rounds than the consumed bytes allow.
-/
theorem length_rounds_le
    (hProgress : ∀ round ∈ rounds, width ≤ round.2.length)
    (last : List UInt8) :
    width * rounds.length ≤
      (rounds.flatMap Prod.snd ++ last).length := by
  induction rounds with
  | nil => simp
  | cons round rounds ih =>
      rcases List.forall_mem_cons.mp hProgress with
        ⟨hFirst, hRest⟩
      have hBehind := ih hRest
      rw [List.flatMap_cons, List.append_assoc,
        List.length_append, List.length_cons, Nat.mul_succ]
      omega

/-
  A loop around a scanner stopped. Its rounds found the
  longest sequence of values in front of the source, where a
  failure counts as the end of the text. They consumed at
  least so many bytes for each value. Of what the source was
  asked for, the bytes were consumed, or the last was only
  looked at; and if a failure was met, it is the one that
  can be taken.
-/
structure Stops
    (scan : Scanner (Option α))
    (starts : List UInt8 → α → List UInt8 → Prop)
    (width : Nat)
    (source : Source)
    (name : String)
    (rounds : List (α × List UInt8))
    (last : List UInt8)
    (c' : Cursor) : Prop where
  iterates :
      Iterates scan (.ofSource source name) rounds last c'
  progress : ∀ round ∈ rounds, width ≤ round.2.length
  bounded :
      width * rounds.length ≤
        (rounds.flatMap Prod.snd ++ last).length
  isLongest :
      IsLongest starts source.upcoming (rounds.map Prod.fst)
  asked :
      ∃ items,
        source = items ++ c'.rest ∧
        items.bytes =
          rounds.flatMap Prod.snd ++ last ++ c'.ahead ∧
        items.failures = c'.takeFailure.1.toList

theorem exists_stops
    {source : Source}
    {name : String}
    {values : List α}
    (hReaches :
      ∀ c found c', scan c = .ok found c' → c.Reaches c')
    (hRecognizes : Recognizes scan starts)
    (hWidth : TakesUp width starts)
    (h : Lists scan (.ofSource source name) values c') :
    ∃ rounds last,
      rounds.map Prod.fst = values ∧
      Stops scan starts width source name rounds last
        c' := by
  have hSteady :=
    (Cursor.isOpen_ofSource source name).isSteady
  rcases h.exists_iterates hReaches hSteady with
    ⟨rounds, last, hValues, hIterates⟩
  have hProgress := hIterates.progress hRecognizes hWidth
  have hAccounts :=
    Cursor.accounts_of_moves hIterates.consumes.moves
  rcases Cursor.exists_items_of_accounts hAccounts with
    ⟨items, hRest, hBytes, hFailures, _⟩
  refine ⟨rounds, last, hValues, hIterates, hProgress,
    length_rounds_le hProgress last, ?_, ?_⟩
  · rw [hValues]
    exact h.isLongest hRecognizes
  · exact ⟨items, hRest, hBytes, hFailures⟩

end Scanner

open Scanner (Stops)

------------------------------------------------------------
-- Hint Files
------------------------------------------------------------

theorem ScoreEntry.reaches_scan
    {c c' : Cursor}
    {found : Option ScoreEntry}
    (h : scan c = .ok found c') :
    c.Reaches c' := by
  unfold scan at h
  split at h
  · cases h
  · next hIndex =>
      cases h
      exact Cursor.reaches_scanInt hIndex
  · next index c₁ hIndex =>
      have hRead := Cursor.reaches_scanInt hIndex
      split at h
      · next hComma =>
          cases h
          exact hRead.trans (Cursor.reaches_scanChar hComma)
      · next c₂ hComma =>
          have hScore :=
            (hRead.trans
                (Cursor.reaches_scanChar hComma)).trans
              (Cursor.reaches_scanFloat c₂)
          split at h
          · next hFound =>
              cases h
              rwa [hFound] at hScore
          · next hFound =>
              cases h
              rwa [hFound] at hScore

/-
  The loop around score entries stops, and has as many
  rounds as entries are read.
-/
theorem Backbone.exists_stops_scores
    (threshold : Float)
    (defaultPhase : Phase)
    (source : Source)
    (name : String) :
    ∃ rounds last c',
      Stops ScoreEntry.scan StartsWithEntry 3 source name
        rounds last c' ∧
      ∀ lookup,
        ∃ events,
          read lookup ⟨.scores, threshold, defaultPhase⟩
              (.ofSource source name) =
            .ok ⟨rounds.length, events⟩ c' := by
  rcases completes_readScores #[]
      (.ofSource source name) with
    ⟨entries, c', hRead, _⟩
  rcases lists_of_readScores hRead with
    ⟨values, hEntries, hLists⟩
  rcases Scanner.exists_stops
      (fun _ _ _ => ScoreEntry.reaches_scan)
      ScoreEntry.recognizes_scan takesUp_startsWithEntry
      hLists with
    ⟨rounds, last, hValues, hStops⟩
  have hSize : entries.size = rounds.length := by
    rw [← Array.length_toList, hEntries, ← hValues]
    simp
  refine ⟨rounds, last, c', hStops, ?_⟩
  intro lookup
  simp only [read, hRead, hSize]
  exact ⟨_, rfl⟩

/-
  The loop around signed indices stops, and has as many
  rounds as indices are read.
-/
theorem Backbone.exists_stops_polarities
    (threshold : Float)
    (defaultPhase : Phase)
    (source : Source)
    (name : String) :
    ∃ rounds last c',
      Stops Cursor.scanInt StartsWithInt 1 source name
        rounds last c' ∧
      ∀ lookup,
        ∃ events,
          read lookup ⟨.polarities, threshold, defaultPhase⟩
              (.ofSource source name) =
            .ok ⟨rounds.length, events⟩ c' := by
  rcases completes_readPolarities #[]
      (.ofSource source name) with
    ⟨found, c', hRead, _⟩
  rcases lists_of_readPolarities hRead with
    ⟨values, hFound, hLists⟩
  rcases Scanner.exists_stops
      (fun _ _ _ => Cursor.reaches_scanInt)
      Cursor.recognizes_scanInt takesUp_startsWithInt
      hLists with
    ⟨rounds, last, hValues, hStops⟩
  have hSize : found.size = rounds.length := by
    rw [← Array.length_toList, hFound, ← hValues]
    simp
  refine ⟨rounds, last, c', hStops, ?_⟩
  intro lookup
  simp only [read, hRead, hSize]
  exact ⟨_, rfl⟩

/-
  The loop around the indices of an unsat order stops, and
  they are what is read.
-/
theorem UnsatOrder.exists_stops
    (source : Source)
    (name : String) :
    ∃ rounds last c',
      Stops Cursor.scanUnsigned StartsWithUnsigned 1 source
        name rounds last c' ∧
      read (.ofSource source name) =
        .ok (rounds.map Prod.fst) c' := by
  rcases completes_readIndices #[]
      (.ofSource source name) with
    ⟨found, c', hRead, _⟩
  rcases lists_of_readIndices hRead with
    ⟨indices, hFound, hLists⟩
  rcases Scanner.exists_stops
      (fun _ _ _ => Cursor.reaches_scanUnsigned)
      Cursor.recognizes_scanUnsigned
      takesUp_startsWithUnsigned hLists with
    ⟨rounds, last, hValues, hStops⟩
  refine ⟨rounds, last, c', hStops, ?_⟩
  rw [read, hRead]
  simp only [hFound, hValues, List.nil_append]

namespace Formula

/-
  What a backbone file asks for is done, and its
  entries are counted.
-/
theorem Holds.exists_readBackbone_of_read
    {f : Formula}
    {literals : List Int}
    {b : Backbone}
    {c c' : Cursor}
    {reading : Backbone.Reading}
    (h : f.Holds literals)
    (hRead : b.read f.lookupVariable c = .ok reading c') :
    ∃ f',
      f.readBackbone b c =
        .ok (reading.entries, f') c' := by
  rcases h.exists_readBackbone b c with
    ⟨entries, f', c₁, hBackbone, _⟩
  refine ⟨f', ?_⟩
  rw [hBackbone]
  simp only [readBackbone, hRead] at hBackbone
  split at hBackbone
  · cases hBackbone
  · cases hBackbone
    rfl

/-
  Whatever a source holds and wherever it fails, both kinds
  of backbone files and unsat orders are read in a finite
  number of rounds. A score takes up at least three bytes,
  and any other entry at least one, so that there are as
  many entries as the consumed bytes allow at most. This
  does not depend on which variables are known, and nothing
  that a file says is refused by a formula.
-/
theorem hint_readers_stop
    (operations : List Operation)
    (threshold : Float)
    (defaultPhase : Phase)
    (source : Source)
    (name : String) :
    (∃ rounds last c',
        Stops ScoreEntry.scan StartsWithEntry 3 source name
          rounds last c' ∧
        (∀ lookup,
          ∃ events,
            Backbone.read lookup
                ⟨.scores, threshold, defaultPhase⟩
                (.ofSource source name) =
              .ok ⟨rounds.length, events⟩ c') ∧
        ∃ f',
          (run operations).readBackbone
              ⟨.scores, threshold, defaultPhase⟩
              (.ofSource source name) =
            .ok (rounds.length, f') c') ∧
      (∃ rounds last c',
        Stops Cursor.scanInt StartsWithInt 1 source name
          rounds last c' ∧
        (∀ lookup,
          ∃ events,
            Backbone.read lookup
                ⟨.polarities, threshold, defaultPhase⟩
                (.ofSource source name) =
              .ok ⟨rounds.length, events⟩ c') ∧
        ∃ f',
          (run operations).readBackbone
              ⟨.polarities, threshold, defaultPhase⟩
              (.ofSource source name) =
            .ok (rounds.length, f') c') ∧
      ∃ rounds last c',
        Stops Cursor.scanUnsigned StartsWithUnsigned 1
          source name rounds last c' ∧
        UnsatOrder.read (.ofSource source name) =
          .ok (rounds.map Prod.fst) c' ∧
        ∃ f',
          (run operations).readUnsatOrder
              (.ofSource source name) =
            .ok (rounds.length, f') c' := by
  have hHolds := holds_run operations
  refine ⟨?_, ?_, ?_⟩
  · rcases Backbone.exists_stops_scores threshold
        defaultPhase source name with
      ⟨rounds, last, c', hStops, hRead⟩
    rcases hRead (run operations).lookupVariable with
      ⟨events, hEvents⟩
    exact ⟨rounds, last, c', hStops, hRead,
      hHolds.exists_readBackbone_of_read hEvents⟩
  · rcases Backbone.exists_stops_polarities threshold
        defaultPhase source name with
      ⟨rounds, last, c', hStops, hRead⟩
    rcases hRead (run operations).lookupVariable with
      ⟨events, hEvents⟩
    exact ⟨rounds, last, c', hStops, hRead,
      hHolds.exists_readBackbone_of_read hEvents⟩
  · rcases UnsatOrder.exists_stops source name with
      ⟨rounds, last, c', hStops, hRead⟩
    have hAdded :=
      readUnsatOrder_of_read (run operations) hRead
    rw [List.length_map] at hAdded
    exact ⟨rounds, last, c', hStops, hRead, _, hAdded⟩

end Formula

end Dimacs
