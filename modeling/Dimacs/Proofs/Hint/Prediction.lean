import Dimacs.Hint.Backbone

/-
  What the entries of a backbone file say about a variable.
  A score predicts a phase if it is a confident one, and a
  signed index always does. The last entry that has the
  index of a variable and predicts a phase decides it.

  Key definitions include:
    * `Backbone.Predicts`
    * `Backbone.IsConfident`
    * `Backbone.signPhase`
    * `Backbone.lastPhase?`
    * `Backbone.scoredPhase?`
    * `Backbone.signedPhase?`
    * `Backbone.ScoresDecide`

  Main statements:
    * `Backbone.predicted?_eq_some_iff`
    * `Backbone.predicted?_eq_none_iff`
    * `Backbone.lastPhase?_eq_some_iff`
    * `Backbone.scoresDecide_iff`
    * `Backbone.ScoresDecide.unique`
-/

namespace Dimacs

namespace Backbone

------------------------------------------------------------
-- Confident Scores
------------------------------------------------------------

section Scores

variable {threshold score : Float}
variable {phase : Phase}

/-
  The phase that a score predicts. From the threshold on it
  predicts that the variable is false, and otherwise below
  one minus the threshold that it is true.
-/
inductive Predicts
    (threshold score : Float) : Phase → Prop where
  | high
      (hHigh : threshold ≤ score) :
      Predicts threshold score .negative
  | low
      (hNotHigh : ¬ threshold ≤ score)
      (hLow : score < 1.0 - threshold) :
      Predicts threshold score .positive

/- A score that predicts a phase, whichever it is. -/
def IsConfident
    (threshold score : Float) : Prop :=
  threshold ≤ score ∨ score < 1.0 - threshold

theorem predicted?_eq_some_iff :
    predicted? threshold score = some phase ↔
      Predicts threshold score phase := by
  rw [predicted?]
  constructor
  · intro hPredicted
    split at hPredicted
    · next hHigh =>
        rcases Option.some.inj hPredicted with rfl
        exact .high hHigh
    · next hNotHigh =>
        split at hPredicted
        · next hLow =>
            rcases Option.some.inj hPredicted with rfl
            exact .low hNotHigh hLow
        · cases hPredicted
  · intro hPredicts
    cases hPredicts with
    | high hHigh => rw [if_pos hHigh]
    | low hNotHigh hLow =>
        rw [if_neg hNotHigh, if_pos hLow]

theorem predicted?_eq_none_iff :
    predicted? threshold score = none ↔
      ¬ IsConfident threshold score := by
  rw [predicted?, IsConfident]
  by_cases hHigh : threshold ≤ score
  · simp [hHigh]
  · by_cases hLow : score < 1.0 - threshold
    · simp [hHigh, hLow]
    · simp [hHigh, hLow]

end Scores

/- The phase that the sign of a value stands for. -/
def signPhase
    (value : Int) : Phase :=
  if value < 0 then .negative else .positive

------------------------------------------------------------
-- Last Predictions
------------------------------------------------------------

section Last

variable {β : Type}
variable {name : β → Int}
variable {predict? : β → Option Phase}
variable {entries : List β}
variable {index : Nat}
variable {phase : Phase}

/-
  What the last entry with an index and a prediction
  predicts.
-/
def lastPhase?
    (name : β → Int)
    (predict? : β → Option Phase)
    (entries : List β)
    (index : Nat) : Option Phase :=
  (entries.filterMap fun entry =>
    if name entry = index then predict? entry
    else none).getLast?

/-
  Entries behind the last prediction for an index have
  other indices, or predict nothing.
-/
theorem lastPhase?_eq_some_iff :
    lastPhase? name predict? entries index = some phase ↔
      ∃ front entry back,
        entries = front ++ entry :: back ∧
        name entry = index ∧
        predict? entry = some phase ∧
        ∀ later ∈ back, name later = index →
          predict? later = none := by
  rw [lastPhase?, List.getLast?_eq_some_iff]
  constructor
  · intro hLast
    rcases hLast with ⟨phases, hPhases⟩
    rcases List.filterMap_eq_append_iff.mp hPhases with
      ⟨front, rest, rfl, _, hRest⟩
    rcases List.filterMap_eq_cons_iff.mp hRest with
      ⟨skipped, entry, back, rfl, _, hEntry, hBack⟩
    have hEntry :
        name entry = index ∧
          predict? entry = some phase := by
      simpa using hEntry
    refine ⟨front ++ skipped, entry, back, by simp,
      hEntry.1, hEntry.2, ?_⟩
    simpa using hBack
  · intro hEntries
    rcases hEntries with
      ⟨front, entry, back, rfl, hName, hPhase, hBack⟩
    refine ⟨front.filterMap fun entry =>
      if name entry = index then predict? entry
      else none, ?_⟩
    have hBack :
        back.filterMap (fun entry =>
          if name entry = index then predict? entry
          else none) = [] := by
      simpa using hBack
    rw [List.filterMap_append, List.filterMap_cons,
      if_pos hName, hPhase, hBack]

theorem lastPhase?_eq_none_iff :
    lastPhase? name predict? entries index = none ↔
      ∀ entry ∈ entries, name entry = index →
        predict? entry = none := by
  simp [lastPhase?]

end Last

/- The phase that the last confident entry predicts. -/
def scoredPhase?
    (threshold : Float) :
    List ScoreEntry → Nat → Option Phase :=
  lastPhase? ScoreEntry.index fun entry =>
    predicted? threshold entry.score

/- The phase that the sign of the last value stands for. -/
def signedPhase? : List Int → Nat → Option Phase :=
  lastPhase? (fun value => value.natAbs) fun value =>
    some (signPhase value)

------------------------------------------------------------
-- Decided Phases
------------------------------------------------------------

/-
  The phase that scores decide for an index: what the last
  confident entry with this index predicts, and the default
  if there is no such entry. An entry that is not confident
  leaves those in front of it in force.
-/
inductive ScoresDecide
    (threshold : Float)
    (defaultPhase : Phase)
    (entries : List ScoreEntry)
    (index : Nat) : Phase → Prop where
  | last
      {front back : List ScoreEntry}
      {entry : ScoreEntry}
      {phase : Phase}
      (hEntries : entries = front ++ entry :: back)
      (hIndex : entry.index = index)
      (hPredicts : Predicts threshold entry.score phase)
      (hBack : ∀ later ∈ back, later.index = index →
        ¬ IsConfident threshold later.score) :
      ScoresDecide threshold defaultPhase entries index
        phase
  | default
      (hNone : ∀ entry ∈ entries, entry.index = index →
        ¬ IsConfident threshold entry.score) :
      ScoresDecide threshold defaultPhase entries index
        defaultPhase

variable {threshold : Float}
variable {defaultPhase phase phase' : Phase}
variable {entries : List ScoreEntry}
variable {index : Nat}

theorem scoresDecide_iff :
    ScoresDecide threshold defaultPhase entries index
        phase ↔
      (scoredPhase? threshold entries index).getD
        defaultPhase = phase := by
  constructor
  · intro hDecide
    cases hDecide with
    | @last front back entry _ hEntries hIndex hPredicts
        hBack =>
        have hLast :
            scoredPhase? threshold entries index =
              some phase :=
          lastPhase?_eq_some_iff.mpr
            ⟨front, entry, back, hEntries, hIndex,
              predicted?_eq_some_iff.mpr hPredicts,
              fun later hLater hName =>
                predicted?_eq_none_iff.mpr
                  (hBack later hLater hName)⟩
        rw [hLast, Option.getD_some]
    | default hNone =>
        have hLast :
            scoredPhase? threshold entries index = none :=
          lastPhase?_eq_none_iff.mpr
            fun entry hEntry hName =>
              predicted?_eq_none_iff.mpr
                (hNone entry hEntry hName)
        rw [hLast, Option.getD_none]
  · rintro rfl
    cases hLast :
        scoredPhase? threshold entries index with
    | none =>
        refine .default ?_
        intro entry hEntry hName
        exact predicted?_eq_none_iff.mp
          (lastPhase?_eq_none_iff.mp hLast entry hEntry
            hName)
    | some phase =>
        rcases lastPhase?_eq_some_iff.mp hLast with
          ⟨front, entry, back, hEntries, hName, hPhase,
            hBack⟩
        refine .last hEntries hName
          (predicted?_eq_some_iff.mp hPhase) ?_
        intro later hLater hLaterName
        exact predicted?_eq_none_iff.mp
          (hBack later hLater hLaterName)

/- Scores decide one phase only. -/
theorem ScoresDecide.unique
    (h : ScoresDecide threshold defaultPhase entries index
      phase)
    (h' : ScoresDecide threshold defaultPhase entries index
      phase') :
    phase = phase' := by
  rw [← scoresDecide_iff.mp h, scoresDecide_iff.mp h']

end Backbone

end Dimacs
