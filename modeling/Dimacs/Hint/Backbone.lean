import Dimacs.Cursor.Scan
import Dimacs.Literal
import Dimacs.Options.Basic

/-
  Backbone files, which guess the value of variables that
  is the same in every model. They come in two flavours:
  confidence scores, one pair `index,score` per entry, where
  a high score predicts that the variable is false; and
  polarities, one signed index per entry. The first
  malformed entry ends the file.

  Key definitions include:
    * `BackboneMode`
    * `Backbone`
    * `Backbone.ofOptions?`
    * `ScoreEntry`
    * `Backbone.readScores`
    * `Backbone.readPolarities`
    * `PhaseEvent`
    * `Backbone.read`
-/

namespace Dimacs

------------------------------------------------------------
-- Modes
------------------------------------------------------------

/- The flavour of a backbone file. -/
inductive BackboneMode where
  | scores
  | polarities
deriving DecidableEq

namespace BackboneMode

/- The name of a flavour. -/
def name : BackboneMode → String
  | scores => "Scores"
  | polarities => "Polarities"

/- Scores are asked for. -/
def WantsScores
    (o : Options) : Prop :=
  o.backboneInitial ≠ 0

instance (o : Options) :
    Decidable (WantsScores o) :=
  inferInstanceAs (Decidable (_ ≠ _))

/- Polarities are asked for. -/
def WantsPolarities
    (o : Options) : Prop :=
  o.backboneAlways ≠ 0 ∨ o.backboneRephase ≠ 0

instance (o : Options) :
    Decidable (WantsPolarities o) :=
  inferInstanceAs (Decidable (_ ∨ _))

/-
  The flavour the options ask for, if any; scores go first.
-/
def ofOptions?
    (o : Options) : Option BackboneMode :=
  if WantsScores o then some scores
  else if WantsPolarities o then some polarities
  else none

/- What is printed when the flavour is determined. -/
def notices
    (o : Options) : List String :=
  if WantsScores o ∧ WantsPolarities o then
    o.warn "backbone scores and polarities both enabled, reading scores"
  else []

end BackboneMode

/-
  How to interpret a backbone file. Scores of at least the
  threshold predict false, scores below one minus the
  threshold predict true; all other variables get the
  default phase.
-/
structure Backbone where
  mode : BackboneMode
  threshold : Float
  defaultPhase : Phase

/- The interpretation the options ask for, if any. -/
def Backbone.ofOptions?
    (o : Options) : Option Backbone :=
  (BackboneMode.ofOptions? o).map fun mode =>
    { mode := mode
      threshold := o.backboneThreshold
      defaultPhase := Phase.of o.initialPhase }

------------------------------------------------------------
-- Entries
------------------------------------------------------------

/- An external index with its confidence score. -/
structure ScoreEntry where
  index : Int
  score : Float

namespace ScoreEntry

/- Read one entry; a comma follows the index at once. -/
def scan : Scanner (Option ScoreEntry) :=
  fun c =>
    match c.scanInt with
    | .error violation c₁ => .error violation c₁
    | .ok none c₁ => .ok none c₁
    | .ok (some index) c₁ =>
        match c₁.scanChar Byte.comma with
        | (false, c₂) => .ok none c₂
        | (true, c₂) =>
            match c₂.scanFloat with
            | (none, c₃) => .ok none c₃
            | (some score, c₃) =>
                .ok (some ⟨index, score⟩) c₃

theorem remaining_lt_of_scan
    {entry : ScoreEntry}
    {c c' : Cursor}
    (h : scan c = .ok (some entry) c') :
    c'.remaining < c.remaining := by
  unfold scan at h
  split at h
  · cases h
  · cases h
  · next index c₁ hIndex =>
      have hComma := c₁.remaining_scanChar Byte.comma
      split at h
      · cases h
      · next c₂ h₂ =>
          rw [h₂] at hComma
          have hScore := c₂.remaining_scanFloat
          split at h
          · cases h
          · next score c₃ h₃ =>
              rw [h₃] at hScore
              cases h
              exact Nat.lt_of_le_of_lt
                (Nat.le_trans hScore hComma)
                (Cursor.remaining_lt_of_scanInt hIndex)

end ScoreEntry

namespace Backbone

/- Read all score entries behind those given. -/
def readScores
    (entries : Array ScoreEntry)
    (c : Cursor) :
      EStateM.Result Violation Cursor (Array ScoreEntry) :=
  match _h : ScoreEntry.scan c with
  | .error violation c' => .error violation c'
  | .ok none c' => .ok entries c'
  | .ok (some entry) c' =>
      readScores (entries.push entry) c'
termination_by c.remaining
decreasing_by exact ScoreEntry.remaining_lt_of_scan _h

/-
  Read all signed indices behind those given. The magnitude
  of each is computed in 64 bits.
-/
def readPolarities
    (entries : Array Int)
    (c : Cursor) :
      EStateM.Result Violation Cursor (Array Int) :=
  match _h : c.scanInt with
  | .error violation c' => .error violation c'
  | .ok none c' => .ok entries c'
  | .ok (some entry) c' =>
      match Check.int64 entry.natAbs with
      | .error violation => .error violation c'
      | .ok _ => readPolarities (entries.push entry) c'
termination_by c.remaining
decreasing_by exact Cursor.remaining_lt_of_scanInt _h

end Backbone

------------------------------------------------------------
-- Phase Events
------------------------------------------------------------

/-
  What a backbone tells the storage: reset all phases of a
  kind, or set that of one variable.
-/
inductive PhaseEvent where
  | resetInitial (phase : Phase)
  | resetNeural (phase : Phase)
  | setInitial (v : Variable) (phase : Phase)
  | setNeural (v : Variable) (phase : Phase)
deriving DecidableEq

namespace Backbone

/- The variable of an external index, if there is one. -/
def known?
    (lookup : Nat → Option Variable)
    (index : Int) : Option Variable :=
  if 0 ≤ index ∧ index.toNat ≤ Check.maxUnsigned32 then
    lookup index.toNat
  else none

/- The phase a score predicts, if it is a confident one. -/
def predicted?
    (threshold score : Float) : Option Phase :=
  if threshold ≤ score then some .negative
  else if score < 1.0 - threshold then some .positive
  else none

/- The event a score entry causes, if any. -/
def scoreEvent?
    (lookup : Nat → Option Variable)
    (threshold : Float)
    (entry : ScoreEntry) : Option PhaseEvent :=
  match known? lookup entry.index with
  | none => none
  | some v =>
      (predicted? threshold entry.score).map
        (PhaseEvent.setInitial v)

/- The event a signed index causes, if any. -/
def polarityEvent?
    (lookup : Nat → Option Variable)
    (entry : Int) : Option PhaseEvent :=
  (known? lookup entry.natAbs).map fun v =>
    .setNeural v
      (if entry < 0 then .negative else .positive)

/-
  What came out of a backbone file: the number of entries,
  known or not, and the events for the storage.
-/
structure Reading where
  entries : Nat
  events : List PhaseEvent

/-
  Read a backbone file. The phases of its kind
  are reset first.
-/
def read
    (lookup : Nat → Option Variable)
    (b : Backbone) : Scanner Reading :=
  fun c =>
    match b.mode with
    | .scores =>
        match readScores #[] c with
        | .error violation c' => .error violation c'
        | .ok entries c' =>
            .ok
              { entries := entries.size
                events :=
                  .resetInitial b.defaultPhase ::
                    entries.toList.filterMap
                      (scoreEvent? lookup b.threshold) }
              c'
    | .polarities =>
        match readPolarities #[] c with
        | .error violation c' => .error violation c'
        | .ok entries c' =>
            .ok
              { entries := entries.size
                events :=
                  .resetNeural .unset ::
                    entries.toList.filterMap
                      (polarityEvent? lookup) }
              c'

end Backbone

end Dimacs
