import Dimacs.Proofs.Formula.Compactness
import Dimacs.Proofs.Hint.Listing
import Dimacs.Proofs.Hint.Prediction
import Dimacs.Proofs.Storage.Assignment

/-
  What a backbone file makes of the phases of a formula. All
  phases of its kind are reset, and then each entry that is
  confident and names a variable that occurs sets the phase
  of this variable, so that the last one of them decides.

  Key definitions include:
    * `Formula.phases`
    * `Formula.withPhases`
    * `Backbone.guess?`

  Main statements:
    * `Formula.applyPhaseEvents_set`
    * `Formula.Holds.lookupVariable_eq_some_iff`
    * `Backbone.lastAssigned?_guess`
    * `Formula.readBackbone_of_read`
    * `Formula.scores_decide_initial_phases`
    * `Formula.polarities_decide_neural_phases`
-/

namespace Dimacs

------------------------------------------------------------
-- Kinds of Phases
------------------------------------------------------------

namespace PhaseEvent

/-
  Reset the phases that a backbone of a flavour is about.
-/
def reset
    (phase : Phase) : BackboneMode → PhaseEvent
  | .scores => .resetInitial phase
  | .polarities => .resetNeural phase

/-
  Set the phase of a variable, of the kind that a backbone
  of a flavour is about.
-/
def set
    (mode : BackboneMode)
    (guess : Variable × Phase) : PhaseEvent :=
  match mode with
  | .scores => .setInitial guess.1 guess.2
  | .polarities => .setNeural guess.1 guess.2

end PhaseEvent

namespace Formula

variable {f : Formula}
variable {literals : List Int}
variable {mode : BackboneMode}

/- The phases that a backbone of a flavour is about. -/
def phases
    (f : Formula) : BackboneMode → Table 1 Phase
  | .scores => f.initial
  | .polarities => f.neural

/- The formula with other phases of one kind. -/
def withPhases
    (f : Formula)
    (mode : BackboneMode)
    (table : Table 1 Phase) : Formula :=
  match mode with
  | .scores => { f with initial := table }
  | .polarities => { f with neural := table }

@[simp] theorem phases_withPhases
    (f : Formula)
    (mode : BackboneMode)
    (table : Table 1 Phase) :
    (f.withPhases mode table).phases mode = table := by
  cases mode <;> rfl

theorem withPhases_phases
    (f : Formula)
    (mode : BackboneMode) :
    f.withPhases mode (f.phases mode) = f := by
  cases mode <;> rfl

@[simp] theorem withPhases_withPhases
    (f : Formula)
    (mode : BackboneMode)
    (table table' : Table 1 Phase) :
    (f.withPhases mode table).withPhases mode table' =
      f.withPhases mode table' := by
  cases mode <;> rfl

@[simp] theorem translation_withPhases
    (f : Formula)
    (mode : BackboneMode)
    (table : Table 1 Phase) :
    (f.withPhases mode table).translation =
      f.translation := by
  cases mode <;> rfl

theorem applyPhaseEvent_reset
    (f : Formula)
    (phase : Phase)
    (mode : BackboneMode) :
    f.applyPhaseEvent (.reset phase mode) =
      .ok
        (f.withPhases mode
          ((f.phases mode).fill phase)) := by
  cases mode <;> rfl

theorem applyPhaseEvent_set
    {guess : Variable × Phase}
    {table : Table 1 Phase}
    (h : (f.phases mode).set guess.1 guess.2 = .ok table) :
    f.applyPhaseEvent (.set mode guess) =
      .ok (f.withPhases mode table) := by
  cases mode with
  | scores =>
      change f.initial.set guess.1 guess.2 = .ok table at h
      rw [PhaseEvent.set, applyPhaseEvent, setInitial, h]
      rfl
  | polarities =>
      change f.neural.set guess.1 guess.2 = .ok table at h
      rw [PhaseEvent.set, applyPhaseEvent, setNeural, h]
      rfl

/-
  Guesses are assigned to the phases of their kind, and
  change nothing else.
-/
theorem applyPhaseEvents_set
    {guesses : List (Variable × Phase)}
    {table : Table 1 Phase}
    (h : (f.phases mode).assign guesses = .ok table) :
    f.applyPhaseEvents (guesses.map (PhaseEvent.set mode)) =
      .ok (f.withPhases mode table) := by
  induction guesses generalizing f with
  | nil =>
      cases h
      rw [withPhases_phases]
      rfl
  | cons guess guesses ih =>
      rw [Table.assign] at h
      split at h
      · next table₁ hSet =>
          rw [List.map_cons, applyPhaseEvents,
            applyPhaseEvent_set hSet]
          have hRest :
              ((f.withPhases mode table₁).phases
                    mode).assign guesses =
                .ok table := by
            rw [phases_withPhases]
            exact h
          simpa using ih hRest
      · cases h

/-
  A formula whose phases are reset before they are assigned.
-/
theorem applyPhaseEvents_reset_set
    {phase : Phase}
    {guesses : List (Variable × Phase)}
    {table : Table 1 Phase}
    (h :
      ((f.phases mode).fill phase).assign guesses =
        .ok table) :
    f.applyPhaseEvents
        (.reset phase mode ::
          guesses.map (PhaseEvent.set mode)) =
      .ok (f.withPhases mode table) := by
  have hGuesses :
      ((f.withPhases mode ((f.phases mode).fill
          phase)).phases mode).assign guesses =
        .ok table := by
    rw [phases_withPhases]
    exact h
  rw [applyPhaseEvents, applyPhaseEvent_reset]
  simpa using applyPhaseEvents_set hGuesses

end Formula

------------------------------------------------------------
-- Guesses
------------------------------------------------------------

namespace Backbone

variable {β : Type}
variable {lookup : Nat → Option Variable}

/-
  The phase that an entry predicts for the variable that it
  names, if both exist.
-/
def guess?
    (lookup : Nat → Option Variable)
    (name : β → Int)
    (predict? : β → Option Phase)
    (entry : β) : Option (Variable × Phase) :=
  (known? lookup (name entry)).bind fun v =>
    (predict? entry).map fun phase => (v, phase)

/-
  What a score entry says about the variable of its index.
-/
def scoreGuess?
    (lookup : Nat → Option Variable)
    (threshold : Float) :
      ScoreEntry → Option (Variable × Phase) :=
  guess? lookup ScoreEntry.index fun entry =>
    predicted? threshold entry.score

/- What a value says about the variable of its magnitude. -/
def signGuess?
    (lookup : Nat → Option Variable) :
      Int → Option (Variable × Phase) :=
  guess? lookup (fun value => value.natAbs) fun value =>
    some (signPhase value)

theorem scoreEvent?_eq
    (lookup : Nat → Option Variable)
    (threshold : Float) :
    scoreEvent? lookup threshold =
      fun entry =>
        (scoreGuess? lookup threshold entry).map
          (PhaseEvent.set .scores) := by
  funext entry
  rw [scoreEvent?, scoreGuess?, guess?]
  cases known? lookup entry.index with
  | none => rfl
  | some v =>
      cases predicted? threshold entry.score with
      | none => rfl
      | some phase => rfl

theorem polarityEvent?_eq
    (lookup : Nat → Option Variable) :
    polarityEvent? lookup =
      fun value =>
        (signGuess? lookup value).map
          (PhaseEvent.set .polarities) := by
  funext value
  rw [polarityEvent?, signGuess?, guess?]
  cases known? lookup value.natAbs with
  | none => rfl
  | some v => rfl

/- The phase that a backbone starts from. -/
def resetPhase
    (b : Backbone) : Phase :=
  match b.mode with
  | .scores => b.defaultPhase
  | .polarities => .unset

/-
  A number of entries that reset the phases and
  then make guesses.
-/
def Reading.ofGuesses
    (b : Backbone)
    (entries : Nat)
    (guesses : List (Variable × Phase)) : Reading where
  entries := entries
  events :=
    .reset b.resetPhase b.mode ::
      guesses.map (PhaseEvent.set b.mode)

/-
  A file with scores is read as the guesses that
  its entries make.
-/
theorem exists_read_scores
    (lookup : Nat → Option Variable)
    (threshold : Float)
    (defaultPhase : Phase)
    (c : Cursor) :
    ∃ entries c',
      IsLongest StartsWithEntry c.readable entries ∧
      read lookup ⟨.scores, threshold, defaultPhase⟩ c =
        .ok
          (.ofGuesses ⟨.scores, threshold, defaultPhase⟩
            entries.length
            (entries.filterMap
              (scoreGuess? lookup threshold))) c' := by
  rcases exists_readScores c with
    ⟨entries, c', hRead, hLongest⟩
  refine ⟨entries.toList, c', hLongest, ?_⟩
  rw [Reading.ofGuesses, List.map_filterMap,
    ← scoreEvent?_eq]
  simp only [read, hRead, Array.length_toList,
    PhaseEvent.reset, resetPhase]

/-
  A file with polarities is read as the guesses that
  its values make.
-/
theorem exists_read_polarities
    (lookup : Nat → Option Variable)
    (threshold : Float)
    (defaultPhase : Phase)
    (c : Cursor) :
    ∃ values c',
      IsLongest StartsWithInt c.readable values ∧
      read lookup ⟨.polarities, threshold, defaultPhase⟩ c =
        .ok
          (.ofGuesses ⟨.polarities, threshold, defaultPhase⟩
            values.length
            (values.filterMap (signGuess? lookup))) c' := by
  rcases exists_readPolarities c with
    ⟨values, c', hRead, hLongest⟩
  refine ⟨values.toList, c', hLongest, ?_⟩
  rw [Reading.ofGuesses, List.map_filterMap,
    ← polarityEvent?_eq]
  simp only [read, hRead, Array.length_toList,
    PhaseEvent.reset, resetPhase]

/-
  Any file is read as guesses about the variables that
  its entries name.
-/
theorem exists_read_guesses
    (lookup : Nat → Option Variable)
    (b : Backbone)
    (c : Cursor) :
    ∃ (β : Type) (name : β → Int)
        (predict? : β → Option Phase) (values : List β)
        (c' : Cursor),
      b.read lookup c =
        .ok
          (.ofGuesses b values.length
            (values.filterMap
              (guess? lookup name predict?))) c' := by
  rcases b with ⟨_ | _, threshold, defaultPhase⟩
  · rcases exists_read_scores lookup threshold defaultPhase
        c with
      ⟨entries, c', _, hRead⟩
    exact ⟨ScoreEntry, _, _, entries, c', hRead⟩
  · rcases exists_read_polarities lookup threshold
        defaultPhase c with
      ⟨values, c', _, hRead⟩
    exact ⟨Int, _, _, values, c', hRead⟩

end Backbone

------------------------------------------------------------
-- Names of Variables
------------------------------------------------------------

namespace Formula

variable {f : Formula}
variable {literals : List Int}
variable {v : Variable}
variable {index : Nat}

/-
  Which variables are found depends on the translation only.
-/
theorem lookupVariable_congr
    {g : Formula}
    (h : g.translation = f.translation) :
    g.lookupVariable = f.lookupVariable := by
  unfold lookupVariable
  rw [h]

/-
  A variable is found under its external index, and under
  no other one.
-/
theorem Holds.lookupVariable_eq_some_iff
    (h : f.Holds literals) :
    f.lookupVariable index = some v ↔
      f.translation.externalIndex v = .ok index := by
  rw [lookupVariable, h.sound.lookup index,
    Translation.externalIndex_eq_ok_iff]
  constructor
  · intro hLookup
    split at hLookup
    · next hMem =>
        rw [Option.map_some, Translation.var_double]
          at hLookup
        rcases Option.some.inj hLookup with rfl
        exact List.getElem?_idxOf hMem
    · cases hLookup
  · intro hIndex
    rcases List.getElem?_eq_some_iff.mp hIndex with
      ⟨hBound, hPlace⟩
    have hPosition :=
      h.sound.nodup.idxOf_getElem v.index hBound
    rw [hPlace] at hPosition
    rw [if_pos (List.mem_of_getElem? hIndex),
      Option.map_some, Translation.var_double, hPosition]

/-
  An integer names a variable exactly if it is
  the external index.
-/
theorem Holds.known_eq_some_iff
    {value : Int}
    (h : f.Holds literals)
    (hIndex : f.translation.externalIndex v = .ok index) :
    Backbone.known? f.lookupVariable value = some v ↔
      value = index := by
  have hMem : index ∈ f.translation.indices :=
    List.mem_of_getElem?
      (Translation.externalIndex_eq_ok_iff.mp hIndex)
  have hRange := (h.sound.inRange index hMem).2
  have hMax : maxVariable ≤ Check.maxUnsigned32 := by decide
  rw [Backbone.known?]
  constructor
  · intro hKnown
    split at hKnown
    · next hFits =>
        rw [h.lookupVariable_eq_some_iff, hIndex,
          Except.ok.injEq] at hKnown
        omega
    · cases hKnown
  · rintro rfl
    rw [Int.toNat_natCast,
      if_pos
        ⟨Int.natCast_nonneg index,
          Nat.le_trans hRange hMax⟩]
    exact h.lookupVariable_eq_some_iff.mpr hIndex

/-
  An integer that is no index of a variable names nothing.
-/
theorem Holds.known_eq_none
    {value : Int}
    (h : f.Holds literals)
    (hMem : value.toNat ∉ f.translation.indices) :
    Backbone.known? f.lookupVariable value = none := by
  rw [Backbone.known?, lookupVariable,
    h.sound.lookup value.toNat, if_neg hMem]
  exact ite_self none

/- What is named by an integer occurs. -/
theorem Holds.lt_of_known
    {value : Int}
    (h : f.Holds literals)
    (hKnown :
      Backbone.known? f.lookupVariable value = some v) :
    v.index < f.variableCount := by
  rw [Backbone.known?] at hKnown
  split at hKnown
  · exact h.lt_of_lookupVariable hKnown
  · cases hKnown

end Formula

------------------------------------------------------------
-- Last Guesses
------------------------------------------------------------

namespace Backbone

variable {β : Type}

variable {f : Formula}
variable {literals : List Int}
variable {name : β → Int}
variable {predict? : β → Option Phase}

/-
  The last guess about a variable is the last prediction
  for its index.
-/
theorem lastAssigned?_guess
    {v : Variable}
    {index : Nat}
    (h : f.Holds literals)
    (hIndex : f.translation.externalIndex v = .ok index)
    (entries : List β) :
    lastAssigned?
        (entries.filterMap
          (guess? f.lookupVariable name predict?)) v =
      lastPhase? name predict? entries index := by
  rw [lastAssigned?, lastPhase?, List.filterMap_filterMap]
  congr 2
  funext entry
  rw [guess?]
  by_cases hNamed : name entry = index
  · rw [if_pos hNamed,
      (h.known_eq_some_iff hIndex).mpr hNamed]
    cases predict? entry <;> simp
  · rw [if_neg hNamed]
    cases hKnown : known? f.lookupVariable (name entry) with
    | none => rfl
    | some other =>
        have hOther : other ≠ v := by
          rintro rfl
          exact hNamed
            ((h.known_eq_some_iff hIndex).mp hKnown)
        cases predict? entry <;> simp [hOther]

/- Guesses are about variables that occur. -/
theorem lt_of_mem_guesses
    {guess : Variable × Phase}
    {entries : List β}
    (h : f.Holds literals)
    (hGuess :
      guess ∈
        entries.filterMap
          (guess? f.lookupVariable name predict?)) :
    guess.1.index < f.variableCount := by
  rcases List.mem_filterMap.mp hGuess with
    ⟨entry, _, hEntry⟩
  rcases Option.bind_eq_some_iff.mp hEntry with
    ⟨v, hKnown, hPredict⟩
  rcases Option.map_eq_some_iff.mp hPredict with
    ⟨phase, _, rfl⟩
  exact h.lt_of_known hKnown

end Backbone

------------------------------------------------------------
-- Reading
------------------------------------------------------------

namespace Formula

variable {f : Formula}
variable {literals : List Int}
variable {b : Backbone}
variable {c c' : Cursor}
variable {entries : Nat}
variable {guesses : List (Variable × Phase)}
variable {table : Table 1 Phase}

/-
  The guesses of a file are assigned to the phases after
  these are reset.
-/
theorem readBackbone_of_read
    (hRead :
      b.read f.lookupVariable c =
        .ok (.ofGuesses b entries guesses) c')
    (hTable :
      ((f.phases b.mode).fill b.resetPhase).assign guesses =
        .ok table) :
    f.readBackbone b c =
      .ok (entries, f.withPhases b.mode table) c' := by
  have hApply := applyPhaseEvents_reset_set hTable
  rw [readBackbone, hRead]
  simp only [Backbone.Reading.ofGuesses, hApply]

theorem Holds.lt_size_phases
    {v : Variable}
    (h : f.Holds literals)
    (hv : v.index < f.variableCount)
    (mode : BackboneMode) :
    v.index < (f.phases mode).size := by
  cases mode with
  | scores => exact (h.lt_size hv).1
  | polarities => exact (h.lt_size hv).2

/- Guesses about variables that occur decide the phases. -/
theorem Holds.exists_assign_phases
    (h : f.Holds literals)
    (hGuesses :
      ∀ guess ∈ guesses, guess.1.index < f.variableCount)
    (b : Backbone) :
    ∃ table,
      ((f.phases b.mode).fill b.resetPhase).assign guesses =
        .ok table ∧
      table.fill b.resetPhase =
        (f.phases b.mode).fill b.resetPhase ∧
      ∀ v : Variable,
        v.index < (f.phases b.mode).size →
        table.get v =
          .ok
            ((lastAssigned? guesses v).getD
              b.resetPhase) := by
  have hPlaces :
      ∀ guess ∈ guesses,
        guess.1.index <
          ((f.phases b.mode).fill b.resetPhase).size := by
    intro guess hGuess
    rw [Table.size_fill]
    exact h.lt_size_phases (hGuesses guess hGuess) b.mode
  rcases Table.exists_assign hPlaces with ⟨table, hTable⟩
  refine ⟨table, hTable, ?_, ?_⟩
  · rw [Table.fill_of_assign hTable, Table.fill_fill]
  · intro v hv
    exact Table.get_of_assign hTable
      (Table.get_fill b.resetPhase hv)

/-
  There are no guesses about variables that do not occur.
-/
theorem lastAssigned?_of_le
    {v : Variable}
    (hGuesses :
      ∀ guess ∈ guesses, guess.1.index < f.variableCount)
    (hv : f.variableCount ≤ v.index) :
    lastAssigned? guesses v = none := by
  have hNone :
      ∀ guess ∈ guesses,
        (if guess.1 = v then some guess.2 else none) =
          none := by
    intro guess hGuess
    apply if_neg
    rintro rfl
    exact Nat.not_lt.mpr hv (hGuesses guess hGuess)
  rw [lastAssigned?, List.filterMap_eq_nil_iff.mpr hNone,
    List.getLast?_nil]

/-
  Whatever the phases were, a file makes the same of them:
  the last prediction for a variable decides its phase, and
  all others are reset. This depends on the translation and
  on the number of phases and the room for them only.
-/
theorem Holds.exists_rephased
    {β : Type}
    (h : f.Holds literals)
    (b : Backbone)
    (name : β → Int)
    (predict? : β → Option Phase)
    (values : List β) :
    ∃ table : Table 1 Phase,
      (∀ v index,
        f.translation.externalIndex v = .ok index →
        table.get v =
          .ok
            ((Backbone.lastPhase? name predict? values
                index).getD b.resetPhase)) ∧
      (∀ v : Variable,
        f.variableCount ≤ v.index →
        v.index < (f.phases b.mode).size →
        table.get v = .ok b.resetPhase) ∧
      table.fill b.resetPhase =
        (f.phases b.mode).fill b.resetPhase ∧
      ∀ (g : Formula) c entries c',
        g.translation = f.translation →
        (g.phases b.mode).fill b.resetPhase =
          (f.phases b.mode).fill b.resetPhase →
        b.read f.lookupVariable c =
          .ok
            (.ofGuesses b entries
              (values.filterMap
                (Backbone.guess? f.lookupVariable name
                  predict?))) c' →
        g.readBackbone b c =
          .ok (entries, g.withPhases b.mode table) c' := by
  have hGuesses :
      ∀ guess ∈ values.filterMap
          (Backbone.guess? f.lookupVariable name predict?),
        guess.1.index < f.variableCount :=
    fun _ hGuess => Backbone.lt_of_mem_guesses h hGuess
  rcases h.exists_assign_phases hGuesses b with
    ⟨table, hTable, hFill, hGet⟩
  refine ⟨table, ?_, ?_, hFill, ?_⟩
  · intro v index hIndex
    have hPlace := (List.getElem?_eq_some_iff.mp
      (Translation.externalIndex_eq_ok_iff.mp hIndex)).1
    rw [Translation.length_indices] at hPlace
    rw [hGet v (h.lt_size_phases hPlace b.mode),
      Backbone.lastAssigned?_guess h hIndex]
  · intro v hBehind hPlace
    rw [hGet v hPlace, lastAssigned?_of_le hGuesses hBehind]
    rfl
  · intro g c entries c' hTranslation hSame hRead
    rw [← hSame] at hTable
    rw [← lookupVariable_congr hTranslation] at hRead hTable
    exact readBackbone_of_read hRead hTable

/- Values that name nothing make no guess. -/
theorem Holds.filterMap_signGuess
    (h : f.Holds literals)
    (values : List Int) :
    values.filterMap
        (Backbone.signGuess? f.lookupVariable) =
      (values.filter fun value =>
          value.natAbs ∈ f.translation.indices).filterMap
        (Backbone.signGuess? f.lookupVariable) := by
  rw [List.filterMap_filter]
  congr
  funext value
  by_cases hMem : value.natAbs ∈ f.translation.indices
  · rw [if_pos (decide_eq_true hMem)]
  · have hUnknown :
        Backbone.known? f.lookupVariable value.natAbs =
          none :=
      h.known_eq_none hMem
    rw [if_neg (by simpa using hMem), Backbone.signGuess?,
      Backbone.guess?, hUnknown]
    rfl

------------------------------------------------------------
-- Scores and Polarities
------------------------------------------------------------

/-
  A file with scores has as many entries as the longest
  sequence of well-formed ones that its text starts with.
  The last confident entry with the index of a variable
  decides its initial phase, and without one it is the
  default; so are the phases that no variable uses yet.
  The initial phases from before have no influence, so
  that reading the file once more changes nothing.
-/
theorem scores_decide_initial_phases
    (operations : List Operation)
    (threshold : Float)
    (defaultPhase : Phase)
    (source : Source)
    (name : String) :
    ∃ entries f' c',
      IsLongest StartsWithEntry source.upcoming entries ∧
      (run operations).readBackbone
          ⟨.scores, threshold, defaultPhase⟩
          (.ofSource source name) =
        .ok (entries.length, f') c' ∧
      (∀ v index,
        (run operations).translation.externalIndex v =
          .ok index →
        ∃ phase, f'.initialPhase v = .ok phase ∧
          Backbone.ScoresDecide threshold defaultPhase
            entries index phase) ∧
      (∀ v : Variable,
        (run operations).variableCount ≤ v.index →
        v.index < (run operations).initial.size →
        f'.initialPhase v = .ok defaultPhase) ∧
      (∀ phases : Array Phase,
        ((run operations).withPhases .scores
            ((run operations).initial.overwrite
              phases)).readBackbone
            ⟨.scores, threshold, defaultPhase⟩
            (.ofSource source name) =
          .ok (entries.length, f') c') ∧
      f'.readBackbone ⟨.scores, threshold, defaultPhase⟩
          (.ofSource source name) =
        .ok (entries.length, f') c' := by
  have hHolds := holds_run operations
  rcases Backbone.exists_read_scores
      (run operations).lookupVariable threshold
      defaultPhase (.ofSource source name) with
    ⟨entries, c', hLongest, hRead⟩
  rcases hHolds.exists_rephased
      ⟨.scores, threshold, defaultPhase⟩ ScoreEntry.index
      (fun entry =>
        Backbone.predicted? threshold entry.score)
      entries with
    ⟨initial, hPhases, hUnused, hSame, hReads⟩
  refine
    ⟨entries, (run operations).withPhases .scores initial,
      c', hLongest, ?_, ?_, hUnused, ?_, ?_⟩
  · exact hReads _ _ _ _ rfl rfl hRead
  · intro v index hIndex
    exact ⟨_, hPhases v index hIndex,
      Backbone.scoresDecide_iff.mpr rfl⟩
  · intro phases
    exact hReads _ _ _ _ rfl
      (Table.fill_overwrite _ phases defaultPhase) hRead
  · exact hReads _ _ _ _ rfl hSame hRead

/-
  With the threshold 0.9 the scores in `1,0.95 2,0.05 3,0.5`
  are a high one, a low one and one that says nothing.
-/
theorem scores_of_each_kind_are_told_apart :
    ∃ (f' : Formula) (c' : Cursor),
      (run [.apply (.add 1), .apply (.add 2),
          .apply (.add 3)]).readBackbone
          ⟨.scores, 0.9, .unset⟩
          (.ofSource
            (.ofBytes
              [49, 44, 48, 46, 57, 53, 32, 50, 44, 48, 46,
                48, 53, 32, 51, 44, 48, 46, 53])
            "backbone") =
        .ok (3, f') c' ∧
      f'.initialPhase ⟨0⟩ = .ok .negative ∧
      f'.initialPhase ⟨1⟩ = .ok .positive ∧
      f'.initialPhase ⟨2⟩ = .ok .unset := by
  have hStarts :
      StartsWithAll StartsWithEntry
        [49, 44, 48, 46, 57, 53, 32, 50, 44, 48, 46, 48, 53,
          32, 51, 44, 48, 46, 53]
        [⟨1, Numeral.toFloat
            ⟨false, [48], [57, 53], false, []⟩⟩,
          ⟨2, Numeral.toFloat
            ⟨false, [48], [48, 53], false, []⟩⟩,
          ⟨3, Numeral.toFloat
            ⟨false, [48], [53], false, []⟩⟩]
        [] := by
    refine
      ⟨_, @startsWithEntry_of_digits [] [49] [48] [57, 53]
          _ ?_ ?_ ?_ ?_ ?_,
        _, @startsWithEntry_of_digits [32] [50] [48]
          [48, 53] _ ?_ ?_ ?_ ?_ ?_,
        _, @startsWithEntry_of_digits [32] [51] [48] [53]
          [] ?_ ?_ ?_ ?_ ?_,
        rfl⟩
    all_goals
      simp [Byte.IsDigit, Byte.IsSpace, Byte.space,
        Check.FitsInt32, Byte.decimal, Byte.digit]
  rcases scores_decide_initial_phases
      [.apply (.add 1), .apply (.add 2), .apply (.add 3)]
      0.9 .unset
      (.ofBytes
        [49, 44, 48, 46, 57, 53, 32, 50, 44, 48, 46, 48, 53,
          32, 51, 44, 48, 46, 53])
      "backbone" with
    ⟨entries, f', c', hLongest, hRead, hPhases, _⟩
  rcases hLongest.unique (hStarts.isLongest
    ScoreEntry.recognizes_scan.determines
    not_startsWithEntry_nil) with rfl
  rcases hPhases ⟨0⟩ 1 rfl with ⟨first, hFirst, hHigh⟩
  rcases hPhases ⟨1⟩ 2 rfl with ⟨second, hSecond, hLow⟩
  rcases hPhases ⟨2⟩ 3 rfl with ⟨third, hThird, hNone⟩
  refine ⟨f', c', hRead, ?_, ?_, ?_⟩
  · rw [hFirst, hHigh.unique
      (@Backbone.ScoresDecide.last 0.9 .unset _ 1 []
        _ _ _ rfl rfl (.high (by decide +kernel))
        (by simp))]
  · rw [hSecond, hLow.unique
      (@Backbone.ScoresDecide.last 0.9 .unset _ 2 [_]
        _ _ _ rfl rfl
        (.low (by decide +kernel) (by decide +kernel))
        (by simp))]
  · have hUnconfident :
        ¬ Backbone.IsConfident 0.9 (Numeral.toFloat
          ⟨false, [48], [53], false, []⟩) := by
      rintro (hHigh | hLow)
      · exact absurd hHigh (by decide +kernel)
      · exact absurd hLow (by decide +kernel)
    rw [hThird, hNone.unique (.default ?_)]
    simp [hUnconfident]

/-
  A file with polarities has as many entries as the longest
  sequence of integers that its text starts with. The sign
  of the last one whose magnitude is the index of a variable
  decides its neural phase, which is unset without one. The
  neural phases from before have no influence, and neither
  has a value whose magnitude is no index of a variable, as
  those of zero and of the smallest integer never are.
-/
theorem polarities_decide_neural_phases
    (operations : List Operation)
    (threshold : Float)
    (defaultPhase : Phase)
    (source : Source)
    (name : String) :
    ∃ values f' c',
      IsLongest StartsWithInt source.upcoming values ∧
      (run operations).readBackbone
          ⟨.polarities, threshold, defaultPhase⟩
          (.ofSource source name) =
        .ok (values.length, f') c' ∧
      (∀ v index,
        (run operations).translation.externalIndex v =
          .ok index →
        f'.neuralPhase v =
          .ok
            ((Backbone.signedPhase? values index).getD
              .unset)) ∧
      (∀ v : Variable,
        (run operations).variableCount ≤ v.index →
        v.index < (run operations).neural.size →
        f'.neuralPhase v = .ok .unset) ∧
      (∀ phases : Array Phase,
        ((run operations).withPhases .polarities
              ((run operations).neural.overwrite
                phases)).readBackbone
            ⟨.polarities, threshold, defaultPhase⟩
            (.ofSource source name) =
          .ok (values.length, f') c') ∧
      (0 : Int).natAbs ∉
        (run operations).translation.indices ∧
      (-2147483648 : Int).natAbs ∉
        (run operations).translation.indices ∧
      ∀ source' name' values',
        IsLongest StartsWithInt source'.upcoming values' →
        values'.filter
            (fun value =>
              value.natAbs ∈
                (run operations).translation.indices) =
          values.filter
            (fun value =>
              value.natAbs ∈
                (run operations).translation.indices) →
        ∃ c'',
          (run operations).readBackbone
              ⟨.polarities, threshold, defaultPhase⟩
              (.ofSource source' name') =
            .ok (values'.length, f') c'' := by
  have hHolds := holds_run operations
  rcases Backbone.exists_read_polarities
      (run operations).lookupVariable threshold defaultPhase
      (.ofSource source name) with
    ⟨values, c', hLongest, hRead⟩
  rcases hHolds.exists_rephased
      ⟨.polarities, threshold, defaultPhase⟩
      (fun value : Int => value.natAbs)
      (fun value => some (Backbone.signPhase value))
      values with
    ⟨neural, hPhases, hUnused, hSame, hReads⟩
  refine
    ⟨values, (run operations).withPhases .polarities neural,
      c', hLongest, ?_, hPhases, hUnused, ?_, ?_, ?_, ?_⟩
  · exact hReads _ _ _ _ rfl rfl hRead
  · intro phases
    exact hReads _ _ _ _ rfl
      (Table.fill_overwrite _ phases .unset) hRead
  · exact fun hMem =>
      Nat.not_lt_zero 0 (hHolds.sound.inRange 0 hMem).1
  · intro hMem
    exact absurd (hHolds.sound.inRange _ hMem).2 (by decide)
  · intro source' name' values' hLongest' hValues
    rcases Backbone.exists_read_polarities
        (run operations).lookupVariable threshold
        defaultPhase (.ofSource source' name') with
      ⟨found, c'', hFound, hRead'⟩
    rcases hFound.unique hLongest' with rfl
    rw [hHolds.filterMap_signGuess, hValues,
      ← hHolds.filterMap_signGuess] at hRead'
    exact ⟨c'', hReads _ _ _ _ rfl rfl hRead'⟩

end Formula

end Dimacs
