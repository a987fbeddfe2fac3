import Dimacs.Formula.Basic
import Dimacs.Hint.Backbone
import Dimacs.Hint.UnsatOrder
import Dimacs.Random.ChaCha

/-
  Hints that are stored with a formula: initial phases from
  scores or at random, neural phases from polarities, and
  the unsat order.

  Key definitions include:
    * `Formula.applyPhaseEvents`
    * `Formula.readBackbone`
    * `Formula.randomize`
    * `Formula.addToOrder`
    * `Formula.readUnsatOrder`
-/

namespace Dimacs

namespace Formula

------------------------------------------------------------
-- Phases
------------------------------------------------------------

/- The initial phase of a variable. -/
def initialPhase
    (f : Formula)
    (v : Variable) : Except Violation Phase :=
  f.initial.get v

/- The neural phase of a variable. -/
def neuralPhase
    (f : Formula)
    (v : Variable) : Except Violation Phase :=
  f.neural.get v

/- Give all variables the same initial phase. -/
def resetInitial
    (phase : Phase)
    (f : Formula) : Formula :=
  { f with initial := f.initial.fill phase }

/- Give all variables the same neural phase. -/
def resetNeural
    (phase : Phase)
    (f : Formula) : Formula :=
  { f with neural := f.neural.fill phase }

/- Set the initial phase of a variable. -/
def setInitial
    (v : Variable)
    (phase : Phase)
    (f : Formula) : Except Violation Formula := do
  let initial ← f.initial.set v phase
  pure { f with initial := initial }

/- Set the neural phase of a variable. -/
def setNeural
    (v : Variable)
    (phase : Phase)
    (f : Formula) : Except Violation Formula := do
  let neural ← f.neural.set v phase
  pure { f with neural := neural }

/- The phase a random word stands for. -/
def randomPhase
    (word : UInt32) : Phase :=
  if ChaCha.isPositive word then .positive else .negative

/-
  Give every variable a random initial phase. The phase at
  a position depends on the seed and on the position only.
-/
def randomize
    (seed : UInt64)
    (f : Formula) : Formula :=
  let words := ChaCha.words (.ofSeed seed) f.initial.size
  { f with
    initial := f.initial.overwrite (words.map randomPhase) }

------------------------------------------------------------
-- Backbones
------------------------------------------------------------

/- The variable of an external index that occurred. -/
def lookupVariable
    (f : Formula)
    (index : Nat) : Option Variable :=
  (f.translation.lookup index).map Literal.var

/- Do what a backbone asked for. -/
def applyPhaseEvent
    (f : Formula) : PhaseEvent → Except Violation Formula
  | .resetInitial phase => .ok (f.resetInitial phase)
  | .resetNeural phase => .ok (f.resetNeural phase)
  | .setInitial v phase => f.setInitial v phase
  | .setNeural v phase => f.setNeural v phase

/- Do all that a backbone asked for, in order. -/
def applyPhaseEvents
    (f : Formula) :
      List PhaseEvent → Except Violation Formula
  | [] => .ok f
  | event :: rest =>
      match f.applyPhaseEvent event with
      | .ok f' => f'.applyPhaseEvents rest
      | .error violation => .error violation

/-
  Read a backbone file into the phases, and tell how many
  entries it has. Indices that do not occur are skipped.
-/
def readBackbone
    (b : Backbone)
    (f : Formula) : Scanner (Nat × Formula) :=
  fun c =>
    match b.read f.lookupVariable c with
    | .error violation c' => .error violation c'
    | .ok reading c' =>
        match f.applyPhaseEvents reading.events with
        | .error violation => .error violation c'
        | .ok f' => .ok (reading.entries, f') c'

------------------------------------------------------------
-- Unsat Order
------------------------------------------------------------

/-
  Append the variable of an external index, if it occurred.
-/
def addToOrder
    (f : Formula)
    (index : Nat) : Formula :=
  match f.lookupVariable index with
  | some v => { f with order := f.order.push v }
  | none => f

/-
  Read an unsat-order file, and tell how many
  indices it has.
-/
def readUnsatOrder
    (f : Formula) : Scanner (Nat × Formula) :=
  fun c =>
    match UnsatOrder.read c with
    | .error violation c' => .error violation c'
    | .ok indices c' =>
        .ok (indices.length, indices.foldl addToOrder f) c'

end Formula

end Dimacs
