import Dimacs.Formula.Hint
import Dimacs.Formula.Memory
import Dimacs.Problem.Parse

/-
  Everything that can be done to a formula, as data, and the
  formula that a sequence of operations leads to. What is
  refused by a check leaves the formula as it is.

  Key definitions include:
    * `Operation`
    * `Formula.perform`
    * `Formula.after`
    * `Formula.run`
    * `Operation.added`
-/

namespace Dimacs

------------------------------------------------------------
-- Operations
------------------------------------------------------------

/-
  A request to a formula. Files are read from where a cursor
  stands, which may be anywhere.
-/
inductive Operation where
  | apply (event : Event)
  | readProblem
      (strictness : Strictness)
      (o : Options)
      (c : Cursor)
  | applyPhase (event : PhaseEvent)
  | readBackbone (b : Backbone) (c : Cursor)
  | randomize (seed : UInt64)
  | addToOrder (index : Nat)
  | readUnsatOrder (c : Cursor)
  | shrink

namespace Formula

/-
  What a hint file made of a formula, wherever
  its reading ended.
-/
def ofReading :
  EStateM.Result Violation Cursor (Nat × Formula) →
    Except Violation Formula
  | .ok reading _ => .ok reading.2
  | .error violation _ => .error violation

/-
  Do what an operation asks for. A problem leaves
  behind what it sent to the storage, whether it was
  accepted or not.
-/
def perform
    (f : Formula) : Operation → Except Violation Formula
  | .apply event => f.applyEvent event
  | .readProblem strictness o c =>
      f.applyEvents (parseProblem strictness o c).events
  | .applyPhase event => f.applyPhaseEvent event
  | .readBackbone b c => ofReading (f.readBackbone b c)
  | .randomize seed => .ok (f.randomize seed)
  | .addToOrder index => .ok (f.addToOrder index)
  | .readUnsatOrder c => ofReading (f.readUnsatOrder c)
  | .shrink => .ok f.shrink

/-
  The formula after an operation, which is the same if
  it was refused.
-/
def after
    (f : Formula)
    (operation : Operation) : Formula :=
  match f.perform operation with
  | .ok f' => f'
  | .error _ => f

/-
  The formula that operations lead to, one after the other.
-/
def run
    (operations : List Operation) : Formula :=
  operations.foldl after empty

end Formula

------------------------------------------------------------
-- Added Literals
------------------------------------------------------------

/-
  The literal or zero that an event adds, unless it is
  out of range.
-/
def Event.accepted? : Event → Option Int
  | .reserve _ => none
  | .add value =>
      if value.natAbs ≤ maxVariable then some value
      else none

namespace Operation

/-
  The literals and zeros that an operation adds, in order.
-/
def added : Operation → List Int
  | .apply event => event.accepted?.toList
  | .readProblem strictness o c =>
      (parseProblem strictness o c).events.filterMap
        Event.accepted?
  | _ => []

/- The literals and zeros that operations add, in order. -/
def addedBy
    (operations : List Operation) : List Int :=
  operations.flatMap added

end Operation

end Dimacs
