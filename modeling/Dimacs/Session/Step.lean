import Dimacs.Report

/-
  Steps of a session: what a step prints, and whether the
  session goes on behind it or ends with a failure.

  Key definitions include:
    * `Line`
    * `Failure`
    * `Step`
    * `Step.say`
    * `Step.die`
    * `Step.check`
-/

namespace Dimacs

------------------------------------------------------------
-- Lines
------------------------------------------------------------

/-
  A printed line: a text, or the time that something took.
-/
inductive Line where
  | text (content : String)
  | elapsed (what : String)
deriving DecidableEq

------------------------------------------------------------
-- Steps
------------------------------------------------------------

/-
  Why a session ends before its end: a fatal error, or a
  failed check of the library itself.
-/
inductive Failure where
  | fatal
  | violated
deriving DecidableEq

/- The exit code of a failure, which is never zero. -/
def Failure.code : Failure → Nat
  | fatal => 2
  | violated => 101

/- The lines of a step, and its value or a failure. -/
structure Step (α : Type) where
  lines : List Line
  outcome : Except Failure α

namespace Step

variable {α β : Type}

/- A step that prints nothing. -/
def done
    (a : α) : Step α where
  lines := []
  outcome := .ok a

/- A step and what follows it, unless the session ended. -/
def andThen
    (s : Step α)
    (f : α → Step β) : Step β :=
  match s.outcome with
  | .error failure => ⟨s.lines, .error failure⟩
  | .ok a => ⟨s.lines ++ (f a).lines, (f a).outcome⟩

instance :
    Monad Step where
  pure := done
  bind := andThen

/- Print some lines. -/
def say
    (texts : List String) : Step Unit where
  lines := texts.map Line.text
  outcome := .ok ()

/- Print how long something took, if that is wanted. -/
def sayElapsed
    (what : String)
    (wanted : Bool) : Step Unit where
  lines := if wanted then [.elapsed what] else []
  outcome := .ok ()

/- End the session. -/
def exit
    (failure : Failure) : Step α where
  lines := []
  outcome := .error failure

/- Report a fatal error and end the session. -/
def die
    (text : String) : Step α where
  lines := [.text (Report.error text)]
  outcome := .error .fatal

/- Go on unless a check of the library itself failed. -/
def check : Except Violation α → Step α
  | .ok a => done a
  | .error _ => exit .violated

/- Print a statistic. -/
def sayKeyValue
    (key value : String) : Step Unit := do
  let line ← check (Report.keyValue key value)
  say [line]

end Step

end Dimacs
