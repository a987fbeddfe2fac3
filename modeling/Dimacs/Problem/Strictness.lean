/-
  How much deviation from the format a reader tolerates.

  Key definitions include:
    * `Strictness`
    * `Strictness.IsPedantic`
    * `Strictness.IsRelaxed`
-/

namespace Dimacs

/-
  Pedantic reading admits no empty lines, no blank runs in
  the header and no missing final line feed. Normal reading
  admits those, but the header has to agree with the
  clauses. Relaxed reading admits variables beyond the
  header and any number of clauses.
-/
inductive Strictness where
  | pedantic
  | normal
  | relaxed
deriving DecidableEq

namespace Strictness

/-
  The degree that is used unless another one is asked for.
-/
def standard : Strictness := normal

/- The name of a degree. -/
def name : Strictness → String
  | pedantic => "Pedantic"
  | normal => "Normal"
  | relaxed => "Relaxed"

/-
  Blank runs, empty lines and a missing final line
  feed are faults.
-/
def IsPedantic
    (strictness : Strictness) : Prop :=
  strictness = pedantic

instance (strictness : Strictness) :
    Decidable strictness.IsPedantic :=
  inferInstanceAs (Decidable (_ = _))

/- The header does not bind the clauses. -/
def IsRelaxed
    (strictness : Strictness) : Prop :=
  strictness = relaxed

instance (strictness : Strictness) :
    Decidable strictness.IsRelaxed :=
  inferInstanceAs (Decidable (_ = _))

theorem not_isPedantic_normal :
    ¬ normal.IsPedantic :=
  nofun

theorem not_isPedantic_relaxed :
    ¬ relaxed.IsPedantic :=
  nofun

end Strictness

end Dimacs
