import Dimacs.Toml.Token

/-
  Dotted keys of a TOML document, and which of them a table
  may define one after the other.

  Key definitions include:
    * `Toml.Path`
    * `Toml.Key`
    * `Toml.Key.next?`
    * `Toml.Scope`
    * `Toml.Scope.define?`
-/

namespace Dimacs

namespace Toml

------------------------------------------------------------
-- Keys
------------------------------------------------------------

/- The parts of a key, which are divided by points. -/
abbrev Path := List (List Char)

/-
  A key as far as it has been read: its parts in reverse,
  and whether a part has to come next.
-/
structure Key where
  parts : Path
  isPending : Bool
deriving DecidableEq

namespace Key

/- The start of a key. -/
def start : Key where
  parts := []
  isPending := true

/-
  What a further token leads to, if it can be part
  of the key.
-/
def next?
    (k : Key) : Token → Option Key
  | .blank _ => some k
  | .bare text
  | .quoted text =>
      if k.isPending then some ⟨text :: k.parts, false⟩
      else none
  | .point =>
      if k.isPending then none else some ⟨k.parts, true⟩
  | _ => none

/- The path of a key that ends here. -/
def path?
    (k : Key) : Option Path :=
  if k.isPending then none else some k.parts.reverse

end Key

------------------------------------------------------------
-- Scopes
------------------------------------------------------------

/-
  The names that a table defines, in the order of their
  first use. A name that was first used as a table has a
  scope of its own, any other name stands for a value.
-/
inductive Scope where
  | names (entries : List (List Char × Option Scope))

namespace Scope

/- A table without names. -/
def empty : Scope :=
  .names []

/- The names with what they were first used for. -/
def entries : Scope → List (List Char × Option Scope)
  | names entries => entries

/-
  Define a path. A name that was first used for a value
  cannot be used as a table; a name may get a value
  repeatedly, and only its first use counts.
-/
def define? : Path → Scope → Option Scope
  | [], s => some s
  | name :: rest, s =>
      match rest, s.entries.find? fun entry =>
          decide (entry.1 = name) with
      | [], some _ => some s
      | [], none =>
          some (.names (s.entries ++ [(name, none)]))
      | _ :: _, some (_, none) => none
      | _ :: _, some (_, some inner) =>
          (define? rest inner).map fun inner' =>
            .names
              (s.entries.map fun entry =>
                if entry.1 = name then (name, some inner')
                else entry)
      | _ :: _, none =>
          (define? rest .empty).map fun inner =>
            .names (s.entries ++ [(name, some inner)])

end Scope

end Toml

end Dimacs
