import Dimacs.Problem.Strictness

/-
  The arguments of the command line: flags, options that
  take a value, and the one file that is the problem.

  Key definitions include:
    * `Flag`
    * `Parameter`
    * `Arguments`
    * `CommandLine.Request`
    * `CommandLine.interpret`
-/

namespace Dimacs

------------------------------------------------------------
-- Flags and Parameters
------------------------------------------------------------

/- An argument without a value. -/
inductive Flag where
  | strict
  | relaxed
  | memoryBreakdown
  | verbose
  | help
  | version
deriving DecidableEq

/- An argument with a value. -/
inductive Parameter where
  | config
  | backbone
  | confidence
  | unsatOrder
deriving DecidableEq

/- The flag with a long name. -/
def Flag.ofLong?
    (name : String) : Option Flag :=
  if name = "strict" then some .strict
  else if name = "relaxed" then some .relaxed
  else if name = "memory-breakdown" then
    some .memoryBreakdown
  else if name = "help" then some .help
  else if name = "version" then some .version
  else none

/- The flag with a letter. -/
def Flag.ofShort?
    (letter : Char) : Option Flag :=
  if letter = 'm' then some .memoryBreakdown
  else if letter = 'v' then some .verbose
  else if letter = 'h' then some .help
  else if letter = 'V' then some .version
  else none

/- The parameter with a long name. -/
def Parameter.ofLong?
    (name : String) : Option Parameter :=
  if name = "config" then some .config
  else if name = "backbone" then some .backbone
  else if name = "confidence" then some .confidence
  else if name = "unsat-order" then some .unsatOrder
  else none

/- The parameter with a letter. -/
def Parameter.ofShort?
    (letter : Char) : Option Parameter :=
  if letter = 'c' then some .config
  else if letter = 'b' then some .backbone
  else if letter = 'u' then some .unsatOrder
  else none

/-
  What the arguments ask for, once they have been accepted.
-/
structure Arguments where
  strictness : Strictness
  memoryBreakdown : Bool
  verbose : Nat
  confidence : Option String
  input : String
  config : Option String
  backbone : Option String
  unsatOrder : Option String
deriving DecidableEq

namespace CommandLine

/- What is to be done: a run, an information, or nothing. -/
inductive Request where
  | run (arguments : Arguments)
  | help
  | version
  | rejected
deriving DecidableEq

/- Why the arguments are not read to their end. -/
inductive Halt where
  | help
  | version
  | rejected
deriving DecidableEq

------------------------------------------------------------
-- Gathering
------------------------------------------------------------

/-
  What has been gathered from the arguments so far: the
  flags and parameters in order of their occurrence, the
  values without a name, and a parameter that still waits
  for its value.
-/
structure Gathered where
  flags : List Flag
  parameters : List Parameter
  values : List (Parameter × String)
  inputs : List String
  waiting : Option Parameter

namespace Gathered

/- Nothing has been gathered. -/
def empty : Gathered where
  flags := []
  parameters := []
  values := []
  inputs := []
  waiting := none

/-
  A flag occurred. Help and version are answered at once.
-/
def addFlag
    (g : Gathered)
    (flag : Flag) : Except Halt Gathered :=
  match flag with
  | .help => .error .help
  | .version => .error .version
  | _ =>
      .ok
        { g with
          flags := g.flags ++ [flag], waiting := none }

/- A parameter occurred together with its value. -/
def addParameter
    (g : Gathered)
    (parameter : Parameter)
    (value : String) : Gathered :=
  { g with
    parameters := g.parameters ++ [parameter]
    values := g.values ++ [(parameter, value)]
    waiting := none }

/- A parameter occurred, and its value may follow. -/
def await
    (g : Gathered)
    (parameter : Parameter) : Gathered :=
  { g with
    parameters := g.parameters ++ [parameter]
    waiting := some parameter }

/- The value that a parameter waited for. -/
def supply
    (g : Gathered)
    (parameter : Parameter)
    (value : String) : Gathered :=
  { g with
    values := g.values ++ [(parameter, value)]
    waiting := none }

/- A value without a name; there may be only one. -/
def addInput
    (g : Gathered)
    (value : String) : Except Halt Gathered :=
  if g.inputs = [] then .ok { g with inputs := [value] }
  else .error .rejected

/- The value of a parameter, if it has one. -/
def value?
    (g : Gathered)
    (parameter : Parameter) : Option String :=
  (g.values.find? fun entry => entry.1 = parameter).map
    Prod.snd

end Gathered

/- Drop the equals signs at the start of a value. -/
def dropEquals
    (text : List Char) : String :=
  String.ofList (text.dropWhile fun c => decide (c = '='))

/- Gather a cluster of letters behind a single dash. -/
def gatherShort
    (g : Gathered) : List Char → Except Halt Gathered
  | [] => .ok g
  | letter :: rest =>
      match Parameter.ofShort? letter with
      | some parameter =>
          if rest = [] then .ok (g.await parameter)
          else
            .ok (g.addParameter parameter (dropEquals rest))
      | none =>
          match Flag.ofShort? letter with
          | some flag =>
              match g.addFlag flag with
              | .ok g' => gatherShort g' rest
              | .error halt => .error halt
          | none => .error .rejected

/-
  Gather a name behind two dashes, with a value if an equals
  sign follows the name. Flags ignore their value.
-/
def gatherLong
    (g : Gathered)
    (text : List Char) : Except Halt Gathered :=
  let name :=
    String.ofList (text.takeWhile fun c => decide (c ≠ '='))
  let tail := text.dropWhile fun c => decide (c ≠ '=')
  match Parameter.ofLong? name with
  | some parameter =>
      if tail = [] then .ok (g.await parameter)
      else .ok (g.addParameter parameter (dropEquals tail))
  | none =>
      match Flag.ofLong? name with
      | some flag => g.addFlag flag
      | none => .error .rejected

/-
  Gather one argument in front of which there was
  no double dash.
-/
def gatherOne
    (g : Gathered)
    (argument : String) : Except Halt Gathered :=
  match argument.toList with
  | '-' :: '-' :: rest =>
      gatherLong g
        (rest.dropWhile fun c => decide (c = '-'))
  | '-' :: letter :: rest => gatherShort g (letter :: rest)
  | _ =>
      match g.waiting with
      | some parameter => .ok (g.supply parameter argument)
      | none => g.addInput argument

/- Gather arguments that are all values without a name. -/
def gatherInputs
    (g : Gathered) : List String → Except Halt Gathered
  | [] => .ok g
  | argument :: rest =>
      match g.addInput argument with
      | .ok g' => gatherInputs g' rest
      | .error halt => .error halt

/-
  Gather all arguments; a double dash ends
  flags and parameters.
-/
def gather
    (g : Gathered) : List String → Except Halt Gathered
  | [] => .ok g
  | argument :: rest =>
      if argument = "--" then gatherInputs g rest
      else
        match gatherOne g argument with
        | .ok g' => gather g' rest
        | .error halt => .error halt

------------------------------------------------------------
-- Interpretation
------------------------------------------------------------

/- The largest number of times the verbose flag counts. -/
def maxVerbose : Nat := 3

/-
  Arguments can be accepted if there is a problem, every
  parameter got a value, only the verbose flag occurs more
  than once, and strict does not meet relaxed.
-/
def Acceptable
    (g : Gathered) : Prop :=
  g.inputs ≠ [] ∧
    (∀ parameter ∈ g.parameters,
      (g.value? parameter).isSome) ∧
    g.parameters.Nodup ∧
    (g.flags.filter fun flag => flag ≠ .verbose).Nodup ∧
    ¬ (.strict ∈ g.flags ∧ .relaxed ∈ g.flags)

instance (g : Gathered) :
    Decidable (Acceptable g) :=
  inferInstanceAs (Decidable (_ ∧ _))

/- The degree of strictness that the flags ask for. -/
def strictnessOf
    (flags : List Flag) : Strictness :=
  if .strict ∈ flags then .pedantic
  else if .relaxed ∈ flags then .relaxed
  else .standard

/- What the arguments ask for. -/
def interpret
    (arguments : List String) : Request :=
  match gather .empty arguments with
  | .error .help => .help
  | .error .version => .version
  | .error .rejected => .rejected
  | .ok g =>
      if Acceptable g then
        .run
          { strictness := strictnessOf g.flags
            memoryBreakdown :=
              decide (.memoryBreakdown ∈ g.flags)
            verbose :=
              min (g.flags.count .verbose) maxVerbose
            confidence := g.value? .confidence
            input := g.inputs.head?.getD "-"
            config := g.value? .config
            backbone := g.value? .backbone
            unsatOrder := g.value? .unsatOrder }
      else .rejected

end CommandLine

end Dimacs
