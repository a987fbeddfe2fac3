import Dimacs.Decimal.Shortest
import Dimacs.Formula.Hint
import Dimacs.Formula.Memory
import Dimacs.Options.Config
import Dimacs.Problem.Parse
import Dimacs.Session.CommandLine
import Dimacs.Session.Environment
import Dimacs.Session.Step

/-
  A session: read the configuration, the problem and its
  hints, then print statistics.

  Key definitions include:
    * `Session.loadOptions`
    * `Session.readProblem`
    * `Session.readBackbone`
    * `Session.readUnsatOrder`
    * `Session.run`
    * `Session.answer`
-/

namespace Dimacs

namespace Session

------------------------------------------------------------
-- Arguments and Options
------------------------------------------------------------

/- The name under which standard input is asked for. -/
def inputName : String := "-"

/- The name of standard input in diagnostics. -/
def inputTitle : String := "<stdin>"

/- The seed of random initial phases. -/
def randomSeed : Nat := 0

/- A threshold that a confidence may have. -/
def IsConfidence
    (value : Float) : Prop :=
  0.5 ≤ value ∧ value ≤ 1.0

instance (value : Float) :
    Decidable (IsConfidence value) :=
  inferInstanceAs (Decidable (_ ∧ _))

/- The confidence that the arguments ask for, if any. -/
def confidence : Option String → Step (Option Float)
  | none => pure none
  | some text =>
      let value := (Numeral.ofBytes? text.toUTF8.toList).map
        Numeral.toFloat
      match value.filter fun value =>
          decide (IsConfidence value) with
      | some value => pure (some value)
      | none =>
          .die s!"invalid confidence '{text}', expected a number between 0.5 and 1"

/- The text of a configuration file. -/
def configText
    (env : Environment)
    (name : String) : Except String String :=
  match env.files name with
  | .error text => .error text
  | .ok source =>
      match Environment.contents source with
      | .error text => .error text
      | .ok bytes =>
          match String.fromUTF8? ⟨bytes.toArray⟩ with
          | some text => .ok text
          | none =>
              .error "stream did not contain valid UTF-8"

/- The options of the configuration, if there is one. -/
def configuredOptions
    (env : Environment) : Option String → Step Options
  | none => pure .standard
  | some name =>
      match configText env name with
      | .error text => .die s!"cannot read {name}: {text}"
      | .ok text =>
          match Config.read text with
          | .error e => .die (name ++ ": " ++ e.message)
          | .ok (o, notices) => do
              Step.say notices
              pure o

/-
  The options before the problem is read; verbose
  flags only add.
-/
def loadOptions
    (env : Environment)
    (arguments : Arguments) : Step Options := do
  let o ← configuredOptions env arguments.config
  pure { o with
    verbose := max o.verbose (arguments.verbose : Int) }

------------------------------------------------------------
-- Files
------------------------------------------------------------

/- Open a file, or standard input. -/
def openFile
    (env : Environment)
    (name : String) : Step Cursor :=
  if name = inputName then
    pure (.ofSource env.input inputTitle)
  else
    match env.files name with
    | .ok source => pure (.ofSource source name)
    | .error text => .die s!"cannot open {name}: {text}"

/- What is left to read once a file has been read. -/
def closeFile
    (env : Environment)
    (name : String)
    (c : Cursor) : Environment :=
  if name = inputName then env.leaveInput c.rest else env

/-
  End the session if reading a hint file failed half-way.
-/
def checkRead
    (c : Cursor) : Step Unit :=
  match c.failure with
  | none => pure ()
  | some text =>
      .die (c.name ++ ": " ++ ParseError.readFailure text)

/- Run a scanner of the library. -/
def scan
    {α : Type}
    (scanner : Scanner α)
    (c : Cursor) : Step (α × Cursor) :=
  match scanner c with
  | .ok a c' => pure (a, c')
  | .error violation _ => Step.check (.error violation)

------------------------------------------------------------
-- Problem and Hints
------------------------------------------------------------

/- What a session knows once the problem has been read. -/
structure Loaded where
  summary : Summary
  formula : Formula
  options : Options

/- Read the problem into a formula. -/
def readProblem
    (env : Environment)
    (arguments : Arguments)
    (o : Options) : Step (Loaded × Environment) := do
  let c ← openFile env arguments.input
  let outcome := parseProblem arguments.strictness o c
  Step.say outcome.printed
  let formula ←
    Step.check (Formula.empty.applyEvents outcome.events)
  match outcome.result with
  | .error (.violated violation) =>
      Step.check (.error violation)
  | .error e =>
      .die (outcome.cursor.name ++ ": " ++ e.display)
  | .ok summary =>
      pure
        (⟨summary, formula, outcome.options⟩,
          closeFile env arguments.input outcome.cursor)

/- The options under which a backbone file is read. -/
def backboneOptions
    (o : Options) : Options :=
  match BackboneMode.ofOptions? o with
  | some _ => o
  | none => { o with backboneInitial := 1 }

/-
  What is printed while the flavour of a backbone
  file is settled.
-/
def backboneNotices
    (o : Options) : List String :=
  match BackboneMode.ofOptions? o with
  | some _ => BackboneMode.notices o
  | none => o.warn "no backbone mode enabled, reading confidence scores"

/- Announce that a backbone file is going to be read. -/
def announce
    (b : Backbone)
    (name : String) : String :=
  let mode := b.mode.name
  let threshold := Binary64.positional b.threshold
  s!"reading backbone {name} ({mode}, threshold {threshold})"

/- Read a backbone file into the phases. -/
def readBackbone
    (env : Environment)
    (loaded : Loaded)
    (threshold : Option Float)
    (name : String) :
      Step (Nat × Loaded × Environment) := do
  Step.say (backboneNotices loaded.options)
  let o := backboneOptions loaded.options
  Step.say (BackboneMode.notices o)
  match Backbone.ofOptions? o with
  | none => .die "no backbone mode enabled"
  | some standard =>
      let b :=
        { standard with
          threshold := threshold.getD standard.threshold }
      Step.say (o.log 1 (announce b name))
      let c ← openFile env name
      let ((entries, formula), c) ←
        scan (loaded.formula.readBackbone b) c
      checkRead c
      pure (entries,
        { loaded with formula := formula, options := o },
        closeFile env name c)

/- Read an unsat-order file into the order. -/
def readUnsatOrder
    (env : Environment)
    (loaded : Loaded)
    (name : String) : Step (Nat × Loaded) := do
  let c ← openFile env name
  let ((entries, formula), c) ←
    scan loaded.formula.readUnsatOrder c
  checkRead c
  pure (entries, { loaded with formula := formula })

/- Random initial phases, if the options ask for them. -/
def randomize
    (loaded : Loaded) : Step Loaded :=
  if loaded.options.randomPhase ≠ 0 then do
    let seed := randomSeed
    Step.say
      (loaded.options.log 1
        s!"random initial phases (seed {seed})")
    pure { loaded with
      formula := loaded.formula.randomize seed.toUInt64 }
  else pure loaded

/-
  What is printed about options that differ
  from their default.
-/
def changedNotices
    (o : Options) : List String :=
  o.changed.flatMap fun (setting, value) =>
    o.log 1
      ("option " ++ Directive.written setting.name value)

------------------------------------------------------------
-- Statistics
------------------------------------------------------------

/- Print the memory that a formula occupies. -/
def sayMemory
    (formula : Formula)
    (breakdown : Bool) : Step Unit := do
  let total := formula.memoryTotal
  Step.check (Check.require (total = formula.heapSpace))
  Step.sayKeyValue "memory (MB)" (Report.megabytes total)
  if breakdown then
    formula.memoryParts.forM fun (part, bytes) =>
      Step.sayKeyValue ("memory-" ++ part)
        (Report.megabytes bytes)
  else pure ()

/- Print a count that is only there if a file was read. -/
def sayCount
    (key : String) : Option Nat → Step Unit
  | none => pure ()
  | some count => Step.sayKeyValue key (toString count)

/- Print statistics about the problem and its hints. -/
def sayStatistics
    (loaded : Loaded)
    (backboneEntries orderEntries : Option Nat) :
      Step Unit := do
  Step.sayKeyValue "maximum variable"
    (toString loaded.summary.header.variableCount)
  Step.sayKeyValue "declared clauses"
    (toString loaded.summary.header.clauseCount)
  Step.sayKeyValue "parsed clauses"
    (toString loaded.summary.parsed)
  Step.sayKeyValue "distinct variables"
    (toString loaded.formula.variableCount)
  Step.sayKeyValue "literals"
    (toString loaded.formula.literalCount)
  sayCount "backbone entries" backboneEntries
  sayCount "unsat order entries" orderEntries
  sayCount "unsat order variables"
    (orderEntries.map fun _ => loaded.formula.order.size)

------------------------------------------------------------
-- Sessions
------------------------------------------------------------

/- Read the backbone file, if the arguments name one. -/
def readBackboneFile
    (env : Environment)
    (arguments : Arguments)
    (threshold : Option Float)
    (loaded : Loaded) :
      Step (Option Nat × Loaded × Environment) :=
  match arguments.backbone with
  | none => pure (none, loaded, env)
  | some name => do
      let (entries, loaded, env) ←
        readBackbone env loaded threshold name
      pure (some entries, loaded, env)

/- Read the unsat-order file, if the arguments name one. -/
def readOrderFile
    (env : Environment)
    (arguments : Arguments)
    (loaded : Loaded) : Step (Option Nat × Loaded) :=
  match arguments.unsatOrder with
  | none => pure (none, loaded)
  | some name => do
      let (entries, loaded) ← readUnsatOrder env loaded name
      pure (some entries, loaded)

/- Read the hint files that the arguments name. -/
def readHints
    (env : Environment)
    (arguments : Arguments)
    (threshold : Option Float)
    (loaded : Loaded) :
      Step (Option Nat × Option Nat × Loaded) := do
  let (backboneEntries, loaded, env) ←
    readBackboneFile env arguments threshold loaded
  let (orderEntries, loaded) ←
    readOrderFile env arguments loaded
  pure (backboneEntries, orderEntries, loaded)

/-
  What a session does once the problem has been read. The
  times are wanted or not by the options before the problem.
-/
def conclude
    (env : Environment)
    (arguments : Arguments)
    (threshold : Option Float)
    (before : Options)
    (loaded : Loaded) : Step Unit := do
  Step.sayElapsed "parsing time"
    (decide (1 ≤ before.verbosity))
  Step.say (changedNotices loaded.options)
  let loaded ← randomize loaded
  let (backboneEntries, orderEntries, loaded) ←
    readHints env arguments threshold loaded
  let formula := loaded.formula.shrink
  let timed := decide (0 ≤ before.verbosity)
  if loaded.options.verbosity < 0 then
    Step.sayElapsed "total time" timed
  else do
    sayStatistics { loaded with formula := formula }
      backboneEntries orderEntries
    Step.sayElapsed "total time" timed
    sayMemory formula arguments.memoryBreakdown
    Step.say
      (if formula.inconsistent then
        [Report.comment "problem contains the empty clause"]
      else [])

/- Everything a session does with accepted arguments. -/
def run
    (env : Environment)
    (arguments : Arguments) : Step Unit := do
  let threshold ← confidence arguments.confidence
  let o ← loadOptions env arguments
  let (loaded, env) ← readProblem env arguments o
  conclude env arguments threshold o loaded

/- The name and the version of the program. -/
def versionText : String := "satin 0.1.0"

/- How the program is used. -/
def helpText : List String :=
  [versionText,
    "Load a DIMACS problem together with backbone and unsat-order hints",
    "",
    "USAGE:",
    "    satin [FLAGS] [OPTIONS] <INPUT>",
    "",
    "FLAGS:",
    "        --strict              Reject anything but well-formed DIMACS",
    "        --relaxed             Accept variables and clauses beyond the header",
    "    -m, --memory-breakdown    Output detailed memory usage metrics",
    "    -v                        Verbose output. Repeat for more messages",
    "    -h, --help                Print help information",
    "    -V, --version             Print version information",
    "",
    "OPTIONS:",
    "    -c, --config <FILE>         Read option values from this file",
    "    -b, --backbone <FILE>       Read phase hints from this file",
    "        --confidence <NUMBER>   Confidence threshold between 0.5 and 1",
    "    -u, --unsat-order <FILE>    Read a variable order from this file"]

/- The exit code of rejected arguments. -/
def rejected : Nat := 1

/- The lines and the exit code that arguments lead to. -/
def answer
    (env : Environment)
    (arguments : List String) : List Line × Nat :=
  match CommandLine.interpret arguments with
  | .rejected => ([], rejected)
  | .help => (helpText.map Line.text, 0)
  | .version => ([.text versionText], 0)
  | .run arguments =>
      let done := run env arguments
      (done.lines,
        match done.outcome with
        | .ok () => 0
        | .error failure => failure.code)

end Session

end Dimacs
