import Dimacs.Options.Setting
import Dimacs.Report

/-
  The values of all options, the verbosity they ask for,
  and the messages that are printed at each verbosity.

  Key definitions include:
    * `Options`
    * `Options.get`
    * `Options.put`
    * `Options.set`
    * `Options.verbosity`
    * `Options.log`
    * `Options.warn`
    * `Options.WithinRanges`
-/

namespace Dimacs

------------------------------------------------------------
-- Values
------------------------------------------------------------

/- The current value of every setting. -/
structure Options where
  embedded : Int
  quiet : Int
  verbose : Int
  initialPhase : Int
  randomPhase : Int
  backboneInitial : Int
  backboneAlways : Int
  backboneRephase : Int
  backboneConfidence : Int
deriving DecidableEq

namespace Options

/- Options that nobody touched. -/
def standard : Options where
  embedded := Setting.embedded.default
  quiet := Setting.quiet.default
  verbose := Setting.verbose.default
  initialPhase := Setting.initialPhase.default
  randomPhase := Setting.randomPhase.default
  backboneInitial := Setting.backboneInitial.default
  backboneAlways := Setting.backboneAlways.default
  backboneRephase := Setting.backboneRephase.default
  backboneConfidence := Setting.backboneConfidence.default

/- The value of a setting. -/
def get
    (o : Options) : Setting → Int
  | .embedded => o.embedded
  | .quiet => o.quiet
  | .verbose => o.verbose
  | .initialPhase => o.initialPhase
  | .randomPhase => o.randomPhase
  | .backboneInitial => o.backboneInitial
  | .backboneAlways => o.backboneAlways
  | .backboneRephase => o.backboneRephase
  | .backboneConfidence => o.backboneConfidence

/- Give a setting a value, whether it is in range or not. -/
def put
    (o : Options)
    (setting : Setting)
    (value : Int) : Options :=
  match setting with
  | .embedded => { o with embedded := value }
  | .quiet => { o with quiet := value }
  | .verbose => { o with verbose := value }
  | .initialPhase => { o with initialPhase := value }
  | .randomPhase => { o with randomPhase := value }
  | .backboneInitial => { o with backboneInitial := value }
  | .backboneAlways => { o with backboneAlways := value }
  | .backboneRephase => { o with backboneRephase := value }
  | .backboneConfidence =>
      { o with backboneConfidence := value }

/-
  Give a setting the value of its range nearest to
  the given one.
-/
def set
    (o : Options)
    (setting : Setting)
    (value : Int) : Options :=
  o.put setting (setting.clamp value)

/- All values are in range. -/
def WithinRanges
    (o : Options) : Prop :=
  ∀ setting : Setting, setting.InRange (o.get setting)

/- The settings whose value differs from the default. -/
def changed
    (o : Options) : List (Setting × Int) :=
  (Setting.all.map fun setting =>
      (setting, o.get setting)).filter fun entry =>
    entry.2 ≠ entry.1.default

/-
  A setting has the value it was given, and the
  others keep theirs.
-/
theorem get_put
    (o : Options)
    (setting other : Setting)
    (value : Int) :
    (o.put setting value).get other =
      if other = setting then value else o.get other := by
  cases setting <;> cases other <;> rfl

/- The untouched value of a setting is its default. -/
theorem get_standard
    (setting : Setting) :
    standard.get setting = setting.default := by
  cases setting <;> rfl

/- Options are determined by the values of the settings. -/
theorem ext_get
    {o o' : Options}
    (h :
      ∀ setting : Setting, o.get setting = o'.get setting) :
    o = o' := by
  rcases o with ⟨a, b, c, d, e, f, g, i, j⟩
  have h₁ := h .embedded
  have h₂ := h .quiet
  have h₃ := h .verbose
  have h₄ := h .initialPhase
  have h₅ := h .randomPhase
  have h₆ := h .backboneInitial
  have h₇ := h .backboneAlways
  have h₈ := h .backboneRephase
  have h₉ := h .backboneConfidence
  simp only [get] at h₁ h₂ h₃ h₄ h₅ h₆ h₇ h₈ h₉
  subst h₁ h₂ h₃ h₄ h₅ h₆ h₇ h₈ h₉
  rfl

------------------------------------------------------------
-- Messages
------------------------------------------------------------

/-
  The level of messages to print; quiet options print none.
-/
def verbosity
    (o : Options) : Int :=
  if o.quiet ≠ 0 then -1 else o.verbose

/- A comment that is printed from the given level on. -/
def log
    (o : Options)
    (level : Int)
    (text : String) : List String :=
  if level ≤ o.verbosity then [Report.comment text] else []

/-
  A warning that is printed unless the options are quiet.
-/
def warn
    (o : Options)
    (text : String) : List String :=
  if 0 ≤ o.verbosity then [Report.warning text] else []

/- The backbone confidence as a fraction. -/
def backboneThreshold
    (o : Options) : Float :=
  Float.ofInt o.backboneConfidence / 1000.0

end Options

end Dimacs
