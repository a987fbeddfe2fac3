/-
  The registry of options: nine named integers, each with a
  default, a range and a description.

  Key definitions include:
    * `Setting`
    * `Setting.all`
    * `Setting.ofName?`
    * `Setting.clamp`
    * `Setting.InRange`
-/

namespace Dimacs

------------------------------------------------------------
-- Settings
------------------------------------------------------------

/-
  The options that can be set, in the order of the registry.
-/
inductive Setting where
  | embedded
  | quiet
  | verbose
  | initialPhase
  | randomPhase
  | backboneInitial
  | backboneAlways
  | backboneRephase
  | backboneConfidence
deriving DecidableEq

namespace Setting

/- All settings, in the order of the registry. -/
def all : List Setting :=
  [embedded, quiet, verbose, initialPhase, randomPhase,
    backboneInitial, backboneAlways, backboneRephase,
    backboneConfidence]

/-
  The name by which a setting is known in
  files and directives.
-/
def name : Setting → String
  | embedded => "embedded"
  | quiet => "quiet"
  | verbose => "verbose"
  | initialPhase => "initialphase"
  | randomPhase => "randomphase"
  | backboneInitial => "backboneinitial"
  | backboneAlways => "backbonealways"
  | backboneRephase => "backbonerephase"
  | backboneConfidence => "backboneconfidence"

/- The value of a setting that nobody touched. -/
def default : Setting → Int
  | embedded => 1
  | backboneConfidence => 900
  | _ => 0

/- The smallest value of a setting. -/
def min : Setting → Int
  | initialPhase => -1
  | backboneConfidence => 500
  | _ => 0

/- The largest value of a setting. -/
def max : Setting → Int
  | verbose => 3
  | backboneConfidence => 1000
  | _ => 1

/- What a setting does. -/
def description : Setting → String
  | embedded => "parse and apply embedded options"
  | quiet => "disable all messages"
  | verbose => "verbosity level"
  | initialPhase =>
      "phase a backbone reset assigns (-1, 0 = unset, 1)"
  | randomPhase => "start from seeded random initial phases"
  | backboneInitial =>
      "initial phases from backbone confidence scores"
  | backboneAlways =>
      "neural phases from backbone polarities"
  | backboneRephase =>
      "neural phases from backbone polarities for rephasing"
  | backboneConfidence =>
      "backbone confidence threshold (per mille)"

/- The setting with a given name. -/
def ofName?
    (text : String) : Option Setting :=
  all.find? (fun setting => setting.name = text)

/- Every setting is registered. -/
theorem mem_all
    (setting : Setting) :
    setting ∈ all := by
  cases setting <;> decide

------------------------------------------------------------
-- Ranges
------------------------------------------------------------

/- A value a setting may have. -/
def InRange
    (setting : Setting)
    (value : Int) : Prop :=
  setting.min ≤ value ∧ value ≤ setting.max

instance (setting : Setting) (value : Int) :
    Decidable (setting.InRange value) :=
  inferInstanceAs (Decidable (_ ∧ _))

/- The value of the range that is nearest to a given one. -/
def clamp
    (setting : Setting)
    (value : Int) : Int :=
  Min.min (Max.max value setting.min) setting.max

/- The range of a setting is not empty. -/
theorem min_le_max
    (setting : Setting) :
    setting.min ≤ setting.max := by
  cases setting <;> decide

/- A clamped value is in range. -/
theorem inRange_clamp
    (setting : Setting)
    (value : Int) :
    setting.InRange (setting.clamp value) := by
  have := setting.min_le_max
  unfold InRange clamp
  omega

/- A value in range is left alone. -/
theorem clamp_of_inRange
    {setting : Setting}
    {value : Int}
    (h : setting.InRange value) :
    setting.clamp value = value := by
  unfold InRange at h
  unfold clamp
  omega

/- Defaults are in range. -/
theorem inRange_default
    (setting : Setting) :
    setting.InRange setting.default := by
  cases setting <;> decide

end Setting

end Dimacs
