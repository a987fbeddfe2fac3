import Dimacs.Options.Basic
import Dimacs.Toml.Document

/-
  Configuration files: options given as a table of integers.
  Values out of range are clamped, which is reported.

  Key definitions include:
    * `ConfigError`
    * `Config.assign`
    * `Config.normalize`
    * `Config.read`
-/

namespace Dimacs

------------------------------------------------------------
-- Errors
------------------------------------------------------------

/-
  Why a configuration was refused: the text is malformed, a
  key is unknown or given twice, or a value is no integer of
  32 bits. An unknown key is reported at the last header.
-/
inductive ConfigError where
  | malformed
  | unknownKey (key : String) (place : Toml.Place)
  | duplicateKey (key : String)
  | notAnInteger (key : String)
deriving DecidableEq

namespace ConfigError

/- A name in the quotes of a message. -/
def quoted
    (name : String) : String :=
  let mark := (Char.ofNat 96).toString
  mark ++ name ++ mark

/- The wording of an error. -/
def message : ConfigError → String
  | malformed => "malformed configuration"
  | unknownKey key place =>
      let known := ", ".intercalate
        (Setting.all.map fun setting => quoted setting.name)
      "unknown field " ++ quoted key ++
        ", expected one of " ++ known ++
        s!" at line {place.line} column {place.column}"
  | duplicateKey key => "duplicate key: " ++ quoted key
  | notAnInteger key =>
      "invalid value for key " ++ quoted key

end ConfigError

namespace Config

------------------------------------------------------------
-- Assignments
------------------------------------------------------------

/-
  The settings that entries assign a value to, in order.
  The settings given are those assigned before, the place is
  that of errors.
-/
def assignments
    (place : Toml.Place)
    (assigned : List Setting) :
    List Toml.Entry →
      Except ConfigError (List (Setting × Int))
  | [] => .ok []
  | entry :: rest =>
      match Setting.ofName? entry.key with
      | none => .error (.unknownKey entry.key place)
      | some setting =>
          if setting ∈ assigned then
            .error (.duplicateKey entry.key)
          else
            match entry.value with
            | .other => .error (.notAnInteger entry.key)
            | .integer value =>
                if Check.FitsInt32 value then
                  match assignments place
                      (setting :: assigned) rest with
                  | .ok more =>
                      .ok ((setting, value) :: more)
                  | .error e => .error e
                else .error (.notAnInteger entry.key)

/- The options with the assigned values, clamped or not. -/
def assign
    (o : Options)
    (given : List (Setting × Int)) : Options :=
  given.foldl (fun o entry => o.put entry.1 entry.2) o

------------------------------------------------------------
-- Ranges
------------------------------------------------------------

/- The report that a value was out of range. -/
def outOfRange
    (setting : Setting) : Int → String :=
  fun applied =>
    let name := setting.name
    let low := setting.min
    let high := setting.max
    s!"option '{name}' out of range [{low}, {high}], using {applied}"

/-
  Clamp one setting. The report is subject to the verbosity
  right after the setting was clamped.
-/
def normalizeSetting
    (o : Options)
    (setting : Setting) : Options × List String :=
  let value := o.get setting
  let applied := setting.clamp value
  let o' := o.set setting value
  (o',
    if applied ≠ value then
      o'.warn (outOfRange setting applied)
    else [])

/- Clamp all settings of a list, one after the other. -/
def normalizeAll
    (o : Options) : List Setting → Options × List String
  | [] => (o, [])
  | setting :: rest =>
      let (o₁, first) := normalizeSetting o setting
      let (o₂, others) := normalizeAll o₁ rest
      (o₂, first ++ others)

/- Clamp all settings in the order of the registry. -/
def normalize
    (o : Options) : Options × List String :=
  normalizeAll o Setting.all

/- Untouched options with given values, clamped. -/
def ofAssignments
    (given : List (Setting × Int)) :
      Options × List String :=
  normalize (assign .standard given)

/-
  The options a configuration text describes, and
  what is printed.
-/
def read
    (text : String) :
      Except ConfigError (Options × List String) :=
  match Toml.Document.read? text with
  | none => .error .malformed
  | some document =>
      match assignments document.place []
          document.entries with
      | .error e => .error e
      | .ok given => .ok (ofAssignments given)

end Config

end Dimacs
