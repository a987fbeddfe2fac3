import Dimacs.Proofs.Options.Applied
import Dimacs.Proofs.Session.Steps

/-
  The options of a session stay within their ranges, by
  whatever way a value comes in: the configuration, the
  verbose flags, the directives of a problem, and the
  flavour that is chosen for a backbone file.

  Key definitions include:
    * `Session.initialOptions`
    * `Session.IsInitial`

  Main statements:
    * `Options.WithinRanges.put`
    * `Options.withinRanges_obeying`
    * `Session.IsInitial.withinRanges`
    * `Session.isInitial_of_loadOptions`
    * `Session.options_stay_within_ranges`
-/

namespace Dimacs

------------------------------------------------------------
-- Single Changes
------------------------------------------------------------

namespace Options

variable {o : Options}

theorem withinRanges_standard :
    standard.WithinRanges := by
  intro setting
  rw [get_standard]
  exact setting.inRange_default

/- A setting may be given any value of its range. -/
theorem WithinRanges.put
    {setting : Setting}
    {value : Int}
    (h : o.WithinRanges)
    (hValue : setting.InRange value) :
    (o.put setting value).WithinRanges := by
  intro other
  rw [get_put]
  split
  · next hSame => exact hSame ▸ hValue
  · exact h other

theorem WithinRanges.apply
    (h : o.WithinRanges)
    (d : Directive) :
    (d.apply o).WithinRanges := by
  rw [Directive.apply]
  split
  · exact h.put (Setting.inRange_clamp _ _)
  · exact h

/-
  Directives keep options within their ranges, however
  many there are.
-/
theorem withinRanges_obeying
    (h : o.WithinRanges)
    (directives : List Directive) :
    (o.obeying directives).WithinRanges := by
  induction directives generalizing o with
  | nil => exact h
  | cons d directives ih => exact ih (h.apply d)

/-
  A configuration is within its ranges, whatever
  values it gives.
-/
theorem withinRanges_ofAssignments
    (given : List (Setting × Int)) :
    (Config.ofAssignments given).1.WithinRanges := by
  intro setting
  rw [Config.ofAssignments, Config.get_normalize]
  exact setting.inRange_clamp _

/-
  The phase that options in range describe is the one of
  their own sign.
-/
theorem WithinRanges.toInt_phase
    (h : o.WithinRanges) :
    (Phase.of o.initialPhase).toInt = o.initialPhase := by
  have hLow : -1 ≤ o.initialPhase := (h .initialPhase).1
  have hHigh : o.initialPhase ≤ 1 := (h .initialPhase).2
  unfold Phase.of
  split
  · simp only [Phase.toInt]
    omega
  · split <;> simp only [Phase.toInt] <;> omega

end Options

namespace Session

------------------------------------------------------------
-- Initial Options
------------------------------------------------------------

/-
  The options of the values that a configuration gives, if
  there is one.
-/
def configured : Option (List (Setting × Int)) → Options
  | none => .standard
  | some given => (Config.ofAssignments given).1

/-
  The options with which a problem is read, by the values
  that are given and the number of verbose flags.
-/
def initialOptions
    (given : Option (List (Setting × Int)))
    (flags : Nat) : Options :=
  { configured given with
    verbose :=
      max (configured given).verbose
        (min flags CommandLine.maxVerbose : Nat) }

/-
  Options may come from any configuration and any
  number of flags.
-/
def IsInitial
    (o : Options) : Prop :=
  ∃ given flags, o = initialOptions given flags

theorem withinRanges_configured
    (given : Option (List (Setting × Int))) :
    (configured given).WithinRanges := by
  cases given with
  | none => exact Options.withinRanges_standard
  | some given =>
      exact Options.withinRanges_ofAssignments given

/- Flags raise `verbose`, and not beyond what it may be. -/
theorem IsInitial.withinRanges
    {o : Options}
    (h : IsInitial o) :
    o.WithinRanges := by
  rcases h with ⟨given, flags, rfl⟩
  have hConfigured := withinRanges_configured given
  have hLow : 0 ≤ (configured given).verbose :=
    (hConfigured .verbose).1
  have hHigh : (configured given).verbose ≤ 3 :=
    (hConfigured .verbose).2
  have hVerbose :
      Setting.verbose.InRange
        (max (configured given).verbose
          ((min flags 3 : Nat) : Int)) := by
    change 0 ≤ max _ _ ∧ max _ _ ≤ 3
    omega
  exact hConfigured.put hVerbose

/-
  Accepted arguments count the verbose flags up to a limit.
-/
theorem exists_verbose_eq
    {arguments : List String}
    {a : Arguments}
    (h : CommandLine.interpret arguments = .run a) :
    ∃ flags,
      a.verbose = min flags CommandLine.maxVerbose := by
  unfold CommandLine.interpret at h
  split at h
  · cases h
  · cases h
  · cases h
  · split at h
    · cases h
      exact ⟨_, rfl⟩
    · cases h

/-
  The options of a configuration are those with the
  values it gives.
-/
theorem exists_configuredOptions
    {env : Environment}
    {name : Option String}
    {o : Options}
    (h : (configuredOptions env name).outcome = .ok o) :
    ∃ given, o = configured given := by
  cases name with
  | none =>
      cases h
      exact ⟨none, rfl⟩
  | some name =>
      rcases exists_given_of_configuredOptions h with
        ⟨given, _, hOptions, _⟩
      exact ⟨some given, hOptions.symm⟩

/-
  Whatever a session reads its problem with
  are initial options.
-/
theorem isInitial_of_loadOptions
    {env : Environment}
    {arguments : List String}
    {a : Arguments}
    {o : Options}
    (hRun : CommandLine.interpret arguments = .run a)
    (hLoad : (loadOptions env a).outcome = .ok o) :
    IsInitial o := by
  rcases Step.exists_of_bind_ok hLoad with
    ⟨_, hConfigured, hFlags, _⟩
  cases hFlags
  rcases exists_configuredOptions hConfigured with
    ⟨given, rfl⟩
  rcases exists_verbose_eq hRun with ⟨flags, hVerbose⟩
  exact ⟨given, flags, by rw [hVerbose, initialOptions]⟩

------------------------------------------------------------
-- Backbone Files
------------------------------------------------------------

theorem withinRanges_backboneOptions
    {o : Options}
    (h : o.WithinRanges) :
    (backboneOptions o).WithinRanges := by
  unfold backboneOptions
  split
  · exact h
  · have hOne : Setting.backboneInitial.InRange 1 := by
      decide
    exact h.put hOne

------------------------------------------------------------
-- Whole Sessions
------------------------------------------------------------

/-
  The options that a session loads are initial, and initial
  options are within their ranges. They stay there after
  each of the directives that a problem applies, whether it
  is accepted in the end or not, and when a backbone file
  has been read. Hence a backbone has the default phase that
  the options name, and a confidence in range.
-/
theorem options_stay_within_ranges :
    (∀ env arguments a o,
        CommandLine.interpret arguments = .run a →
        (loadOptions env a).outcome = .ok o →
        IsInitial o) ∧
      (∀ o,
        IsInitial o →
        o.WithinRanges ∧
          ∀ strictness c,
            (∀ count,
              (o.obeying
                ((Parser.directives strictness o c).take
                  count)).WithinRanges) ∧
            (parseProblem strictness o c).options =
              o.obeying (Parser.directives strictness o c) ∧
            ∀ env loaded threshold name entries loaded'
                env',
              loaded.options =
                (parseProblem strictness o c).options →
              (readBackbone env loaded threshold
                  name).outcome =
                .ok (entries, loaded', env') →
              loaded'.options.WithinRanges) ∧
      ∀ o b,
        o.WithinRanges →
        Backbone.ofOptions? o = some b →
        b.defaultPhase.toInt = o.initialPhase ∧
          500 ≤ o.backboneConfidence ∧
          o.backboneConfidence ≤ 1000 := by
  refine ⟨fun env arguments a o => isInitial_of_loadOptions,
    fun o hInitial => ?_, ?_⟩
  · refine ⟨hInitial.withinRanges,
      fun strictness c => ⟨fun count => ?_, ?_, ?_⟩⟩
    · exact Options.withinRanges_obeying
        hInitial.withinRanges _
    · exact options_parseProblem_eq strictness o c
    · intro env loaded threshold name entries loaded' env'
        hLoaded hRead
      rw [options_of_readBackbone hRead, hLoaded,
        options_parseProblem_eq]
      exact withinRanges_backboneOptions
        (Options.withinRanges_obeying hInitial.withinRanges
          _)
  · intro o b hRanges hBackbone
    rcases Option.map_eq_some_iff.mp hBackbone with
      ⟨mode, _, rfl⟩
    exact ⟨hRanges.toInt_phase, hRanges .backboneConfidence⟩

/-
  A problem whose directive names a confidence out of range,
  and which has been read.
-/
def unconfident : Loaded where
  summary := ⟨⟨0, 0⟩, 0⟩
  formula := .empty
  options :=
    (parseProblem .normal
      (initialOptions (some [(.initialPhase, -7)]) 5)
      (.ofSource
        (.ofBytes
          (String.toUTF8
            "c --backboneconfidence=9999\np cnf 0 0\n").toList)
        inputTitle)).options

/-
  Values out of range are given by the configuration, the
  flags and a directive.
-/
theorem values_out_of_range_are_brought_into_range :
    (∃ o,
        (loadOptions ⟨fun _ => .ok [], []⟩
            ⟨.normal, false, 2, none, "-", none, none,
              none⟩).outcome =
          .ok o ∧
        IsInitial o) ∧
      unconfident.options.verbose = 3 ∧
      unconfident.options.backboneConfidence = 1000 ∧
      (∃ entries loaded env,
        (readBackbone ⟨fun _ => .ok [], []⟩ unconfident none
            "backbone").outcome =
          .ok (entries, loaded, env) ∧
        loaded.options.WithinRanges) ∧
      ∃ b,
        Backbone.ofOptions?
            (unconfident.options.put .backboneInitial 1) =
          some b ∧
        b.defaultPhase.toInt = -1 := by
  have hRanges := options_stay_within_ranges.2.1 _
    ⟨some [(.initialPhase, -7)], 5, rfl⟩
  have hRead := (hRanges.2 .normal
    (.ofSource
      (.ofBytes
        (String.toUTF8
          "c --backboneconfidence=9999\np cnf 0 0\n").toList)
      inputTitle)).2.2
  refine ⟨⟨_, rfl, ?_⟩, by decide +kernel,
    by decide +kernel, ?_, ?_⟩
  · exact options_stay_within_ranges.1 ⟨fun _ => .ok [], []⟩
      ["-vv", "-"]
      ⟨.normal, false, 2, none, "-", none, none, none⟩ _
      (by decide +kernel) rfl
  · have hDone :
        (readBackbone ⟨fun _ => .ok [], []⟩ unconfident none
          "backbone").outcome.toOption.isSome := by
      decide +kernel
    cases hOutcome :
        (readBackbone ⟨fun _ => .ok [], []⟩ unconfident none
          "backbone").outcome with
    | error failure =>
        rw [hOutcome] at hDone
        cases hDone
    | ok read =>
        exact ⟨_, _, _, rfl,
          hRead _ unconfident none "backbone" _ _ _ rfl
            hOutcome⟩
  · have hPhase :
        (unconfident.options.put .backboneInitial
            1).initialPhase =
          -1 := by
      decide +kernel
    have hParsed : unconfident.options.WithinRanges := by
      rw [unconfident, options_parseProblem_eq]
      exact Options.withinRanges_obeying hRanges.1 _
    have hWithin :
        (unconfident.options.put .backboneInitial
          1).WithinRanges :=
      hParsed.put (by decide)
    have hMode :
        (Backbone.ofOptions?
          (unconfident.options.put .backboneInitial
            1)).isSome := by
      decide +kernel
    rcases Option.isSome_iff_exists.mp hMode with
      ⟨b, hBackbone⟩
    exact ⟨b, hBackbone,
      (options_stay_within_ranges.2.2 _ b hWithin
          hBackbone).1.trans hPhase⟩

end Session

end Dimacs
