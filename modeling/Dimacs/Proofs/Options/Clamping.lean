import Dimacs.Options.Config
import Mathlib.Data.List.Basic

/-
  What a configuration makes of the values that are given:
  each is clamped into its range, and whatever was out of
  range is reported in the order of the registry, unless the
  options are quiet.

  Reports are subject to the verbosity of options that are
  clamped only in part. A negative value for `quiet` or for
  `verbose` is not yet clamped when the settings in front of
  it are, and mutes their reports.

  Key definitions include:
    * `Config.given?`
    * `Config.report?`
    * `Config.IsMuted`

  Main statements:
    * `Config.read_eq_ok_iff`
    * `Config.nodup_of_given?`
    * `Config.get_assign`
    * `Config.get_normalizeAll`
    * `Config.reports_of_settled`
    * `Config.given_values_are_clamped`
-/

namespace Dimacs

/- Only a value out of range is changed by clamping. -/
theorem Setting.clamp_eq_self_iff
    {setting : Setting}
    {value : Int} :
    setting.clamp value = value ↔ setting.InRange value :=
  ⟨fun h => h ▸ setting.inRange_clamp value,
    clamp_of_inRange⟩

namespace Config

------------------------------------------------------------
-- Given Values
------------------------------------------------------------

/-
  The settings that a text gives a value, in order, if
  it is accepted.
-/
def given?
    (text : String) : Option (List (Setting × Int)) :=
  match Toml.Document.read? text with
  | none => none
  | some document =>
      (assignments document.place []
        document.entries).toOption

/- The report that a value is out of range, if it is. -/
def report?
    (setting : Setting)
    (value : Int) : Option String :=
  if setting.InRange value then none
  else
    some
      (Report.warning
        (outOfRange setting (setting.clamp value)))

/-
  A setting whose report is muted, by the values of options
  that are not yet clamped: a setting further behind, on
  which the verbosity depends, is still negative when this
  one is clamped.
-/
def IsMuted
    (o : Options) : Setting → Prop
  | .embedded => o.quiet < 0 ∨ o.verbose < 0
  | .quiet => o.verbose < 0
  | _ => False

instance (o : Options) (setting : Setting) :
    Decidable (IsMuted o setting) := by
  cases setting <;> unfold IsMuted <;> infer_instance

variable {given : List (Setting × Int)}
variable {o : Options}

/-
  What is read from a text are the options with
  the given values.
-/
theorem read_eq_ok_iff
    {text : String}
    {result : Options × List String} :
    read text = .ok result ↔
      ∃ given,
        given? text = some given ∧
        ofAssignments given = result := by
  cases hRead : Toml.Document.read? text with
  | none => simp [read, given?, hRead]
  | some document =>
      cases hGiven :
          assignments document.place []
            document.entries with
      | error e =>
          simp [read, given?, hRead, hGiven,
            Except.toOption]
      | ok given =>
          simp [read, given?, hRead, hGiven,
            Except.toOption]

/-
  The settings that are given a value are not
  those assigned before.
-/
theorem notMem_of_assignments
    {place : Toml.Place}
    {assigned : List Setting}
    {entries : List Toml.Entry}
    (h : assignments place assigned entries = .ok given) :
    (given.map Prod.fst).Nodup ∧
      ∀ setting ∈ given.map Prod.fst,
        setting ∉ assigned := by
  fun_induction assignments place assigned entries
      generalizing given with
  | case1 assigned =>
      cases h
      exact ⟨List.nodup_nil, nofun⟩
  | case5 assigned entry rest setting hName hFresh value
        hValue hFits more hMore ih =>
      cases h
      rcases ih hMore with ⟨hDistinct, hLater⟩
      refine
        ⟨List.nodup_cons.mpr ⟨fun hAgain => ?_, hDistinct⟩,
          ?_⟩
      · exact hLater setting hAgain List.mem_cons_self
      · intro other hOther
        rcases List.mem_cons.mp hOther with rfl | hOther
        · exact hFresh
        · exact fun hAssigned =>
            hLater other hOther
              (List.mem_cons_of_mem _ hAssigned)
  | _ => cases h

/-
  Every text that is accepted gives a setting one
  value at most.
-/
theorem nodup_of_given?
    {text : String}
    (h : given? text = some given) :
    (given.map Prod.fst).Nodup := by
  unfold given? at h
  split at h
  · cases h
  · next document hRead =>
      cases hGiven :
          assignments document.place []
            document.entries with
      | error e =>
          rw [hGiven] at h
          cases h
      | ok found =>
          rw [hGiven] at h
          cases h
          exact (notMem_of_assignments hGiven).1

/-
  A setting has the value that is given, or keeps its own.
-/
theorem get_assign
    (o : Options)
    (hDistinct : (given.map Prod.fst).Nodup)
    (setting : Setting) :
    (assign o given).get setting =
      (given.lookup setting).getD (o.get setting) := by
  induction given generalizing o with
  | nil => rfl
  | cons entry given ih =>
      rcases entry with ⟨first, value⟩
      rw [List.map_cons, List.nodup_cons] at hDistinct
      have hStep :
          assign o ((first, value) :: given) =
            assign (o.put first value) given :=
        rfl
      rw [hStep, ih _ hDistinct.2, Options.get_put,
        List.lookup_cons]
      by_cases hSame : setting = first
      · subst hSame
        have hLater : given.lookup setting = none := by
          rw [List.lookup_eq_none_iff]
          intro entry hEntry
          apply bne_iff_ne.mpr
          intro hKey
          exact hDistinct.1
            (List.mem_map.mpr ⟨entry, hEntry, hKey.symm⟩)
        rw [hLater, if_pos rfl, beq_self_eq_true]
        rfl
      · rw [if_neg hSame, beq_false_of_ne hSame]

------------------------------------------------------------
-- Clamped Values
------------------------------------------------------------

theorem options_normalizeSetting
    (o : Options)
    (setting : Setting) :
    (normalizeSetting o setting).1 =
      o.set setting (o.get setting) :=
  rfl

/- Clamping one setting leaves the others alone. -/
theorem get_normalizeSetting
    (o : Options)
    (setting other : Setting) :
    (normalizeSetting o setting).1.get other =
      if other = setting then setting.clamp (o.get setting)
      else o.get other := by
  rw [options_normalizeSetting, Options.set,
    Options.get_put]

/- Exactly the listed settings are clamped. -/
theorem get_normalizeAll
    (o : Options)
    (settings : List Setting)
    (setting : Setting) :
    (normalizeAll o settings).1.get setting =
      if setting ∈ settings then
        setting.clamp (o.get setting)
      else o.get setting := by
  induction settings generalizing o with
  | nil => rfl
  | cons first settings ih =>
      have hStep :
          (normalizeAll o (first :: settings)).1 =
            (normalizeAll (normalizeSetting o first).1
              settings).1 :=
        rfl
      rw [hStep, ih, get_normalizeSetting]
      by_cases hSame : setting = first
      · subst hSame
        have hAgain := Setting.clamp_of_inRange
          (setting.inRange_clamp (o.get setting))
        simp only [if_true, List.mem_cons_self, hAgain,
          ite_self]
      · simp only [List.mem_cons, hSame, false_or, if_false]

/- Every setting is clamped. -/
theorem get_normalize
    (o : Options)
    (setting : Setting) :
    (normalize o).1.get setting =
      setting.clamp (o.get setting) := by
  rw [normalize, get_normalizeAll, if_pos setting.mem_all]

------------------------------------------------------------
-- Reports
------------------------------------------------------------

/-
  Warnings are allowed for by options that are not quiet.
-/
theorem verbosity_nonneg_iff :
    0 ≤ o.verbosity ↔ o.quiet = 0 ∧ 0 ≤ o.verbose := by
  unfold Options.verbosity
  split <;> omega

/-
  A setting is reported if the options that it leaves
  allow for warnings.
-/
theorem reports_normalizeSetting
    (o : Options)
    (setting : Setting) :
    (normalizeSetting o setting).2 =
      if (normalizeSetting o setting).1.quiet = 0 ∧
          0 ≤ (normalizeSetting o setting).1.verbose then
        (report? setting (o.get setting)).toList
      else [] := by
  simp only [← verbosity_nonneg_iff]
  by_cases hRange : setting.InRange (o.get setting)
  · have hSame := Setting.clamp_of_inRange hRange
    simp only [normalizeSetting, report?, hSame, hRange,
      ne_eq, not_true_eq_false, if_true, if_false,
      Option.toList_none, ite_self]
  · have hOther :
        setting.clamp (o.get setting) ≠ o.get setting :=
      fun h => hRange (Setting.clamp_eq_self_iff.mp h)
    simp only [normalizeSetting, report?, if_pos hOther,
      if_neg hRange, Options.warn, Option.toList_some]

/-
  Once `quiet` is in range and `verbose` is not negative,
  the verbosity does not change any more: either all
  settings are reported, or none is.
-/
theorem reports_of_settled
    {settings : List Setting}
    (hDistinct : settings.Nodup)
    (hQuiet : Setting.quiet.InRange o.quiet)
    (hVerbose : 0 ≤ o.verbose) :
    (normalizeAll o settings).2 =
      if o.quiet = 0 then
        settings.filterMap fun setting =>
          report? setting (o.get setting)
      else [] := by
  induction settings generalizing o with
  | nil => simp [normalizeAll]
  | cons first settings ih =>
      rw [List.nodup_cons] at hDistinct
      have hStep :
          (normalizeAll o (first :: settings)).2 =
            (normalizeSetting o first).2 ++
              (normalizeAll (normalizeSetting o first).1
                settings).2 :=
        rfl
      have hGet := get_normalizeSetting o first
      have hReport := reports_normalizeSetting o first
      generalize normalizeSetting o first = after
          at hStep hGet hReport
      have hSameQuiet : after.1.quiet = o.quiet := by
        have h := hGet .quiet
        simp only [Options.get] at h
        rw [h]
        split
        · next hFirst =>
            subst hFirst
            exact Setting.clamp_of_inRange hQuiet
        · rfl
      have hSameVerbose : 0 ≤ after.1.verbose := by
        have h := hGet .verbose
        simp only [Options.get] at h
        rw [h]
        split
        · next hFirst =>
            subst hFirst
            exact (Setting.inRange_clamp .verbose _).1
        · exact hVerbose
      have hOthers :
          (settings.filterMap fun setting =>
              report? setting (after.1.get setting)) =
            settings.filterMap fun setting =>
              report? setting (o.get setting) := by
        apply List.filterMap_congr
        intro setting hSetting
        rw [hGet,
          if_neg fun (h : setting = first) =>
            hDistinct.1 (h ▸ hSetting)]
      rw [hStep, hReport,
        ih hDistinct.2 (hSameQuiet ▸ hQuiet) hSameVerbose,
        hOthers, hSameQuiet]
      simp only [hSameVerbose, and_true]
      by_cases hLoud : o.quiet = 0
      · simp only [if_pos hLoud, List.filterMap_cons]
        cases report? first (o.get first) <;> rfl
      · simp only [if_neg hLoud, List.append_nil]

/-
  The settings in front of `verbose` are reported under the
  verbosity of their moment, and the others under the final
  one.
-/
theorem reports_normalize
    (o : Options) :
    (normalize o).2 =
      if (normalize o).1.quiet = 0 then
        Setting.all.filterMap fun setting =>
          if IsMuted o setting then none
          else report? setting (o.get setting)
      else [] := by
  let embedded := normalizeSetting o .embedded
  let quiet := normalizeSetting embedded.1 .quiet
  let verbose := normalizeSetting quiet.1 .verbose
  let others : List Setting :=
    [.initialPhase, .randomPhase, .backboneInitial,
      .backboneAlways, .backboneRephase,
      .backboneConfidence]
  have hSteps :
      (normalize o).2 =
        embedded.2 ++
          (quiet.2 ++
            (verbose.2 ++
              (normalizeAll verbose.1 others).2)) :=
    rfl
  have hQuiet :
      (normalize o).1.quiet = Setting.quiet.clamp o.quiet :=
    get_normalize o .quiet
  have hNonneg : 0 ≤ Setting.verbose.clamp o.verbose :=
    (Setting.inRange_clamp .verbose _).1
  -- A negative value for `quiet` is clamped to zero, but
  -- mutes the setting before it.
  have hZero :
      o.quiet = 0 ↔
        Setting.quiet.clamp o.quiet = 0 ∧
          ¬ o.quiet < 0 := by
    simp only [Setting.clamp, Setting.min, Setting.max]
    omega
  have hEmbedded :
      embedded.2 =
        if Setting.quiet.clamp o.quiet = 0 ∧
            ¬ IsMuted o .embedded then
          (report? .embedded o.embedded).toList
        else [] := by
    refine (reports_normalizeSetting o .embedded).trans
      (if_congr ?_ rfl rfl)
    change o.quiet = 0 ∧ 0 ≤ o.verbose ↔
      _ ∧ ¬ (o.quiet < 0 ∨ o.verbose < 0)
    omega
  have hQuietReport :
      quiet.2 =
        if Setting.quiet.clamp o.quiet = 0 ∧
            ¬ IsMuted o .quiet then
          (report? .quiet o.quiet).toList
        else [] := by
    refine (reports_normalizeSetting embedded.1
        .quiet).trans (if_congr ?_ rfl rfl)
    exact and_congr_right' Int.not_lt.symm
  have hVerbose :
      verbose.2 =
        if Setting.quiet.clamp o.quiet = 0 ∧
            ¬ IsMuted o .verbose then
          (report? .verbose o.verbose).toList
        else [] := by
    refine (reports_normalizeSetting quiet.1 .verbose).trans
      (if_congr ?_ rfl rfl)
    exact and_congr_right' (iff_of_true hNonneg not_false)
  have hOthers :
      (normalizeAll verbose.1 others).2 =
        if Setting.quiet.clamp o.quiet = 0 then
          others.filterMap fun setting =>
            report? setting (o.get setting)
        else [] :=
    reports_of_settled (by decide)
      (Setting.inRange_clamp .quiet _) hNonneg
  rw [hSteps, hEmbedded, hQuietReport, hVerbose, hOthers,
    hQuiet]
  by_cases hLoud : Setting.quiet.clamp o.quiet = 0
  · have hUnless :
        ∀ setting,
          (if ¬ IsMuted o setting then
              (report? setting (o.get setting)).toList
            else []) =
            (if IsMuted o setting then none
            else
              report? setting (o.get setting)).toList := by
      intro setting
      rw [ite_not]
      split <;> rfl
    have hAll :
        Setting.all =
          .embedded :: .quiet :: .verbose :: others :=
      rfl
    simp only [hLoud, true_and, if_true, hAll,
      List.filterMap_eq_flatMap_toList, List.flatMap_cons,
      ← hUnless]
    rfl
  · simp only [hLoud, false_and, if_false, List.append_nil]

/-
  Leaving out some entries makes no difference if and only
  if nothing comes of them.
-/
theorem filterMap_unless_eq_iff
    {α β : Type}
    {p : α → Prop} [DecidablePred p]
    {f : α → Option β}
    {l : List α} :
    (l.filterMap fun a => if p a then none else f a) =
        l.filterMap f ↔
      ∀ a ∈ l, p a → f a = none := by
  induction l with
  | nil => exact iff_of_true rfl nofun
  | cons first l ih =>
      have hSublist :
          (l.filterMap fun a =>
              if p a then none else f a).Sublist
            (l.filterMap f) := by
        have hFilter :=
          (List.filter_sublist (p := fun a => !decide (p a))
              (l := l)).filterMap f
        rw [List.filterMap_filter] at hFilter
        simpa only [Bool.not_eq_true',
          decide_eq_false_iff_not, ite_not] using hFilter
      rw [List.forall_mem_cons, ← ih, List.filterMap_cons,
        List.filterMap_cons]
      by_cases hLeft : p first
      · cases hFirst : f first with
        | none =>
            simp only [if_pos hLeft, implies_true, true_and]
        | some b =>
            rw [if_pos hLeft]
            refine iff_of_false (fun hEq => ?_)
              (fun h => nomatch h.1 hLeft)
            have hLength := hSublist.length_le
            dsimp only at hEq
            rw [hEq, List.length_cons] at hLength
            omega
      · rw [if_neg hLeft]
        cases f first <;>
          simp only [hLeft, List.cons.injEq, true_and,
            false_imp_iff]

/-
  The values of a configuration are clamped, and the other
  settings keep their defaults. Each setting is given one
  value at most, as it is by every text that is accepted
  (`nodup_of_given?`).

  If the options come out quiet, nothing is reported.
  Otherwise each given value out of range is reported with
  the value that is applied, in the order of the registry,
  unless it is muted: all of them are reported if and only
  if no muted one is out of range.
-/
theorem given_values_are_clamped
    (given : List (Setting × Int))
    (hDistinct : (given.map Prod.fst).Nodup) :
    (∀ text,
        given? text = some given →
        read text = .ok (ofAssignments given)) ∧
      (∀ setting,
        (ofAssignments given).1.get setting =
          ((given.lookup setting).map setting.clamp).getD
            setting.default) ∧
      (ofAssignments given).2 =
        (if (ofAssignments given).1.quiet = 0 then
          Setting.all.filterMap fun setting =>
            if IsMuted (assign .standard given) setting then
              none
            else
              (given.lookup setting).bind (report? setting)
        else []) ∧
      ((ofAssignments given).1.quiet = 0 →
        ((ofAssignments given).2 =
            Setting.all.filterMap
              (fun setting =>
                (given.lookup setting).bind
                  (report? setting)) ↔
          ∀ setting,
            IsMuted (assign .standard given) setting →
            (given.lookup setting).bind (report? setting) =
              none)) := by
  have hReport :
      (fun setting =>
          report? setting
            ((assign .standard given).get setting)) =
        fun setting =>
          (given.lookup setting).bind
            (report? setting) := by
    funext setting
    rw [get_assign _ hDistinct, Options.get_standard]
    cases given.lookup setting with
    | none => exact if_pos setting.inRange_default
    | some value => rfl
  have hReports :=
    reports_normalize (assign .standard given)
  simp only [congrFun hReport] at hReports
  refine ⟨fun text hGiven => ?_, fun setting => ?_,
    hReports, fun hLoud => ?_⟩
  · exact read_eq_ok_iff.mpr ⟨given, hGiven, rfl⟩
  · rw [ofAssignments, get_normalize,
      get_assign _ hDistinct, Options.get_standard]
    cases given.lookup setting with
    | none =>
        exact Setting.clamp_of_inRange
          setting.inRange_default
    | some value => rfl
  · have hAll : (ofAssignments given).2 = _ :=
      hReports.trans (if_pos hLoud)
    rw [hAll, filterMap_unless_eq_iff]
    exact ⟨fun h setting => h setting setting.mem_all,
      fun h setting _ => h setting⟩

/-
  Values are reported in the order of the registry, not in
  the order they are given.
-/
theorem values_out_of_range_are_reported :
    (ofAssignments
        [(.backboneConfidence, 100), (.verbose, 9),
          (.initialPhase, -1)]).2 =
      ["Warning: option 'verbose' out of range [0, 3], using 3",
        "Warning: option 'backboneconfidence' out of range [500, 1000], using 500"] := by
  have hReports :=
    (given_values_are_clamped
      [(.backboneConfidence, 100), (.verbose, 9),
        (.initialPhase, -1)] (by decide)).2.2.1
  rw [hReports]
  decide +kernel

/-
  The options do not come out quiet, yet a given value out
  of range is not reported.
-/
theorem report_in_front_of_negative_verbose_is_missing :
    (ofAssignments
          [(.embedded, 2), (.verbose, -1)]).1.quiet =
        0 ∧
      (ofAssignments [(.embedded, 2), (.verbose, -1)]).2 ≠
        Setting.all.filterMap fun setting =>
          ([(.embedded, 2), (.verbose, -1)].lookup
              setting).bind (report? setting) := by
  decide +kernel

end Config

end Dimacs
