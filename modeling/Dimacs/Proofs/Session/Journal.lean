import Dimacs.Proofs.Options.Applied
import Dimacs.Proofs.Session.Steps

/-
  The journal of a session: when which options come into
  force, and when which line is printed. It is put together
  from what the configuration does to the options setting by
  setting, what the directives of the problem do to them one
  by one, and the lines that follow.

  Up to the header, a line is printed only under options
  that are not quiet at that very moment.

  Key definitions include:
    * `Entry`
    * `Journal.lines`
    * `Journal.IsSinceQuiet`
    * `Journal.Hushes`
    * `Session.opening`
    * `Session.journal`

  Main statements:
    * `Journal.exists_isSinceQuiet`
    * `Journal.Hushes.lines_of_isSinceQuiet`
    * `Session.hushes_opening`
-/

namespace Dimacs

------------------------------------------------------------
-- Journals
------------------------------------------------------------

/- What happens in a session. -/
inductive Entry where
  | adopted (o : Options)
  | printed (line : Line)
deriving DecidableEq

namespace Entry

/- The line that is printed, if one is. -/
def line? : Entry → Option Line
  | .adopted _ => none
  | .printed line => some line

/- The options that come into force, if there are any. -/
def options? : Entry → Option Options
  | .adopted o => some o
  | .printed _ => none

end Entry

namespace Journal

/- The lines of a journal, in order. -/
def lines
    (journal : List Entry) : List Line :=
  journal.filterMap Entry.line?

/- The options of a journal, in order. -/
def adoptions
    (journal : List Entry) : List Options :=
  journal.filterMap Entry.options?

/- Some lines of text, one after the other. -/
def texts
    (texts : List String) : List Entry :=
  texts.map fun text => .printed (.text text)

/-
  What is recorded behind the point at which `quiet`
  last became nonzero: the options in front of that
  point were not quiet, if there were any, and all
  options behind it are.
-/
def IsSinceQuiet
    (journal back : List Entry) : Prop :=
  ∃ front o,
    journal = front ++ .adopted o :: back ∧
    (∀ before,
      (adoptions front).getLast? = some before →
      before.quiet = 0) ∧
    o.quiet ≠ 0 ∧
    ∀ behind ∈ adoptions back, behind.quiet ≠ 0

/-
  Nothing is printed while the options in force are quiet.
-/
def Hushes : Options → List Entry → Prop
  | _, [] => True
  | _, .adopted o :: journal => Hushes o journal
  | o, .printed _ :: journal =>
      o.quiet = 0 ∧ Hushes o journal

variable {o : Options}
variable {front journal back : List Entry}

@[simp] theorem lines_append
    (front back : List Entry) :
    lines (front ++ back) = lines front ++ lines back :=
  List.filterMap_append

@[simp] theorem lines_adopted
    (o : Options)
    (journal : List Entry) :
    lines (.adopted o :: journal) = lines journal :=
  rfl

@[simp] theorem lines_texts
    (content : List String) :
    lines (texts content) = content.map Line.text := by
  rw [lines, texts, List.filterMap_map]
  exact congrFun List.filterMap_eq_map' content

@[simp] theorem lines_printed
    (printed : List Line) :
    lines (printed.map .printed) = printed := by
  rw [lines, List.filterMap_map]
  exact List.filterMap_some

@[simp] theorem adoptions_nil :
    adoptions [] = [] :=
  rfl

@[simp] theorem adoptions_append
    (front back : List Entry) :
    adoptions (front ++ back) =
      adoptions front ++ adoptions back :=
  List.filterMap_append

@[simp] theorem adoptions_adopted
    (o : Options)
    (journal : List Entry) :
    adoptions (.adopted o :: journal) =
      o :: adoptions journal :=
  rfl

@[simp] theorem adoptions_texts
    (content : List String) :
    adoptions (texts content) = [] := by
  rw [adoptions, texts, List.filterMap_map]
  exact List.filterMap_eq_nil_iff.mpr fun _ _ => rfl

@[simp] theorem adoptions_printed
    (printed : List Line) :
    adoptions (printed.map .printed) = [] := by
  rw [adoptions, List.filterMap_map]
  exact List.filterMap_eq_nil_iff.mpr fun _ _ => rfl

/-
  If the last options are quiet, there is a point at which
  they became so.
-/
theorem exists_isSinceQuiet
    (hLast : (adoptions journal).getLast? = some o)
    (hQuiet : o.quiet ≠ 0) :
    ∃ back, IsSinceQuiet journal back := by
  have hStart :
      ∀ before,
        (adoptions []).getLast? = some before →
        before.quiet = 0 := by
    intro before hBefore
    rw [adoptions_nil, List.getLast?_nil] at hBefore
    cases hBefore
  induction journal with
  | nil =>
      rw [adoptions_nil, List.getLast?_nil] at hLast
      cases hLast
  | cons entry journal ih =>
      cases entry with
      | printed line =>
          rcases ih hLast with
            ⟨back, front, since, rfl, hBefore, hSince⟩
          exact ⟨back, .printed line :: front, since, rfl,
            hBefore, hSince⟩
      | adopted first =>
          rw [adoptions_adopted, List.getLast?_cons]
            at hLast
          cases hRest : (adoptions journal).getLast? with
          | none =>
              rw [hRest] at hLast
              cases hLast
              rw [List.getLast?_eq_none_iff] at hRest
              refine ⟨journal, [], first, rfl, hStart,
                hQuiet, ?_⟩
              rw [hRest]
              exact List.forall_mem_nil _
          | some last =>
              rw [hRest] at hLast
              rcases ih (hRest.trans hLast) with
                ⟨back, front, since, hSplit, hBefore,
                  hSince⟩
              by_cases hFirst :
                  first.quiet ≠ 0 ∧ adoptions front = []
              · -- The point is the first entry already.
                refine ⟨journal, [], first, rfl, hStart,
                  hFirst.1, ?_⟩
                rw [hSplit, adoptions_append, hFirst.2,
                  adoptions_adopted]
                exact List.forall_mem_cons.mpr hSince
              · refine ⟨back, .adopted first :: front,
                  since, by rw [hSplit]; rfl, ?_, hSince⟩
                intro before hLastBefore
                rw [adoptions_adopted, List.getLast?_cons]
                  at hLastBefore
                cases hFront :
                    (adoptions front).getLast? with
                | none =>
                    rw [hFront] at hLastBefore
                    cases hLastBefore
                    rw [List.getLast?_eq_none_iff] at hFront
                    exact Decidable.not_not.mp fun h =>
                      hFirst ⟨h, hFront⟩
                | some before' =>
                    rw [hFront] at hLastBefore
                    exact hBefore before
                      (hFront.trans hLastBefore)

/-
  Where a journal goes on with other options, the parts are
  looked at one by one.
-/
theorem hushes_append_adopted_iff
    {o' : Options} :
    Hushes o (front ++ .adopted o' :: back) ↔
      Hushes o front ∧ Hushes o' back := by
  induction front generalizing o with
  | nil => exact (iff_of_eq (true_and _)).symm
  | cons entry front ih =>
      cases entry with
      | adopted first => exact ih
      | printed line =>
          rw [List.cons_append, Hushes, Hushes, ih,
            and_assoc]

/-
  Lines of text may be printed if the options are not quiet.
-/
theorem hushes_texts_append
    {content : List String}
    (hContent : content ≠ [] → o.quiet = 0)
    (hJournal : Hushes o journal) :
    Hushes o (texts content ++ journal) := by
  induction content with
  | nil => exact hJournal
  | cons text content ih =>
      have hLoud := hContent (List.cons_ne_nil _ _)
      exact ⟨hLoud, ih fun _ => hLoud⟩

/- Quiet options that stay quiet print nothing. -/
theorem Hushes.lines_eq_nil
    (h : Hushes o journal)
    (hQuiet : o.quiet ≠ 0)
    (hBehind :
      ∀ behind ∈ adoptions journal, behind.quiet ≠ 0) :
    lines journal = [] := by
  induction journal generalizing o with
  | nil => rfl
  | cons entry journal ih =>
      cases entry with
      | adopted first =>
          rw [adoptions_adopted, List.forall_mem_cons]
            at hBehind
          exact ih h hBehind.1 hBehind.2
      | printed line => exact absurd h.1 hQuiet

/-
  A journal that prints nothing under quiet options is
  silent once they stay quiet.
-/
theorem Hushes.lines_of_isSinceQuiet
    (h : Hushes o journal)
    (hSince : IsSinceQuiet journal back) :
    lines back = [] := by
  rcases hSince with ⟨front, since, rfl, _, hQuiet, hBehind⟩
  exact (hushes_append_adopted_iff.mp h).2.lines_eq_nil
    hQuiet hBehind

/- Lines behind a journal are behind any of its points. -/
theorem exists_of_isSinceQuiet_append_printed
    {printed : List Line}
    (h :
      IsSinceQuiet (journal ++ printed.map .printed) back) :
    ∃ back',
      back = back' ++ printed.map .printed ∧
      IsSinceQuiet journal back' := by
  rcases h with
    ⟨front, since, hSplit, hBefore, hQuiet, hBehind⟩
  -- The point is not among the lines.
  have hPoint :
      Entry.adopted since ∉ printed.map Entry.printed := by
    intro hMember
    rcases List.mem_map.mp hMember with ⟨_, _, hEq⟩
    cases hEq
  rcases List.append_eq_append_iff.mp hSplit with
    ⟨between, _, hRest⟩ | ⟨between, hJournal, hRest⟩
  · rw [hRest] at hPoint
    exact absurd
      (List.mem_append_right _ List.mem_cons_self) hPoint
  · cases between with
    | nil =>
        rw [List.nil_append] at hRest
        rw [← hRest] at hPoint
        exact absurd List.mem_cons_self hPoint
    | cons entry back' =>
        rw [List.cons_append, List.cons.injEq] at hRest
        rcases hRest with ⟨rfl, rfl⟩
        rw [adoptions_append, adoptions_printed,
          List.append_nil] at hBehind
        exact ⟨back', rfl, front, since, hJournal, hBefore,
          hQuiet, hBehind⟩

end Journal

------------------------------------------------------------
-- Configuration
------------------------------------------------------------

/-
  Settings are clamped one after the other, each of them
  followed by its report.
-/
def Config.journalOf
    (o : Options) : List Setting → List Entry
  | [] => []
  | setting :: settings =>
      .adopted (normalizeSetting o setting).1 ::
        (Journal.texts (normalizeSetting o setting).2 ++
          journalOf (normalizeSetting o setting).1 settings)

theorem Config.lines_journalOf
    (o : Options)
    (settings : List Setting) :
    Journal.lines (journalOf o settings) =
      (normalizeAll o settings).2.map Line.text := by
  induction settings generalizing o with
  | nil => rfl
  | cons setting settings ih =>
      rw [journalOf, Journal.lines_adopted,
        Journal.lines_append, Journal.lines_texts, ih,
        ← List.map_append]
      rfl

theorem Config.hushes_journalOf
    (o : Options)
    (settings : List Setting) :
    Journal.Hushes o (journalOf o settings) := by
  induction settings generalizing o with
  | nil => exact trivial
  | cons setting settings ih =>
      rw [journalOf, Journal.Hushes]
      refine Journal.hushes_texts_append (fun hReport => ?_)
        (ih _)
      rw [reports_normalizeSetting] at hReport
      exact (ite_ne_right_iff.mp hReport).1.1

------------------------------------------------------------
-- Directives
------------------------------------------------------------

/-
  Directives are applied one after the other, each of them
  followed by its notice.
-/
def Directive.journalOf
    (o : Options) : List Directive → List Entry
  | [] => []
  | d :: directives =>
      .adopted (d.apply o) ::
        (Journal.texts (d.notices o) ++
          journalOf (d.apply o) directives)

/- A notice is printed under options that are not quiet. -/
theorem Directive.quiet_of_notices
    {o : Options}
    {d : Directive}
    (h : d.notices o ≠ []) :
    (d.apply o).quiet = 0 := by
  unfold notices at h
  split at h
  · rcases (ite_ne_right_iff.mp h).1 with hLevel
    exact (Config.verbosity_nonneg_iff.mp (by omega)).1
  · next hName =>
      have hSame : d.apply o = o := by rw [apply, hName]
      rw [hSame]
      exact (Config.verbosity_nonneg_iff.mp
        (ite_ne_right_iff.mp h).1).1

theorem Directive.hushes_journalOf
    (o : Options)
    (directives : List Directive) :
    Journal.Hushes o (journalOf o directives) := by
  induction directives generalizing o with
  | nil => exact trivial
  | cons d directives ih =>
      rw [journalOf, Journal.Hushes]
      exact Journal.hushes_texts_append quiet_of_notices
        (ih _)

theorem Directive.lines_journalOf
    (p : Preamble)
    (directives : List Directive) :
    (directives.foldl (fun p d => p.record (some d))
          p).printed.map Line.text =
      p.printed.map Line.text ++
        Journal.lines (journalOf p.options directives) := by
  induction directives generalizing p with
  | nil => exact (List.append_nil _).symm
  | cons d directives ih =>
      rw [List.foldl_cons, ih, journalOf,
        Journal.lines_adopted, Journal.lines_append,
        Journal.lines_texts, ← List.append_assoc,
        ← List.map_append]
      rfl

theorem Directive.getLast?_adoptions
    (o : Options)
    (directives : List Directive) :
    (Journal.adoptions
        (.adopted o :: journalOf o directives)).getLast? =
      some (o.obeying directives) := by
  induction directives generalizing o with
  | nil => rfl
  | cons d directives ih =>
      simp only [journalOf, Journal.adoptions_adopted,
        Journal.adoptions_append, Journal.adoptions_texts,
        List.nil_append, List.getLast?_cons_cons] at ih ⊢
      exact ih (d.apply o)

------------------------------------------------------------
-- Sessions
------------------------------------------------------------

namespace Session

/-
  What the configuration does to the options, and what
  is printed meanwhile.
-/
def configuration
    (env : Environment) : Option String → List Entry
  | none => [.adopted .standard]
  | some name =>
      match (configText env name).toOption.bind
          Config.given? with
      | none => []
      | some given =>
          .adopted (Config.assign .standard given) ::
            Config.journalOf (Config.assign .standard given)
              Setting.all

/-
  A session up to the header of the problem: the
  configuration, the verbose flags, and the directives of
  the problem.
-/
def opening
    (env : Environment)
    (arguments : Arguments) : List Entry :=
  match (loadOptions env arguments).outcome,
    (openFile env arguments.input).outcome with
  | .ok o, .ok c =>
      configuration env arguments.config ++
        .adopted o ::
          Directive.journalOf o
            (Parser.directives arguments.strictness o c)
  | _, _ => []

/-
  A whole session. The lines behind the opening are all that
  is left to be told: no further step changes `quiet`.
-/
def journal
    (env : Environment)
    (arguments : Arguments) : List Entry :=
  opening env arguments ++
    ((run env arguments).lines.drop
        (Journal.lines (opening env arguments)).length).map
      .printed

variable {env : Environment}
variable {arguments : Arguments}
variable {o : Options}
variable {c : Cursor}

theorem opening_eq
    (hLoad : (loadOptions env arguments).outcome = .ok o)
    (hOpen :
      (openFile env arguments.input).outcome = .ok c) :
    opening env arguments =
      configuration env arguments.config ++
        .adopted o ::
          Directive.journalOf o
            (Parser.directives arguments.strictness o
              c) := by
  rw [opening, hLoad, hOpen]

/-
  Before the problem is read, a session prints what its
  configuration is reported for.
-/
theorem lines_configuration
    {name : Option String}
    (h : (configuredOptions env name).outcome = .ok o) :
    (configuredOptions env name).lines =
      Journal.lines (configuration env name) := by
  cases name with
  | none => rfl
  | some name =>
      rcases exists_given_of_configuredOptions h with
        ⟨given, hGiven, _, hLines⟩
      rw [hLines, configuration, hGiven,
        Journal.lines_adopted, Config.lines_journalOf]
      rfl

/-
  The last options of the opening are those that the
  problem leaves behind.
-/
theorem getLast?_adoptions_opening
    (hLoad : (loadOptions env arguments).outcome = .ok o)
    (hOpen :
      (openFile env arguments.input).outcome = .ok c) :
    (Journal.adoptions (opening env arguments)).getLast? =
      some
        (parseProblem arguments.strictness o
          c).options := by
  rw [opening_eq hLoad hOpen, Journal.adoptions_append,
    List.getLast?_append, Directive.getLast?_adoptions,
    options_parseProblem_eq]
  rfl

theorem hushes_configuration
    (name : Option String) :
    Journal.Hushes o (configuration env name) := by
  cases name with
  | none => exact trivial
  | some name =>
      rw [configuration]
      split
      · exact trivial
      · rw [Journal.Hushes]
        exact Config.hushes_journalOf _ _

theorem hushes_opening
    (env : Environment)
    (arguments : Arguments)
    (o : Options) :
    Journal.Hushes o (opening env arguments) := by
  unfold opening
  split
  · exact Journal.hushes_append_adopted_iff.mpr
      ⟨hushes_configuration _,
        Directive.hushes_journalOf _ _⟩
  · exact trivial

end Session

end Dimacs
