import Dimacs.Proofs.Session.Journal
import Dimacs.Proofs.Session.Ranges

/-
  What a quiet session prints: once `quiet` has become
  nonzero for good, nothing but the times whose measurement
  began under options that were not yet quiet.

  Key definitions include:
    * `Step.IsSilent`
    * `Session.times`

  Main statements:
    * `Session.isSilent_readHints`
    * `Session.lines_conclude_of_quiet`
    * `Session.lines_run`
    * `Session.quiet_session_prints_times`
-/

namespace Dimacs

------------------------------------------------------------
-- Silent Steps
------------------------------------------------------------

namespace Step

variable {α β : Type}
variable {s : Step α}
variable {f : α → Step β}

/- If a step goes on, it prints nothing. -/
def IsSilent
    (s : Step α) : Prop :=
  ∀ a, s.outcome = .ok a → s.lines = []

theorem isSilent_of_nil
    (h : s.lines = []) :
    s.IsSilent :=
  fun _ _ => h

theorem isSilent_die
    (text : String) :
    (die text : Step α).IsSilent :=
  nofun

theorem isSilent_check
    (result : Except Violation α) :
    (check result).IsSilent :=
  fun _ h => (done_of_check_ok h).2

/-
  What follows a step has to be silent only for what the
  step comes to.
-/
theorem isSilent_bind
    (hFirst : s.IsSilent)
    (hNext : ∀ a, s.outcome = .ok a → (f a).IsSilent) :
    (s >>= f).IsSilent := by
  intro b h
  rcases exists_of_bind_ok h with ⟨a, hOk, hRest, hLines⟩
  rw [hLines, hFirst a hOk, hNext a hOk b hRest,
    List.append_nil]

end Step

------------------------------------------------------------
-- Quiet Options
------------------------------------------------------------

namespace Options

variable {o : Options}

theorem verbosity_of_quiet
    (h : o.quiet ≠ 0) :
    o.verbosity = -1 :=
  if_pos h

theorem log_of_quiet
    {level : Int}
    (h : o.quiet ≠ 0)
    (hLevel : 0 ≤ level)
    (text : String) :
    o.log level text = [] := by
  rw [log, verbosity_of_quiet h, if_neg (by omega)]

theorem warn_of_quiet
    (h : o.quiet ≠ 0)
    (text : String) :
    o.warn text = [] := by
  rw [warn, verbosity_of_quiet h, if_neg (by decide)]

end Options

theorem BackboneMode.notices_of_quiet
    {o : Options}
    (h : o.quiet ≠ 0) :
    notices o = [] := by
  unfold notices
  split
  · exact Options.warn_of_quiet h _
  · rfl

namespace Session

open Step

variable {env : Environment}
variable {a : Arguments}
variable {threshold : Option Float}
variable {loaded : Loaded}

------------------------------------------------------------
-- Silent Parts of a Session
------------------------------------------------------------

theorem isSilent_openFile
    (env : Environment)
    (name : String) :
    (openFile env name).IsSilent := by
  unfold openFile
  split
  · exact isSilent_of_nil rfl
  · split
    · exact isSilent_of_nil rfl
    · exact isSilent_die _

theorem isSilent_checkRead
    (c : Cursor) :
    (checkRead c).IsSilent := by
  unfold checkRead
  split
  · exact isSilent_of_nil rfl
  · exact isSilent_die _

theorem isSilent_scan
    {α : Type}
    (scanner : Scanner α)
    (c : Cursor) :
    (scan scanner c).IsSilent := by
  unfold scan
  split
  · exact isSilent_of_nil rfl
  · exact isSilent_check _

theorem isSilent_say
    {texts : List String}
    (h : texts = []) :
    (say texts).IsSilent := by
  rw [h]
  exact isSilent_of_nil rfl

theorem isSilent_confidence
    (text : Option String) :
    (confidence text).IsSilent := by
  cases text with
  | none => exact isSilent_of_nil rfl
  | some text =>
      unfold confidence
      dsimp only
      split
      · exact isSilent_of_nil rfl
      · exact isSilent_die _

theorem changedNotices_of_quiet
    {o : Options}
    (h : o.quiet ≠ 0) :
    changedNotices o = [] := by
  rw [changedNotices, List.flatMap_eq_nil_iff]
  intro entry _
  exact Options.log_of_quiet h (by decide) _

theorem isSilent_randomize
    (h : loaded.options.quiet ≠ 0) :
    (randomize loaded).IsSilent := by
  unfold randomize
  split
  · exact isSilent_bind
      (isSilent_say (Options.log_of_quiet h (by decide) _))
      fun _ _ => isSilent_of_nil rfl
  · exact isSilent_of_nil rfl

theorem isSilent_readBackbone
    (h : loaded.options.quiet ≠ 0)
    (name : String) :
    (readBackbone env loaded threshold name).IsSilent := by
  have hOptions :
      (backboneOptions loaded.options).quiet ≠ 0 := by
    unfold backboneOptions
    split <;> exact h
  have hNotices : backboneNotices loaded.options = [] := by
    unfold backboneNotices
    split
    · exact BackboneMode.notices_of_quiet h
    · exact Options.warn_of_quiet h _
  refine isSilent_bind (isSilent_say hNotices) fun _ _ => ?_
  refine isSilent_bind
    (isSilent_say (BackboneMode.notices_of_quiet hOptions))
    fun _ _ => ?_
  split
  · exact isSilent_die _
  · refine isSilent_bind
      (isSilent_say
        (Options.log_of_quiet hOptions (by decide) _))
      fun _ _ => ?_
    refine isSilent_bind (isSilent_openFile _ _) fun c _ =>
      ?_
    refine isSilent_bind (isSilent_scan _ _) fun _ _ => ?_
    exact isSilent_bind (isSilent_checkRead _) fun _ _ =>
      isSilent_of_nil rfl

theorem isSilent_readUnsatOrder
    (env : Environment)
    (loaded : Loaded)
    (name : String) :
    (readUnsatOrder env loaded name).IsSilent := by
  refine isSilent_bind (isSilent_openFile _ _) fun c _ => ?_
  refine isSilent_bind (isSilent_scan _ _) fun _ _ => ?_
  exact isSilent_bind (isSilent_checkRead _) fun _ _ =>
    isSilent_of_nil rfl

/- Hint files are read in silence under quiet options. -/
theorem isSilent_readHints
    (h : loaded.options.quiet ≠ 0) :
    (readHints env a threshold loaded).IsSilent := by
  have hBackbone :
      (readBackboneFile env a threshold
        loaded).IsSilent := by
    unfold readBackboneFile
    split
    · exact isSilent_of_nil rfl
    · exact isSilent_bind (isSilent_readBackbone h _)
        fun _ _ => isSilent_of_nil rfl
  refine isSilent_bind hBackbone fun _ _ =>
    isSilent_bind ?_ fun _ _ => isSilent_of_nil rfl
  unfold readOrderFile
  split
  · exact isSilent_of_nil rfl
  · exact isSilent_bind (isSilent_readUnsatOrder _ _ _)
      fun _ _ => isSilent_of_nil rfl

------------------------------------------------------------
-- Whole Sessions
------------------------------------------------------------

/-
  The header is announced unless the options are
  quiet by then.
-/
theorem exists_printed_eq
    (strictness : Strictness)
    (o : Options)
    (c : Cursor) :
    ∃ announced,
      (parseProblem strictness o c).printed.map Line.text =
        Journal.lines
            (Directive.journalOf o
              (Parser.directives strictness o c)) ++
          announced ∧
      ((parseProblem strictness o c).options.quiet ≠ 0 →
        announced = []) := by
  have hPreamble := Directive.lines_journalOf
    { options := o, printed := [] }
    (Parser.directives strictness o c)
  rw [← Parser.preamble_eq_foldl strictness true,
    ← Parser.fst_header] at hPreamble
  rcases hRead : Parser.header strictness o c with
    ⟨p, ⟨declared, c₁⟩ | ⟨e, c₁⟩⟩
  · rw [hRead] at hPreamble
    rw [parseProblem_of_header hRead]
    refine ⟨(declared.notices p.options).map Line.text, ?_,
      fun hQuiet => ?_⟩
    · rw [← List.nil_append (Journal.lines _)]
      exact List.map_append.trans
        (congrArg (· ++ _) hPreamble)
    · have hNone : declared.notices p.options = [] :=
        Options.log_of_quiet hQuiet (by decide) _
      rw [hNone, List.map_nil]
  · rw [hRead] at hPreamble
    rw [parseProblem_of_refusal hRead]
    exact ⟨[], (List.append_nil _).symm ▸ hPreamble,
      fun _ => rfl⟩

/-
  A problem that is read leaves its options, and what its
  directives are noticed for.
-/
theorem options_of_readProblem
    {o : Options}
    {env' : Environment}
    (h :
      (readProblem env a o).outcome = .ok (loaded, env')) :
    ∃ c,
      (openFile env a.input).outcome = .ok c ∧
      loaded.options =
        (parseProblem a.strictness o c).options ∧
      (readProblem env a o).lines =
        (parseProblem a.strictness o c).printed.map
          Line.text := by
  rcases exists_of_bind_ok h with ⟨c, hOpen, h, hLines⟩
  rcases exists_of_bind_ok h with ⟨_, _, h, hPrinted⟩
  rcases exists_of_bind_ok h with
    ⟨formula, hFormula, h, hChecked⟩
  split at h
  · cases h
  · cases h
  · next summary hSummary =>
      cases h
      refine ⟨c, hOpen, rfl, hLines.trans ?_⟩
      rw [isSilent_openFile _ _ c hOpen, List.nil_append]
      refine hPrinted.trans ?_
      rw [hChecked, isSilent_check _ formula hFormula,
        hSummary]
      exact List.append_nil _

/-
  The times that are printed if the given options
  precede the problem.
-/
def times
    (o : Options) : List Line :=
  (if 1 ≤ o.verbosity then [.elapsed "parsing time"]
    else []) ++
    (if 0 ≤ o.verbosity then [.elapsed "total time"]
    else [])

/-
  Under quiet options, only the times are left
  to be printed.
-/
theorem lines_conclude_of_quiet
    {before : Options}
    (h :
      (conclude env a threshold before loaded).outcome =
        .ok ())
    (hQuiet : loaded.options.quiet ≠ 0) :
    (conclude env a threshold before loaded).lines =
      times before := by
  rcases exists_of_bind_ok h with ⟨_, _, h, hLines⟩
  rcases exists_of_bind_ok h with ⟨_, _, h, hChanged⟩
  rcases exists_of_bind_ok h with
    ⟨randomized, hRandom, h, hRandomLines⟩
  rcases exists_of_bind_ok h with
    ⟨⟨_, _, hinted⟩, hHints, h, hHintLines⟩
  have hRandomQuiet : randomized.options.quiet ≠ 0 := by
    rw [options_of_randomize hRandom]
    exact hQuiet
  have hVerbosity : hinted.options.verbosity < 0 := by
    have hHintedQuiet : hinted.options.quiet ≠ 0 := by
      rw [quiet_of_readHints hHints]
      exact hRandomQuiet
    rw [Options.verbosity_of_quiet hHintedQuiet]
    decide
  have hParsing :
      (sayElapsed "parsing time"
        (decide (1 ≤ before.verbosity))).lines =
      if 1 ≤ before.verbosity then [.elapsed "parsing time"]
      else [] := by
    simp only [sayElapsed, decide_eq_true_eq]
  refine hLines.trans (congrArg₂ (· ++ ·) hParsing ?_)
  rw [hChanged,
    isSilent_say (changedNotices_of_quiet hQuiet) () rfl,
    List.nil_append, hRandomLines,
    isSilent_randomize hQuiet _ hRandom, List.nil_append,
    hHintLines, isSilent_readHints hRandomQuiet _ hHints,
    List.nil_append]
  -- What is left is the end of the session, of which the
  -- branch for quiet options runs.
  simp only [if_pos hVerbosity, sayElapsed,
    decide_eq_true_eq]

/-
  It is quiet options, and no others, that want no times.
-/
theorem times_eq_nil_iff
    {o : Options}
    (h : o.WithinRanges) :
    times o = [] ↔ o.quiet ≠ 0 := by
  have hVerbose : 0 ≤ o.verbose := (h .verbose).1
  constructor
  · intro hTimes hLoud
    rw [times,
      if_pos
        (Config.verbosity_nonneg_iff.mpr ⟨hLoud, hVerbose⟩)]
      at hTimes
    exact List.cons_ne_nil _ _
      (List.append_eq_nil_iff.mp hTimes).2
  · intro hQuiet
    rw [times, Options.verbosity_of_quiet hQuiet]
    rfl

theorem lines_loadOptions
    {o : Options}
    (h : (loadOptions env a).outcome = .ok o) :
    (loadOptions env a).lines =
      Journal.lines (configuration env a.config) := by
  rcases exists_of_bind_ok h with
    ⟨o', hConfigured, _, hLines⟩
  exact hLines.trans
    ((List.append_nil _).trans
      (lines_configuration hConfigured))

/-
  A session that gets to its end prints its opening, and
  under quiet options only times.
-/
theorem lines_run
    (h : (run env a).outcome = .ok ()) :
    ∃ o c rest,
      (loadOptions env a).outcome = .ok o ∧
      (openFile env a.input).outcome = .ok c ∧
      (run env a).lines =
        Journal.lines (opening env a) ++ rest ∧
      ((parseProblem a.strictness o c).options.quiet ≠ 0 →
        rest = times o) := by
  rcases exists_of_bind_ok h with
    ⟨threshold, hConfidence, h, hLines⟩
  rcases exists_of_bind_ok h with ⟨o, hLoad, h, hLoadLines⟩
  rcases exists_of_bind_ok h with
    ⟨⟨loaded, env₁⟩, hRead, h, hReadLines⟩
  rcases options_of_readProblem hRead with
    ⟨c, hOpen, hOptions, hPrinted⟩
  rcases exists_printed_eq a.strictness o c with
    ⟨announced, hAnnounced, hNone⟩
  refine ⟨o, c,
    announced ++ (conclude env₁ a threshold o loaded).lines,
    hLoad, hOpen, ?_, fun hQuiet => ?_⟩
  · rw [opening_eq hLoad hOpen, Journal.lines_append,
      Journal.lines_adopted, List.append_assoc,
      ← List.append_assoc _ announced, ← hAnnounced,
      ← hPrinted, ← lines_loadOptions hLoad]
    refine hLines.trans ?_
    rw [isSilent_confidence _ threshold hConfidence,
      List.nil_append]
    exact hLoadLines.trans (congrArg _ hReadLines)
  · rw [hNone hQuiet, List.nil_append]
    rw [← hOptions] at hQuiet
    exact lines_conclude_of_quiet h hQuiet

/- The exit code is 0 only if a session gets to its end. -/
theorem answer_of_exit_zero
    {arguments : List String}
    (hRun : CommandLine.interpret arguments = .run a)
    (hExit : (answer env arguments).2 = 0) :
    (run env a).outcome = .ok () ∧
      (answer env arguments).1 = (run env a).lines := by
  rw [answer, hRun] at hExit ⊢
  refine ⟨?_, rfl⟩
  cases hOutcome : (run env a).outcome with
  | ok => rfl
  | error failure =>
      simp only [hOutcome] at hExit
      cases failure <;> cases hExit

/-
  A session that exits with code 0 prints the lines of its
  journal. If its options are quiet once the problem has
  been read, there is a point at which `quiet` last became
  nonzero, and behind it only those times are printed that
  the options before the problem ask for: none if and only
  if these are quiet already.
-/
theorem quiet_session_prints_times
    {arguments : List String}
    (hRun : CommandLine.interpret arguments = .run a)
    (hExit : (answer env arguments).2 = 0) :
    Journal.lines (journal env a) =
        (answer env arguments).1 ∧
      ∃ o c,
        (loadOptions env a).outcome = .ok o ∧
        (openFile env a.input).outcome = .ok c ∧
        (Journal.adoptions (journal env a)).getLast? =
          some (parseProblem a.strictness o c).options ∧
        ((parseProblem a.strictness o c).options.quiet ≠ 0 →
          (∃ back,
              Journal.IsSinceQuiet (journal env a) back) ∧
            ∀ back,
              Journal.IsSinceQuiet (journal env a) back →
              Journal.lines back = times o ∧
                (Journal.lines back = [] ↔
                  o.quiet ≠ 0)) := by
  rcases answer_of_exit_zero hRun hExit with
    ⟨hDone, hAnswer⟩
  rcases lines_run hDone with
    ⟨o, c, rest, hLoad, hOpen, hLines, hTimes⟩
  have hJournal :
      journal env a =
        opening env a ++ rest.map .printed := by
    rw [journal, hLines, List.drop_left]
  have hLast :
      (Journal.adoptions (journal env a)).getLast? =
        some (parseProblem a.strictness o c).options := by
    rw [hJournal, Journal.adoptions_append,
      Journal.adoptions_printed, List.append_nil]
    exact getLast?_adoptions_opening hLoad hOpen
  refine ⟨?_, o, c, hLoad, hOpen, hLast,
    fun hQuiet => ⟨?_, fun back hSince => ?_⟩⟩
  · rw [hAnswer, hLines, hJournal, Journal.lines_append,
      Journal.lines_printed]
  · exact Journal.exists_isSinceQuiet hLast hQuiet
  · rw [hJournal] at hSince
    rcases Journal.exists_of_isSinceQuiet_append_printed
        hSince with
      ⟨back', rfl, hOpening⟩
    have hSilent :=
      (hushes_opening env a o).lines_of_isSinceQuiet
        hOpening
    rw [Journal.lines_append, Journal.lines_printed,
      hSilent, List.nil_append, hTimes hQuiet]
    exact ⟨rfl,
      times_eq_nil_iff
        (isInitial_of_loadOptions hRun hLoad).withinRanges⟩

/-
  Every file name leads to the first text, and standard
  input to the second one.
-/
def environmentOf
    (file input : String) : Environment where
  files _ := .ok (.ofBytes file.toUTF8.toList)
  input := .ofBytes input.toUTF8.toList

/-
  The arguments for a problem on standard input, apart from
  the given ones.
-/
def argumentsOf
    (verbose : Nat)
    (config : Option String) : Arguments where
  strictness := .normal
  memoryBreakdown := false
  verbose := verbose
  confidence := none
  input := inputName
  config := config
  backbone := none
  unsatOrder := none

/-
  The verbose flag asks for times, but the
  configuration for none.
-/
theorem configured_quiet_session_prints_no_times :
    CommandLine.interpret
          ["-v", "--config", "quiet.toml", "-"] =
        .run (argumentsOf 1 (some "quiet.toml")) ∧
      (answer (environmentOf "quiet = 1\n" "p cnf 0 0\n")
          ["-v", "--config", "quiet.toml", "-"]).2 =
        0 ∧
      ∃ back,
        Journal.IsSinceQuiet
          (journal
            (environmentOf "quiet = 1\n" "p cnf 0 0\n")
            (argumentsOf 1 (some "quiet.toml"))) back ∧
        Journal.lines back = [] := by
  have hRun :
      CommandLine.interpret
          ["-v", "--config", "quiet.toml", "-"] =
        .run (argumentsOf 1 (some "quiet.toml")) := by
    decide +kernel
  have hExit :
      (answer (environmentOf "quiet = 1\n" "p cnf 0 0\n")
          ["-v", "--config", "quiet.toml", "-"]).2 =
        0 := by
    decide +kernel
  have hConfigured :
      (loadOptions
            (environmentOf "quiet = 1\n" "p cnf 0 0\n")
            (argumentsOf 1
              (some "quiet.toml"))).outcome.toOption.map
          Options.quiet =
        some 1 := by
    decide +kernel
  have hParsed :
      (Journal.adoptions
            (journal
              (environmentOf "quiet = 1\n" "p cnf 0 0\n")
              (argumentsOf 1
                (some "quiet.toml")))).getLast?.map
          Options.quiet =
        some 1 := by
    decide +kernel
  rcases (quiet_session_prints_times hRun hExit).2 with
    ⟨o, c, hLoad, _, hLast, hQuiet⟩
  rw [hLoad] at hConfigured
  rw [hLast] at hParsed
  rcases hQuiet
      (by rw [Option.some.inj hParsed]; decide) with
    ⟨⟨back, hSince⟩, hTimes⟩
  exact ⟨hRun, hExit, back, hSince,
    (hTimes back hSince).2.mpr
      (by rw [Option.some.inj hConfigured]; decide)⟩

/-
  The total time is printed behind a directive that makes
  the session quiet.
-/
theorem total_time_is_printed_behind_quiet_directive :
    CommandLine.interpret ["-"] =
        .run (argumentsOf 0 none) ∧
      answer (environmentOf "" "c --quiet=1\np cnf 0 0\n")
          ["-"] =
        ([.elapsed "total time"], 0) ∧
      Journal.IsSinceQuiet
        (journal
          (environmentOf "" "c --quiet=1\np cnf 0 0\n")
          (argumentsOf 0 none))
        [.printed (.elapsed "total time")] := by
  refine ⟨by decide +kernel, by decide +kernel,
    [.adopted .standard, .adopted .standard],
    { Options.standard with quiet := 1 }, by decide +kernel,
    ?_, by decide, nofun⟩
  rintro before ⟨⟩
  rfl

end Session

end Dimacs
