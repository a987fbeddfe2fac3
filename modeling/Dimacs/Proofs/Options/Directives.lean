import Dimacs.Proofs.Header.Directive
import Dimacs.Proofs.Problem.Outcome

/-
  What embedded directives mean: the options behind a
  reading are those in front of it, changed line by line by
  the comments before the header, and by nothing else.

  The lines are split off by the grammar of the header
  alone: as many admitted lines as there are, in
  order. How a line changes the options is stated
  without the reader, too.

  Key definitions include:
    * `LeadLine.Commands`
    * `Options.Step`
    * `Options.Fold`
    * `IsLead`

  Main statements:
    * `Parser.commands_iff`
    * `Parser.step_iff`
    * `Parser.preamble_fold_iff`
    * `parseProblem_options_fold`
-/

namespace Dimacs

------------------------------------------------------------
-- Settings by Name
------------------------------------------------------------

/- A name belongs to one setting at most. -/
theorem Setting.ofName?_eq_some_iff
    {text : String}
    {setting : Setting} :
    ofName? text = some setting ↔ setting.name = text := by
  constructor
  · intro h
    rw [ofName?] at h
    simpa using List.find?_some h
  · rintro rfl
    cases setting <;> decide

/-
  Setting a value clamps it, and leaves the
  other settings alone.
-/
theorem Options.set_eq_iff
    {o o' : Options}
    {setting : Setting}
    {value : Int} :
    o.set setting value = o' ↔
      o'.get setting = setting.clamp value ∧
        ∀ other,
          other ≠ setting → o'.get other = o.get other := by
  constructor
  · rintro rfl
    refine ⟨?_, fun other hOther => ?_⟩
    · rw [set, get_put, if_pos rfl]
    · rw [set, get_put, if_neg hOther]
  · intro h
    rcases h with ⟨hSet, hKept⟩
    refine ext_get fun other => ?_
    rw [set, get_put]
    by_cases hOther : other = setting
    · rw [if_pos hOther, hOther, hSet]
    · rw [if_neg hOther, hKept other hOther]

------------------------------------------------------------
-- What a Line Does
------------------------------------------------------------

/-
  The line is a comment that consists of a directive
  for the setting.
-/
def LeadLine.Commands
    (line : LeadLine)
    (setting : Setting)
    (value : Int) : Prop :=
  ∃ text : DirectiveText, text.IsWellFormed ∧
    line.bytes = Byte.letterC :: text.bytes ∧
    text.directive = ⟨setting.name, value⟩

namespace Options

/-
  The options behind a line: while directives are enabled,
  one for a setting gives it the nearest value of its range.
  Any other line changes nothing.
-/
inductive Step
    (o : Options)
    (line : LeadLine) : Options → Prop
  | obeyed (setting : Setting) (value : Int) (o' : Options)
      (hEnabled : o.embedded ≠ 0)
      (hCommand : line.Commands setting value)
      (hSet : o'.get setting =
        min (max value setting.min) setting.max)
      (hKept : ∀ other, other ≠ setting →
        o'.get other = o.get other) :
      Step o line o'
  | ignored
      (hNone : o.embedded ≠ 0 → ∀ setting value,
        ¬ line.Commands setting value) :
      Step o line o

/-
  The options behind several lines, each of which meets
  those behind the last.
-/
inductive Fold : Options → List LeadLine → Options → Prop
  | nil (o : Options) : Fold o [] o
  | cons
      {o o₁ o' : Options}
      {line : LeadLine}
      {lines : List LeadLine}
      (hStep : o.Step line o₁)
      (hFold : Fold o₁ lines o') :
      Fold o (line :: lines) o'

variable {o o' : Options}
variable {line : LeadLine}
variable {lines : List LeadLine}

@[simp] theorem fold_nil_iff :
    o.Fold [] o' ↔ o = o' := by
  constructor
  · intro h
    cases h
    rfl
  · rintro rfl
    exact .nil o

theorem fold_cons_iff :
    o.Fold (line :: lines) o' ↔
      ∃ o₁, o.Step line o₁ ∧ o₁.Fold lines o' := by
  constructor
  · intro h
    cases h with
    | cons hStep hFold => exact ⟨_, hStep, hFold⟩
  · intro h
    rcases h with ⟨o₁, hStep, hFold⟩
    exact .cons hStep hFold

/-
  A line without a directive that counts leaves the options
  as they are.
-/
theorem step_iff_of_ignored
    (hNone :
      o.embedded ≠ 0 →
      ∀ setting value, ¬ line.Commands setting value) :
    o.Step line o' ↔ o = o' := by
  constructor
  · intro h
    cases h with
    | obeyed setting value _ hEnabled hCommand _ _ =>
        exact absurd hCommand (hNone hEnabled setting value)
    | ignored _ => rfl
  · rintro rfl
    exact .ignored hNone

/- A line with a directive for one setting sets it. -/
theorem step_iff_of_obeyed
    {setting : Setting}
    {value : Int}
    (hEnabled : o.embedded ≠ 0)
    (hOnly : ∀ other value', line.Commands other value' ↔
      other = setting ∧ value' = value) :
    o.Step line o' ↔ o.set setting value = o' := by
  rw [set_eq_iff, Setting.clamp]
  constructor
  · intro h
    cases h with
    | obeyed other value' _ _ hCommand hSet hKept =>
        rcases (hOnly other value').mp hCommand with
          ⟨rfl, rfl⟩
        exact ⟨hSet, hKept⟩
    | ignored hNone =>
        exact absurd ((hOnly setting value).mpr ⟨rfl, rfl⟩)
          (hNone hEnabled setting value)
  · intro h
    exact .obeyed setting value o' hEnabled
      ((hOnly setting value).mpr ⟨rfl, rfl⟩) h.1 h.2

end Options

------------------------------------------------------------
-- The Lines before the Header
------------------------------------------------------------

/-
  A line has a first byte, which is not that of the header.
-/
theorem LeadLine.exists_bytes_eq_cons
    (line : LeadLine) :
    ∃ first rest,
      line.bytes = first :: rest ∧
      first ≠ Byte.letterP := by
  cases line with
  | blank close =>
      cases close <;> exact ⟨_, _, rfl, by decide⟩
  | comment text close => exact ⟨_, _, rfl, by decide⟩

/-
  The bytes begin with admitted lines, from the first byte
  on, and no further admitted line follows them.
-/
structure IsLead
    (strictness : Strictness)
    (bytes : List UInt8)
    (lead : List LeadLine)
    (tail : List UInt8) : Prop where
  allowed : ∀ line ∈ lead, line.IsAllowed strictness
  split : bytes = lead.flatMap LeadLine.bytes ++ tail
  complete :
      ∀ line rest,
        LeadLine.IsAllowed strictness line →
        tail ≠ line.bytes ++ rest

/- The lines can be split off from any bytes. -/
theorem exists_isLead
    (strictness : Strictness)
    (bytes : List UInt8) :
    ∃ lead tail, IsLead strictness bytes lead tail := by
  -- Every line has a byte at least, so that what follows
  -- it is shorter.
  induction hLength : bytes.length using Nat.strongRecOn
      generalizing bytes with
  | ind n ih =>
      by_cases hLine :
          ∃ line rest,
            LeadLine.IsAllowed strictness line ∧
            bytes = line.bytes ++ rest
      · rcases hLine with ⟨line, rest, hAllowed, rfl⟩
        have hShorter : rest.length < n := by
          rcases line.exists_bytes_eq_cons with
            ⟨first, inner, hBytes, _⟩
          rw [← hLength, hBytes, List.length_append,
            List.length_cons]
          omega
        rcases ih rest.length hShorter rest rfl with
          ⟨lead, tail, hLead⟩
        refine ⟨line :: lead, tail,
          List.forall_mem_cons.mpr
            ⟨hAllowed, hLead.allowed⟩, ?_, hLead.complete⟩
        rw [List.flatMap_cons, List.append_assoc,
          ← hLead.split]
      · exact ⟨[], bytes, nofun, rfl,
          fun line rest hAllowed hBytes =>
            hLine ⟨line, rest, hAllowed, hBytes⟩⟩

/-
  The lines in front of the header's first letter are
  all there are.
-/
theorem isLead_of_header
    {strictness : Strictness}
    {lead : List LeadLine}
    {rest : List UInt8}
    (hAllowed : ∀ line ∈ lead, line.IsAllowed strictness) :
    IsLead strictness
      (lead.flatMap LeadLine.bytes ++ Byte.letterP :: rest)
      lead (Byte.letterP :: rest) := by
  refine ⟨hAllowed, rfl, ?_⟩
  intro line behind _ hBytes
  rcases line.exists_bytes_eq_cons with
    ⟨first, inner, hFirst, hLetter⟩
  rw [hFirst, List.cons_append, List.cons.injEq] at hBytes
  exact hLetter hBytes.1.symm

namespace Parser

variable {strictness : Strictness}
variable {line : LeadLine}
variable {first : UInt8}
variable {rest : List UInt8}
variable {d : Option Directive}
variable {c c' : Cursor}

theorem headerComment_disabled
    (h : headerComment false c = .ok d c') :
    d = none := by
  rw [headerComment] at h
  rcases bind_ok_iff.mp h with ⟨_, _, _, hSkip⟩
  rw [if_neg (by simp)] at hSkip
  rcases bind_ok_iff.mp hSkip with ⟨_, _, _, hNone⟩
  exact (pure_ok_iff.mp hNone).1.symm

/-
  Only a comment can be read as a directive, and only if
  those are enabled.
-/
theorem preambleLine_some
    {enabled : Bool}
    {d : Directive}
    (h :
      preambleLine strictness enabled first c =
        .ok (some d) c') :
    first = Byte.letterC ∧
      enabled = true ∧
      headerComment true c = .ok (some d) c' := by
  unfold preambleLine at h
  split at h
  · rcases bind_ok_iff.mp h with ⟨_, _, _, hEmpty⟩
    split at hEmpty
    · exact absurd hEmpty failBefore_ne_ok
    · cases hEmpty
  · split at h
    · split at h
      · exact absurd h failBefore_ne_ok
      · cases h
    · split at h
      · next hLetter =>
          cases enabled with
          | true => exact ⟨hLetter, rfl, h⟩
          | false => cases headerComment_disabled h
      · cases h

/- The reader finds the directive that stands in a line. -/
theorem commands_iff
    {setting : Setting}
    {value : Int}
    (hBytes : line.bytes = first :: rest)
    (hReads : c.Reads rest c')
    (hLine :
      preambleLine strictness true first c = .ok d c') :
    line.Commands setting value ↔
      d = some ⟨setting.name, value⟩ := by
  constructor
  · intro h
    rcases h with ⟨text, hFormed, hText, hSaid⟩
    rw [hBytes, List.cons.injEq] at hText
    rcases hText with ⟨rfl, rfl⟩
    have hComment := headerComment_directive_iff.mpr
      ⟨text, hFormed, hSaid, hReads⟩
    have hSame :
        preambleLine strictness true Byte.letterC c =
          headerComment true c := by
      rfl
    rw [hSame, hComment] at hLine
    cases hLine
    rfl
  · rintro rfl
    rcases preambleLine_some hLine with ⟨rfl, _, hComment⟩
    rcases headerComment_directive_iff.mp hComment with
      ⟨text, hFormed, hSaid, hText⟩
    refine ⟨text, hFormed, ?_, hSaid⟩
    rw [hBytes, Cursor.bytes_eq_of_reads hReads hText]

/-
  What the reader records of a line is what the line does
  to the options.
-/
theorem step_iff
    {p : Preamble}
    {o' : Options}
    (hBytes : line.bytes = first :: rest)
    (hReads : c.Reads rest c')
    (hLine :
      preambleLine strictness p.enabled first c =
        .ok d c') :
    p.options.Step line o' ↔ (p.record d).options = o' := by
  by_cases hEnabled : p.options.embedded = 0
  · have hNone : d = none := by
      cases d with
      | none => rfl
      | some d =>
          have hOn := (preambleLine_some hLine).2.1
          exact absurd hEnabled (of_decide_eq_true hOn)
    rw [hNone]
    exact Options.step_iff_of_ignored fun hOn =>
      absurd hEnabled hOn
  · rw [show p.enabled = true from decide_eq_true hEnabled]
      at hLine
    cases d with
    | none =>
        apply Options.step_iff_of_ignored
        intro _ setting value hCommand
        cases (commands_iff hBytes hReads hLine).mp hCommand
    | some d =>
        rcases d with ⟨name, written⟩
        rw [Preamble.record, Directive.apply]
        dsimp only
        split
        case h_1 setting hName =>
          rw [Setting.ofName?_eq_some_iff] at hName
          subst hName
          apply Options.step_iff_of_obeyed hEnabled
          intro other value
          rw [commands_iff hBytes hReads hLine,
            Option.some.injEq, Directive.mk.injEq]
          constructor
          · intro h
            have hOther :=
              Setting.ofName?_eq_some_iff.mpr h.1
            rw [Setting.ofName?_eq_some_iff.mpr rfl]
              at hOther
            exact ⟨(Option.some.inj hOther), h.2.symm⟩
          · intro h
            rcases h with ⟨rfl, rfl⟩
            exact ⟨rfl, rfl⟩
        case h_2 hName =>
          apply Options.step_iff_of_ignored
          intro _ setting value hCommand
          -- A directive for a setting would have a name
          -- that is known.
          have hSome :=
            (commands_iff hBytes hReads hLine).mp hCommand
          cases hSome
          rw [Setting.ofName?_eq_some_iff.mpr rfl] at hName
          cases hName

/-
  Where no admitted line stands, the reader leaves
  the options alone.
-/
theorem preamble_of_no_line
    {atStart : Bool}
    {p : Preamble}
    (hNone :
      ∀ line rest,
        LeadLine.IsAllowed strictness line →
        c.readable ≠ line.bytes ++ rest) :
    (preamble strictness atStart p c).1 = p := by
  rcases hNext : c.next with ⟨_ | b, c₁⟩
  · rw [preamble_of_end hNext]
  · by_cases hLetter : b = Byte.letterP
    · subst hLetter
      rw [preamble_of_header hNext]
    · cases hLine :
          preambleLine strictness p.enabled b c₁ with
      | error e c₂ =>
          rw [preamble_of_refusal hNext hLetter hLine]
      | ok d c₂ =>
          rcases preambleLine_ok_iff.mp ⟨d, hLine⟩ with
            ⟨line, rest, hAllowed, hBytes, hReads⟩
          refine absurd ?_ (hNone line c₂.readable hAllowed)
          rw [Cursor.readable_of_next hNext,
            Cursor.readable_of_reads hReads, hBytes,
            List.cons_append]

/-
  The reader goes through the lines one by one, and stops
  behind the last.
-/
theorem preamble_fold_iff
    {lead : List LeadLine}
    {tail : List UInt8}
    {atStart : Bool}
    {p : Preamble}
    {o' : Options}
    (hLead : IsLead strictness c.readable lead tail) :
    p.options.Fold lead o' ↔
      (preamble strictness atStart p c).1.options = o' := by
  induction lead generalizing atStart p c with
  | nil =>
      have hTail : c.readable = tail := hLead.split
      have hNone := hLead.complete
      rw [← hTail] at hNone
      rw [preamble_of_no_line hNone, Options.fold_nil_iff]
  | cons line lead ih =>
      rcases List.forall_mem_cons.mp hLead.allowed with
        ⟨hAllowed, hRest⟩
      have hSplit := hLead.split
      rw [List.flatMap_cons, List.append_assoc] at hSplit
      rcases Cursor.exists_reads hSplit with
        ⟨c₂, hReads, hBehind⟩
      rcases line.exists_bytes_eq_cons with
        ⟨first, rest, hBytes, hLetter⟩
      rw [hBytes] at hReads
      rcases hReads with ⟨c₁, hNext, hReads⟩
      rcases preambleLine_ok_iff.mpr
          ⟨line, rest, hAllowed, hBytes, hReads⟩ with
        ⟨d, hLine⟩
      rw [preamble_of_line hNext hLetter hLine,
        Options.fold_cons_iff,
        ← ih (p := p.record d)
          ⟨hRest, hBehind, hLead.complete⟩]
      constructor
      · intro h
        rcases h with ⟨o₁, hStep, hFold⟩
        rwa [← (step_iff hBytes hReads hLine).mp hStep]
          at hFold
      · intro hFold
        exact
          ⟨_, (step_iff hBytes hReads hLine).mpr rfl, hFold⟩

end Parser

------------------------------------------------------------
-- Whole Problems
------------------------------------------------------------

/-
  What the header leaves behind is what the lines
  before it left.
-/
theorem Parser.fst_header
    (strictness : Strictness)
    (o : Options)
    (c : Cursor) :
    (Parser.header strictness o c).1 =
      (Parser.preamble strictness true
        { options := o, printed := [] } c).1 := by
  unfold Parser.header
  split <;> simp only [*]

/-
  Nothing behind the first letter of the header
  changes the options.
-/
theorem options_parseProblem
    (strictness : Strictness)
    (o : Options)
    (c : Cursor) :
    (parseProblem strictness o c).options =
      (Parser.preamble strictness true
        { options := o, printed := [] } c).1.options := by
  rw [← Parser.fst_header]
  rcases hRead : Parser.header strictness o c with
    ⟨p, ⟨declared, c₁⟩ | ⟨e, c₁⟩⟩
  · rw [parseProblem_of_header hRead]
    rfl
  · rw [parseProblem_of_refusal hRead]
    rfl

/-
  Whatever a reading comes to, the options it leaves are
  those it was given, changed by the lines before the header
  from the first to the last. In front of a header these are
  the lines before its first letter: comments behind it have
  no say.
-/
theorem parseProblem_options_fold
    (strictness : Strictness)
    (o : Options)
    (c : Cursor) :
    (∃ lead tail, IsLead strictness c.readable lead tail) ∧
      (∀ lead tail,
        IsLead strictness c.readable lead tail →
        ∀ o',
          o.Fold lead o' ↔
          (parseProblem strictness o c).options = o') ∧
      (∀ lead rest,
        (∀ line ∈ lead,
          LeadLine.IsAllowed strictness line) →
        c.readable =
          lead.flatMap LeadLine.bytes ++
            Byte.letterP :: rest →
        ∀ o',
          o.Fold lead o' ↔
          (parseProblem strictness o c).options = o') := by
  have hFold :
      ∀ lead tail,
        IsLead strictness c.readable lead tail →
        ∀ o',
          o.Fold lead o' ↔
          (parseProblem strictness o c).options = o' := by
    intro lead tail hLead o'
    rw [options_parseProblem,
      ← Parser.preamble_fold_iff hLead]
  refine ⟨exists_isLead strictness c.readable, hFold, ?_⟩
  intro lead rest hAllowed hReadable
  apply hFold lead (Byte.letterP :: rest)
  rw [hReadable]
  exact isLead_of_header hAllowed

/-
  A value beyond the range of its setting becomes the
  largest one, and a directive that disables directives is
  the last one that is obeyed.
-/
theorem directive_behind_switch_is_ignored :
    Options.Fold .standard
      [.comment
          [45, 45, 118, 101, 114, 98, 111, 115, 101, 61, 55]
          .lineFeed,
        .comment
          [45, 45, 101, 109, 98, 101, 100, 100, 101, 100,
            61, 48] .carriageReturn,
        .comment [45, 45, 113, 117, 105, 101, 116, 61, 49]
          .lineFeed]
      { Options.standard with
        verbose := 3, embedded := 0 } := by
  have hOptions :
      (parseProblem .normal .standard
        (.ofSource
          (.ofBytes
            [99, 45, 45, 118, 101, 114, 98, 111, 115, 101,
              61, 55, 10, 99, 45, 45, 101, 109, 98, 101,
              100, 100, 101, 100, 61, 48, 13, 10, 99, 45,
              45, 113, 117, 105, 101, 116, 61, 49, 10, 112])
          "")).options =
        { Options.standard with
          verbose := 3, embedded := 0 } := by
    decide +kernel
  refine
    ((parseProblem_options_fold .normal .standard
      _).2.2 _ [] ?_ rfl _).mpr hOptions
  decide +kernel

end Dimacs
