import Dimacs.Proofs.Header.Comment
import Dimacs.Proofs.Problem.Outcome

/-
  Options have no say in what is read. A comment line is
  passed the same way whether or not directives are read in
  it, so two readings of one source that start from
  different options go together to the last byte.

  Main statements:
    * `Parser.outline_preambleLine`
    * `Parser.preamble_indifferent`
    * `Parser.header_indifferent`
    * `parseProblem_indifferent_to_options`
-/

namespace Dimacs

namespace Parser

variable {α : Type}
variable {c : Cursor}

------------------------------------------------------------
-- Lines before the Header
------------------------------------------------------------

theorem outline_error_iff
    {r : EStateM.Result ParseError Cursor α}
    {e : ParseError} :
    outline r = .error e c ↔ r = .error e c := by
  cases r <;> simp [outline]

/-
  A line is passed the same way, whether directives are
  read or not.
-/
theorem outline_preambleLine
    (strictness : Strictness)
    (enabled enabled' : Bool)
    (first : UInt8)
    (c : Cursor) :
    outline (preambleLine strictness enabled first c) =
      outline
        (preambleLine strictness enabled' first c) := by
  by_cases hComment : first = Byte.letterC
  · subst hComment
    have hLine :
        ∀ enabled,
          preambleLine strictness enabled Byte.letterC c =
            headerComment enabled c := by
      intro enabled
      rfl
    rw [hLine, hLine, outline_headerComment,
      outline_headerComment]
  · simp only [preambleLine, if_neg hComment]

/-
  The lines before the header end at the same place and in
  the same way, whatever the options are on the way.
-/
theorem preamble_indifferent
    (strictness : Strictness)
    (atStart : Bool)
    (p p' : Preamble)
    (c : Cursor) :
    (preamble strictness atStart p c).2 =
      (preamble strictness atStart p' c).2 := by
  fun_induction preamble strictness atStart p c
      generalizing p' with
  | case1 atStart p c c₁ hNext => rw [preamble_of_end hNext]
  | case2 atStart p c c₁ hNext =>
      rw [preamble_of_header hNext]
  | case3 atStart p c b c₁ hNext hHeader directive c₂ hLine
        ih =>
      have hOutline := outline_preambleLine strictness
        p.enabled p'.enabled b c₁
      rw [hLine] at hOutline
      rcases outline_ok_iff.mp hOutline.symm with
        ⟨directive', hLine'⟩
      rw [preamble_of_line hNext hHeader hLine']
      exact ih (p'.record directive')
  | case4 atStart p c b c₁ hNext hHeader e c₂ hLine =>
      have hOutline := outline_preambleLine strictness
        p.enabled p'.enabled b c₁
      rw [hLine] at hOutline
      have hLine' := outline_error_iff.mp hOutline.symm
      rw [preamble_of_refusal hNext hHeader hLine']

/- The header is the same for all options. -/
theorem header_indifferent
    (strictness : Strictness)
    (o o' : Options)
    (c : Cursor) :
    (header strictness o c).2 =
      (header strictness o' c).2 := by
  have hPreamble := preamble_indifferent strictness true
    { options := o, printed := [] }
    { options := o', printed := [] } c
  unfold header
  generalize preamble strictness true
        { options := o, printed := [] } c =
      left at hPreamble ⊢
  generalize preamble strictness true
        { options := o', printed := [] } c =
      right at hPreamble ⊢
  rcases left with ⟨p, u | e⟩
  · rcases right with ⟨p', result⟩
    cases hPreamble
    rfl
  · rcases right with ⟨p', result⟩
    cases hPreamble
    rfl

end Parser

------------------------------------------------------------
-- Whole Problems
------------------------------------------------------------

/-
  Any two options lead to the same result and the same
  events, and leave the same cursor: the same bytes are
  consumed, and the same line is reached.
-/
theorem parseProblem_indifferent_to_options
    (strictness : Strictness)
    (o o' : Options)
    (c : Cursor) :
    (parseProblem strictness o c).result =
        (parseProblem strictness o' c).result ∧
      (parseProblem strictness o c).events =
        (parseProblem strictness o' c).events ∧
      (parseProblem strictness o c).cursor =
        (parseProblem strictness o' c).cursor := by
  have hHeader :=
    Parser.header_indifferent strictness o o' c
  rcases hLeft : Parser.header strictness o c with
    ⟨p, ⟨declared, c₁⟩ | ⟨e, c₁⟩⟩
  · rcases hRight : Parser.header strictness o' c with
      ⟨p', result⟩
    rw [hLeft, hRight] at hHeader
    cases hHeader
    rw [parseProblem_of_header hLeft,
      parseProblem_of_header hRight]
    exact ⟨rfl, rfl, rfl⟩
  · rcases hRight : Parser.header strictness o' c with
      ⟨p', result⟩
    rw [hLeft, hRight] at hHeader
    cases hHeader
    rw [parseProblem_of_refusal hLeft,
      parseProblem_of_refusal hRight]
    exact ⟨rfl, rfl, rfl⟩

end Dimacs
