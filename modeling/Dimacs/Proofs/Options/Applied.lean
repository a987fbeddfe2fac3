import Dimacs.Proofs.Header.Steps
import Dimacs.Proofs.Options.Directives

/-
  The directives that a reading applies, as a list: one for
  each comment line in which a directive was read, in order,
  up to the header or to the line that is refused. Options
  and notices are those of the list, from its first entry to
  its last.

  Key definitions include:
    * `Options.obeying`
    * `Parser.directives`

  Main statements:
    * `Parser.preamble_eq_foldl`
    * `options_parseProblem_eq`
-/

namespace Dimacs

/- The options after several directives. -/
def Options.obeying
    (o : Options)
    (directives : List Directive) : Options :=
  directives.foldl (fun o d => d.apply o) o

namespace Parser

/-
  The directives in the lines before the header. Which lines
  are read as directives depends on those before them, since
  a directive may disable the others.
-/
def directives
    (strictness : Strictness)
    (o : Options)
    (c : Cursor) : List Directive :=
  match _h : c.next with
  | (none, _) => []
  | (some b, c') =>
      if b = Byte.letterP then []
      else
        match _hLine : preambleLine strictness
            (decide (o.embedded ≠ 0)) b c' with
        | .ok (some d) c'' =>
            d :: directives strictness (d.apply o) c''
        | .ok none c'' => directives strictness o c''
        | .error _ _ => []
termination_by c.remaining
decreasing_by
  all_goals
    exact Nat.lt_of_le_of_lt
      (advances_preambleLine _ _ _ _ _ _ _hLine)
      (Cursor.remaining_lt_of_next _h)

variable {strictness : Strictness}
variable {o : Options}
variable {b : UInt8}
variable {c c₁ c' : Cursor}

theorem directives_of_end
    (hNext : c.next = (none, c')) :
    directives strictness o c = [] := by
  rw [directives]
  split <;> simp_all

theorem directives_of_header
    (hNext : c.next = (some Byte.letterP, c')) :
    directives strictness o c = [] := by
  rw [directives]
  split <;> simp_all

theorem directives_of_line
    {directive : Option Directive}
    (hNext : c.next = (some b, c₁))
    (hHeader : b ≠ Byte.letterP)
    (hLine :
      preambleLine strictness (decide (o.embedded ≠ 0)) b
          c₁ =
        .ok directive c') :
    directives strictness o c =
      directive.toList ++
        directives strictness (o.obeying directive.toList)
          c' := by
  rw [directives]
  cases directive <;> (split <;> simp_all) <;> split <;>
    simp_all [Options.obeying]

theorem directives_of_refusal
    {e : ParseError}
    (hNext : c.next = (some b, c₁))
    (hHeader : b ≠ Byte.letterP)
    (hLine :
      preambleLine strictness (decide (o.embedded ≠ 0)) b
          c₁ =
        .error e c') :
    directives strictness o c = [] := by
  rw [directives]
  split <;> simp_all
  split <;> simp_all

/-
  Recording a line records the directive in it, if
  there is one.
-/
theorem record_eq_foldl
    (p : Preamble)
    (directive : Option Directive) :
    p.record directive =
      directive.toList.foldl (fun p d => p.record (some d))
        p := by
  cases directive <;> rfl

theorem options_foldl_record
    (p : Preamble)
    (directives : List Directive) :
    (directives.foldl (fun p d => p.record (some d))
        p).options =
      p.options.obeying directives := by
  induction directives generalizing p with
  | nil => rfl
  | cons d directives ih => exact ih (p.record (some d))

/-
  What the lines before the header leave behind is due
  to their directives.
-/
theorem preamble_eq_foldl
    (strictness : Strictness)
    (atStart : Bool)
    (p : Preamble)
    (c : Cursor) :
    (preamble strictness atStart p c).1 =
      (directives strictness p.options c).foldl
        (fun p d => p.record (some d)) p := by
  fun_induction preamble strictness atStart p c with
  | case1 atStart p c c₁ hNext =>
      rw [directives_of_end hNext, List.foldl_nil]
  | case2 atStart p c c₁ hNext =>
      rw [directives_of_header hNext, List.foldl_nil]
  | case3 atStart p c b c₁ hNext hHeader directive c₂ hLine
        ih =>
      rw [directives_of_line hNext hHeader hLine,
        List.foldl_append, ← record_eq_foldl, ih,
        record_eq_foldl, options_foldl_record]
  | case4 atStart p c b c₁ hNext hHeader e c₂ hLine =>
      rw [directives_of_refusal hNext hHeader hLine,
        List.foldl_nil]

end Parser

/-
  The options behind a reading are those after
  all its directives.
-/
theorem options_parseProblem_eq
    (strictness : Strictness)
    (o : Options)
    (c : Cursor) :
    (parseProblem strictness o c).options =
      o.obeying (Parser.directives strictness o c) := by
  rw [options_parseProblem, Parser.preamble_eq_foldl,
    Parser.options_foldl_record]

end Dimacs
