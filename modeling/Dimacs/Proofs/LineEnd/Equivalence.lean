import Dimacs.Proofs.LineEnd.Readers
import Dimacs.Proofs.Problem.Outcome

/-
  A text without carriage returns is read the same way
  whether its lines end with a line feed or with a carriage
  return and a line feed, up to the place and the name of an
  error.

  Key definitions include:
    * `Outcome.Alike`

  Main statements:
    * `Parser.preamble_corresponds`
    * `Parser.header_corresponds`
    * `Parser.body_corresponds`
    * `alike_of_aligned`
    * `returns_are_read_alike`
-/

namespace Dimacs

namespace Parser

open Cursor (Aligned AlignedBehind)

variable {α : Type}
variable {c d : Cursor}

------------------------------------------------------------
-- Both Results
------------------------------------------------------------

/-
  A success on one side is the same success on
  the other side.
-/
theorem Corresponds.of_ok
    {left right : EStateM.Result ParseError Cursor α}
    {a : α}
    (h : Corresponds Agree left right)
    (hLeft : left = .ok a c) :
    ∃ d, right = .ok a d ∧ c.Aligned d := by
  cases h with
  | ok hAgree =>
      cases hLeft
      rcases hAgree with ⟨rfl, hAligned⟩
      exact ⟨_, rfl, hAligned⟩
  | error e e' c' d' => cases hLeft

theorem Corresponds.of_error
    {left right : EStateM.Result ParseError Cursor α}
    {e : ParseError}
    (h : Corresponds Agree left right)
    (hLeft : left = .error e c) :
    ∃ e' d, right = .error e' d := by
  cases h with
  | ok hAgree => cases hLeft
  | error _ e' _ d' => exact ⟨e', d', rfl⟩

/- So both come to the same verdict, if it is no error. -/
theorem Corresponds.verdict_iff
    {left right : EStateM.Result ParseError Cursor α}
    {a : α}
    (h : Corresponds Agree left right) :
    verdict left = .ok a ↔ verdict right = .ok a := by
  cases h with
  | ok hAgree =>
      rcases hAgree with ⟨rfl, _⟩
      exact Iff.rfl
  | error e e' c' d' => exact iff_of_false nofun nofun

------------------------------------------------------------
-- Lines before the Header
------------------------------------------------------------

/-
  Line by line, both readings record the same directives and
  print the same, even if the header is not reached.
-/
theorem preamble_corresponds
    (strictness : Strictness)
    (atStart : Bool)
    (p : Preamble)
    (h : c.Aligned d) :
    (preamble strictness atStart p c).1 =
        (preamble strictness atStart p d).1 ∧
      Corresponds Agree (preamble strictness atStart p c).2
        (preamble strictness atStart p d).2 := by
  fun_induction preamble strictness atStart p c
      generalizing d with
  | case1 atStart p c c₁ hNext =>
      rcases h.next_end hNext with ⟨d₁, hNext', _⟩
      rw [preamble_of_end hNext']
      exact ⟨rfl, corresponds_fail _ _⟩
  | case2 atStart p c c₁ hNext =>
      rcases h.next_inner hNext (by decide) with
        ⟨d₁, hNext', h₁⟩
      rw [preamble_of_header hNext']
      exact ⟨rfl, .ok ⟨rfl, h₁⟩⟩
  | case3 atStart p c b c₁ hNext hHeader directive c₂ hLine
        ih =>
      rcases h.stops (· = Byte.letterP) (by decide) hNext
          hHeader with
        ⟨b', d₁, hNext', hHeader', hBehind⟩
      have hLines := corresponds_preambleLine strictness
        p.enabled hBehind
      rcases hLines.of_ok hLine with ⟨d₂, hLine', h₂⟩
      rw [preamble_of_line hNext' hHeader' hLine']
      exact ih h₂
  | case4 atStart p c b c₁ hNext hHeader e c₂ hLine =>
      rcases h.stops (· = Byte.letterP) (by decide) hNext
          hHeader with
        ⟨b', d₁, hNext', hHeader', hBehind⟩
      have hLines := corresponds_preambleLine strictness
        p.enabled hBehind
      rcases hLines.of_error hLine with ⟨e', d₂, hLine'⟩
      rw [preamble_of_refusal hNext' hHeader' hLine']
      exact ⟨rfl, .error _ _ _ _⟩

/-
  Both readings come to the same header, with the same
  options in force.
-/
theorem header_corresponds
    (strictness : Strictness)
    (o : Options)
    (h : c.Aligned d) :
    (header strictness o c).1 = (header strictness o d).1 ∧
      Corresponds Agree (header strictness o c).2
        (header strictness o d).2 := by
  unfold header
  rcases preamble_corresponds strictness true
      { options := o, printed := [] } h with
    ⟨hPreamble, hResult⟩
  generalize preamble strictness true
        { options := o, printed := [] } c =
      left at *
  generalize preamble strictness true
        { options := o, printed := [] } d =
      right at *
  rcases left with ⟨p, result⟩
  rcases right with ⟨p', result'⟩
  cases hResult with
  | ok hAgree =>
      exact ⟨hPreamble,
        corresponds_headerLine strictness hAgree.2⟩
  | error e e' c₁ d₁ => exact ⟨hPreamble, .error e e' c₁ d₁⟩

------------------------------------------------------------
-- The Clauses
------------------------------------------------------------

theorem corresponds_accept
    (strictness : Strictness)
    (header : Header)
    (parsed : Nat)
    (negative : Bool)
    (index : Nat)
    (ahead : Option UInt8)
    (h : c.Aligned d) :
    Corresponds Agree
      (accept strictness header parsed negative index ahead
        c)
      (accept strictness header parsed negative index ahead
        d) := by
  apply corresponds_ite
  · intro _
    exact corresponds_failBefore _ _ _ _
  · intro _
    apply corresponds_ite
    · intro _
      exact corresponds_failBefore _ _ _ _
    · intro _
      unfold literal
      cases Check.int32
          (if negative then -(index : Int)
          else (index : Int)) with
      | ok signed => exact .ok ⟨rfl, h⟩
      | error violation => exact .error _ _ c d

theorem corresponds_closeBody
    (strictness : Strictness)
    (header : Header)
    (t : Tally)
    (h : c.Aligned d) :
    Corresponds Agree (closeBody strictness header t c)
      (closeBody strictness header t d) := by
  apply corresponds_ite
  · intro _
    exact corresponds_fail _ _
  · intro _
    apply corresponds_ite
    · intro _
      exact corresponds_fail _ _
    · intro _
      exact .ok ⟨rfl, h⟩

/- Token by token, both readings add the same literals. -/
theorem body_corresponds
    (strictness : Strictness)
    (header : Header)
    (t : Tally)
    (h : c.Aligned d) :
    (body strictness header t c).1 =
        (body strictness header t d).1 ∧
      Corresponds Agree (body strictness header t c).2
        (body strictness header t d).2 := by
  fun_induction body strictness header t c
      generalizing d with
  | case1 t c e c₁ hToken =>
      rcases (corresponds_token strictness h).of_error
          hToken with
        ⟨e', d₁, hToken'⟩
      rw [body_of_error hToken']
      exact ⟨rfl, .error _ _ _ _⟩
  | case2 t c c₁ hToken =>
      rcases (corresponds_token strictness h).of_ok
          hToken with
        ⟨d₁, hToken', h₁⟩
      rw [body_of_finish hToken']
      exact
        ⟨rfl, corresponds_closeBody strictness header t h₁⟩
  | case3 t c c₁ hToken ih =>
      rcases (corresponds_token strictness h).of_ok
          hToken with
        ⟨d₁, hToken', h₁⟩
      rw [body_of_gap hToken']
      exact ih h₁
  | case4 t c negative index ahead c₁ hToken e c₂ hAccept =>
      rcases (corresponds_token strictness h).of_ok
          hToken with
        ⟨d₁, hToken', h₁⟩
      have hAccepts := corresponds_accept strictness header
        t.parsed negative index ahead h₁
      rcases hAccepts.of_error hAccept with
        ⟨e', d₂, hAccept'⟩
      rw [body_of_refusal hToken' hAccept']
      exact ⟨rfl, .error _ _ _ _⟩
  | case5 t c negative index ahead c₁ hToken value c₂
        hAccept ih =>
      rcases (corresponds_token strictness h).of_ok
          hToken with
        ⟨d₁, hToken', h₁⟩
      have hAccepts := corresponds_accept strictness header
        t.parsed negative index ahead h₁
      rcases hAccepts.of_ok hAccept with ⟨d₂, hAccept', h₂⟩
      rw [body_of_numeral hToken' hAccept']
      exact ih h₂

end Parser

------------------------------------------------------------
-- Whole Problems
------------------------------------------------------------

/-
  Both readings succeed with the same, or both fail. In any
  case they tell the storage the same, leave the same
  options and print the same.
-/
structure Outcome.Alike
    (left right : Outcome) : Prop where
  result :
      ∀ summary,
        left.result = .ok summary ↔
        right.result = .ok summary
  events : left.events = right.events
  options : left.options = right.options
  printed : left.printed = right.printed

namespace Outcome

variable {p : Preamble}
variable {declared : Header}

/-
  Without a header nothing succeeds, and nothing is told
  to the storage.
-/
theorem alike_early
    (p : Preamble)
    (e e' : ParseError)
    (c d : Cursor) :
    Alike (.early p e c) (.early p e' d) where
  result := by
    intro summary
    apply iff_of_false
    · intro hOk
      rcases settle_ok_iff.mp hOk with ⟨_, hSame, _⟩
      cases hSame
    · intro hOk
      rcases settle_ok_iff.mp hOk with ⟨_, hSame, _⟩
      cases hSame
  events := rfl
  options := rfl
  printed := rfl

/-
  Behind the same header, corresponding clauses have
  the same outcome.
-/
theorem alike_complete
    {t : Tally}
    {left right : EStateM.Result ParseError Cursor Nat}
    (h : Parser.Corresponds Parser.Agree left right)
    (hLeft : (Parser.endOf left).failure = none)
    (hRight : (Parser.endOf right).failure = none) :
    Alike (.complete p declared t left)
      (.complete p declared t right) where
  result := by
    intro summary
    rw [result_complete_ok_iff hLeft,
      result_complete_ok_iff hRight, h.verdict_iff]
  events := rfl
  options := rfl
  printed := rfl

end Outcome

/-
  Aligned cursors without failures lead to the same outcome.
-/
theorem alike_of_aligned
    {c d : Cursor}
    (strictness : Strictness)
    (o : Options)
    (h : c.Aligned d)
    (hFree : c.IsFailureFree)
    (hFree' : d.IsFailureFree) :
    Outcome.Alike (parseProblem strictness o c)
      (parseProblem strictness o d) := by
  have hInvariant := Cursor.isInvariant_isFailureFree
  have hKept :=
    Parser.header_keeps hInvariant strictness o hFree
  have hKept' :=
    Parser.header_keeps hInvariant strictness o hFree'
  rcases Parser.header_corresponds strictness o h with
    ⟨hPreamble, hHeaders⟩
  rcases hLeft : Parser.header strictness o c with ⟨p, left⟩
  rcases hRight : Parser.header strictness o d with
    ⟨p', right⟩
  rw [hLeft, hRight] at hPreamble hHeaders
  rw [hLeft] at hKept
  rw [hRight] at hKept'
  change p = p' at hPreamble
  subst hPreamble
  cases hHeaders with
  | error e e' c₁ d₁ =>
      rw [parseProblem_of_refusal hLeft,
        parseProblem_of_refusal hRight]
      exact Outcome.alike_early p e e' c₁ d₁
  | ok hAgree =>
      rcases hAgree with ⟨rfl, h₁⟩
      rw [parseProblem_of_header hLeft,
        parseProblem_of_header hRight]
      rcases Parser.body_corresponds strictness _ .empty
          h₁ with
        ⟨hTally, hBodies⟩
      rw [← hTally]
      apply Outcome.alike_complete hBodies
      · exact (Parser.body_keeps hInvariant strictness _
          .empty hKept).1
      · exact (Parser.body_keeps hInvariant strictness _
          .empty hKept').1

/-
  The line ends of a text without carriage returns can be
  replaced: at every degree of strictness and with all
  options, the text with a carriage return in front of every
  line feed is read like the text itself.
-/
theorem returns_are_read_alike
    (strictness : Strictness)
    (o : Options)
    (bytes : List UInt8)
    (name : String)
    (hPlain : Byte.carriageReturn ∉ bytes) :
    Outcome.Alike
      (parseProblem strictness o
        (.ofSource (.ofBytes bytes) name))
      (parseProblem strictness o
        (.ofSource (.ofBytes (withReturns bytes))
          name)) := by
  apply alike_of_aligned
  · exact Cursor.aligned_ofBytes hPlain name
  · exact Cursor.isFailureFree_ofBytes bytes name
  · exact Cursor.isFailureFree_ofBytes (withReturns bytes)
      name

/-
  A directive and a clause without its zero, with
  both line ends.
-/
theorem returns_in_directive_are_read_alike :
    Byte.carriageReturn ∉
      [99, 45, 45, 113, 117, 105, 101, 116, 61, 49, 10, 112,
        32, 99, 110, 102, 32, 49, 32, 49, 10, 49, 10] ∧
    Outcome.Alike
      (parseProblem .pedantic .standard
        (.ofSource
          (.ofBytes
            [99, 45, 45, 113, 117, 105, 101, 116, 61, 49,
              10, 112, 32, 99, 110, 102, 32, 49, 32, 49, 10,
              49, 10]) ""))
      (parseProblem .pedantic .standard
        (.ofSource
          (.ofBytes
            [99, 45, 45, 113, 117, 105, 101, 116, 61, 49,
              13, 10, 112, 32, 99, 110, 102, 32, 49, 32, 49,
              13, 10, 49, 13, 10]) "")) := by
  have hPlain :
      Byte.carriageReturn ∉
        [99, 45, 45, 113, 117, 105, 101, 116, 61, 49, 10,
          112, 32, 99, 110, 102, 32, 49, 32, 49, 10, 49,
          10] := by
    decide
  exact ⟨hPlain,
    returns_are_read_alike .pedantic .standard _ "" hPlain⟩

end Dimacs
