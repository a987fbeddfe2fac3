import Dimacs.Proofs.Clauses.Grammar
import Dimacs.Proofs.Strictness.Grading

/-
  What an accepted problem looks like as a text: admitted
  lines and a header line, and behind them the items of the
  clause grammar.

  Key definitions include:
    * `ProblemText`

  Main statements:
    * `exists_text_of_body`
    * `exists_text_of_ok`
-/

namespace Dimacs

/- A text up to its header line, and the items behind it. -/
structure ProblemText where
  head : HeaderText
  items : List ClauseItem

namespace ProblemText

/- The bytes of the text. -/
def bytes
    (text : ProblemText) : List UInt8 :=
  text.head.bytes ++ clauseBytes text.items

/- Both parts of the text are in order. -/
structure IsAllowed
    (strictness : Strictness)
    (text : ProblemText) : Prop where
  head : text.head.IsAllowed strictness
  items : IsClauseText text.items

end ProblemText

variable {strictness : Strictness}
variable {c c' : Cursor}

/-
  Clauses that are read at any degree are a text
  of the grammar.
-/
theorem exists_text_of_body
    {header : Header}
    {t : Tally}
    {parsed : Nat}
    (hBody :
      Parser.body strictness header .empty c =
        (t, .ok parsed c')) :
    ∃ items,
      IsClauseText items ∧
      clauseBytes items = c.readable := by
  have hRelaxed :
      Parser.body .relaxed header .empty c =
        (t, .ok parsed c') :=
    (Parser.body_graded strictness.le_relaxed header .empty
        c).2 t parsed c' hBody
  rcases Parser.exists_clauseText_of_body hRelaxed with
    ⟨items, hText, hBytes, _⟩
  exact ⟨items, hText, hBytes⟩

/-
  What can be read in front of an accepted reading is
  such a text.
-/
theorem exists_text_of_ok
    {o : Options}
    {summary : Summary}
    (hOk :
      (parseProblem strictness o c).result = .ok summary) :
    ∃ text : ProblemText,
      text.IsAllowed strictness ∧
      c.readable = text.bytes := by
  rcases parseProblem_ok_iff.mp hOk with
    ⟨p, c₁, t, c₂, hHeader, hBody, _⟩
  rcases Parser.header_ok_iff.mp ⟨p, hHeader⟩ with
    ⟨head, hHead, _, hReads⟩
  rcases exists_text_of_body hBody with
    ⟨items, hItems, hBytes⟩
  refine ⟨⟨head, items⟩, ⟨hHead, hItems⟩, ?_⟩
  rw [Cursor.readable_of_reads hReads, ← hBytes,
    ProblemText.bytes]

end Dimacs
