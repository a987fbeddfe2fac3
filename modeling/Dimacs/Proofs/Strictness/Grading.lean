import Dimacs.Proofs.Problem.Outcome
import Dimacs.Proofs.Strictness.Readers

/-
  The degrees of strictness are graded: a stricter
  reading tells the storage the beginning of what a
  laxer one tells it, and if it succeeds, the laxer one
  has the same outcome.

  Main statements:
    * `Parser.events_prefix_body`
    * `Parser.body_graded`
    * `parseProblem_graded`
-/

namespace Dimacs

namespace Parser

variable {header : Header}

/-
  The events of a run continue the events that came before.
-/
theorem events_prefix_body
    (strictness : Strictness)
    (header : Header)
    (t : Tally)
    (c : Cursor) :
    t.events.toList <+:
      (body strictness header t c).1.events.toList := by
  fun_induction body strictness header t c with
  | case1 t c e c₁ hToken => exact List.prefix_refl _
  | case2 t c c₁ hToken => exact List.prefix_refl _
  | case3 t c c₁ hToken ih => exact ih
  | case4 t c negative index ahead c₁ hToken e c₂ hAccept =>
      exact List.prefix_refl _
  | case5 t c negative index ahead c₁ hToken value c₂
        hAccept ih =>
      have hAdded :
          t.events.toList <+:
            (t.add value).events.toList := by
        rw [Tally.add, Array.toList_push]
        exact List.prefix_append _ _
      exact hAdded.trans ih

/-
  Until the stricter reading refuses, both readings see the
  same tokens and add the same literals.
-/
theorem body_graded
    {strict lax : Strictness}
    (hLe : strict ≤ lax)
    (header : Header)
    (t : Tally)
    (c : Cursor) :
    (body strict header t c).1.events.toList <+:
        (body lax header t c).1.events.toList ∧
      ∀ t' parsed c',
        body strict header t c = (t', .ok parsed c') →
        body lax header t c = (t', .ok parsed c') := by
  fun_induction body strict header t c with
  | case1 t c e c₁ hToken =>
      refine ⟨events_prefix_body lax header t c, ?_⟩
      intro t' parsed c' hRun
      cases hRun
  | case2 t c c₁ hToken =>
      rw [body_of_finish (refines_token hLe _ _ _ hToken)]
      refine ⟨List.prefix_refl _, ?_⟩
      intro t' parsed c' hRun
      rcases Prod.mk.inj hRun with ⟨rfl, hClose⟩
      exact congrArg _
        (refines_closeBody hLe header t _ _ _ hClose)
  | case3 t c c₁ hToken ih =>
      rw [body_of_gap (refines_token hLe _ _ _ hToken)]
      exact ih
  | case4 t c negative index ahead c₁ hToken e c₂ hAccept =>
      refine ⟨events_prefix_body lax header t c, ?_⟩
      intro t' parsed c' hRun
      cases hRun
  | case5 t c negative index ahead c₁ hToken value c₂
        hAccept ih =>
      rw [body_of_numeral (refines_token hLe _ _ _ hToken)
        (refines_accept hLe header t.parsed negative index
          ahead _ _ _ hAccept)]
      exact ih

end Parser

/-
  A stricter reading sends the beginning of the events of a
  laxer one. If it succeeds, the laxer reading succeeds with
  the same outcome as a whole.
-/
theorem parseProblem_graded
    {strict lax : Strictness}
    (hLe : strict ≤ lax)
    (o : Options)
    (c : Cursor) :
    (parseProblem strict o c).events <+:
        (parseProblem lax o c).events ∧
      ∀ summary,
        (parseProblem strict o c).result = .ok summary →
        parseProblem lax o c = parseProblem strict o c := by
  constructor
  · rcases hHeader : Parser.header strict o c with
      ⟨p, ⟨declared, c₁⟩ | ⟨e, c₁⟩⟩
    · rw [parseProblem_of_header hHeader,
        parseProblem_of_header
          (Parser.header_refines hLe hHeader)]
      exact (List.prefix_cons_inj _).mpr
        (Parser.body_graded hLe declared .empty c₁).1
    · rw [parseProblem_of_refusal hHeader]
      exact List.nil_prefix
  · intro summary hResult
    rcases parseProblem_ok_iff.mp hResult with
      ⟨p, c₁, t, c₂, hHeader, hBody, _⟩
    have hBody' :=
      (Parser.body_graded hLe summary.header .empty c₁).2 _
        _ _ hBody
    rw [parseProblem_of_header hHeader,
      parseProblem_of_header
        (Parser.header_refines hLe hHeader), hBody, hBody']

/-
  What pedantic reading accepts has one outcome for all
  degrees, here a comment and a problem with one clause.
-/
theorem pedantic_outcome_is_relaxed_outcome :
    ∃ c : Cursor,
      c.readable =
        [99, 32, 120, 10, 112, 32, 99, 110, 102, 32, 50, 32,
          49, 10, 49, 32, 45, 50, 32, 48, 10] ∧
      Strictness.pedantic ≤ Strictness.relaxed ∧
      (parseProblem .pedantic .standard c).events =
        [.reserve 2, .add 1, .add (-2), .add 0] ∧
      parseProblem .relaxed .standard c =
        parseProblem .pedantic .standard c := by
  have hLe : Strictness.pedantic ≤ Strictness.relaxed := by
    decide
  have hGraded := parseProblem_graded hLe .standard
    (.ofSource
      (.ofBytes
        [99, 32, 120, 10, 112, 32, 99, 110, 102, 32, 50, 32,
          49, 10, 49, 32, 45, 50, 32, 48, 10])
      "")
  exact ⟨_, rfl, hLe, by decide +kernel,
    hGraded.2 ⟨⟨2, 1⟩, 1⟩ (by decide +kernel)⟩

end Dimacs
