import Dimacs.Proofs.Clauses.Steps
import Dimacs.Proofs.Header.Grammar

/-
  What strictness changes in the readers. Normal and relaxed
  reading share the tokens and everything before the
  clauses. Pedantic reading refuses more, but where it
  succeeds it reads what every other reading reads.

  Key definitions include:
    * `Strictness.rank`
    * `Parser.Refines`

  Main statements:
    * `Parser.token_of_lax`
    * `Parser.header_of_lax`
    * `Parser.refines_token`
    * `Parser.refines_headerLine`
    * `Parser.header_refines`
-/

namespace Dimacs

namespace Strictness

------------------------------------------------------------
-- The Order of the Degrees
------------------------------------------------------------

/- How much a degree tolerates. -/
def rank : Strictness → Nat
  | pedantic => 0
  | normal => 1
  | relaxed => 2

/- A degree is below another one if it tolerates less. -/
instance : LE Strictness where
  le strict lax := strict.rank ≤ lax.rank

instance (strict lax : Strictness) :
    Decidable (strict ≤ lax) :=
  inferInstanceAs (Decidable (strict.rank ≤ lax.rank))

/- Relaxed reading tolerates most. -/
theorem le_relaxed
    (strictness : Strictness) :
    strictness ≤ relaxed := by
  cases strictness <;> decide

theorem isPedantic_of_le
    {strict lax : Strictness}
    (hLe : strict ≤ lax)
    (hPedantic : lax.IsPedantic) :
    strict.IsPedantic := by
  cases hPedantic
  cases strict with
  | pedantic => rfl
  | normal => exact absurd hLe (by decide)
  | relaxed => exact absurd hLe (by decide)

theorem isRelaxed_of_le
    {strict lax : Strictness}
    (hLe : strict ≤ lax)
    (hRelaxed : strict.IsRelaxed) :
    lax.IsRelaxed := by
  cases hRelaxed
  cases lax with
  | pedantic => exact absurd hLe (by decide)
  | normal => exact absurd hLe (by decide)
  | relaxed => rfl

end Strictness

namespace Parser

variable {α β : Type}
variable {strictness : Strictness}

------------------------------------------------------------
-- Normal and Relaxed Reading
------------------------------------------------------------

theorem clauseComment_of_lax
    (hLax : ¬ strictness.IsPedantic)
    (fault : Fault) :
    clauseComment strictness fault =
      clauseComment .relaxed fault := by
  have hRelaxed := Strictness.not_isPedantic_relaxed
  funext c
  fun_induction clauseComment strictness fault c with
  | case1 c c₁ hNext =>
      rw [clauseComment, hNext]
      rfl
  | case2 c b c₁ hNext hFeed ih =>
      rw [clauseComment.eq_def .relaxed fault c, hNext]
      simp only [if_neg hFeed]
      exact ih
  | case3 c c₁ hNext hPedantic =>
      exact absurd hPedantic hLax
  | case4 c c₁ hNext hPedantic =>
      rw [clauseComment, hNext]
      exact (if_neg hRelaxed).symm

theorem afterNumeral_of_lax
    (hLax : ¬ strictness.IsPedantic)
    (index : Nat)
    (ahead : Option UInt8) :
    afterNumeral strictness index ahead =
      afterNumeral .relaxed index ahead := by
  have hRelaxed := Strictness.not_isPedantic_relaxed
  rcases ahead with _ | b
  · rw [afterNumeral, if_neg hLax, afterNumeral,
      if_neg hRelaxed]
  · rw [afterNumeral, clauseComment_of_lax hLax,
      afterNumeral]

theorem numeral_of_lax
    (hLax : ¬ strictness.IsPedantic)
    (negative : Bool)
    (first : UInt8) :
    numeral strictness negative first =
      numeral .relaxed negative first := by
  unfold numeral
  simp only [afterNumeral_of_lax hLax]

/-
  Without pedantry the tokens of a text do not depend
  on the strictness.
-/
theorem token_of_lax
    (hLax : ¬ strictness.IsPedantic) :
    token strictness = token .relaxed := by
  unfold token tokenFrom
  simp only [clauseComment_of_lax hLax, numeral_of_lax hLax]

theorem fieldStart_of_lax
    (hLax : ¬ strictness.IsPedantic) :
    fieldStart strictness = fieldStart .relaxed := by
  have hRelaxed := Strictness.not_isPedantic_relaxed
  rw [fieldStart, if_neg hLax, fieldStart, if_neg hRelaxed]

theorem headerLine_of_lax
    (hLax : ¬ strictness.IsPedantic) :
    headerLine strictness = headerLine .relaxed := by
  have hRelaxed := Strictness.not_isPedantic_relaxed
  have hEnd :
      ∀ ahead,
        afterClauses strictness ahead =
          afterClauses .relaxed ahead := by
    intro ahead
    rw [afterClauses_eq, afterClauses_eq, if_neg hLax,
      if_neg hRelaxed]
  unfold headerLine formatName
  simp only [fieldStart_of_lax hLax, hEnd]

theorem preambleLine_of_lax
    (hLax : ¬ strictness.IsPedantic)
    (enabled : Bool)
    (first : UInt8) :
    preambleLine strictness enabled first =
      preambleLine .relaxed enabled first := by
  have hRelaxed := Strictness.not_isPedantic_relaxed
  simp only [preambleLine, if_neg hLax, if_neg hRelaxed]

theorem preamble_of_lax
    (hLax : ¬ strictness.IsPedantic)
    (atStart : Bool)
    (p : Preamble)
    (c : Cursor) :
    preamble strictness atStart p c =
      preamble .relaxed atStart p c := by
  fun_induction preamble strictness atStart p c with
  | case1 atStart p c c₁ hNext => rw [preamble_of_end hNext]
  | case2 atStart p c c₁ hNext =>
      rw [preamble_of_header hNext]
  | case3 atStart p c b c₁ hNext hHeader directive c₂ hLine
        ih =>
      rw [preambleLine_of_lax hLax] at hLine
      rw [preamble_of_line hNext hHeader hLine]
      exact ih
  | case4 atStart p c b c₁ hNext hHeader e c₂ hLine =>
      rw [preambleLine_of_lax hLax] at hLine
      rw [preamble_of_refusal hNext hHeader hLine]

/-
  Without pedantry the header does not depend
  on the strictness.
-/
theorem header_of_lax
    (hLax : ¬ strictness.IsPedantic)
    (o : Options)
    (c : Cursor) :
    header strictness o c = header .relaxed o c := by
  unfold header
  rw [preamble_of_lax hLax, headerLine_of_lax hLax]

------------------------------------------------------------
-- Refinement
------------------------------------------------------------

/-
  Where the first reader succeeds, the other one
  reads the same.
-/
def Refines
    (p q : Parser α) : Prop :=
  ∀ c a c', p c = .ok a c' → q c = .ok a c'

theorem refines_refl
    (p : Parser α) :
    Refines p p := by
  intro c a c' h
  exact h

theorem refines_fail
    (fault : Fault)
    (q : Parser α) :
    Refines (fail fault) q := by
  intro c a c' h
  exact absurd h fail_ne_ok

theorem refines_failBefore
    (ahead : Option UInt8)
    (fault : Fault)
    (q : Parser α) :
    Refines (failBefore ahead fault) q := by
  intro c a c' h
  exact absurd h failBefore_ne_ok

theorem refines_bind
    {p q : Parser α}
    {f g : α → Parser β}
    (hFirst : Refines p q)
    (hRest : ∀ a, Refines (f a) (g a)) :
    Refines (p >>= f) (q >>= g) := by
  intro c b c' h
  rcases bind_ok_iff.mp h with ⟨a, c₁, hRun, hRun'⟩
  exact bind_ok_iff.mpr
    ⟨a, c₁, hFirst c a c₁ hRun, hRest a c₁ b c' hRun'⟩

theorem refines_ite
    {condition : Prop}
    [Decidable condition]
    {p q p' q' : Parser α}
    (hThen : Refines p p')
    (hElse : Refines q q') :
    Refines (if condition then p else q)
      (if condition then p' else q') := by
  by_cases hCondition : condition
  · rw [if_pos hCondition, if_pos hCondition]
    exact hThen
  · rw [if_neg hCondition, if_neg hCondition]
    exact hElse

/-
  A condition under which the stricter reader refuses
  may be dropped.
-/
theorem refines_ite_of_imp
    {condition condition' : Prop}
    [Decidable condition]
    [Decidable condition']
    {p q p' q' : Parser α}
    (hImp : condition' → condition)
    (hRefuses : ∀ r, Refines p r)
    (hElse : Refines q q') :
    Refines (if condition then p else q)
      (if condition' then p' else q') := by
  by_cases hCondition : condition
  · rw [if_pos hCondition]
    exact hRefuses _
  · rw [if_neg hCondition, if_neg (mt hImp hCondition)]
    exact hElse

section

variable {strict lax : Strictness}
variable (hLe : strict ≤ lax)

include hLe

------------------------------------------------------------
-- Tokens
------------------------------------------------------------

theorem refines_clauseComment
    (fault : Fault) :
    Refines (clauseComment strict fault)
      (clauseComment lax fault) := by
  intro c a c' h
  fun_induction clauseComment strict fault c with
  | case1 c c₁ hNext =>
      rw [clauseComment, hNext]
      exact h
  | case2 c b c₁ hNext hFeed ih =>
      rw [clauseComment.eq_def lax fault c, hNext]
      simp only [if_neg hFeed]
      exact ih h
  | case3 c c₁ hNext hPedantic => exact absurd h fail_ne_ok
  | case4 c c₁ hNext hPedantic =>
      rw [clauseComment, hNext]
      simp only [if_neg
        (mt (Strictness.isPedantic_of_le hLe) hPedantic)]
      exact h

theorem refines_afterNumeral
    (index : Nat)
    (ahead : Option UInt8) :
    Refines (afterNumeral strict index ahead)
      (afterNumeral lax index ahead) := by
  rcases ahead with _ | b
  · exact refines_ite_of_imp
      (Strictness.isPedantic_of_le hLe) (refines_fail _)
      (refines_refl _)
  · exact refines_ite (refines_refl _)
      (refines_ite (refines_clauseComment hLe _)
        (refines_refl _))

theorem refines_numeral
    (negative : Bool)
    (first : UInt8) :
    Refines (numeral strict negative first)
      (numeral lax negative first) :=
  refines_bind (refines_refl _) fun _ =>
    refines_bind (refines_afterNumeral hLe _ _) fun _ =>
      refines_refl _

/-
  A stricter reading tells the same tokens, if it
  does not refuse.
-/
theorem refines_token :
    Refines (token strict) (token lax) :=
  refines_bind (refines_refl _) fun ahead => by
    rcases ahead with _ | b
    · exact refines_refl _
    · exact refines_ite (refines_refl _)
        (refines_ite (refines_refl _)
          (refines_ite
            (refines_bind (refines_clauseComment hLe _)
              fun _ => refines_refl _)
            (refines_ite
              (refines_bind (refines_refl _) fun _ =>
                refines_numeral hLe _ _)
              (refines_ite (refines_numeral hLe _ _)
                (refines_refl _)))))

theorem refines_accept
    (header : Header)
    (parsed : Nat)
    (negative : Bool)
    (index : Nat)
    (ahead : Option UInt8) :
    Refines
      (accept strict header parsed negative index ahead)
      (accept lax header parsed negative index ahead) := by
  have hRelaxed := Strictness.isRelaxed_of_le hLe
  refine refines_ite_of_imp ?_ (refines_failBefore _ _) ?_
  · intro h
    exact ⟨mt hRelaxed h.1, h.2⟩
  · refine refines_ite_of_imp ?_ (refines_failBefore _ _)
      (refines_refl _)
    intro h
    exact ⟨mt hRelaxed h.1, h.2⟩

theorem refines_closeBody
    (header : Header)
    (t : Tally) :
    Refines (closeBody strict header t)
      (closeBody lax header t) := by
  refine refines_ite (refines_refl _)
    (refines_ite_of_imp ?_ (refines_fail _)
      (refines_refl _))
  intro h
  exact ⟨mt (Strictness.isRelaxed_of_le hLe) h.1, h.2⟩

------------------------------------------------------------
-- The Header
------------------------------------------------------------

theorem isGap_of_le
    {gap : List UInt8}
    (hGap : IsGap strict gap) :
    IsGap lax gap := by
  refine ⟨hGap.1, ?_⟩
  intro hPedantic
  exact hGap.2 (Strictness.isPedantic_of_le hLe hPedantic)

theorem isAllowed_of_le
    {line : HeaderLine}
    (hAllowed : line.IsAllowed strict) :
    line.IsAllowed lax where
  formatGap := isGap_of_le hLe hAllowed.formatGap
  variablesGap := isGap_of_le hLe hAllowed.variablesGap
  variableDigits := hAllowed.variableDigits
  clausesGap := isGap_of_le hLe hAllowed.clausesGap
  clauseDigits := hAllowed.clauseDigits
  closingGap := isGap_of_le hLe hAllowed.closingGap

/-
  A header line without superfluous blanks is read
  at every degree.
-/
theorem refines_headerLine :
    Refines (headerLine strict) (headerLine lax) := by
  intro c header c' h
  rcases headerLine_ok_iff.mp h with
    ⟨line, hAllowed, hHeader, hReads⟩
  exact headerLine_ok_iff.mpr
    ⟨line, isAllowed_of_le hLe hAllowed, hHeader, hReads⟩

theorem refines_preambleLine
    (enabled : Bool)
    (first : UInt8) :
    Refines (preambleLine strict enabled first)
      (preambleLine lax enabled first) := by
  have hBlank :
      Refines
        (if strict.IsPedantic then
          failBefore (some Byte.lineFeed) .emptyLine
        else pure none)
        (if lax.IsPedantic then
          failBefore (some Byte.lineFeed) .emptyLine
        else pure (none : Option Directive)) :=
    refines_ite_of_imp (Strictness.isPedantic_of_le hLe)
      (refines_failBefore _ _) (refines_refl _)
  exact refines_ite
    (refines_bind (refines_refl _) fun _ => hBlank)
    (refines_ite hBlank (refines_refl _))

theorem preamble_refines
    {atStart : Bool}
    {p p' : Preamble}
    {c c' : Cursor}
    (h : preamble strict atStart p c = (p', .ok () c')) :
    preamble lax atStart p c = (p', .ok () c') := by
  fun_induction preamble strict atStart p c with
  | case1 atStart p c c₁ hNext => cases h
  | case2 atStart p c c₁ hNext =>
      rw [preamble_of_header hNext]
      exact h
  | case3 atStart p c b c₁ hNext hHeader directive c₂ hLine
        ih =>
      rw [preamble_of_line hNext hHeader
        (refines_preambleLine hLe _ _ _ _ _ hLine)]
      exact ih h
  | case4 atStart p c b c₁ hNext hHeader e c₂ hLine =>
      cases h

/-
  A header that is read is read at every degree
  that tolerates more.
-/
theorem header_refines
    {o : Options}
    {p : Preamble}
    {declared : Header}
    {c c' : Cursor}
    (h : header strict o c = (p, .ok declared c')) :
    header lax o c = (p, .ok declared c') := by
  unfold header at h ⊢
  rcases hPreamble :
      preamble strict true { options := o, printed := [] }
        c with
    ⟨p', u | _⟩
  · rw [hPreamble] at h
    rcases Prod.mk.inj h with ⟨rfl, hLine⟩
    rw [preamble_refines hLe hPreamble]
    exact congrArg _ (refines_headerLine hLe _ _ _ hLine)
  · rw [hPreamble] at h
    cases h

end

end Parser

end Dimacs
