import Dimacs.Proofs.Clauses.Tokens
import Dimacs.Proofs.Header.Grammar
import Dimacs.Proofs.LineEnd.Correspondence

/-
  Every reader takes a carriage return and a line feed for
  the line end that the line feed alone is: in comments and
  in the directives in them, at the end of the header line,
  and among the clauses.

  Key definitions include:
    * `Parser.SameRemark`

  Main statements:
    * `Parser.corresponds_remark`
    * `Parser.corresponds_preambleLine`
    * `Parser.corresponds_headerLine`
    * `Parser.corresponds_token`
-/

namespace Dimacs

namespace Parser

open Cursor (Aligned AlignedBehind)

variable {c d : Cursor}
variable {ahead ahead' : Option UInt8}

------------------------------------------------------------
-- Directives
------------------------------------------------------------

theorem letters_corresponds
    (name : List UInt8)
    (h : c.Aligned d) :
    AgreeBefore (letters name c).1 (letters name c).2
      (letters name d).1 (letters name d).2 := by
  fun_induction letters name c generalizing d with
  | case1 name c b c₁ hNext hLower ih =>
      rcases h.next_inner hNext
          (Byte.isInner_of_isLower hLower.1).2 with
        ⟨d₁, hNext', h₁⟩
      rw [letters.eq_def name d, hNext']
      simp only [if_pos hLower]
      exact ih h₁
  | case2 name c b c₁ hNext hLower =>
      rcases h.stops
          (fun b =>
            Byte.IsLower b ∧
            name.length < Directive.maxName)
          (fun hReturn => absurd hReturn.1 (by decide))
          hNext hLower with
        ⟨a, d₁, hNext', hLower', hBehind⟩
      rw [letters.eq_def name d, hNext']
      simp only [if_neg hLower']
      exact ⟨rfl, hBehind⟩
  | case3 name c c₁ hNext =>
      rcases h.next_end hNext with ⟨d₁, hNext', h₁⟩
      rw [letters.eq_def name d, hNext']
      exact ⟨rfl, .finish h₁⟩

theorem magnitude_corresponds
    (value : Nat)
    (h : c.Aligned d) :
    AgreeBefore (magnitude value c).1 (magnitude value c).2
      (magnitude value d).1 (magnitude value d).2 := by
  fun_induction magnitude value c generalizing d with
  | case1 value c b c₁ hNext hDigit extended hExtend ih =>
      rcases h.next_inner hNext
          (Byte.isInner_of_isDigit hDigit).2 with
        ⟨d₁, hNext', h₁⟩
      rw [magnitude.eq_def value d, hNext']
      simp only [if_pos hDigit, hExtend]
      exact ih h₁
  | case2 value c b c₁ hNext hDigit hExtend =>
      have hInner := Byte.isInner_of_isDigit hDigit
      rcases h.next_inner hNext hInner.2 with
        ⟨d₁, hNext', h₁⟩
      rw [magnitude.eq_def value d, hNext']
      simp only [if_pos hDigit, hExtend]
      exact ⟨rfl, .inner b hInner h₁⟩
  | case3 value c b c₁ hNext hDigit =>
      rcases h.stops Byte.IsDigit (by decide) hNext
          hDigit with
        ⟨a, d₁, hNext', hDigit', hBehind⟩
      rw [magnitude.eq_def value d, hNext']
      simp only [if_neg hDigit']
      exact ⟨rfl, hBehind⟩
  | case4 value c c₁ hNext =>
      rcases h.next_end hNext with ⟨d₁, hNext', h₁⟩
      rw [magnitude.eq_def value d, hNext']
      exact ⟨rfl, .finish h₁⟩

theorem corresponds_directiveName
    (h : c.Aligned d) :
    Corresponds AgreeBefore (directiveName c)
      (directiveName d) :=
  .ok (letters_corresponds [] h)

theorem corresponds_directiveMagnitude
    (first : UInt8)
    (h : c.Aligned d) :
    Corresponds AgreeBefore (directiveMagnitude first c)
      (directiveMagnitude first d) :=
  .ok (magnitude_corresponds (Byte.digit first) h)

theorem corresponds_directiveValue
    (negative : Bool)
    (value : Nat)
    (h : c.Aligned d) :
    Corresponds Agree (directiveValue negative value c)
      (directiveValue negative value d) := by
  unfold directiveValue
  cases Check.int32
      (if negative then -(value : Int)
      else (value : Int)) with
  | ok signed => exact .ok ⟨rfl, h⟩
  | error violation => exact .error _ _ c d

/-
  Both comments turned out to be the same. A comment that
  goes on does so with what both cursors gave out last.
-/
inductive SameRemark :
  Remark → Cursor → Remark → Cursor → Prop
  | directive
      {c d : Cursor}
      (directive : Directive)
      (h : c.Aligned d) :
      SameRemark (.directive directive) c
        (.directive directive) d
  | ended {c d : Cursor} (h : c.Aligned d) :
      SameRemark .ended c .ended d
  | text {c d : Cursor} {ahead ahead' : Option UInt8}
      (hBehind : AlignedBehind ahead c ahead' d) :
      SameRemark (.text ahead) c (.text ahead') d

theorem corresponds_closeDirective
    (name : List UInt8)
    (negative : Bool)
    (value : Nat)
    (hBehind : AlignedBehind ahead c ahead' d) :
    Corresponds SameRemark
      (closeDirective name negative value ahead c)
      (closeDirective name negative value ahead' d) := by
  apply corresponds_bind (corresponds_skipBlanks hBehind)
  intro ahead c₁ ahead' d₁ hBehind
  apply corresponds_ite_lineEnd hBehind
  · intro d₂ h₂
    apply corresponds_bind
      (corresponds_directiveValue negative value h₂)
    intro signed c₃ _ d₃ hAgree
    rcases hAgree with ⟨rfl, h₃⟩
    exact .ok (.directive _ h₃)
  · exact .ok (.text hBehind)

theorem corresponds_unsignedValue
    (name : List UInt8)
    (negative : Bool)
    (hBehind : AlignedBehind ahead c ahead' d) :
    Corresponds SameRemark
      (unsignedValue name negative ahead c)
      (unsignedValue name negative ahead' d) := by
  cases hBehind with
  | finish h => exact .ok (.text (.finish h))
  | inner b hInner h =>
      apply corresponds_ite
      · intro _
        apply corresponds_bind
          (corresponds_directiveMagnitude b h)
        intro r c₁ r' d₁ hAgree
        rcases r with ⟨value, ahead⟩
        rcases r' with ⟨value', ahead'⟩
        rcases hAgree with ⟨rfl, hBehind⟩
        exact corresponds_closeDirective name negative _
          hBehind
      · intro _
        exact .ok (.text (.inner b hInner h))
  | lineEnd hFeed h => exact .ok (.text (.lineEnd hFeed h))

theorem corresponds_optionValue
    (name : List UInt8)
    (h : c.Aligned d) :
    Corresponds SameRemark (optionValue name c)
      (optionValue name d) := by
  apply corresponds_bind (corresponds_byte h)
  intro ahead c₁ ahead' d₁ hBehind
  apply corresponds_ite_inner hBehind (by decide)
  · intro h₁
    apply corresponds_bind (corresponds_byte h₁)
    intro ahead c₂ ahead' d₂ hBehind
    exact corresponds_unsignedValue name true hBehind
  · exact corresponds_unsignedValue name false hBehind

/-
  A directive may be cut off by the line end behind the
  dashes, the name, the equals sign or the minus.
-/
theorem corresponds_remark
    (h : c.Aligned d) :
    Corresponds SameRemark (remark c) (remark d) := by
  apply corresponds_bind (corresponds_byte h)
  intro ahead c₁ ahead' d₁ hBehind
  apply corresponds_ite_inner hBehind (by decide)
  · intro h₁
    apply corresponds_bind (corresponds_directiveName h₁)
    intro r c₂ r' d₂ hAgree
    rcases r with ⟨name, ahead⟩
    rcases r' with ⟨name', ahead'⟩
    rcases hAgree with ⟨rfl, hBehind⟩
    have hEquals :=
      hBehind.eq_some_iff (b := Byte.equals) (by decide)
    apply corresponds_ite_lineEnd hBehind
    · intro d₃ h₃
      exact .ok (.ended h₃)
    · apply corresponds_ite_of_iff
        (and_congr_left fun _ => hEquals)
      · intro hValue
        rw [hValue.1] at hBehind
        exact corresponds_optionValue _
          (hBehind.aligned (by decide))
      · intro _
        exact .ok (.text hBehind)
  · exact .ok (.text hBehind)

------------------------------------------------------------
-- Lines before the Header
------------------------------------------------------------

theorem corresponds_skipComment
    (hBehind : AlignedBehind ahead c ahead' d) :
    Corresponds Agree (skipComment ahead c)
      (skipComment ahead' d) := by
  fun_induction skipComment ahead c
      generalizing ahead' d with
  | case1 c =>
      cases hBehind with
      | finish h =>
          rw [skipComment.eq_def none d]
          exact corresponds_fail _ _
  | case2 c =>
      cases hBehind with
      | inner _ hInner h => exact absurd rfl hInner.2
      | lineEnd hFeed h =>
          rw [skipComment.eq_def _ d]
          simp only [finishLine_of_next hFeed]
          exact .ok ⟨rfl, h⟩
  | case3 c hFeed =>
      cases hBehind with
      | inner _ hInner h => exact absurd rfl hInner.1
  | case4 c b hFeed hReturn ih =>
      cases hBehind with
      | inner _ hInner h =>
          rw [skipComment.eq_def _ d]
          simp only [if_neg hFeed, if_neg hReturn]
          exact ih h.behind_next
      | lineEnd _ h => exact absurd rfl hFeed

theorem corresponds_headerComment
    (enabled : Bool)
    (h : c.Aligned d) :
    Corresponds Agree (headerComment enabled c)
      (headerComment enabled d) := by
  have hSkip :
      ∀ {ahead ahead' : Option UInt8} {c d : Cursor},
        AlignedBehind ahead c ahead' d →
        Corresponds Agree
          ((do skipComment ahead; pure none :
            Parser (Option Directive)) c)
          ((do skipComment ahead'; pure none :
            Parser (Option Directive)) d) := by
    intro ahead ahead' c d hBehind
    apply corresponds_bind (corresponds_skipComment hBehind)
    intro _ c₁ _ d₁ hAgree
    exact .ok ⟨rfl, hAgree.2⟩
  have hMinus : Byte.IsInner Byte.minus := by decide
  apply corresponds_bind (corresponds_byteAfterBlanks h)
  intro ahead c₁ ahead' d₁ hBehind
  apply corresponds_ite_of_iff
    (and_congr_right fun _ => hBehind.eq_some_iff hMinus)
  · intro hRemark
    rw [hRemark.2] at hBehind
    apply corresponds_bind
      (corresponds_remark (hBehind.aligned hMinus))
    intro found c₂ found' d₂ hSame
    cases hSame with
    | directive directive h₂ => exact .ok ⟨rfl, h₂⟩
    | ended h₂ => exact .ok ⟨rfl, h₂⟩
    | text hBehind => exact hSkip hBehind
  · intro _
    exact hSkip hBehind

/-
  A line in front of the header is read the same way,
  whatever its first byte.
-/
theorem corresponds_preambleLine
    {b b' : UInt8}
    (strictness : Strictness)
    (enabled : Bool)
    (hBehind : AlignedBehind (some b) c (some b') d) :
    Corresponds Agree (preambleLine strictness enabled b c)
      (preambleLine strictness enabled b' d) := by
  cases hBehind with
  | inner _ hInner h =>
      rw [preambleLine, if_neg hInner.1, if_neg hInner.2]
      apply corresponds_ite
      · intro _
        exact corresponds_headerComment enabled h
      · intro _
        exact corresponds_fail _ _
  | lineEnd hFeed h =>
      have hReturn :
          Byte.lineFeed ≠ Byte.carriageReturn := by
        decide
      rw [preambleLine, preambleLine, if_neg hReturn,
        if_pos rfl, if_pos rfl,
        bind_of_ok (finishLine_of_next hFeed)]
      apply corresponds_ite
      · intro _
        exact corresponds_failBefore _ _ _ _
      · intro _
        exact .ok ⟨rfl, h⟩

------------------------------------------------------------
-- The Header Line
------------------------------------------------------------

theorem corresponds_fieldStart
    (strictness : Strictness)
    (h : c.Aligned d) :
    Corresponds AlignedBehind (fieldStart strictness c)
      (fieldStart strictness d) := by
  apply corresponds_ite
  · intro _
    exact corresponds_byte h
  · intro _
    exact corresponds_byteAfterBlanks h

theorem corresponds_expect
    {expected : UInt8}
    (hInner : Byte.IsInner expected)
    (fault : Fault)
    (hBehind : AlignedBehind ahead c ahead' d) :
    Corresponds AlignedBehind
      (expect expected fault ahead c)
      (expect expected fault ahead' d) :=
  corresponds_ite_inner hBehind hInner corresponds_byte
    (corresponds_failBefore _ _ _ _)

theorem corresponds_formatName
    (strictness : Strictness)
    (h : c.Aligned d) :
    Corresponds AlignedBehind (formatName strictness c)
      (formatName strictness d) := by
  apply corresponds_bind (corresponds_byte h)
  intro ahead c₁ ahead' d₁ hBehind
  apply corresponds_ite_inner hBehind (by decide)
  · intro h₁
    apply corresponds_bind
      (corresponds_fieldStart strictness h₁)
    intro ahead c₂ ahead' d₂ hBehind
    apply corresponds_bind
      (corresponds_expect (by decide) _ hBehind)
    intro ahead c₃ ahead' d₃ hBehind
    apply corresponds_bind
      (corresponds_expect (by decide) _ hBehind)
    intro ahead c₄ ahead' d₄ hBehind
    apply corresponds_bind
      (corresponds_expect (by decide) _ hBehind)
    intro ahead c₅ ahead' d₅ hBehind
    exact corresponds_ite_inner hBehind (by decide)
      (corresponds_fieldStart strictness)
      (corresponds_failBefore _ _ _ _)
  · exact corresponds_failBefore _ _ _ _

theorem corresponds_variablesField
    (hBehind : AlignedBehind ahead c ahead' d) :
    Corresponds AgreeBefore (variablesField ahead c)
      (variablesField ahead' d) := by
  cases hBehind with
  | finish h => exact corresponds_failBefore _ _ _ _
  | inner b hInner h =>
      apply corresponds_ite
      · intro _
        exact corresponds_number _ _ _ h
      · intro _
        exact corresponds_failBefore _ _ _ _
  | lineEnd hFeed h => exact corresponds_failBefore _ _ _ _

theorem corresponds_afterVariables
    (hBehind : AlignedBehind ahead c ahead' d) :
    Corresponds Agree (afterVariables ahead c)
      (afterVariables ahead' d) := by
  cases hBehind with
  | finish h => exact corresponds_fail _ _
  | inner b hInner h =>
      rw [afterVariables, if_neg hInner.1, if_neg hInner.2]
      apply corresponds_ite
      · intro _
        exact .ok ⟨rfl, h⟩
      · intro _
        exact corresponds_fail _ _
  | lineEnd hFeed h =>
      have hReturn :
          Byte.lineFeed ≠ Byte.carriageReturn := by
        decide
      rw [afterVariables, afterVariables, if_neg hReturn,
        if_pos rfl, if_pos rfl,
        bind_of_ok (finishLine_of_next hFeed)]
      exact corresponds_failBefore _ _ _ _

theorem corresponds_clausesField
    (hBehind : AlignedBehind ahead c ahead' d) :
    Corresponds AgreeBefore (clausesField ahead c)
      (clausesField ahead' d) := by
  cases hBehind with
  | finish h => exact corresponds_fail _ _
  | inner b hInner h =>
      apply corresponds_ite
      · intro _
        exact corresponds_number _ _ _ h
      · intro _
        exact corresponds_fail _ _
  | lineEnd hFeed h => exact corresponds_fail _ _

theorem corresponds_headerEnd
    (hBehind : AlignedBehind ahead c ahead' d) :
    Corresponds Agree (headerEnd ahead c)
      (headerEnd ahead' d) := by
  cases hBehind with
  | finish h => exact corresponds_fail _ _
  | inner b hInner h =>
      rw [headerEnd, if_neg hInner.1, if_neg hInner.2]
      exact corresponds_fail _ _
  | lineEnd hFeed h =>
      have hReturn :
          Byte.lineFeed ≠ Byte.carriageReturn := by
        decide
      rw [headerEnd, headerEnd, if_neg hReturn, if_pos rfl,
        if_pos rfl, finishLine_of_next hFeed]
      exact .ok ⟨rfl, h⟩

theorem corresponds_afterClauses
    (strictness : Strictness)
    (hBehind : AlignedBehind ahead c ahead' d) :
    Corresponds Agree (afterClauses strictness ahead c)
      (afterClauses strictness ahead' d) := by
  have hEnd : ahead = none ↔ ahead' = none := by
    cases hBehind <;> simp
  rw [afterClauses_eq, afterClauses_eq]
  apply corresponds_ite_of_iff hEnd
  · intro _
    exact corresponds_fail _ _
  · intro _
    have hGap :
        Corresponds AlignedBehind
          ((if strictness.IsPedantic then pure ahead
            else skipBlanks ahead) c)
          ((if strictness.IsPedantic then pure ahead'
            else skipBlanks ahead') d) := by
      apply corresponds_ite
      · intro _
        exact .ok hBehind
      · intro _
        exact corresponds_skipBlanks hBehind
    apply corresponds_bind hGap
    intro ahead c₁ ahead' d₁ hBehind
    exact corresponds_headerEnd hBehind

/-
  The header line declares the same with either line end.
-/
theorem corresponds_headerLine
    (strictness : Strictness)
    (h : c.Aligned d) :
    Corresponds Agree (headerLine strictness c)
      (headerLine strictness d) := by
  apply corresponds_bind
    (corresponds_formatName strictness h)
  intro ahead c₁ ahead' d₁ hBehind
  apply corresponds_bind
    (corresponds_variablesField hBehind)
  intro declared c₂ declared' d₂ hVariables
  apply corresponds_bind
    (corresponds_afterVariables hVariables.2)
  intro _ c₃ _ d₃ hAgree
  apply corresponds_bind
    (corresponds_fieldStart strictness hAgree.2)
  intro ahead c₄ ahead' d₄ hBehind
  apply corresponds_bind (corresponds_clausesField hBehind)
  intro clauses c₅ clauses' d₅ hClauses
  apply corresponds_bind
    (corresponds_afterClauses strictness hClauses.2)
  intro _ c₆ _ d₆ hAgree
  refine .ok ⟨?_, hAgree.2⟩
  rw [hVariables.1, hClauses.1]

------------------------------------------------------------
-- Tokens
------------------------------------------------------------

/-
  A comment may hold returns, so that only its end matters.
-/
theorem corresponds_clauseComment
    (strictness : Strictness)
    (fault : Fault)
    (h : c.Aligned d) :
    Corresponds Agree (clauseComment strictness fault c)
      (clauseComment strictness fault d) := by
  fun_induction clauseComment strictness fault c
      generalizing d with
  | case1 c c₁ hNext =>
      have hReturn :
          Byte.carriageReturn ≠ Byte.lineFeed := by
        decide
      rcases h.next_lineFeed hNext with
        ⟨d₁, d₂, hNext', hFeed, h₂⟩
      rw [clauseComment.eq_def strictness fault d, hNext']
      simp only [if_neg hReturn]
      rw [clauseComment.eq_def strictness fault d₁, hFeed]
      exact .ok ⟨rfl, h₂⟩
  | case2 c b c₁ hNext hFeed ih =>
      rcases h.next_inner hNext hFeed with ⟨d₁, hNext', h₁⟩
      rw [clauseComment.eq_def strictness fault d, hNext']
      simp only [if_neg hFeed]
      exact ih h₁
  | case3 c c₁ hNext hPedantic =>
      rcases h.next_end hNext with ⟨d₁, hNext', h₁⟩
      rw [clauseComment.eq_def strictness fault d, hNext']
      simp only [if_pos hPedantic]
      exact corresponds_fail _ _
  | case4 c c₁ hNext hPedantic =>
      rcases h.next_end hNext with ⟨d₁, hNext', h₁⟩
      rw [clauseComment.eq_def strictness fault d, hNext']
      simp only [if_neg hPedantic]
      exact .ok ⟨rfl, h₁⟩

theorem corresponds_digitAfterMinus
    (h : c.Aligned d) :
    Corresponds Agree (digitAfterMinus c)
      (digitAfterMinus d) := by
  apply corresponds_bind (corresponds_byte h)
  intro ahead c₁ ahead' d₁ hBehind
  cases hBehind with
  | finish h => exact corresponds_fail _ _
  | inner b hInner h =>
      apply corresponds_ite
      · intro _
        exact corresponds_failBefore _ _ _ _
      · intro _
        apply corresponds_ite
        · intro _
          exact corresponds_fail _ _
        · intro _
          apply corresponds_ite
          · intro _
            exact .ok ⟨rfl, h⟩
          · intro _
            exact corresponds_fail _ _
  | lineEnd hFeed h =>
      change Corresponds Agree
        (failBefore (some Byte.lineFeed) .lineFeedAfterMinus
          c₁) (fail .digitAfterMinus d₁)
      exact corresponds_of_ne_ok
        (fun _ _ => failBefore_ne_ok)
        (fun _ _ => fail_ne_ok)

/-
  Both line ends behind a numeral count as the line feed.
-/
theorem corresponds_afterNumeral
    (strictness : Strictness)
    (index : Nat)
    (hBehind : AlignedBehind ahead c ahead' d) :
    Corresponds Agree
      (afterNumeral strictness index ahead c)
      (afterNumeral strictness index ahead' d) := by
  cases hBehind with
  | finish h =>
      apply corresponds_ite
      · intro _
        exact corresponds_fail _ _
      · intro _
        exact .ok ⟨rfl, h⟩
  | inner b hInner h =>
      rw [afterNumeral, if_neg hInner.1]
      apply corresponds_ite
      · intro _
        exact corresponds_clauseComment strictness _ h
      · intro _
        apply corresponds_ite
        · intro _
          exact .ok ⟨rfl, h⟩
        · intro _
          exact corresponds_fail _ _
  | lineEnd hFeed h =>
      rw [afterNumeral_carriageReturn,
        bind_of_ok (finishLine_of_next hFeed)]
      exact .ok ⟨rfl, h⟩

theorem corresponds_numeral
    (strictness : Strictness)
    (negative : Bool)
    (first : UInt8)
    (h : c.Aligned d) :
    Corresponds Agree (numeral strictness negative first c)
      (numeral strictness negative first d) := by
  apply corresponds_bind (corresponds_number _ _ _ h)
  intro r c₁ r' d₁ hAgree
  rcases r with ⟨index, ahead⟩
  rcases r' with ⟨index', ahead'⟩
  rcases hAgree with ⟨rfl, hBehind⟩
  apply corresponds_bind
    (corresponds_afterNumeral strictness _ hBehind)
  intro ahead c₂ _ d₂ hAgree
  rcases hAgree with ⟨rfl, h₂⟩
  exact .ok ⟨rfl, h₂⟩

theorem corresponds_tokenFrom_inner
    {b : UInt8}
    (strictness : Strictness)
    (hInner : Byte.IsInner b)
    (h : c.Aligned d) :
    Corresponds Agree (tokenFrom strictness b c)
      (tokenFrom strictness b d) := by
  unfold tokenFrom
  apply corresponds_ite
  · intro _
    exact .ok ⟨rfl, h⟩
  · intro _
    rw [if_neg hInner.1]
    apply corresponds_ite
    · intro _
      apply corresponds_bind
        (corresponds_clauseComment strictness _ h)
      intro ahead c₁ _ d₁ hAgree
      rcases hAgree with ⟨rfl, h₁⟩
      cases ahead with
      | none => exact .ok ⟨rfl, h₁⟩
      | some _ => exact .ok ⟨rfl, h₁⟩
    · intro _
      apply corresponds_ite
      · intro _
        apply corresponds_bind
          (corresponds_digitAfterMinus h)
        intro digit c₁ _ d₁ hAgree
        rcases hAgree with ⟨rfl, h₁⟩
        exact corresponds_numeral strictness true digit h₁
      · intro _
        apply corresponds_ite
        · intro _
          exact corresponds_numeral strictness false b h
        · intro _
          exact corresponds_fail _ _

/- The same tokens are read with either line end. -/
theorem corresponds_token
    (strictness : Strictness)
    (h : c.Aligned d) :
    Corresponds Agree (token strictness c)
      (token strictness d) := by
  apply corresponds_bind (corresponds_byte h)
  intro ahead c₁ ahead' d₁ hBehind
  cases hBehind with
  | finish h => exact .ok ⟨rfl, h⟩
  | inner b hInner h =>
      exact corresponds_tokenFrom_inner strictness hInner h
  | lineEnd hFeed h =>
      have hGap :
          Byte.IsBlank Byte.lineFeed ∨
            Byte.lineFeed = Byte.lineFeed :=
        .inr rfl
      change Corresponds Agree
        (tokenFrom strictness Byte.lineFeed c₁)
        (tokenFrom strictness Byte.carriageReturn d₁)
      rw [tokenFrom_gap hGap, tokenFrom_carriageReturn,
        bind_of_ok (finishLine_of_next hFeed)]
      exact .ok ⟨rfl, h⟩

end Parser

end Dimacs
