import Dimacs.Problem.Parse
import Dimacs.Proofs.Clauses.Steps
import Dimacs.Proofs.Header.Steps

/-
  Two cursors that give out the same bytes at the same lines
  lead every reader to the same result. With equal cursors
  this says that readers keep every invariant of a cursor
  that its two operations keep.

  Key definitions include:
    * `Cursor.IsSimulation`
    * `Cursor.IsInvariant`
    * `Parser.SameResult`
    * `Parser.Respects`

  Main statements:
    * `Parser.respects_bind`
    * `Parser.respects_token`
    * `Parser.respects_headerLine`
    * `Parser.header_respects`
    * `Parser.body_respects`
    * `Parser.header_keeps`
    * `Parser.body_keeps`
-/

namespace Dimacs

namespace Cursor

------------------------------------------------------------
-- Simulations and Invariants
------------------------------------------------------------

/-
  Related cursors agree on the byte that comes next and on
  the line, and stay related when both give out a byte or
  uncount a line feed.
-/
structure IsSimulation
    (R : Cursor → Cursor → Prop) : Prop where
  byte : ∀ {c d}, R c d → c.next.1 = d.next.1
  next : ∀ {c d}, R c d → R c.next.2 d.next.2
  line : ∀ {c d}, R c d → c.line = d.line
  uncount :
      ∀ {c d},
        R c d →
        1 < c.line →
        R { c with line := c.line - 1 }
          { d with line := d.line - 1 }

/-
  A property that giving out a byte and uncounting a
  line feed keep.
-/
structure IsInvariant
    (P : Cursor → Prop) : Prop where
  next : ∀ {c}, P c → P c.next.2
  uncount :
      ∀ {c},
        P c → 1 < c.line → P { c with line := c.line - 1 }

/-
  An invariant relates every cursor that has it to itself.
-/
theorem IsInvariant.isSimulation
    {P : Cursor → Prop}
    (h : IsInvariant P) :
    IsSimulation (fun c d => c = d ∧ P c) := by
  constructor
  · intro c d hSame
    rw [hSame.1]
  · intro c d hSame
    rcases hSame with ⟨rfl, hP⟩
    exact ⟨rfl, h.next hP⟩
  · intro c d hSame
    rw [hSame.1]
  · intro c d hSame hLine
    rcases hSame with ⟨rfl, hP⟩
    exact ⟨rfl, h.uncount hP hLine⟩

/- Reading a source without failures never meets one. -/
theorem isInvariant_isFailureFree :
    IsInvariant IsFailureFree := by
  constructor
  · intro c h
    exact isFailureFree_next h
  · intro c h _
    exact h

/- The first line stays the first. -/
theorem isInvariant_line :
    IsInvariant (fun c => 1 ≤ c.line) := by
  constructor
  · intro c h
    exact Nat.le_trans h c.line_le_next
  · intro c _ hLine
    exact Nat.le_sub_one_of_lt hLine

/-
  The byte that comes next, for two related cursors at once.
-/
theorem IsSimulation.next_eq
    {R : Cursor → Cursor → Prop}
    {c c₁ d : Cursor}
    {ahead : Option UInt8}
    (hR : IsSimulation R)
    (h : R c d)
    (hNext : c.next = (ahead, c₁)) :
    ∃ d₁, d.next = (ahead, d₁) ∧ R c₁ d₁ := by
  have hByte := hR.byte h
  have hAfter := hR.next h
  rw [hNext] at hByte hAfter
  exact ⟨d.next.2, Prod.ext hByte.symm rfl, hAfter⟩

end Cursor

namespace Parser

variable {α β : Type}
variable {R : Cursor → Cursor → Prop}

/-
  Both results are the same, and the cursors they
  leave are related.
-/
inductive SameResult
    (R : Cursor → Cursor → Prop) :
    EStateM.Result ParseError Cursor α →
      EStateM.Result ParseError Cursor α → Prop
  | ok
      (a : α)
      {c d : Cursor}
      (h : R c d) :
      SameResult R (.ok a c) (.ok a d)
  | error (e : ParseError) {c d : Cursor} (h : R c d) :
      SameResult R (.error e c) (.error e d)

/- Where a reading ended. -/
def endOf : EStateM.Result ParseError Cursor α → Cursor
  | .ok _ c => c
  | .error _ c => c

theorem SameResult.endOf
    {left right : EStateM.Result ParseError Cursor α}
    (h : SameResult R left right) :
    R (endOf left) (endOf right) := by
  cases h with
  | ok a h => exact h
  | error e h => exact h

theorem SameResult.of_ok
    {left right : EStateM.Result ParseError Cursor α}
    {a : α}
    {c : Cursor}
    (h : SameResult R left right)
    (hLeft : left = .ok a c) :
    ∃ d, right = .ok a d ∧ R c d := by
  cases h with
  | ok a h =>
      cases hLeft
      exact ⟨_, rfl, h⟩
  | error e h => cases hLeft

theorem SameResult.of_error
    {left right : EStateM.Result ParseError Cursor α}
    {e : ParseError}
    {c : Cursor}
    (h : SameResult R left right)
    (hLeft : left = .error e c) :
    ∃ d, right = .error e d ∧ R c d := by
  cases h with
  | ok a h => cases hLeft
  | error e h =>
      cases hLeft
      exact ⟨_, rfl, h⟩

/- Related cursors lead the reader to the same result. -/
def Respects
    (R : Cursor → Cursor → Prop)
    (p : Parser α) : Prop :=
  ∀ c d, R c d → SameResult R (p c) (p d)

------------------------------------------------------------
-- Combinations of Readers
------------------------------------------------------------

theorem respects_pure
    (a : α) :
    Respects R (pure a) := by
  intro c d h
  exact .ok a h

theorem respects_bind
    {p : Parser α}
    {f : α → Parser β}
    (hp : Respects R p)
    (hf : ∀ a, Respects R (f a)) :
    Respects R (p >>= f) := by
  intro c d h
  have hFirst := hp c d h
  rw [bind_apply, bind_apply]
  generalize p c = left at hFirst
  generalize p d = right at hFirst
  cases hFirst with
  | ok a h₁ => exact hf a _ _ h₁
  | error e h₁ => exact .error e h₁

theorem respects_ite
    {condition : Prop}
    [Decidable condition]
    {p q : Parser α}
    (hp : Respects R p)
    (hq : Respects R q) :
    Respects R (if condition then p else q) := by
  split
  · exact hp
  · exact hq

theorem respects_require
    (condition : Prop)
    [Decidable condition] :
    Respects R (require condition) := by
  intro c d h
  unfold require
  cases Check.require condition with
  | ok u => exact .ok () h
  | error violation => exact .error _ h

theorem respects_directiveValue
    (negative : Bool)
    (value : Nat) :
    Respects R (directiveValue negative value) := by
  intro c d h
  unfold directiveValue
  cases Check.int32
      (if negative then -(value : Int)
      else (value : Int)) with
  | ok signed => exact .ok signed h
  | error violation => exact .error _ h

theorem respects_literal
    (negative : Bool)
    (index : Nat) :
    Respects R (literal negative index) := by
  intro c d h
  unfold literal
  cases Check.int32
      (if negative then -(index : Int)
      else (index : Int)) with
  | ok signed => exact .ok signed h
  | error violation => exact .error _ h

section

variable (hR : Cursor.IsSimulation R)

include hR

theorem respects_byte :
    Respects R byte := by
  intro c d h
  have hNext := hR.next h
  unfold byte
  rw [hR.byte h]
  exact .ok _ hNext

theorem respects_fail
    (fault : Fault) :
    Respects R (fail fault : Parser α) := by
  intro c d h
  unfold fail
  rw [hR.line h]
  exact .error _ h

theorem respects_unreadLine
    (ahead : Option UInt8) :
    Respects R (unreadLine ahead) := by
  intro c d h
  have hLine := hR.line h
  unfold unreadLine Cursor.unreadLine
  by_cases hFeed : ahead = some Byte.lineFeed
  · by_cases hBehind : 1 < c.line
    · have hUncounted := hR.uncount h hBehind
      rw [if_pos hFeed, if_pos hFeed, Check.require,
        Check.require, ← hLine, if_pos hBehind]
      rw [← hLine] at hUncounted
      exact .ok () hUncounted
    · rw [if_pos hFeed, if_pos hFeed, Check.require,
        Check.require, ← hLine, if_neg hBehind]
      exact .error _ h
  · rw [if_neg hFeed, if_neg hFeed]
    exact .ok () h

theorem respects_failBefore
    (ahead : Option UInt8)
    (fault : Fault) :
    Respects R (failBefore ahead fault : Parser α) :=
  respects_bind (respects_unreadLine hR ahead) fun _ =>
    respects_fail hR fault

------------------------------------------------------------
-- Shared Pieces
------------------------------------------------------------

theorem respects_finishLine :
    Respects R finishLine :=
  respects_bind (respects_byte hR) fun _ =>
    respects_ite (respects_pure ()) (respects_fail hR _)

theorem pastBlanks_respects
    {c d : Cursor}
    (h : R c d) :
    (pastBlanks c).1 = (pastBlanks d).1 ∧
      R (pastBlanks c).2 (pastBlanks d).2 := by
  fun_induction pastBlanks c generalizing d with
  | case1 c b c₁ hNext hBlank ih =>
      rcases hR.next_eq h hNext with ⟨d₁, hNext', h₁⟩
      rw [pastBlanks.eq_def d, hNext']
      simp only [if_pos hBlank]
      exact ih h₁
  | case2 c b c₁ hNext hBlank =>
      rcases hR.next_eq h hNext with ⟨d₁, hNext', h₁⟩
      rw [pastBlanks.eq_def d, hNext']
      simp only [if_neg hBlank]
      exact ⟨trivial, h₁⟩
  | case3 c c₁ hNext =>
      rcases hR.next_eq h hNext with ⟨d₁, hNext', h₁⟩
      rw [pastBlanks.eq_def d, hNext']
      exact ⟨rfl, h₁⟩

theorem respects_byteAfterBlanks :
    Respects R byteAfterBlanks := by
  intro c d h
  rcases pastBlanks_respects hR h with ⟨hByte, hAfter⟩
  unfold byteAfterBlanks
  rw [hByte]
  exact .ok _ hAfter

theorem respects_skipBlanks
    (ahead : Option UInt8) :
    Respects R (skipBlanks ahead) := by
  rcases ahead with _ | b
  · exact respects_pure none
  · exact respects_ite (respects_byteAfterBlanks hR)
      (respects_pure (some b))

theorem respects_numberFrom
    (limit : Nat)
    (fault : Fault)
    (value : Nat) :
    Respects R (numberFrom limit fault value) := by
  intro c d h
  fun_induction numberFrom limit fault value c
      generalizing d with
  | case1 value c b c₁ hNext hDigit extended hExtend ih =>
      rcases hR.next_eq h hNext with ⟨d₁, hNext', h₁⟩
      rw [numberFrom.eq_def limit fault value d, hNext']
      simp only [if_pos hDigit, hExtend]
      exact ih d₁ h₁
  | case2 value c b c₁ hNext hDigit hExtend =>
      rcases hR.next_eq h hNext with ⟨d₁, hNext', h₁⟩
      rw [numberFrom.eq_def limit fault value d, hNext']
      simp only [if_pos hDigit, hExtend]
      exact respects_fail hR fault _ _ h₁
  | case3 value c b c₁ hNext hDigit =>
      rcases hR.next_eq h hNext with ⟨d₁, hNext', h₁⟩
      rw [numberFrom.eq_def limit fault value d, hNext']
      simp only [if_neg hDigit]
      exact .ok _ h₁
  | case4 value c c₁ hNext =>
      rcases hR.next_eq h hNext with ⟨d₁, hNext', h₁⟩
      rw [numberFrom.eq_def limit fault value d, hNext']
      exact .ok _ h₁

theorem respects_number
    (limit : Nat)
    (fault : Fault)
    (first : UInt8) :
    Respects R (number limit fault first) :=
  respects_bind (respects_require _) fun _ =>
    respects_numberFrom hR limit fault (Byte.digit first)

------------------------------------------------------------
-- Comments and Directives
------------------------------------------------------------

theorem letters_respects
    {c d : Cursor}
    (name : List UInt8)
    (h : R c d) :
    (letters name c).1 = (letters name d).1 ∧
      R (letters name c).2 (letters name d).2 := by
  fun_induction letters name c generalizing d with
  | case1 name c b c₁ hNext hLower ih =>
      rcases hR.next_eq h hNext with ⟨d₁, hNext', h₁⟩
      rw [letters.eq_def name d, hNext']
      simp only [if_pos hLower]
      exact ih h₁
  | case2 name c b c₁ hNext hLower =>
      rcases hR.next_eq h hNext with ⟨d₁, hNext', h₁⟩
      rw [letters.eq_def name d, hNext']
      simp only [if_neg hLower]
      exact ⟨trivial, h₁⟩
  | case3 name c c₁ hNext =>
      rcases hR.next_eq h hNext with ⟨d₁, hNext', h₁⟩
      rw [letters.eq_def name d, hNext']
      exact ⟨rfl, h₁⟩

theorem magnitude_respects
    {c d : Cursor}
    (value : Nat)
    (h : R c d) :
    (magnitude value c).1 = (magnitude value d).1 ∧
      R (magnitude value c).2 (magnitude value d).2 := by
  fun_induction magnitude value c generalizing d with
  | case1 value c b c₁ hNext hDigit extended hExtend ih =>
      rcases hR.next_eq h hNext with ⟨d₁, hNext', h₁⟩
      rw [magnitude.eq_def value d, hNext']
      simp only [if_pos hDigit, hExtend]
      exact ih h₁
  | case2 value c b c₁ hNext hDigit hExtend =>
      rcases hR.next_eq h hNext with ⟨d₁, hNext', h₁⟩
      rw [magnitude.eq_def value d, hNext']
      simp only [if_pos hDigit, hExtend]
      exact ⟨trivial, h₁⟩
  | case3 value c b c₁ hNext hDigit =>
      rcases hR.next_eq h hNext with ⟨d₁, hNext', h₁⟩
      rw [magnitude.eq_def value d, hNext']
      simp only [if_neg hDigit]
      exact ⟨trivial, h₁⟩
  | case4 value c c₁ hNext =>
      rcases hR.next_eq h hNext with ⟨d₁, hNext', h₁⟩
      rw [magnitude.eq_def value d, hNext']
      exact ⟨rfl, h₁⟩

theorem respects_directiveName :
    Respects R directiveName := by
  intro c d h
  rcases letters_respects hR [] h with ⟨hName, hAfter⟩
  unfold directiveName
  rw [hName]
  exact .ok _ hAfter

theorem respects_directiveMagnitude
    (first : UInt8) :
    Respects R (directiveMagnitude first) := by
  intro c d h
  rcases magnitude_respects hR (Byte.digit first) h with
    ⟨hValue, hAfter⟩
  unfold directiveMagnitude
  rw [hValue]
  exact .ok _ hAfter

theorem respects_closeDirective
    (name : List UInt8)
    (negative : Bool)
    (value : Nat)
    (ahead : Option UInt8) :
    Respects R (closeDirective name negative value ahead) :=
  respects_bind (respects_skipBlanks hR ahead) fun _ =>
    respects_ite
      (respects_bind (respects_finishLine hR) fun _ =>
        respects_bind (respects_directiveValue _ _) fun _ =>
          respects_pure _)
      (respects_ite
        (respects_bind (respects_directiveValue _ _)
          fun _ => respects_pure _) (respects_pure _))

theorem respects_unsignedValue
    (name : List UInt8)
    (negative : Bool)
    (ahead : Option UInt8) :
    Respects R (unsignedValue name negative ahead) := by
  rcases ahead with _ | b
  · exact respects_pure _
  · exact respects_ite
      (respects_bind (respects_directiveMagnitude hR b)
        fun _ => respects_closeDirective hR _ _ _ _)
      (respects_pure _)

theorem respects_optionValue
    (name : List UInt8) :
    Respects R (optionValue name) :=
  respects_bind (respects_byte hR) fun _ =>
    respects_ite
      (respects_bind (respects_byte hR) fun _ =>
        respects_unsignedValue hR _ _ _)
      (respects_unsignedValue hR _ _ _)

theorem respects_remark :
    Respects R remark :=
  respects_bind (respects_byte hR) fun _ =>
    respects_ite
      (respects_bind (respects_directiveName hR) fun _ =>
        respects_ite
          (respects_bind (respects_finishLine hR) fun _ =>
            respects_pure _)
          (respects_ite (respects_pure _)
            (respects_ite (respects_optionValue hR _)
              (respects_pure _)))) (respects_pure _)

theorem respects_skipComment
    (ahead : Option UInt8) :
    Respects R (skipComment ahead) := by
  intro c d h
  fun_induction skipComment ahead c generalizing d with
  | case1 c =>
      rw [skipComment.eq_def none d]
      exact respects_fail hR _ _ _ h
  | case2 c =>
      rw [skipComment.eq_def _ d]
      exact .ok () h
  | case3 c hFeed =>
      rw [skipComment.eq_def _ d]
      simp only [if_neg hFeed, if_true]
      exact respects_finishLine hR _ _ h
  | case4 c b hFeed hReturn ih =>
      rw [skipComment.eq_def _ d]
      simp only [if_neg hFeed, if_neg hReturn]
      rw [← hR.byte h]
      exact ih _ (hR.next h)

theorem respects_headerComment
    (enabled : Bool) :
    Respects R (headerComment enabled) :=
  respects_bind (respects_byteAfterBlanks hR) fun _ =>
    respects_ite
      (respects_bind (respects_remark hR) fun found => by
        rcases found with directive | _ | ahead
        · exact respects_pure _
        · exact respects_pure _
        · exact
            respects_bind (respects_skipComment hR ahead)
              fun _ => respects_pure _)
      (respects_bind (respects_skipComment hR _) fun _ =>
        respects_pure _)

------------------------------------------------------------
-- The Header
------------------------------------------------------------

theorem respects_preambleLine
    (strictness : Strictness)
    (enabled : Bool)
    (first : UInt8) :
    Respects R (preambleLine strictness enabled first) :=
  respects_ite
    (respects_bind (respects_finishLine hR) fun _ =>
      respects_ite (respects_failBefore hR _ _)
        (respects_pure _))
    (respects_ite
      (respects_ite (respects_failBefore hR _ _)
        (respects_pure _))
      (respects_ite (respects_headerComment hR _)
        (respects_fail hR _)))

theorem preamble_respects
    {c d : Cursor}
    (strictness : Strictness)
    (atStart : Bool)
    (p : Preamble)
    (h : R c d) :
    (preamble strictness atStart p c).1 =
        (preamble strictness atStart p d).1 ∧
      SameResult R (preamble strictness atStart p c).2
        (preamble strictness atStart p d).2 := by
  fun_induction preamble strictness atStart p c
      generalizing d with
  | case1 atStart p c c₁ hNext =>
      rcases hR.next_eq h hNext with ⟨d₁, hNext', h₁⟩
      rw [preamble_of_end hNext']
      exact ⟨rfl, respects_fail hR _ _ _ h₁⟩
  | case2 atStart p c c₁ hNext =>
      rcases hR.next_eq h hNext with ⟨d₁, hNext', h₁⟩
      rw [preamble_of_header hNext']
      exact ⟨rfl, .ok () h₁⟩
  | case3 atStart p c b c₁ hNext hHeader directive c₂ hLine
        ih =>
      rcases hR.next_eq h hNext with ⟨d₁, hNext', h₁⟩
      have hLine' := respects_preambleLine hR strictness
        p.enabled b _ _ h₁
      rcases hLine'.of_ok hLine with ⟨d₂, hLine', h₂⟩
      rw [preamble_of_line hNext' hHeader hLine']
      exact ih h₂
  | case4 atStart p c b c₁ hNext hHeader e c₂ hLine =>
      rcases hR.next_eq h hNext with ⟨d₁, hNext', h₁⟩
      have hLine' := respects_preambleLine hR strictness
        p.enabled b _ _ h₁
      rcases hLine'.of_error hLine with ⟨d₂, hLine', h₂⟩
      rw [preamble_of_refusal hNext' hHeader hLine']
      exact ⟨rfl, .error e h₂⟩

theorem respects_fieldStart
    (strictness : Strictness) :
    Respects R (fieldStart strictness) :=
  respects_ite (respects_byte hR)
    (respects_byteAfterBlanks hR)

theorem respects_expect
    (expected : UInt8)
    (fault : Fault)
    (ahead : Option UInt8) :
    Respects R (expect expected fault ahead) :=
  respects_ite (respects_byte hR)
    (respects_failBefore hR _ _)

theorem respects_formatName
    (strictness : Strictness) :
    Respects R (formatName strictness) :=
  respects_bind (respects_byte hR) fun _ =>
    respects_ite
      (respects_bind (respects_fieldStart hR strictness)
        fun _ =>
          respects_bind (respects_expect hR _ _ _) fun _ =>
            respects_bind (respects_expect hR _ _ _)
              fun _ =>
                respects_bind (respects_expect hR _ _ _)
                  fun _ =>
                    respects_ite
                      (respects_fieldStart hR strictness)
                      (respects_failBefore hR _ _))
      (respects_failBefore hR _ _)

theorem respects_variablesField
    (ahead : Option UInt8) :
    Respects R (variablesField ahead) := by
  rcases ahead with _ | b
  · exact respects_failBefore hR _ _
  · exact respects_ite (respects_number hR _ _ _)
      (respects_failBefore hR _ _)

theorem respects_afterVariables
    (ahead : Option UInt8) :
    Respects R (afterVariables ahead) := by
  rcases ahead with _ | b
  · exact respects_fail hR _
  · exact respects_ite
      (respects_bind (respects_finishLine hR) fun _ =>
        respects_failBefore hR _ _)
      (respects_ite (respects_failBefore hR _ _)
        (respects_ite (respects_pure _)
          (respects_fail hR _)))

theorem respects_clausesField
    (ahead : Option UInt8) :
    Respects R (clausesField ahead) := by
  rcases ahead with _ | b
  · exact respects_fail hR _
  · exact respects_ite (respects_number hR _ _ _)
      (respects_fail hR _)

theorem respects_headerEnd
    (ahead : Option UInt8) :
    Respects R (headerEnd ahead) := by
  rcases ahead with _ | b
  · exact respects_fail hR _
  · exact respects_ite (respects_finishLine hR)
      (respects_ite (respects_pure _) (respects_fail hR _))

theorem respects_afterClauses
    (strictness : Strictness)
    (ahead : Option UInt8) :
    Respects R (afterClauses strictness ahead) := by
  rw [afterClauses_eq]
  exact respects_ite (respects_fail hR _)
    (respects_bind
      (respects_ite (respects_pure _)
        (respects_skipBlanks hR _)) (respects_headerEnd hR))

theorem respects_headerLine
    (strictness : Strictness) :
    Respects R (headerLine strictness) :=
  respects_bind (respects_formatName hR strictness) fun _ =>
    respects_bind (respects_variablesField hR _) fun _ =>
      respects_bind (respects_afterVariables hR _) fun _ =>
        respects_bind (respects_fieldStart hR strictness)
          fun _ =>
            respects_bind (respects_clausesField hR _)
              fun _ =>
                respects_bind
                  (respects_afterClauses hR strictness _)
                  fun _ => respects_pure _

/-
  Related cursors lead to the same lines before the header,
  and the same header.
-/
theorem header_respects
    {c d : Cursor}
    (strictness : Strictness)
    (o : Options)
    (h : R c d) :
    (header strictness o c).1 = (header strictness o d).1 ∧
      SameResult R (header strictness o c).2
        (header strictness o d).2 := by
  unfold header
  rcases preamble_respects hR strictness true
      { options := o, printed := [] } h with
    ⟨hPreamble, hResult⟩
  generalize preamble strictness true
        { options := o, printed := [] } c =
      left at *
  generalize preamble strictness true
        { options := o, printed := [] } d =
      right at *
  rcases left with ⟨p, result⟩
  rcases right with ⟨p', result'⟩
  cases hResult with
  | ok u h₁ =>
      exact ⟨hPreamble,
        respects_headerLine hR strictness _ _ h₁⟩
  | error e h₁ => exact ⟨hPreamble, .error e h₁⟩

------------------------------------------------------------
-- The Clauses
------------------------------------------------------------

theorem respects_clauseComment
    (strictness : Strictness)
    (fault : Fault) :
    Respects R (clauseComment strictness fault) := by
  intro c d h
  fun_induction clauseComment strictness fault c
      generalizing d with
  | case1 c c₁ hNext =>
      rcases hR.next_eq h hNext with ⟨d₁, hNext', h₁⟩
      rw [clauseComment.eq_def strictness fault d, hNext']
      exact .ok _ h₁
  | case2 c b c₁ hNext hFeed ih =>
      rcases hR.next_eq h hNext with ⟨d₁, hNext', h₁⟩
      rw [clauseComment.eq_def strictness fault d, hNext']
      simp only [if_neg hFeed]
      exact ih d₁ h₁
  | case3 c c₁ hNext hPedantic =>
      rcases hR.next_eq h hNext with ⟨d₁, hNext', h₁⟩
      rw [clauseComment.eq_def strictness fault d, hNext']
      simp only [if_pos hPedantic]
      exact respects_fail hR fault _ _ h₁
  | case4 c c₁ hNext hPedantic =>
      rcases hR.next_eq h hNext with ⟨d₁, hNext', h₁⟩
      rw [clauseComment.eq_def strictness fault d, hNext']
      simp only [if_neg hPedantic]
      exact .ok _ h₁

theorem respects_digitAfterMinus :
    Respects R digitAfterMinus :=
  respects_bind (respects_byte hR) fun ahead => by
    rcases ahead with _ | b
    · exact respects_fail hR _
    · exact respects_ite (respects_failBefore hR _ _)
        (respects_ite (respects_fail hR _)
          (respects_ite (respects_pure _)
            (respects_fail hR _)))

theorem respects_afterNumeral
    (strictness : Strictness)
    (index : Nat)
    (ahead : Option UInt8) :
    Respects R (afterNumeral strictness index ahead) := by
  rcases ahead with _ | b
  · exact respects_ite (respects_fail hR _)
      (respects_pure _)
  · exact respects_ite
      (respects_bind (respects_finishLine hR) fun _ =>
        respects_pure _)
      (respects_ite (respects_clauseComment hR _ _)
        (respects_ite (respects_pure _)
          (respects_fail hR _)))

theorem respects_numeral
    (strictness : Strictness)
    (negative : Bool)
    (first : UInt8) :
    Respects R (numeral strictness negative first) :=
  respects_bind (respects_number hR _ _ _) fun _ =>
    respects_bind (respects_afterNumeral hR _ _ _) fun _ =>
      respects_pure _

theorem respects_tokenFrom
    (strictness : Strictness)
    (first : UInt8) :
    Respects R (tokenFrom strictness first) :=
  respects_ite (respects_pure _)
    (respects_ite
      (respects_bind (respects_finishLine hR) fun _ =>
        respects_pure _)
      (respects_ite
        (respects_bind (respects_clauseComment hR _ _)
          fun ahead => by
            rcases ahead with _ | b
            · exact respects_pure _
            · exact respects_pure _)
        (respects_ite
          (respects_bind (respects_digitAfterMinus hR)
            fun _ => respects_numeral hR _ _ _)
          (respects_ite (respects_numeral hR _ _ _)
            (respects_fail hR _)))))

theorem respects_token
    (strictness : Strictness) :
    Respects R (token strictness) :=
  respects_bind (respects_byte hR) fun ahead => by
    rcases ahead with _ | b
    · exact respects_pure _
    · exact respects_tokenFrom hR strictness b

theorem respects_accept
    (strictness : Strictness)
    (header : Header)
    (parsed : Nat)
    (negative : Bool)
    (index : Nat)
    (ahead : Option UInt8) :
    Respects R
      (accept strictness header parsed negative index
        ahead) :=
  respects_ite (respects_failBefore hR _ _)
    (respects_ite (respects_failBefore hR _ _)
      (respects_literal _ _))

theorem respects_closeBody
    (strictness : Strictness)
    (header : Header)
    (t : Tally) :
    Respects R (closeBody strictness header t) :=
  respects_ite (respects_fail hR _)
    (respects_ite (respects_fail hR _) (respects_pure _))

/- Related cursors lead to the same clauses. -/
theorem body_respects
    {c d : Cursor}
    (strictness : Strictness)
    (header : Header)
    (t : Tally)
    (h : R c d) :
    (body strictness header t c).1 =
        (body strictness header t d).1 ∧
      SameResult R (body strictness header t c).2
        (body strictness header t d).2 := by
  fun_induction body strictness header t c
      generalizing d with
  | case1 t c e c₁ hToken =>
      rcases (respects_token hR strictness _ _ h).of_error
          hToken with
        ⟨d₁, hToken', h₁⟩
      rw [body_of_error hToken']
      exact ⟨rfl, .error e h₁⟩
  | case2 t c c₁ hToken =>
      rcases (respects_token hR strictness _ _ h).of_ok
          hToken with
        ⟨d₁, hToken', h₁⟩
      rw [body_of_finish hToken']
      exact ⟨rfl,
        respects_closeBody hR strictness header t _ _ h₁⟩
  | case3 t c c₁ hToken ih =>
      rcases (respects_token hR strictness _ _ h).of_ok
          hToken with
        ⟨d₁, hToken', h₁⟩
      rw [body_of_gap hToken']
      exact ih h₁
  | case4 t c negative index ahead c₁ hToken e c₂ hAccept =>
      rcases (respects_token hR strictness _ _ h).of_ok
          hToken with
        ⟨d₁, hToken', h₁⟩
      have hSame := respects_accept hR strictness header
        t.parsed negative index ahead _ _ h₁
      rcases hSame.of_error hAccept with ⟨d₂, hAccept', h₂⟩
      rw [body_of_refusal hToken' hAccept']
      exact ⟨rfl, .error e h₂⟩
  | case5 t c negative index ahead c₁ hToken value c₂
        hAccept ih =>
      rcases (respects_token hR strictness _ _ h).of_ok
          hToken with
        ⟨d₁, hToken', h₁⟩
      have hSame := respects_accept hR strictness header
        t.parsed negative index ahead _ _ h₁
      rcases hSame.of_ok hAccept with ⟨d₂, hAccept', h₂⟩
      rw [body_of_numeral hToken' hAccept']
      exact ih h₂

end

------------------------------------------------------------
-- Invariants
------------------------------------------------------------

variable {P : Cursor → Prop}
variable {c : Cursor}

/- Invariants hold where a reader ends. -/
theorem Respects.keeps
    {p : Parser α}
    (hp : Respects (fun c d => c = d ∧ P c) p)
    (h : P c) :
    P (endOf (p c)) :=
  (hp c c ⟨rfl, h⟩).endOf.2

/- Invariants hold where the header ends. -/
theorem header_keeps
    (hP : Cursor.IsInvariant P)
    (strictness : Strictness)
    (o : Options)
    (h : P c) :
    P (endOf (header strictness o c).2) :=
  (header_respects hP.isSimulation strictness o
    ⟨rfl, h⟩).2.endOf.2

/- Invariants hold where the clauses end. -/
theorem body_keeps
    (hP : Cursor.IsInvariant P)
    (strictness : Strictness)
    (header : Header)
    (t : Tally)
    (h : P c) :
    P (endOf (body strictness header t c).2) :=
  (body_respects hP.isSimulation strictness header t
    ⟨rfl, h⟩).2.endOf.2

end Parser

end Dimacs
