import Dimacs.Problem.Header
import Dimacs.Proofs.Header.Comment
import Dimacs.Proofs.Header.Steps

/-
  The grammar of everything up to and including the header
  line, stated apart from the reader, and its equivalence
  with the reader.

  Key definitions include:
    * `LeadLine`
    * `HeaderLine`
    * `HeaderText`

  Main statements:
    * `Parser.preamble_ok_iff`
    * `Parser.headerLine_ok_iff`
    * `Parser.header_ok_iff`
    * `Parser.header_reads_exactly`
-/

namespace Dimacs

------------------------------------------------------------
-- Lines before the Header
------------------------------------------------------------

/- A line that may stand in front of the header. -/
inductive LeadLine where
  | blank (close : LineEnd)
  | comment (text : List UInt8) (close : LineEnd)

namespace LeadLine

/- The bytes of a line, with its line end. -/
def bytes : LeadLine → List UInt8
  | blank close => close.bytes
  | comment text close =>
      Byte.letterC :: (text ++ close.bytes)

/- Pedantic reading admits no blank lines. -/
def IsAllowed
    (strictness : Strictness) : LeadLine → Prop
  | blank _ => ¬ strictness.IsPedantic
  | comment text _ => ∀ b ∈ text, Byte.IsInner b

instance (strictness : Strictness) (line : LeadLine) :
    Decidable (line.IsAllowed strictness) :=
  match line with
  | blank _ =>
      inferInstanceAs (Decidable (¬ strictness.IsPedantic))
  | comment text _ =>
      inferInstanceAs
        (Decidable (∀ b ∈ text, Byte.IsInner b))

end LeadLine

------------------------------------------------------------
-- The Header Line
------------------------------------------------------------

/-
  A blank run in the header; pedantic reading admits none.
-/
def IsGap
    (strictness : Strictness)
    (gap : List UInt8) : Prop :=
  (∀ b ∈ gap, Byte.IsBlank b) ∧
    (strictness.IsPedantic → gap = [])

/-
  A nonempty run of digits whose value is within a limit.
-/
def IsNumeral
    (limit : Nat)
    (digits : List UInt8) : Prop :=
  digits ≠ [] ∧
    (∀ b ∈ digits, Byte.IsDigit b) ∧
    Byte.decimal digits ≤ limit

instance (limit : Nat) (digits : List UInt8) :
    Decidable (IsNumeral limit digits) :=
  have : Decidable (∀ b ∈ digits, Byte.IsDigit b) :=
    List.decidableBAll _ _
  inferInstanceAs (Decidable (_ ∧ _ ∧ _))

/- The parts of the header line that can vary. -/
structure HeaderLine where
  formatGap : List UInt8
  variablesGap : List UInt8
  variableDigits : List UInt8
  clausesGap : List UInt8
  clauseDigits : List UInt8
  closingGap : List UInt8
  close : LineEnd

namespace HeaderLine

/- The bytes of the header line behind its first letter. -/
def tail
    (line : HeaderLine) : List UInt8 :=
  Byte.space ::
      (line.formatGap ++
        [Byte.letterC, Byte.letterN, Byte.letterF,
          Byte.space]) ++
    ((line.variablesGap ++ line.variableDigits) ++
      Byte.space ::
        ((line.clausesGap ++ line.clauseDigits) ++
          (line.closingGap ++ line.close.bytes)))

/- All gaps are blank and both numbers are in range. -/
structure IsAllowed
    (strictness : Strictness)
    (line : HeaderLine) : Prop where
  formatGap : IsGap strictness line.formatGap
  variablesGap : IsGap strictness line.variablesGap
  variableDigits : IsNumeral maxVariable line.variableDigits
  clausesGap : IsGap strictness line.clausesGap
  clauseDigits :
      IsNumeral Check.maxUnsigned64 line.clauseDigits
  closingGap : IsGap strictness line.closingGap

/- What the header line declares. -/
def header
    (line : HeaderLine) : Header where
  variableCount := Byte.decimal line.variableDigits
  clauseCount := Byte.decimal line.clauseDigits

end HeaderLine

/- A text that ends with the header line. -/
structure HeaderText where
  lead : List LeadLine
  line : HeaderLine

namespace HeaderText

/-
  The bytes of the text, from the first line to the end of
  the header line.
-/
def bytes
    (text : HeaderText) : List UInt8 :=
  text.lead.flatMap LeadLine.bytes ++
    Byte.letterP :: text.line.tail

/- Every line of the text is admitted. -/
def IsAllowed
    (strictness : Strictness)
    (text : HeaderText) : Prop :=
  (∀ line ∈ text.lead, line.IsAllowed strictness) ∧
    text.line.IsAllowed strictness

end HeaderText

namespace Parser

------------------------------------------------------------
-- Reading the Lines before the Header
------------------------------------------------------------

/- A line that is admitted is read behind its first byte. -/
def ReadsLeadLine
    (strictness : Strictness)
    (first : UInt8)
    (c c' : Cursor) : Prop :=
  ∃ (line : LeadLine) (rest : List UInt8),
    line.IsAllowed strictness ∧
    line.bytes = first :: rest ∧
    c.Reads rest c'

/-
  The first byte of a line tells what kind of line it is.
-/
theorem readsLeadLine_iff
    {strictness : Strictness}
    {first : UInt8}
    {c c' : Cursor} :
    ReadsLeadLine strictness first c c' ↔
      (first = Byte.lineFeed ∧
          ¬ strictness.IsPedantic ∧
          c = c') ∨
        (first = Byte.carriageReturn ∧
          ¬ strictness.IsPedantic ∧
          c.Reads [Byte.lineFeed] c') ∨
        (first = Byte.letterC ∧
          ∃ line, IsLine line ∧ c.Reads line c') := by
  constructor
  · intro h
    rcases h with ⟨line, rest, hAllowed, hBytes, hReads⟩
    cases line with
    | blank close =>
        cases close
        · cases hBytes
          exact .inl ⟨rfl, hAllowed, hReads⟩
        · cases hBytes
          exact .inr (.inl ⟨rfl, hAllowed, hReads⟩)
    | comment text close =>
        cases hBytes
        exact .inr
          (.inr
            ⟨rfl, _, ⟨text, close, hAllowed, rfl⟩, hReads⟩)
  · intro h
    rcases h with
      ⟨rfl, hPedantic, hReads⟩ | ⟨rfl, hPedantic, hReads⟩ |
      ⟨rfl, _, hLine, hReads⟩
    · exact ⟨.blank .lineFeed, [], hPedantic, rfl, hReads⟩
    · exact ⟨.blank .carriageReturn, [Byte.lineFeed],
        hPedantic, rfl, hReads⟩
    · rcases hLine with ⟨text, close, hText, rfl⟩
      exact ⟨.comment text close, text ++ close.bytes,
        hText, rfl, hReads⟩

/-
  A line in front of the header is read exactly if
  it is admitted.
-/
theorem preambleLine_ok_iff
    {strictness : Strictness}
    {enabled : Bool}
    {first : UInt8}
    {c c' : Cursor} :
    (∃ d,
        preambleLine strictness enabled first c =
          .ok d c') ↔
      ReadsLeadLine strictness first c c' := by
  rw [readsLeadLine_iff]
  by_cases hReturn : first = Byte.carriageReturn
  · subst hReturn
    simp only [preambleLine, if_true, bind_ok_iff,
      finishLine_ok_iff]
    by_cases hPedantic : strictness.IsPedantic
    · simp [hPedantic, Byte.carriageReturn, Byte.letterC]
    · simp [hPedantic, pure_ok_iff, Byte.carriageReturn,
        Byte.lineFeed, Byte.letterC]
  · by_cases hFeed : first = Byte.lineFeed
    · subst hFeed
      simp only [preambleLine, if_neg hReturn, if_true]
      by_cases hPedantic : strictness.IsPedantic
      · simp [hPedantic, Byte.lineFeed, Byte.letterC]
      · simp [hPedantic, pure_ok_iff, Byte.lineFeed,
          Byte.carriageReturn, Byte.letterC]
    · by_cases hComment : first = Byte.letterC
      · subst hComment
        simp [preambleLine, hReturn, hFeed,
          headerComment_ok_iff]
      · simp [preambleLine, hReturn, hFeed, hComment]

/-
  Admitted lines are read, and then the first letter
  of the header.
-/
def ReadsLead
    (strictness : Strictness)
    (c c' : Cursor) : Prop :=
  ∃ lead : List LeadLine,
    (∀ line ∈ lead, line.IsAllowed strictness) ∧
    c.Reads (lead.flatMap LeadLine.bytes ++ [Byte.letterP])
      c'

theorem readsLead_iff
    {strictness : Strictness}
    {b : UInt8}
    {c c₁ c' : Cursor}
    (hNext : c.next = (some b, c₁)) :
    ReadsLead strictness c c' ↔
      (b = Byte.letterP ∧ c₁ = c') ∨
        ∃ c₂,
          ReadsLeadLine strictness b c₁ c₂ ∧
          ReadsLead strictness c₂ c' := by
  constructor
  · intro h
    rcases h with ⟨lead, hAllowed, hReads⟩
    cases lead with
    | nil =>
        rw [List.flatMap_nil, List.nil_append,
          Cursor.reads_singleton, hNext] at hReads
        cases hReads
        exact .inl ⟨rfl, rfl⟩
    | cons line lead =>
        rw [List.flatMap_cons, List.append_assoc,
          Cursor.reads_append] at hReads
        rcases hReads with ⟨c₂, hLine, hLead⟩
        cases hBytes : line.bytes with
        | nil =>
            rcases line with (_ | _) | _ <;> cases hBytes
        | cons a rest =>
            rw [hBytes] at hLine
            rcases (Cursor.reads_cons_of_next hNext).mp
                hLine with
              ⟨rfl, hRest⟩
            exact .inr
              ⟨c₂,
                ⟨line, rest,
                  hAllowed line List.mem_cons_self, hBytes,
                  hRest⟩, lead,
                fun l hl =>
                  hAllowed l (List.mem_cons_of_mem _ hl),
                hLead⟩
  · intro h
    rcases h with
      ⟨rfl, rfl⟩ |
      ⟨c₂, ⟨line, rest, hLine, hBytes, hRest⟩, lead,
        hAllowed, hLead⟩
    · exact ⟨[], nofun, Cursor.reads_singleton.mpr hNext⟩
    · refine ⟨line :: lead,
        List.forall_mem_cons.mpr ⟨hLine, hAllowed⟩, ?_⟩
      rw [List.flatMap_cons, List.append_assoc,
        Cursor.reads_append, hBytes]
      exact ⟨c₂, ⟨c₁, hNext, hRest⟩, hLead⟩

/-
  The lines before the header are read exactly if
  all are admitted.
-/
theorem preamble_ok_iff
    {strictness : Strictness}
    {atStart : Bool}
    {p : Preamble}
    {u : Unit}
    {c c' : Cursor} :
    (∃ p',
        preamble strictness atStart p c = (p', .ok u c')) ↔
      ReadsLead strictness c c' := by
  fun_induction preamble strictness atStart p c with
  | case1 atStart p c c₁ hNext =>
      simp only [Prod.mk.injEq, fail_ne_ok, and_false,
        exists_false, false_iff]
      intro h
      rcases h with ⟨lead, _, hReads⟩
      apply Cursor.next_ne_none_of_reads hReads
      · exact List.append_ne_nil_of_right_ne_nil _
          (List.cons_ne_nil _ _)
      · rw [hNext]
  | case2 atStart p c c₁ hNext =>
      rw [readsLead_iff hNext]
      constructor
      · intro h
        rcases h with ⟨p', hRun⟩
        cases hRun
        exact .inl ⟨rfl, rfl⟩
      · intro h
        rcases h with ⟨_, rfl⟩ | ⟨c₂, hLine, _⟩
        · exact ⟨p, rfl⟩
        · rw [readsLeadLine_iff] at hLine
          simp [Byte.letterP, Byte.lineFeed,
            Byte.carriageReturn, Byte.letterC] at hLine
  | case3 atStart p c b c₁ hNext hLetter d c₂ hLine ih =>
      rw [ih, readsLead_iff hNext]
      constructor
      · intro hLead
        exact .inr
          ⟨c₂, preambleLine_ok_iff.mp ⟨d, hLine⟩, hLead⟩
      · intro h
        rcases h with ⟨hLetter', _⟩ | ⟨c₃, hLine', hLead⟩
        · exact absurd hLetter' hLetter
        · rcases preambleLine_ok_iff.mpr hLine' with
            ⟨d', hRun⟩
          rw [hLine] at hRun
          cases hRun
          exact hLead
  | case4 atStart p c b c₁ hNext hLetter e c₂ hLine =>
      simp only [Prod.mk.injEq, reduceCtorEq, and_false,
        exists_false, false_iff]
      rw [readsLead_iff hNext]
      intro h
      rcases h with ⟨hLetter', _⟩ | ⟨c₃, hLine', _⟩
      · exact hLetter hLetter'
      · rcases preambleLine_ok_iff.mpr hLine' with
          ⟨d', hRun⟩
        rw [hLine] at hRun
        cases hRun

------------------------------------------------------------
-- Reading the Header Line
------------------------------------------------------------

/- A field is found behind any gap that is admitted. -/
theorem fieldStart_ok_iff
    {strictness : Strictness}
    {b : UInt8}
    {c c' : Cursor}
    (hBlank : ¬ Byte.IsBlank b) :
    fieldStart strictness c = .ok (some b) c' ↔
      ∃ gap,
        IsGap strictness gap ∧ c.Reads (gap ++ [b]) c' := by
  unfold fieldStart
  by_cases hPedantic : strictness.IsPedantic
  · rw [if_pos hPedantic, byte_ok_iff,
      ← Cursor.reads_singleton]
    constructor
    · intro hReads
      exact ⟨[], ⟨nofun, fun _ => rfl⟩, hReads⟩
    · intro h
      rcases h with ⟨gap, hGap, hReads⟩
      rwa [hGap.2 hPedantic] at hReads
  · rw [if_neg hPedantic, byteAfterBlanks_some_iff hBlank]
    constructor
    · intro h
      rcases h with ⟨gap, hAll, hReads⟩
      exact
        ⟨gap, ⟨hAll, fun h => absurd h hPedantic⟩, hReads⟩
    · intro h
      rcases h with ⟨gap, hGap, hReads⟩
      exact ⟨gap, hGap.1, hReads⟩

theorem expect_ok_iff
    {expected : UInt8}
    {fault : Fault}
    {ahead ahead' : Option UInt8}
    {c c' : Cursor} :
    expect expected fault ahead c = .ok ahead' c' ↔
      ahead = some expected ∧ c.next = (ahead', c') := by
  unfold expect
  by_cases hExpected : ahead = some expected
  · rw [if_pos hExpected, byte_ok_iff, eq_true hExpected,
      true_and]
  · simp [hExpected]

/- The format name is read up to the first field. -/
theorem formatName_ok_iff
    {strictness : Strictness}
    {ahead : Option UInt8}
    {c c' : Cursor} :
    formatName strictness c = .ok ahead c' ↔
      ∃ gap c₁,
        IsGap strictness gap ∧
        c.Reads
          (Byte.space ::
            (gap ++
              [Byte.letterC, Byte.letterN, Byte.letterF,
                Byte.space])) c₁ ∧
        fieldStart strictness c₁ = .ok ahead c' := by
  have hLetter : ¬ Byte.IsBlank Byte.letterC := by decide
  constructor
  · intro h
    rw [formatName, byte_bind] at h
    split at h
    case isFalse => exact absurd h failBefore_ne_ok
    case isTrue hSpace =>
      simp only [bind_ok_iff, expect_ok_iff] at h
      rcases h with
        ⟨_, c₁, hField, _, c₂, ⟨rfl, hC⟩, _, c₃, ⟨rfl, hN⟩,
          _, c₄, ⟨rfl, hF⟩, h⟩
      split at h
      case isFalse => exact absurd h failBefore_ne_ok
      case isTrue hSpace' =>
        subst hSpace'
        rcases (fieldStart_ok_iff hLetter).mp hField with
          ⟨gap, hGap, hReads⟩
        refine ⟨gap, c₄, hGap,
          ⟨c.next.2, Prod.ext hSpace rfl, ?_⟩, h⟩
        rw [show [Byte.letterC, Byte.letterN, Byte.letterF,
              Byte.space] =
            [Byte.letterC] ++
              [Byte.letterN, Byte.letterF, Byte.space] from
            rfl,
          ← List.append_assoc, Cursor.reads_append]
        exact ⟨c₁, hReads, c₂, hC, c₃, hN, c₄, hF, rfl⟩
  · intro h
    rcases h with
      ⟨gap, c₄, hGap, ⟨c₀, hSpace, hReads⟩, hField⟩
    rw [show [Byte.letterC, Byte.letterN, Byte.letterF,
          Byte.space] =
        [Byte.letterC] ++
          [Byte.letterN, Byte.letterF, Byte.space] from rfl,
      ← List.append_assoc, Cursor.reads_append] at hReads
    rcases hReads with
      ⟨c₁, hReads, c₂, hC, c₃, hN, _, hF, rfl⟩
    have hStart :=
      (fieldStart_ok_iff hLetter).mpr ⟨gap, hGap, hReads⟩
    rw [formatName, byte_bind, hSpace, if_pos rfl,
      bind_of_ok hStart,
      bind_of_ok (expect_ok_iff.mpr ⟨rfl, hC⟩),
      bind_of_ok (expect_ok_iff.mpr ⟨rfl, hN⟩),
      bind_of_ok (expect_ok_iff.mpr ⟨rfl, hF⟩), if_pos rfl]
    exact hField

theorem not_isBlank_of_isDigit
    {b : UInt8}
    (hDigit : Byte.IsDigit b) :
    ¬ Byte.IsBlank b := by
  intro hBlank
  rcases hBlank with rfl | rfl <;>
    exact absurd hDigit (by decide)

/-
  A bounded number is read together with the gap in
  front of it.
-/
theorem numberField_ok_iff
    {strictness : Strictness}
    {limit n : Nat}
    {fault : Fault}
    {ahead : Option UInt8}
    {c c' : Cursor}
    (hLimit : limit ≤ Check.maxUnsigned64)
    (hNine : 9 ≤ limit) :
    (∃ b c₁,
        fieldStart strictness c = .ok (some b) c₁ ∧
        number limit fault b c₁ = .ok (n, ahead) c') ↔
      ∃ gap digits,
        IsGap strictness gap ∧
        IsNumeral limit digits ∧
        Byte.decimal digits = n ∧
        (∀ b ∈ ahead, ¬ Byte.IsDigit b) ∧
        c.ReadsUpTo (gap ++ digits) ahead c' := by
  constructor
  · intro h
    rcases h with ⟨b, c₁, hField, hNumber⟩
    rcases (number_ok_iff hLimit hNine).mp hNumber with
      ⟨digits, hFirst, hRun, rfl, hn⟩
    rcases (fieldStart_ok_iff
          (not_isBlank_of_isDigit hFirst)).mp hField with
      ⟨gap, hGap, hReads⟩
    refine ⟨gap, b :: digits, hGap,
      ⟨List.cons_ne_nil _ _,
        List.forall_mem_cons.mpr ⟨hFirst, hRun.all⟩, hn⟩,
      rfl, hRun.stops, ?_⟩
    rcases hRun.reads with ⟨c₂, hDigits, hAhead⟩
    refine ⟨c₂, ?_, hAhead⟩
    rw [List.append_cons, Cursor.reads_append]
    exact ⟨c₁, hReads, hDigits⟩
  · intro h
    rcases h with
      ⟨gap, digits, hGap, ⟨hNonempty, hDigits, hn⟩, rfl,
        hAhead, hReads⟩
    cases digits with
    | nil => exact absurd rfl hNonempty
    | cons b digits =>
        rcases List.forall_mem_cons.mp hDigits with
          ⟨hFirst, hRest⟩
        rcases hReads with ⟨c₂, hReads, hEnd⟩
        rw [List.append_cons, Cursor.reads_append] at hReads
        rcases hReads with ⟨c₁, hGapReads, hDigitReads⟩
        refine ⟨b, c₁, ?_, ?_⟩
        · exact (fieldStart_ok_iff
              (not_isBlank_of_isDigit hFirst)).mpr
            ⟨gap, hGap, hGapReads⟩
        · exact (number_ok_iff hLimit hNine).mpr
            ⟨digits, hFirst,
              ⟨hRest, hAhead, c₂, hDigitReads, hEnd⟩, rfl,
              hn⟩

theorem variablesField_ok_iff
    {ahead : Option UInt8}
    {r : Nat × Option UInt8}
    {c c' : Cursor} :
    variablesField ahead c = .ok r c' ↔
      ∃ b,
        ahead = some b ∧
        number maxVariable .variablesTooLarge b c =
          .ok r c' := by
  rcases ahead with _ | b
  · simp [variablesField]
  · by_cases hDigit : Byte.IsDigit b
    · simp [variablesField, hDigit]
    · simp only [variablesField, if_neg hDigit,
        failBefore_ne_ok, false_iff]
      intro h
      rcases h with ⟨a, hAhead, hNumber⟩
      cases hAhead
      exact hDigit (isDigit_of_number_ok hNumber)

theorem clausesField_ok_iff
    {ahead : Option UInt8}
    {r : Nat × Option UInt8}
    {c c' : Cursor} :
    clausesField ahead c = .ok r c' ↔
      ∃ b,
        ahead = some b ∧
        number Check.maxUnsigned64 .clausesTooLarge b c =
          .ok r c' := by
  rcases ahead with _ | b
  · simp [clausesField]
  · by_cases hDigit : Byte.IsDigit b
    · simp [clausesField, hDigit]
    · simp only [clausesField, if_neg hDigit, fail_ne_ok,
        false_iff]
      intro h
      rcases h with ⟨a, hAhead, hNumber⟩
      cases hAhead
      exact hDigit (isDigit_of_number_ok hNumber)

theorem afterVariables_ok_iff
    {ahead : Option UInt8}
    {u : Unit}
    {c c' : Cursor} :
    afterVariables ahead c = .ok u c' ↔
      ahead = some Byte.space ∧ c = c' := by
  rcases ahead with _ | b
  · simp [afterVariables]
  · by_cases hReturn : b = Byte.carriageReturn
    · subst hReturn
      simp [afterVariables, bind_ok_iff,
        Byte.carriageReturn, Byte.space]
    · by_cases hFeed : b = Byte.lineFeed
      · subst hFeed
        simp [afterVariables, hReturn, Byte.lineFeed,
          Byte.space]
      · by_cases hSpace : b = Byte.space
        · subst hSpace
          simp [afterVariables, hReturn, hFeed, pure_ok_iff]
        · simp [afterVariables, hReturn, hFeed, hSpace]

/-
  The closing gap is read the way the gap in front of
  a field is.
-/
theorem afterClauses_next
    {strictness : Strictness}
    {c : Cursor}
    (hSome : c.next.1 ≠ none) :
    afterClauses strictness c.next.1 c.next.2 =
      (fieldStart strictness >>= headerEnd) c := by
  rw [afterClauses_eq, if_neg hSome, fieldStart]
  by_cases hPedantic : strictness.IsPedantic
  · rw [if_pos hPedantic, if_pos hPedantic, byte_bind]
    rfl
  · rw [if_neg hPedantic, if_neg hPedantic, bind_apply,
      skipBlanks_next, bind_apply]

/-
  Behind the last number, only a gap may stand before
  the line end.
-/
theorem afterClauses_ok_iff
    {strictness : Strictness}
    {u : Unit}
    {c c' : Cursor} :
    afterClauses strictness c.next.1 c.next.2 = .ok u c' ↔
      ∃ gap close,
        IsGap strictness gap ∧
        c.Reads (gap ++ LineEnd.bytes close) c' := by
  constructor
  · intro h
    by_cases hNone : c.next.1 = none
    · rw [afterClauses, if_pos hNone] at h
      exact absurd h fail_ne_ok
    · rw [afterClauses_next hNone, bind_ok_iff] at h
      rcases h with ⟨ahead, c₁, hStart, hEnd⟩
      rcases ahead with _ | b
      · exact absurd hEnd fail_ne_ok
      · rw [headerEnd] at hEnd
        split at hEnd
        case isTrue hReturn =>
          subst hReturn
          rcases (fieldStart_ok_iff (by decide)).mp
              hStart with
            ⟨gap, hGap, hReads⟩
          refine ⟨gap, .carriageReturn, hGap, ?_⟩
          rw [LineEnd.bytes, List.append_cons,
            Cursor.reads_append]
          exact ⟨c₁, hReads, finishLine_ok_iff.mp hEnd⟩
        case isFalse =>
          split at hEnd
          case isTrue hFeed =>
            subst hFeed
            rcases (fieldStart_ok_iff (by decide)).mp
                hStart with
              ⟨gap, hGap, hReads⟩
            rw [(pure_ok_iff.mp hEnd).2] at hReads
            exact ⟨gap, .lineFeed, hGap, hReads⟩
          case isFalse => exact absurd hEnd fail_ne_ok
  · intro h
    rcases h with ⟨gap, close, hGap, hReads⟩
    have hSome : c.next.1 ≠ none := by
      apply Cursor.next_ne_none_of_reads hReads
      intro hNil
      exact close.bytes_ne_nil
        (List.append_eq_nil_iff.mp hNil).2
    rw [afterClauses_next hSome]
    cases close with
    | lineFeed =>
        have hStart := (fieldStart_ok_iff (by decide)).mpr
          ⟨gap, hGap, hReads⟩
        rw [bind_of_ok hStart]
        rfl
    | carriageReturn =>
        rw [LineEnd.bytes, List.append_cons,
          Cursor.reads_append] at hReads
        rcases hReads with ⟨c₁, hGapReads, hFeed⟩
        have hStart := (fieldStart_ok_iff (by decide)).mpr
          ⟨gap, hGap, hGapReads⟩
        rw [bind_of_ok hStart]
        exact finishLine_ok_iff.mpr hFeed

/- The header line is read part by part. -/
theorem reads_tail_iff
    {line : HeaderLine}
    {c c' : Cursor} :
    c.Reads line.tail c' ↔
      ∃ c₁ c₂ c₃,
        c.Reads
          (Byte.space ::
            (line.formatGap ++
              [Byte.letterC, Byte.letterN, Byte.letterF,
                Byte.space])) c₁ ∧
        c₁.ReadsUpTo
          (line.variablesGap ++ line.variableDigits)
          (some Byte.space) c₂ ∧
        c₂.Reads (line.clausesGap ++ line.clauseDigits) c₃ ∧
        c₃.Reads (line.closingGap ++ line.close.bytes)
          c' := by
  constructor
  · intro h
    rcases Cursor.reads_append.mp h with
      ⟨c₁, hFormat, hRest⟩
    rcases Cursor.reads_append.mp hRest with
      ⟨c₀, hVariables, c₂, hSpace, hRest⟩
    rcases Cursor.reads_append.mp hRest with
      ⟨c₃, hClauses, hClose⟩
    exact ⟨c₁, c₂, c₃, hFormat, ⟨c₀, hVariables, hSpace⟩,
      hClauses, hClose⟩
  · intro h
    rcases h with
      ⟨c₁, c₂, c₃, hFormat, ⟨c₀, hVariables, hSpace⟩,
        hClauses, hClose⟩
    apply Cursor.reads_append.mpr
    refine ⟨c₁, hFormat,
      Cursor.reads_append.mpr
        ⟨c₀, hVariables, c₂, hSpace, ?_⟩⟩
    exact Cursor.reads_append.mpr ⟨c₃, hClauses, hClose⟩

/-
  What ends the last number of the header line is no digit.
-/
theorem not_isDigit_of_closing
    {strictness : Strictness}
    {gap : List UInt8}
    {close : LineEnd}
    {c c' : Cursor}
    (hGap : IsGap strictness gap)
    (hReads : c.Reads (gap ++ close.bytes) c') :
    ∀ b ∈ c.next.1, ¬ Byte.IsDigit b := by
  intro b hMem hDigit
  have hInner := Byte.isInner_of_isDigit hDigit
  cases gap with
  | nil =>
      cases close
      · rcases hReads with ⟨c₁, hNext, _⟩
        rw [hNext, Option.mem_some_iff] at hMem
        exact hInner.2 hMem.symm
      · rcases hReads with ⟨c₁, hNext, _⟩
        rw [hNext, Option.mem_some_iff] at hMem
        exact hInner.1 hMem.symm
  | cons a gap =>
      rcases hReads with ⟨c₁, hNext, _⟩
      rw [hNext, Option.mem_some_iff] at hMem
      subst hMem
      exact not_isBlank_of_isDigit hDigit
        (hGap.1 a List.mem_cons_self)

/-
  The header line is read exactly if its parts are admitted.
-/
theorem headerLine_ok_iff
    {strictness : Strictness}
    {header : Header}
    {c c' : Cursor} :
    headerLine strictness c = .ok header c' ↔
      ∃ line : HeaderLine,
        line.IsAllowed strictness ∧
        line.header = header ∧
        c.Reads line.tail c' := by
  have hVariables : maxVariable ≤ Check.maxUnsigned64 := by
    decide
  have hClauses :
      Check.maxUnsigned64 ≤ Check.maxUnsigned64 :=
    Nat.le_refl _
  constructor
  · intro h
    simp only [headerLine, bind_ok_iff, formatName_ok_iff,
      variablesField_ok_iff, afterVariables_ok_iff,
      clausesField_ok_iff, pure_ok_iff, Prod.exists] at h
    rcases h with
      ⟨_, c₂, ⟨formatGap, c₁, hFormatGap, hFormat, hStart⟩,
        _, _, c₃, ⟨b, rfl, hNumber⟩, _, _, ⟨rfl, rfl⟩, _,
        c₅, hStart', _, ahead, c₆, ⟨b', rfl, hNumber'⟩, u,
        c₇, hClose, rfl, rfl⟩
    rcases (numberField_ok_iff hVariables (by decide)).mp
        ⟨b, c₂, hStart, hNumber⟩ with
      ⟨variablesGap, variableDigits, hVariablesGap,
        hVariableDigits, rfl, _, hReads⟩
    rcases (numberField_ok_iff hClauses (by decide)).mp
        ⟨b', c₅, hStart', hNumber'⟩ with
      ⟨clausesGap, clauseDigits, hClausesGap, hClauseDigits,
        rfl, _, c₄, hReads', hAhead⟩
    have hEnd :
        afterClauses strictness c₄.next.1 c₄.next.2 =
          .ok u c₇ := by
      rw [hAhead]
      exact hClose
    rcases afterClauses_ok_iff.mp hEnd with
      ⟨closingGap, close, hClosingGap, hCloseReads⟩
    exact
      ⟨⟨formatGap, variablesGap, variableDigits, clausesGap,
          clauseDigits, closingGap, close⟩,
        ⟨hFormatGap, hVariablesGap, hVariableDigits,
          hClausesGap, hClauseDigits, hClosingGap⟩, rfl,
        reads_tail_iff.mpr
          ⟨c₁, c₃, c₄, hFormat, hReads, hReads',
            hCloseReads⟩⟩
  · intro h
    rcases h with ⟨line, hAllowed, rfl, hReads⟩
    rcases reads_tail_iff.mp hReads with
      ⟨c₁, c₃, c₄, hFormat, hVariableReads, hClauseReads,
        hCloseReads⟩
    have hSpace :
        ∀ b ∈ some Byte.space, ¬ Byte.IsDigit b := by
      intro b hMem
      cases hMem
      decide
    have hVariableField :
        ∃ b c₂,
          fieldStart strictness c₁ = .ok (some b) c₂ ∧
          number maxVariable .variablesTooLarge b c₂ =
            .ok
              (Byte.decimal line.variableDigits,
                some Byte.space) c₃ :=
      (numberField_ok_iff hVariables (by decide)).mpr
        ⟨_, _, hAllowed.variablesGap,
          hAllowed.variableDigits, rfl, hSpace,
          hVariableReads⟩
    have hClauseField :
        ∃ b c₅,
          fieldStart strictness c₃ = .ok (some b) c₅ ∧
          number Check.maxUnsigned64 .clausesTooLarge b c₅ =
            .ok (Byte.decimal line.clauseDigits, c₄.next.1)
              c₄.next.2 :=
      (numberField_ok_iff hClauses (by decide)).mpr
        ⟨_, _, hAllowed.clausesGap, hAllowed.clauseDigits,
          rfl,
          not_isDigit_of_closing hAllowed.closingGap
            hCloseReads, c₄, hClauseReads, rfl⟩
    rcases hVariableField with ⟨b, c₂, hStart, hNumber⟩
    rcases hClauseField with ⟨b', c₅, hStart', hNumber'⟩
    have hEnd :
        afterClauses strictness c₄.next.1 c₄.next.2 =
          .ok () c' :=
      afterClauses_ok_iff.mpr
        ⟨_, _, hAllowed.closingGap, hCloseReads⟩
    have hName := formatName_ok_iff.mpr
      ⟨_, c₁, hAllowed.formatGap, hFormat, hStart⟩
    simp only [headerLine, bind_ok_iff,
      variablesField_ok_iff, afterVariables_ok_iff,
      clausesField_ok_iff, pure_ok_iff, Prod.exists]
    exact ⟨_, c₂, hName, _, _, c₃, ⟨b, rfl, hNumber⟩, (),
      c₃, ⟨rfl, rfl⟩, _, c₅, hStart', _, _, _,
      ⟨b', rfl, hNumber'⟩, (), c', hEnd, rfl, rfl⟩

------------------------------------------------------------
-- Reading the Header
------------------------------------------------------------

/-
  The header is read exactly if an admitted text stands in
  front of the cursor, and the cursor then stands behind it.
-/
theorem header_ok_iff
    {strictness : Strictness}
    {o : Options}
    {header : Header}
    {c c' : Cursor} :
    (∃ p,
        Parser.header strictness o c = (p, .ok header c')) ↔
      ∃ text : HeaderText,
        text.IsAllowed strictness ∧
        text.line.header = header ∧
        c.Reads text.bytes c' := by
  constructor
  · intro h
    rcases h with ⟨p, hHeader⟩
    rw [Parser.header] at hHeader
    split at hHeader
    case h_2 =>
      simp at hHeader
    case h_1 r p' c₁ hLead =>
      rw [Prod.mk.injEq] at hHeader
      rcases preamble_ok_iff.mp ⟨p', hLead⟩ with
        ⟨lead, hAllowed, hReads⟩
      rcases headerLine_ok_iff.mp hHeader.2 with
        ⟨line, hLine, hValue, hTail⟩
      refine ⟨⟨lead, line⟩, ⟨hAllowed, hLine⟩, hValue, ?_⟩
      rw [HeaderText.bytes, List.append_cons,
        Cursor.reads_append]
      exact ⟨c₁, hReads, hTail⟩
  · intro h
    rcases h with
      ⟨⟨lead, line⟩, ⟨hAllowed, hLine⟩, hValue, hReads⟩
    rw [HeaderText.bytes, List.append_cons,
      Cursor.reads_append] at hReads
    rcases hReads with ⟨c₁, hLead, hTail⟩
    have hPreamble :
        ∃ p,
          preamble strictness true
              { options := o, printed := [] } c =
            (p, .ok () c₁) :=
      preamble_ok_iff.mpr ⟨lead, hAllowed, hLead⟩
    rcases hPreamble with ⟨p, hPreamble⟩
    refine ⟨p, ?_⟩
    rw [Parser.header, hPreamble]
    dsimp only
    rw [headerLine_ok_iff.mpr ⟨line, hLine, hValue, hTail⟩]

/-
  Reading the header succeeds exactly on the texts of the
  grammar. It returns the two declared numbers, and what
  can be read afterwards is what stands behind the text.
-/
theorem header_reads_exactly
    (strictness : Strictness)
    (o : Options)
    (c : Cursor)
    (header : Header)
    (rest : List UInt8) :
    (∃ p c',
        Parser.header strictness o c = (p, .ok header c') ∧
        c'.readable = rest) ↔
      ∃ text : HeaderText,
        text.IsAllowed strictness ∧
        text.line.header = header ∧
        c.readable = text.bytes ++ rest := by
  constructor
  · intro h
    rcases h with ⟨p, c', hHeader, rfl⟩
    rcases header_ok_iff.mp ⟨p, hHeader⟩ with
      ⟨text, hAllowed, hValue, hReads⟩
    exact ⟨text, hAllowed, hValue,
      Cursor.readable_of_reads hReads⟩
  · intro h
    rcases h with ⟨text, hAllowed, hValue, hReadable⟩
    rcases Cursor.exists_reads hReadable with
      ⟨c', hReads, hRest⟩
    rcases header_ok_iff.mpr
        ⟨text, hAllowed, hValue, hReads⟩ with
      ⟨p, hHeader⟩
    exact ⟨p, c', hHeader, hRest⟩

end Parser

end Dimacs
