import Dimacs.Problem.Directive
import Dimacs.Proofs.Clauses.Steps

/-
  A comment line in front of the header is read the same way
  whether or not it holds a directive: what is consumed, and
  which faults arise, is what skipping the line would do.

  Main statements:
    * `Parser.skipComment_ok_iff`
    * `Parser.remark_dismiss`
    * `Parser.outline_headerComment`
-/

namespace Dimacs

namespace Byte

/-
  A byte that is neither part of a line end nor the end
  of a line.
-/
def IsInner
    (b : UInt8) : Prop :=
  b ≠ carriageReturn ∧ b ≠ lineFeed

instance (b : UInt8) :
    Decidable (IsInner b) :=
  inferInstanceAs (Decidable (_ ∧ _))

theorem isInner_of_isBlank
    {b : UInt8}
    (h : IsBlank b) :
    IsInner b := by
  rcases h with rfl | rfl <;> decide

theorem isInner_of_isLower
    {b : UInt8}
    (h : IsLower b) :
    IsInner b := by
  constructor
  · rintro rfl
    exact absurd h (by decide)
  · rintro rfl
    exact absurd h (by decide)

theorem isInner_of_isDigit
    {b : UInt8}
    (h : IsDigit b) :
    IsInner b := by
  constructor
  · rintro rfl
    exact absurd h (by decide)
  · rintro rfl
    exact absurd h (by decide)

end Byte

------------------------------------------------------------
-- Lines
------------------------------------------------------------

/- Bytes within a line, and then its end. -/
def IsLine
    (bytes : List UInt8) : Prop :=
  ∃ (text : List UInt8) (close : LineEnd),
    (∀ b ∈ text, Byte.IsInner b) ∧
    bytes = text ++ close.bytes

theorem isLine_lineFeed_iff
    {rest : List UInt8} :
    IsLine (Byte.lineFeed :: rest) ↔ rest = [] := by
  constructor
  · intro h
    rcases h with ⟨text, close, hText, hBytes⟩
    cases text with
    | nil =>
        rw [List.nil_append] at hBytes
        cases close
        · exact (List.cons.inj hBytes).2
        · exact absurd (List.cons.inj hBytes).1 (by decide)
    | cons b text =>
        have hInner := (List.forall_mem_cons.mp hText).1
        rw [List.cons_append, List.cons.injEq] at hBytes
        exact absurd hBytes.1.symm hInner.2
  · rintro rfl
    exact ⟨[], .lineFeed, nofun, rfl⟩

theorem isLine_carriageReturn_iff
    {rest : List UInt8} :
    IsLine (Byte.carriageReturn :: rest) ↔
      rest = [Byte.lineFeed] := by
  constructor
  · intro h
    rcases h with ⟨text, close, hText, hBytes⟩
    cases text with
    | nil =>
        rw [List.nil_append] at hBytes
        cases close
        · exact absurd (List.cons.inj hBytes).1 (by decide)
        · exact (List.cons.inj hBytes).2
    | cons b text =>
        have hInner := (List.forall_mem_cons.mp hText).1
        rw [List.cons_append, List.cons.injEq] at hBytes
        exact absurd hBytes.1.symm hInner.1
  · rintro rfl
    exact ⟨[], .carriageReturn, nofun, rfl⟩

theorem isLine_inner_iff
    {b : UInt8}
    {rest : List UInt8}
    (hInner : Byte.IsInner b) :
    IsLine (b :: rest) ↔ IsLine rest := by
  constructor
  · intro h
    rcases h with ⟨text, close, hText, hBytes⟩
    cases text with
    | nil =>
        rw [List.nil_append] at hBytes
        cases close
        · exact absurd (List.cons.inj hBytes).1 hInner.2
        · exact absurd (List.cons.inj hBytes).1 hInner.1
    | cons b' text =>
        rw [List.cons_append, List.cons.injEq] at hBytes
        exact ⟨text, close,
          (List.forall_mem_cons.mp hText).2, hBytes.2⟩
  · intro h
    rcases h with ⟨text, close, hText, rfl⟩
    exact ⟨b :: text, close,
      List.forall_mem_cons.mpr ⟨hInner, hText⟩, rfl⟩

theorem not_isLine_nil :
    ¬ IsLine [] := by
  intro h
  rcases h with ⟨text, close, _, hBytes⟩
  exact close.bytes_ne_nil
    (List.append_eq_nil_iff.mp hBytes.symm).2

/- A line that is read starts with the next byte. -/
theorem exists_line_iff
    {c c' : Cursor} :
    (∃ line, IsLine line ∧ c.Reads line c') ↔
      ∃ b rest, c.next.1 = some b ∧ IsLine (b :: rest) ∧
        c.next.2.Reads rest c' := by
  constructor
  · intro h
    rcases h with ⟨line, hLine, hReads⟩
    cases line with
    | nil => exact absurd hLine not_isLine_nil
    | cons b rest =>
        rcases hReads with ⟨c₁, hNext, hReads⟩
        exact
          ⟨b, rest, by rw [hNext], hLine, by rwa [hNext]⟩
  · intro h
    rcases h with ⟨b, rest, hAhead, hLine, hReads⟩
    exact ⟨b :: rest, hLine, c.next.2, Prod.ext hAhead rfl,
      hReads⟩

namespace Parser

variable {α : Type}

------------------------------------------------------------
-- Skipping a Line
------------------------------------------------------------

theorem skipComment_lineFeed
    (c : Cursor) :
    skipComment (some Byte.lineFeed) c = .ok () c := by
  rw [skipComment, if_pos rfl]

theorem skipComment_carriageReturn
    (c : Cursor) :
    skipComment (some Byte.carriageReturn) c =
      finishLine c := by
  rw [skipComment, if_neg (by decide), if_pos rfl]

theorem skipComment_inner
    {b : UInt8}
    (hInner : Byte.IsInner b)
    (c : Cursor) :
    skipComment (some b) c =
      skipComment c.next.1 c.next.2 := by
  rw [skipComment, if_neg hInner.2, if_neg hInner.1]

/-
  A comment is skipped if its bytes are a line, from the
  first one on.
-/
theorem skipComment_ok_iff
    {ahead : Option UInt8}
    {u : Unit}
    {c c' : Cursor} :
    skipComment ahead c = .ok u c' ↔
      ∃ b rest,
        ahead = some b ∧
        IsLine (b :: rest) ∧
        c.Reads rest c' := by
  fun_induction skipComment ahead c with
  | case1 c => simp
  | case2 c =>
      constructor
      · intro h
        cases h
        exact ⟨_, [], rfl, isLine_lineFeed_iff.mpr rfl, rfl⟩
      · intro h
        rcases h with ⟨b, rest, hAhead, hLine, hReads⟩
        cases hAhead
        rw [isLine_lineFeed_iff.mp hLine, Cursor.reads_nil]
          at hReads
        rw [hReads]
  | case3 c hFeed =>
      rw [finishLine_ok_iff]
      constructor
      · intro hReads
        exact ⟨_, _, rfl, isLine_carriageReturn_iff.mpr rfl,
          hReads⟩
      · intro h
        rcases h with ⟨b, rest, hAhead, hLine, hReads⟩
        cases hAhead
        rwa [isLine_carriageReturn_iff.mp hLine] at hReads
  | case4 c b hFeed hReturn ih =>
      have hInner : Byte.IsInner b := ⟨hReturn, hFeed⟩
      rw [ih, ← exists_line_iff]
      constructor
      · intro h
        rcases h with ⟨rest, hLine, hReads⟩
        exact ⟨b, rest, rfl,
          (isLine_inner_iff hInner).mpr hLine, hReads⟩
      · intro h
        rcases h with ⟨a, rest, hAhead, hLine, hReads⟩
        cases hAhead
        exact
          ⟨rest, (isLine_inner_iff hInner).mp hLine, hReads⟩

------------------------------------------------------------
-- Pieces of a Directive
------------------------------------------------------------

theorem skipComment_pastBlanks
    (c : Cursor) :
    skipComment (pastBlanks c).1 (pastBlanks c).2 =
      skipComment c.next.1 c.next.2 := by
  fun_induction pastBlanks c with
  | case1 c b c₁ hNext hBlank ih =>
      rw [ih, hNext,
        skipComment_inner (Byte.isInner_of_isBlank hBlank)]
  | case2 c b c₁ hNext hBlank => rw [hNext]
  | case3 c c₁ hNext => rw [hNext]

theorem skipComment_letters
    (name : List UInt8)
    (c : Cursor) :
    skipComment (letters name c).1.2 (letters name c).2 =
      skipComment c.next.1 c.next.2 := by
  fun_induction letters name c with
  | case1 name c b c₁ hNext hLower ih =>
      rw [ih, hNext,
        skipComment_inner
          (Byte.isInner_of_isLower hLower.1)]
  | case2 name c b c₁ hNext hLower => rw [hNext]
  | case3 name c c₁ hNext => rw [hNext]

theorem skipComment_magnitude
    (value : Nat)
    (c : Cursor) :
    skipComment (magnitude value c).1.2
        (magnitude value c).2 =
      skipComment c.next.1 c.next.2 := by
  fun_induction magnitude value c with
  | case1 value c b c₁ hNext hDigit extended hExtend ih =>
      rw [ih, hNext,
        skipComment_inner (Byte.isInner_of_isDigit hDigit)]
  | case2 value c b c₁ hNext hDigit hExtend => rw [hNext]
  | case3 value c b c₁ hNext hDigit => rw [hNext]
  | case4 value c c₁ hNext => rw [hNext]

/- The digits of a directive stay within its width. -/
theorem magnitude_le
    {value : Nat}
    (c : Cursor)
    (hValue : value ≤ Directive.maxMagnitude) :
    (magnitude value c).1.1 ≤ Directive.maxMagnitude := by
  fun_induction magnitude value c with
  | case1 value c b c₁ hNext hDigit extended hExtend ih =>
      rw [Check.appendDigit?_eq] at hExtend
      split at hExtend
      case isTrue hFits =>
        cases hExtend
        exact ih hFits
      case isFalse => cases hExtend
  | case2 value c b c₁ hNext hDigit hExtend => exact hValue
  | case3 value c b c₁ hNext hDigit => exact hValue
  | case4 value c c₁ hNext => exact hValue

------------------------------------------------------------
-- Directives as Text
------------------------------------------------------------

/-
  What remains to be read of a comment once its
  remark is known.
-/
def dismiss : Remark → Parser Unit
  | .directive _ => pure ()
  | .ended => pure ()
  | .text ahead => skipComment ahead

/-
  A value that fits its width passes the check, and is
  the number written.
-/
theorem directiveValue_eq
    (negative : Bool)
    {value : Nat}
    (hValue : value ≤ Directive.maxMagnitude)
    (c : Cursor) :
    directiveValue negative value c =
      .ok (signed negative value) c := by
  rw [directiveValue, int32_signed negative hValue]

theorem skipBlanks_inner
    (ahead : Option UInt8)
    (c : Cursor) :
    ∃ ahead' c',
      skipBlanks ahead c = .ok ahead' c' ∧
        skipComment ahead' c' = skipComment ahead c := by
  rcases ahead with _ | b
  · exact ⟨none, c, rfl, rfl⟩
  · by_cases hBlank : Byte.IsBlank b
    · refine ⟨(pastBlanks c).1, (pastBlanks c).2, ?_, ?_⟩
      · rw [skipBlanks, if_pos hBlank, byteAfterBlanks]
      · rw [skipComment_pastBlanks,
          skipComment_inner
            (Byte.isInner_of_isBlank hBlank)]
    · refine ⟨some b, c, ?_, rfl⟩
      rw [skipBlanks, if_neg hBlank]
      rfl

/-
  The end of a directive is read as the end of a
  comment would be.
-/
theorem closeDirective_dismiss
    (name : List UInt8)
    (negative : Bool)
    {value : Nat}
    (hValue : value ≤ Directive.maxMagnitude)
    (ahead : Option UInt8)
    (c : Cursor) :
    (closeDirective name negative value ahead >>= dismiss)
        c =
      skipComment ahead c := by
  rcases skipBlanks_inner ahead c with
    ⟨ahead', c', hBlanks, hSkip⟩
  rw [← hSkip, closeDirective, bind_assoc,
    bind_of_ok hBlanks]
  by_cases hReturn : ahead' = some Byte.carriageReturn
  · rw [if_pos hReturn, hReturn, skipComment_carriageReturn,
      bind_assoc]
    cases hFinish : finishLine c' with
    | ok u c₁ =>
        rw [bind_of_ok hFinish, bind_assoc,
          bind_of_ok (directiveValue_eq negative hValue c₁)]
        rfl
    | error e c₁ => rw [bind_of_error hFinish]
  · rw [if_neg hReturn]
    by_cases hFeed : ahead' = some Byte.lineFeed
    · rw [if_pos hFeed, hFeed, skipComment_lineFeed,
        bind_assoc,
        bind_of_ok (directiveValue_eq negative hValue c')]
      rfl
    · rw [if_neg hFeed]
      rfl

theorem unsignedValue_dismiss
    (name : List UInt8)
    (negative : Bool)
    (ahead : Option UInt8)
    (c : Cursor) :
    (unsignedValue name negative ahead >>= dismiss) c =
      skipComment ahead c := by
  rcases ahead with _ | b
  · rfl
  · by_cases hDigit : Byte.IsDigit b
    · have hFirst : Byte.digit b ≤ Directive.maxMagnitude :=
        Nat.le_trans (Byte.digit_le_nine hDigit) (by decide)
      have hRead :
          directiveMagnitude b c =
            .ok (magnitude (Byte.digit b) c).1
              (magnitude (Byte.digit b) c).2 :=
        rfl
      rw [skipComment_inner
          (Byte.isInner_of_isDigit hDigit),
        ← skipComment_magnitude (Byte.digit b),
        ← closeDirective_dismiss name negative
          (magnitude_le c hFirst), unsignedValue,
        if_pos hDigit, bind_assoc, bind_of_ok hRead]
    · rw [unsignedValue, if_neg hDigit]
      rfl

theorem optionValue_dismiss
    (name : List UInt8)
    (c : Cursor) :
    (optionValue name >>= dismiss) c =
      skipComment c.next.1 c.next.2 := by
  rw [optionValue, bind_assoc, byte_bind]
  by_cases hMinus : c.next.1 = some Byte.minus
  · rw [if_pos hMinus, hMinus,
      skipComment_inner (by decide), bind_assoc, byte_bind,
      unsignedValue_dismiss]
  · rw [if_neg hMinus, unsignedValue_dismiss]

/-
  Whatever a remark turns out to be, reading it and then the
  rest of the comment is skipping the line.
-/
theorem remark_dismiss
    (c : Cursor) :
    (remark >>= dismiss) c =
      skipComment c.next.1 c.next.2 := by
  rw [remark, bind_assoc, byte_bind]
  by_cases hMinus : c.next.1 = some Byte.minus
  · rw [if_pos hMinus, hMinus,
      skipComment_inner (by decide),
      ← skipComment_letters []]
    have hName :
        directiveName c.next.2 =
          .ok (letters [] c.next.2).1
            (letters [] c.next.2).2 :=
      rfl
    rw [bind_assoc, bind_of_ok hName]
    rcases letters [] c.next.2 with ⟨⟨name, ahead⟩, c₁⟩
    dsimp only
    by_cases hReturn : ahead = some Byte.carriageReturn
    · rw [if_pos hReturn, hReturn,
        skipComment_carriageReturn, bind_assoc]
      cases hFinish : finishLine c₁ with
      | ok u c₂ =>
          rw [bind_of_ok hFinish]
          rfl
      | error e c₂ => rw [bind_of_error hFinish]
    · rw [if_neg hReturn]
      by_cases hFeed : ahead = some Byte.lineFeed
      · rw [if_pos hFeed, hFeed, skipComment_lineFeed]
        rfl
      · rw [if_neg hFeed]
        by_cases hEquals :
            ahead = some Byte.equals ∧ name ≠ []
        · rw [if_pos hEquals, hEquals.1,
            skipComment_inner (by decide),
            optionValue_dismiss]
        · rw [if_neg hEquals]
          rfl
  · rw [if_neg hMinus]
    rfl

------------------------------------------------------------
-- Comment Lines
------------------------------------------------------------

/- A result with its value left out. -/
def outline : EStateM.Result ParseError Cursor α →
    EStateM.Result ParseError Cursor Unit
  | .ok _ c => .ok () c
  | .error e c => .error e c

/-
  A value that is put in place of another
  makes no difference.
-/
theorem outline_bind_pure
    (p : Parser Unit)
    (a : α)
    (c : Cursor) :
    outline ((p >>= fun _ => pure a) c) = p c := by
  rw [bind_apply]
  cases p c <;> rfl

/-
  A comment line is consumed, and rejected, the way it would
  be skipped: neither the directive in it nor the option to
  read directives makes a difference.
-/
theorem outline_headerComment
    (enabled : Bool)
    (c : Cursor) :
    outline (headerComment enabled c) =
      skipComment c.next.1 c.next.2 := by
  have hBlanks :
      byteAfterBlanks c =
        .ok (pastBlanks c).1 (pastBlanks c).2 :=
    rfl
  rw [← skipComment_pastBlanks, headerComment,
    bind_of_ok hBlanks]
  generalize (pastBlanks c).1 = ahead
  generalize (pastBlanks c).2 = c₁
  by_cases hRemark :
      enabled = true ∧ ahead = some Byte.minus
  · rw [if_pos hRemark, hRemark.2,
      skipComment_inner (by decide), ← remark_dismiss]
    cases hRead : remark c₁ with
    | ok found c₂ =>
        rw [bind_of_ok hRead, bind_of_ok hRead]
        cases found with
        | directive d => rfl
        | ended => rfl
        | text ahead =>
            exact outline_bind_pure (skipComment ahead) none
              c₂
    | error e c₂ =>
        rw [bind_of_error hRead, bind_of_error hRead]
        rfl
  · rw [if_neg hRemark]
    exact outline_bind_pure (skipComment ahead) none c₁

theorem outline_ok_iff
    {r : EStateM.Result ParseError Cursor α}
    {u : Unit}
    {c : Cursor} :
    outline r = .ok u c ↔ ∃ a, r = .ok a c := by
  cases r <;> simp [outline]

/- A comment line is read if it is a line. -/
theorem headerComment_ok_iff
    {enabled : Bool}
    {c c' : Cursor} :
    (∃ d, headerComment enabled c = .ok d c') ↔
      ∃ line, IsLine line ∧ c.Reads line c' := by
  rw [← outline_ok_iff (u := ()), outline_headerComment,
    skipComment_ok_iff, exists_line_iff]

end Parser

end Dimacs
