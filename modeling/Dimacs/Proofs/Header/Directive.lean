import Dimacs.Proofs.Clauses.Steps
import Dimacs.Proofs.Header.Grammar

/-
  The form of a directive, stated apart from the reader, and
  its equivalence with the reader: a comment line is read as
  a directive exactly if it has the form, to the end of the
  line.

  Key definitions include:
    * `DirectiveText`
    * `DirectiveText.IsWellFormed`
    * `DirectiveText.directive`

  Main statements:
    * `Parser.letters_iff`
    * `Parser.magnitude_iff`
    * `Parser.closeDirective_iff`
    * `Parser.optionValue_iff`
    * `Parser.headerComment_directive_iff`
-/

namespace Dimacs

------------------------------------------------------------
-- The Form of a Directive
------------------------------------------------------------

/-
  The parts of a directive that can vary, behind the letter
  of its line.
-/
structure DirectiveText where
  lead : List UInt8
  name : List UInt8
  negative : Bool
  digits : List UInt8
  trail : List UInt8
  close : LineEnd

namespace DirectiveText

/-
  The sign of a value, which is left out unless the
  value is negative.
-/
def sign
    (negative : Bool) : List UInt8 :=
  if negative then [Byte.minus] else []

/- The bytes behind the equals sign, with the line end. -/
def tail
    (text : DirectiveText) : List UInt8 :=
  sign text.negative ++
    (text.digits ++ (text.trail ++ text.close.bytes))

/-
  The bytes behind the letter that makes the line a comment.
-/
def bytes
    (text : DirectiveText) : List UInt8 :=
  text.lead ++
    Byte.minus :: Byte.minus ::
      (text.name ++ Byte.equals :: text.tail)

/-
  A short name of small letters, a value in range, and
  blanks around them.
-/
structure IsWellFormed
    (text : DirectiveText) : Prop where
  lead : ∀ b ∈ text.lead, Byte.IsBlank b
  letters : ∀ b ∈ text.name, Byte.IsLower b
  named : text.name ≠ []
  short : text.name.length ≤ Directive.maxName
  digits : IsNumeral Directive.maxMagnitude text.digits
  trail : ∀ b ∈ text.trail, Byte.IsBlank b

/- What the directive says. -/
def directive
    (text : DirectiveText) : Directive where
  name := Byte.text text.name
  value := signed text.negative (Byte.decimal text.digits)

end DirectiveText

namespace Parser

variable {c c' : Cursor}
variable {ahead : Option UInt8}
variable {name : List UInt8}
variable {negative : Bool}
variable {d : Directive}

------------------------------------------------------------
-- Names and Digits
------------------------------------------------------------

/-
  A name is read as a whole if there is room for
  all its letters.
-/
theorem letters_iff
    {full : List UInt8}
    (hName : name.length ≤ Directive.maxName)
    (hAhead : ∀ b ∈ ahead, ¬ Byte.IsLower b) :
    letters name c = ((full, ahead), c') ↔
      ∃ more,
        c.ReadsRun Byte.IsLower more ahead c' ∧
        name ++ more = full ∧
        full.length ≤ Directive.maxName := by
  fun_induction letters name c with
  | case1 name c b c₁ hNext hLower ih =>
      have hRoom :
          (name ++ [b]).length ≤ Directive.maxName := by
        rw [List.length_append]
        exact hLower.2
      simp only [ih hRoom,
        Cursor.readsRun_of_kind hNext hLower.1]
      constructor
      · intro h
        rcases h with ⟨more, hRun, rfl, hShort⟩
        exact ⟨b :: more, ⟨more, rfl, hRun⟩,
          List.append_cons .., hShort⟩
      · intro h
        rcases h with ⟨_, ⟨more, rfl, hRun⟩, rfl, hShort⟩
        exact
          ⟨more, hRun, (List.append_cons ..).symm, hShort⟩
  | case2 name c b c₁ hNext hLower =>
      by_cases hLetter : Byte.IsLower b
      · -- The letter that finds no room cannot be the
        -- byte behind the name.
        have hFull : Directive.maxName ≤ name.length :=
          Nat.le_of_not_lt fun hRoom =>
            hLower ⟨hLetter, hRoom⟩
        simp only [Cursor.readsRun_of_kind hNext hLetter,
          Prod.mk.injEq]
        constructor
        · intro h
          rcases h with ⟨⟨_, rfl⟩, _⟩
          exact absurd hLetter (hAhead b rfl)
        · intro h
          rcases h with ⟨_, ⟨more, rfl, _⟩, rfl, hShort⟩
          rw [List.length_append, List.length_cons]
            at hShort
          omega
      · simp only [Cursor.readsRun_of_not_kind hNext
            hLetter, Prod.mk.injEq]
        constructor
        · intro h
          rcases h with ⟨⟨rfl, rfl⟩, rfl⟩
          exact
            ⟨[], ⟨rfl, rfl, rfl⟩, List.append_nil _, hName⟩
        · intro h
          rcases h with ⟨_, ⟨rfl, rfl, rfl⟩, rfl, _⟩
          exact ⟨⟨(List.append_nil _).symm, rfl⟩, rfl⟩
  | case3 name c c₁ hNext =>
      simp only [Cursor.readsRun_of_end hNext,
        Prod.mk.injEq]
      constructor
      · intro h
        rcases h with ⟨⟨rfl, rfl⟩, rfl⟩
        exact
          ⟨[], ⟨rfl, rfl, rfl⟩, List.append_nil _, hName⟩
      · intro h
        rcases h with ⟨_, ⟨rfl, rfl, rfl⟩, rfl, _⟩
        exact ⟨⟨(List.append_nil _).symm, rfl⟩, rfl⟩

/-
  A value in range is read the way any bounded number is.
  Out of range, the number is rejected, whereas the value
  ends in front of the digit that does not fit.
-/
theorem magnitude_iff_numberFrom
    {value n : Nat}
    (fault : Fault)
    (hAhead : ∀ b ∈ ahead, ¬ Byte.IsDigit b) :
    magnitude value c = ((n, ahead), c') ↔
      numberFrom Directive.maxMagnitude fault value c =
        .ok (n, ahead) c' := by
  have hExtend? :
      ∀ value b,
        Check.appendDigit? Directive.maxMagnitude value
            (Byte.digit b) =
          extend? Directive.maxMagnitude value b := by
    intro value b
    rw [Check.appendDigit?_eq, extend?_eq (by decide)]
  fun_induction magnitude value c with
  | case1 value c b c₁ hNext hDigit extended hExtend ih =>
      rw [hExtend?] at hExtend
      rw [numberFrom.eq_def _ _ value c, hNext]
      simp only [if_pos hDigit, hExtend]
      exact ih
  | case2 value c b c₁ hNext hDigit hExtend =>
      rw [hExtend?] at hExtend
      rw [numberFrom.eq_def _ _ value c, hNext]
      simp only [if_pos hDigit, hExtend, fail_ne_ok,
        iff_false, Prod.mk.injEq]
      intro h
      rcases h with ⟨⟨_, rfl⟩, _⟩
      exact hAhead b rfl hDigit
  | case3 value c b c₁ hNext hDigit =>
      rw [numberFrom.eq_def _ _ value c, hNext]
      simp only [if_neg hDigit, EStateM.Result.ok.injEq,
        Prod.mk.injEq]
  | case4 value c c₁ hNext =>
      rw [numberFrom.eq_def _ _ value c, hNext]
      simp only [EStateM.Result.ok.injEq, Prod.mk.injEq]

/-
  Digits are read as a whole if the number they continue
  stays in range.
-/
theorem magnitude_iff
    {value n : Nat}
    (hValue : value ≤ Directive.maxMagnitude)
    (hAhead : ∀ b ∈ ahead, ¬ Byte.IsDigit b) :
    magnitude value c = ((n, ahead), c') ↔
      ∃ digits,
        c.ReadsRun Byte.IsDigit digits ahead c' ∧
        digits.foldl
            (fun value b => value * 10 + Byte.digit b)
            value =
          n ∧
        n ≤ Directive.maxMagnitude :=
  -- The fault has no part in a success, so that
  -- any will do.
  (magnitude_iff_numberFrom .variablesTooLarge hAhead).trans
    (numberFrom_ok_iff (by decide) hValue)

theorem directiveName_ok_iff
    {r : List UInt8 × Option UInt8} :
    directiveName c = .ok r c' ↔
      letters [] c = (r, c') := by
  rcases hLetters : letters [] c with ⟨a, c₁⟩
  simp only [directiveName, hLetters,
    EStateM.Result.ok.injEq, Prod.mk.injEq]

theorem directiveMagnitude_ok_iff
    {first : UInt8}
    {r : Nat × Option UInt8} :
    directiveMagnitude first c = .ok r c' ↔
      magnitude (Byte.digit first) c = (r, c') := by
  rcases hDigits : magnitude (Byte.digit first) c with
    ⟨a, c₁⟩
  simp only [directiveMagnitude, hDigits,
    EStateM.Result.ok.injEq, Prod.mk.injEq]

------------------------------------------------------------
-- Values
------------------------------------------------------------

/- A value is closed by blanks and the end of the line. -/
theorem closeDirective_iff
    {value : Nat}
    (hValue : value ≤ Directive.maxMagnitude) :
    closeDirective name negative value c.next.1 c.next.2 =
        .ok (.directive d) c' ↔
      (⟨Byte.text name, signed negative value⟩ :
            Directive) =
          d ∧
        ∃ trail close,
          (∀ b ∈ trail, Byte.IsBlank b) ∧
          c.Reads (trail ++ LineEnd.bytes close) c' := by
  rw [closeDirective, bind_apply, skipBlanks_next,
    ← bind_apply]
  constructor
  · intro h
    rcases bind_ok_iff.mp h with ⟨ahead, c₁, hBlanks, hEnd⟩
    split at hEnd
    case isTrue hReturn =>
      subst hReturn
      rcases bind_ok_iff.mp hEnd with
        ⟨_, c₂, hFinish, hValueRead⟩
      rw [bind_of_ok (directiveValue_eq negative hValue _)]
        at hValueRead
      cases hValueRead
      rcases (byteAfterBlanks_some_iff (by decide)).mp
          hBlanks with
        ⟨trail, hTrail, hReads⟩
      refine ⟨rfl, trail, .carriageReturn, hTrail, ?_⟩
      rw [LineEnd.bytes, List.append_cons,
        Cursor.reads_append]
      exact ⟨c₁, hReads, finishLine_ok_iff.mp hFinish⟩
    case isFalse =>
      split at hEnd
      case isTrue hFeed =>
        subst hFeed
        rw [bind_of_ok
          (directiveValue_eq negative hValue _)] at hEnd
        cases hEnd
        rcases (byteAfterBlanks_some_iff (by decide)).mp
            hBlanks with
          ⟨trail, hTrail, hReads⟩
        exact ⟨rfl, trail, .lineFeed, hTrail, hReads⟩
      case isFalse => cases hEnd
  · intro h
    rcases h with ⟨rfl, trail, close, hTrail, hReads⟩
    cases close with
    | lineFeed =>
        have hBlanks :=
          (byteAfterBlanks_some_iff (by decide)).mpr
            ⟨trail, hTrail, hReads⟩
        rw [bind_of_ok hBlanks, if_neg (by decide),
          if_pos rfl,
          bind_of_ok (directiveValue_eq negative hValue _)]
        rfl
    | carriageReturn =>
        rw [LineEnd.bytes, List.append_cons,
          Cursor.reads_append] at hReads
        rcases hReads with ⟨c₁, hTrailReads, hFeed⟩
        have hBlanks :=
          (byteAfterBlanks_some_iff (by decide)).mpr
            ⟨trail, hTrail, hTrailReads⟩
        have hFinish : finishLine c₁ = .ok () c' :=
          finishLine_ok_iff.mpr hFeed
        rw [bind_of_ok hBlanks, if_pos rfl,
          bind_of_ok hFinish,
          bind_of_ok (directiveValue_eq negative hValue _)]
        rfl

/- A digit that was left over does not close a value. -/
theorem not_isDigit_of_closeDirective
    {value : Nat}
    (h :
      closeDirective name negative value ahead c =
        .ok (.directive d) c') :
    ∀ b ∈ ahead, ¬ Byte.IsDigit b := by
  intro b hMem hDigit
  rw [Option.mem_def] at hMem
  subst hMem
  have hInner := Byte.isInner_of_isDigit hDigit
  have hSkip : skipBlanks (some b) c = .ok (some b) c := by
    rw [skipBlanks, if_neg (not_isBlank_of_isDigit hDigit)]
    rfl
  rw [closeDirective, bind_of_ok hSkip,
    if_neg
      (fun hReturn => hInner.1 (Option.some.inj hReturn)),
    if_neg (fun hFeed => hInner.2 (Option.some.inj hFeed))]
    at h
  cases h

/-
  A value without its sign is a number in range and the end
  of the line.
-/
theorem unsignedValue_iff :
    unsignedValue name negative c.next.1 c.next.2 =
        .ok (.directive d) c' ↔
      ∃ digits trail close,
        IsNumeral Directive.maxMagnitude digits ∧
        (∀ b ∈ trail, Byte.IsBlank b) ∧
        (⟨Byte.text name,
              signed negative (Byte.decimal digits)⟩ :
            Directive) =
          d ∧
        c.Reads (digits ++ (trail ++ LineEnd.bytes close))
          c' := by
  constructor
  · intro h
    rcases hNext : c.next with ⟨_ | b, c₁⟩
    · rw [hNext] at h
      cases h
    · rw [hNext, unsignedValue] at h
      split at h
      case isFalse => cases h
      case isTrue hDigit =>
        have hFirst :
            Byte.digit b ≤ Directive.maxMagnitude :=
          Nat.le_trans (Byte.digit_le_nine hDigit)
            (by decide)
        rcases bind_ok_iff.mp h with
          ⟨⟨value, ahead⟩, c₂, hDigits, hClose⟩
        rw [directiveMagnitude_ok_iff,
          magnitude_iff hFirst
            (not_isDigit_of_closeDirective hClose)]
          at hDigits
        rcases hDigits with ⟨digits, hRun, hFold, hValue⟩
        rcases hRun.reads with ⟨c₃, hReads, hAhead⟩
        rw [← Byte.decimal_cons] at hFold
        subst hFold
        rw [show ahead = c₃.next.1 from
            (congrArg Prod.fst hAhead).symm,
          show c₂ = c₃.next.2 from
            (congrArg Prod.snd hAhead).symm,
          closeDirective_iff hValue] at hClose
        rcases hClose with
          ⟨hSaid, trail, close, hTrail, hEnd⟩
        exact ⟨b :: digits, trail, close,
          ⟨List.cons_ne_nil _ _,
            List.forall_mem_cons.mpr ⟨hDigit, hRun.all⟩,
            hValue⟩, hTrail, hSaid, c₁, hNext,
          Cursor.reads_append.mpr ⟨c₃, hReads, hEnd⟩⟩
  · intro h
    rcases h with
      ⟨digits, trail, close, ⟨hNonempty, hDigits, hValue⟩,
        hTrail, hSaid, hReads⟩
    cases digits with
    | nil => exact absurd rfl hNonempty
    | cons b digits =>
        rcases List.forall_mem_cons.mp hDigits with
          ⟨hDigit, hRest⟩
        rcases hReads with ⟨c₁, hNext, hReads⟩
        rcases Cursor.reads_append.mp hReads with
          ⟨c₃, hDigitReads, hEnd⟩
        have hFirst :
            Byte.digit b ≤ Directive.maxMagnitude :=
          Nat.le_trans (Byte.digit_le_nine hDigit)
            (by decide)
        have hClose := (closeDirective_iff hValue).mpr
          ⟨hSaid, trail, close, hTrail, hEnd⟩
        have hStops := not_isDigit_of_closeDirective hClose
        have hMagnitude :
            directiveMagnitude b c₁ =
              .ok (Byte.decimal (b :: digits), c₃.next.1)
                c₃.next.2 := by
          rw [directiveMagnitude_ok_iff,
            magnitude_iff hFirst hStops]
          exact
            ⟨digits, ⟨hRest, hStops, c₃, hDigitReads, rfl⟩,
              (Byte.decimal_cons b digits).symm, hValue⟩
        rw [hNext, unsignedValue, if_pos hDigit,
          bind_of_ok hMagnitude]
        exact hClose

/- A value is a number in range behind an optional minus. -/
theorem optionValue_iff :
    optionValue name c = .ok (.directive d) c' ↔
      ∃ negative digits trail close,
        IsNumeral Directive.maxMagnitude digits ∧
        (∀ b ∈ trail, Byte.IsBlank b) ∧
        (⟨Byte.text name,
              signed negative (Byte.decimal digits)⟩ :
            Directive) =
          d ∧
        c.Reads
          (DirectiveText.sign negative ++
            (digits ++ (trail ++ LineEnd.bytes close)))
          c' := by
  rw [optionValue, byte_bind]
  constructor
  · intro h
    split at h
    case isTrue hMinus =>
      rw [byte_bind, unsignedValue_iff] at h
      rcases h with
        ⟨digits, trail, close, hDigits, hTrail, hSaid,
          hReads⟩
      exact ⟨true, digits, trail, close, hDigits, hTrail,
        hSaid, c.next.2, Prod.ext hMinus rfl, hReads⟩
    case isFalse => exact ⟨false, unsignedValue_iff.mp h⟩
  · intro h
    rcases h with
      ⟨negative, digits, trail, close, hDigits, hTrail,
        hSaid, hReads⟩
    cases negative with
    | true =>
        rcases hReads with ⟨c₁, hMinus, hReads⟩
        rw [hMinus, if_pos rfl, byte_bind,
          unsignedValue_iff]
        exact ⟨digits, trail, close, hDigits, hTrail, hSaid,
          hReads⟩
    | false =>
        have hDigit : c.next.1 ≠ some Byte.minus := by
          rcases digits with _ | ⟨b, digits⟩
          · exact absurd rfl hDigits.1
          · rcases hReads with ⟨c₁, hNext, _⟩
            rw [hNext]
            intro hMinus
            cases hMinus
            exact absurd (hDigits.2.1 _ List.mem_cons_self)
              (by decide)
        rw [if_neg hDigit, unsignedValue_iff]
        exact ⟨digits, trail, close, hDigits, hTrail, hSaid,
          hReads⟩

------------------------------------------------------------
-- Comment Lines
------------------------------------------------------------

/-
  A remark is a directive if it has the form behind
  its first minus.
-/
theorem remark_iff :
    remark c = .ok (.directive d) c' ↔
      ∃ name c₁, (∀ b ∈ name, Byte.IsLower b) ∧ name ≠ [] ∧
        name.length ≤ Directive.maxName ∧
        c.Reads (Byte.minus :: (name ++ [Byte.equals])) c₁ ∧
        optionValue name c₁ = .ok (.directive d) c' := by
  have hEquals :
      ∀ b ∈ some Byte.equals, ¬ Byte.IsLower b := by
    intro b hMem
    cases hMem
    decide
  rw [remark, byte_bind]
  constructor
  · intro h
    split at h
    case isFalse => cases h
    case isTrue hMinus =>
      rcases bind_ok_iff.mp h with
        ⟨⟨name, ahead⟩, c₁, hName, hRest⟩
      dsimp only at hRest
      split at hRest
      case isTrue =>
        rcases bind_ok_iff.mp hRest with ⟨_, _, _, hEnded⟩
        cases hEnded
      case isFalse =>
        split at hRest
        case isTrue => cases hRest
        case isFalse =>
          split at hRest
          case isFalse => cases hRest
          case isTrue hNamed =>
            rcases hNamed with ⟨rfl, hNamed⟩
            rw [directiveName_ok_iff,
              letters_iff (Nat.zero_le _) hEquals] at hName
            rcases hName with ⟨_, hRun, rfl, hShort⟩
            exact ⟨_, c₁, hRun.all, hNamed, hShort,
              ⟨c.next.2, Prod.ext hMinus rfl,
                Cursor.readsUpTo_some.mp hRun.reads⟩, hRest⟩
  · intro h
    rcases h with
      ⟨name, c₁, hLetters, hNamed, hShort,
        ⟨c₂, hMinus, hReads⟩, hRest⟩
    have hName :
        directiveName c₂ =
          .ok (name, some Byte.equals) c₁ := by
      rw [directiveName_ok_iff,
        letters_iff (Nat.zero_le _) hEquals]
      exact ⟨name,
        ⟨hLetters, hEquals,
          Cursor.readsUpTo_some.mpr hReads⟩, rfl, hShort⟩
    rw [hMinus, if_pos rfl, bind_of_ok hName]
    dsimp only
    rw [if_neg (by decide), if_neg (by decide),
      if_pos ⟨rfl, hNamed⟩]
    exact hRest

/-
  Only a comment that goes on with a minus can
  hold a directive.
-/
theorem headerComment_iff_remark :
    headerComment true c = .ok (some d) c' ↔
      ∃ lead c₁,
        (∀ b ∈ lead, Byte.IsBlank b) ∧
        c.Reads (lead ++ [Byte.minus]) c₁ ∧
        remark c₁ = .ok (.directive d) c' := by
  rw [headerComment]
  constructor
  · intro h
    rcases bind_ok_iff.mp h with ⟨ahead, c₁, hBlanks, hRest⟩
    split at hRest
    case isFalse =>
      rcases bind_ok_iff.mp hRest with ⟨_, _, _, hNone⟩
      cases hNone
    case isTrue hMinus =>
      rcases hMinus with ⟨_, rfl⟩
      rcases (byteAfterBlanks_some_iff (by decide)).mp
          hBlanks with
        ⟨lead, hLead, hReads⟩
      rcases bind_ok_iff.mp hRest with
        ⟨found, c₂, hRemark, hFound⟩
      cases found with
      | directive d' =>
          cases hFound
          exact ⟨lead, c₁, hLead, hReads, hRemark⟩
      | ended => cases hFound
      | text ahead =>
          rcases bind_ok_iff.mp hFound with ⟨_, _, _, hNone⟩
          cases hNone
  · intro h
    rcases h with ⟨lead, c₁, hLead, hReads, hRemark⟩
    have hBlanks :=
      (byteAfterBlanks_some_iff (by decide)).mpr
        ⟨lead, hLead, hReads⟩
    rw [bind_of_ok hBlanks, if_pos ⟨rfl, rfl⟩,
      bind_of_ok hRemark]
    rfl

/-
  A comment line is read as a directive exactly if it has
  the form of one, and the cursor then stands behind it.
-/
theorem headerComment_directive_iff :
    headerComment true c = .ok (some d) c' ↔
      ∃ text : DirectiveText,
        text.IsWellFormed ∧
        text.directive = d ∧
        c.Reads text.bytes c' := by
  rw [headerComment_iff_remark]
  constructor
  · intro h
    rcases h with ⟨lead, c₁, hLead, hReads, hRemark⟩
    rcases remark_iff.mp hRemark with
      ⟨name, c₂, hLetters, hNamed, hShort, hNameReads,
        hValue⟩
    rcases optionValue_iff.mp hValue with
      ⟨negative, digits, trail, close, hDigits, hTrail,
        hSaid, hTail⟩
    refine ⟨⟨lead, name, negative, digits, trail, close⟩,
      ⟨hLead, hLetters, hNamed, hShort, hDigits, hTrail⟩,
      hSaid, ?_⟩
    rw [DirectiveText.bytes, List.append_cons,
      Cursor.reads_append]
    refine ⟨c₁, hReads, ?_⟩
    rw [List.append_cons, ← List.cons_append,
      Cursor.reads_append]
    exact ⟨c₂, hNameReads, hTail⟩
  · intro h
    rcases h with ⟨text, hFormed, hSaid, hReads⟩
    rw [DirectiveText.bytes, List.append_cons,
      Cursor.reads_append] at hReads
    rcases hReads with ⟨c₁, hLead, hReads⟩
    rw [List.append_cons, ← List.cons_append,
      Cursor.reads_append] at hReads
    rcases hReads with ⟨c₂, hName, hTail⟩
    refine ⟨text.lead, c₁, hFormed.lead, hLead, ?_⟩
    refine remark_iff.mpr
      ⟨text.name, c₂, hFormed.letters, hFormed.named,
        hFormed.short, hName, ?_⟩
    exact optionValue_iff.mpr
      ⟨text.negative, text.digits, text.trail, text.close,
        hFormed.digits, hFormed.trail, hSaid, hTail⟩

end Parser

end Dimacs
