import Dimacs.Proofs.Clauses.Items

/-
  Tokens and items: every reading but a pedantic one reads a
  token exactly where an item of its kind comes next.

  Key definitions include:
    * `Parser.ReadsGap`
    * `Parser.ReadsEnding`
    * `Parser.ReadsNumeral`
    * `Parser.ReadsToken`

  Main statements:
    * `Parser.clauseComment_ok_iff`
    * `Parser.afterNumeral_iff`
    * `Parser.numeral_ok_iff`
    * `Parser.readsToken_of_ok`
    * `Parser.token_ok_of_reads`
-/

namespace Dimacs

namespace Parser

------------------------------------------------------------
-- Reading Gaps and Ends
------------------------------------------------------------

/- One gap is read. -/
def ReadsGap
    (c c' : Cursor) : Prop :=
  ∃ item : ClauseItem, item.IsGap ∧ c.Reads item.bytes c'

/- The end of the text is read. -/
def ReadsEnding
    (c c' : Cursor) : Prop :=
  ∃ items,
    IsEnding items ∧ c.ReadsUpTo (clauseBytes items) none c'

/- The first byte of a gap tells what kind of gap it is. -/
theorem readsGap_iff
    {b : UInt8}
    {c c₁ c' : Cursor}
    (hNext : c.next = (some b, c₁)) :
    ReadsGap c c' ↔
      ((Byte.IsBlank b ∨ b = Byte.lineFeed) ∧ c₁ = c') ∨
        (b = Byte.carriageReturn ∧
          c₁.Reads [Byte.lineFeed] c') ∨
        (b = Byte.letterC ∧
          ∃ text,
            c₁.ReadsRun Byte.IsNoFeed text
              (some Byte.lineFeed) c') := by
  constructor
  · intro h
    rcases h with ⟨item, hGap, hReads⟩
    cases item with
    | space =>
        rcases (Cursor.reads_cons_of_next hNext).mp
            hReads with
          ⟨rfl, hRest⟩
        exact .inl ⟨.inl (.inl rfl), hRest⟩
    | tab =>
        rcases (Cursor.reads_cons_of_next hNext).mp
            hReads with
          ⟨rfl, hRest⟩
        exact .inl ⟨.inl (.inr rfl), hRest⟩
    | lineEnd close =>
        cases close with
        | lineFeed =>
            rcases (Cursor.reads_cons_of_next hNext).mp
                hReads with
              ⟨rfl, hRest⟩
            exact .inl ⟨.inr rfl, hRest⟩
        | carriageReturn =>
            rcases (Cursor.reads_cons_of_next hNext).mp
                hReads with
              ⟨rfl, hRest⟩
            exact .inr (.inl ⟨rfl, hRest⟩)
    | comment text =>
        rcases (Cursor.reads_cons_of_next hNext).mp
            hReads with
          ⟨rfl, hRest⟩
        refine .inr
          (.inr
            ⟨rfl, text, hGap, ?_,
              Cursor.readsUpTo_some.mpr hRest⟩)
        intro a hMem hOther
        exact hOther (Option.mem_some_iff.mp hMem).symm
    | openComment text => exact hGap.elim
    | numeral negative digits => exact hGap.elim
  · intro h
    rcases h with
      ⟨(rfl | rfl) | rfl, rfl⟩ | ⟨rfl, hReads⟩ |
      ⟨rfl, text, hRun⟩
    · exact
        ⟨.space, trivial, Cursor.reads_singleton.mpr hNext⟩
    · exact
        ⟨.tab, trivial, Cursor.reads_singleton.mpr hNext⟩
    · exact ⟨.lineEnd .lineFeed, trivial,
        Cursor.reads_singleton.mpr hNext⟩
    · exact ⟨.lineEnd .carriageReturn, trivial, c₁, hNext,
        hReads⟩
    · exact ⟨.comment text, hRun.all, c₁, hNext,
        Cursor.readsUpTo_some.mp hRun.reads⟩

theorem not_readsGap_of_end
    {c c₁ c' : Cursor}
    (hNext : c.next = (none, c₁)) :
    ¬ ReadsGap c c' := by
  intro h
  rcases h with ⟨item, hGap, hReads⟩
  apply Cursor.next_ne_none_of_reads hReads
  · exact item.bytes_ne_nil hGap.isWellFormed
  · rw [hNext]

/- At the end of file nothing more is read. -/
theorem readsEnding_of_end
    {c c₁ c' : Cursor}
    (hNext : c.next = (none, c₁)) :
    ReadsEnding c c' ↔ c₁ = c' := by
  constructor
  · intro h
    rcases h with ⟨items, rfl | ⟨text, _, rfl⟩, hReads⟩
    · rw [clauseBytes, List.flatMap_nil,
        Cursor.readsUpTo_nil, hNext] at hReads
      exact (Prod.mk.inj hReads).2
    · exact absurd hReads
        (Cursor.not_readsUpTo_cons_of_end hNext)
  · intro h
    exact
      ⟨[], .inl rfl, Cursor.readsUpTo_nil.mpr (h ▸ hNext)⟩

/- A byte that ends the text starts an open comment. -/
theorem readsEnding_iff
    {b : UInt8}
    {c c₁ c' : Cursor}
    (hNext : c.next = (some b, c₁)) :
    ReadsEnding c c' ↔
      b = Byte.letterC ∧
        ∃ text, c₁.ReadsRun Byte.IsNoFeed text none c' := by
  constructor
  · intro h
    rcases h with ⟨items, rfl | ⟨text, hText, rfl⟩, hReads⟩
    · rw [clauseBytes, List.flatMap_nil,
        Cursor.readsUpTo_nil, hNext] at hReads
      cases hReads
    · rw [clauseBytes, List.flatMap_singleton] at hReads
      rcases (Cursor.readsUpTo_cons_of_next hNext).mp
          hReads with
        ⟨rfl, hRest⟩
      exact ⟨rfl, text, hText, nofun, hRest⟩
  · intro h
    rcases h with ⟨rfl, text, hRun⟩
    refine
      ⟨[.openComment text], .inr ⟨text, hRun.all, rfl⟩, ?_⟩
    rw [clauseBytes, List.flatMap_singleton]
    exact Cursor.readsUpTo_cons.mpr ⟨c₁, hNext, hRun.reads⟩

/- What a gap or an ending starts with is no digit. -/
theorem not_isDigit_of_gap
    {c c' : Cursor}
    (h : ReadsGap c c' ∨ ReadsEnding c c') :
    ∀ b ∈ c.next.1, ¬ Byte.IsDigit b := by
  intro b hMem hDigit
  have hNext : c.next = (some b, c.next.2) :=
    Prod.ext hMem rfl
  rw [readsGap_iff hNext, readsEnding_iff hNext] at h
  rcases h with
    (⟨hBlank | rfl, _⟩ | ⟨rfl, _⟩ | ⟨rfl, _⟩) | ⟨rfl, _⟩
  · exact not_isBlank_of_isDigit hDigit hBlank
  all_goals exact absurd hDigit (by decide)

------------------------------------------------------------
-- Reading Tokens
------------------------------------------------------------

variable {strictness : Strictness}

/-
  A comment is read up to its line feed or the end of file.
-/
theorem clauseComment_ok_iff
    {fault : Fault}
    {ahead : Option UInt8}
    {c c' : Cursor}
    (hLax : ¬ strictness.IsPedantic) :
    clauseComment strictness fault c = .ok ahead c' ↔
      ∃ text, c.ReadsRun Byte.IsNoFeed text ahead c' := by
  fun_induction clauseComment strictness fault c with
  | case1 c c₁ hNext =>
      have hFeed : ¬ Byte.IsNoFeed Byte.lineFeed := by
        decide
      simp [Cursor.readsRun_of_not_kind hNext hFeed,
        eq_comm]
  | case2 c b c₁ hNext hFeed ih =>
      have hKind : Byte.IsNoFeed b := hFeed
      simp only [ih, Cursor.readsRun_of_kind hNext hKind]
      constructor
      · intro h
        rcases h with ⟨text, hRun⟩
        exact ⟨b :: text, text, rfl, hRun⟩
      · intro h
        rcases h with ⟨_, text, rfl, hRun⟩
        exact ⟨text, hRun⟩
  | case3 c c₁ hNext hPedantic =>
      exact absurd hPedantic hLax
  | case4 c c₁ hNext hPedantic =>
      simp [Cursor.readsRun_of_end hNext, eq_comm]

/-
  The lookahead of a comment is its line feed or the
  end of file.
-/
theorem ahead_of_comment
    {text : List UInt8}
    {ahead : Option UInt8}
    {c c' : Cursor}
    (hRun : c.ReadsRun Byte.IsNoFeed text ahead c') :
    ahead = some Byte.lineFeed ∨ ahead = none := by
  rcases ahead with _ | b
  · exact .inr rfl
  · have hFeed := hRun.stops b rfl
    exact .inl (congrArg some (Decidable.not_not.mp hFeed))

theorem afterNumeral_carriageReturn
    (index : Nat) :
    afterNumeral strictness index
        (some Byte.carriageReturn) =
      (finishLine >>= fun _ => pure (some Byte.lineFeed)) :=
  rfl

theorem afterNumeral_comment
    (index : Nat) :
    afterNumeral strictness index (some Byte.letterC) =
      clauseComment strictness .endInCommentAfterLiteral :=
  rfl

theorem afterNumeral_other
    {b : UInt8}
    (hReturn : b ≠ Byte.carriageReturn)
    (hComment : b ≠ Byte.letterC)
    (index : Nat) :
    afterNumeral strictness index (some b) =
      if Byte.IsBlank b ∨ b = Byte.lineFeed then
        pure (some b)
      else fail .spaceAfterLiteral :=
  (if_neg hReturn).trans (if_neg hComment)

/-
  Behind a numeral there has to be a gap, which yields the
  byte that ended it, or the end of the text.
-/
theorem afterNumeral_iff
    {index : Nat}
    {c c' : Cursor}
    (hLax : ¬ strictness.IsPedantic) :
    ((∃ b,
          afterNumeral strictness index c.next.1 c.next.2 =
            .ok (some b) c') ↔
        ReadsGap c c') ∧
      (afterNumeral strictness index c.next.1 c.next.2 =
          .ok none c' ↔
        ReadsEnding c c') := by
  rcases hNext : c.next with ⟨_ | b, c₁⟩
  · rw [readsEnding_of_end hNext,
      eq_false (not_readsGap_of_end hNext)]
    simp [afterNumeral, if_neg hLax, pure_ok_iff]
  · rw [readsGap_iff hNext, readsEnding_iff hNext]
    by_cases hReturn : b = Byte.carriageReturn
    · subst hReturn
      have hBlank : ¬ (Byte.IsBlank Byte.carriageReturn ∨
          Byte.carriageReturn = Byte.lineFeed) := by
        decide
      have hComment :
          Byte.carriageReturn ≠ Byte.letterC := by
        decide
      rw [afterNumeral_carriageReturn]
      simp only [bind_ok_iff, finishLine_ok_iff,
        pure_ok_iff]
      simp [hBlank, hComment]
    · by_cases hComment : b = Byte.letterC
      · subst hComment
        have hBlank :
            ¬ (Byte.IsBlank Byte.letterC ∨
                Byte.letterC = Byte.lineFeed) := by
          decide
        rw [afterNumeral_comment]
        simp only [clauseComment_ok_iff hLax, hReturn,
          hBlank, false_and, false_or, true_and, and_true]
        constructor
        · intro h
          rcases h with ⟨b, text, hRun⟩
          rcases ahead_of_comment hRun with hFeed | hNone
          · exact ⟨text, hFeed ▸ hRun⟩
          · cases hNone
        · intro h
          rcases h with ⟨text, hRun⟩
          exact ⟨_, text, hRun⟩
      · rw [afterNumeral_other hReturn hComment]
        by_cases hBlank : Byte.IsBlank b ∨ b = Byte.lineFeed
        · simp [hReturn, hComment, hBlank, pure_ok_iff]
        · simp [hReturn, hComment, hBlank]

theorem afterNumeral_ok_iff
    {index : Nat}
    {c c' : Cursor}
    (hLax : ¬ strictness.IsPedantic) :
    (∃ ahead,
        afterNumeral strictness index c.next.1 c.next.2 =
          .ok ahead c') ↔
      ReadsGap c c' ∨ ReadsEnding c c' := by
  rw [Option.exists, (afterNumeral_iff hLax).1,
    (afterNumeral_iff hLax).2, or_comm]

/- A numeral is read with what stands behind it. -/
theorem numeral_ok_iff
    {negative : Bool}
    {first : UInt8}
    {found : Token}
    {c c' : Cursor}
    (hLax : ¬ strictness.IsPedantic) :
    numeral strictness negative first c = .ok found c' ↔
      ∃ digits ahead c₁,
        Byte.IsDigit first ∧
        (∀ b ∈ digits, Byte.IsDigit b) ∧
        Byte.decimal (first :: digits) ≤ maxVariable ∧
        c.Reads digits c₁ ∧
        afterNumeral strictness
            (Byte.decimal (first :: digits)) c₁.next.1
            c₁.next.2 =
          .ok ahead c' ∧
        found =
          .numeral negative (Byte.decimal (first :: digits))
            ahead := by
  have hLimit : maxVariable ≤ Check.maxUnsigned64 := by
    decide
  simp only [numeral, bind_ok_iff, Prod.exists,
    number_ok_iff hLimit (by decide : 9 ≤ maxVariable),
    pure_ok_iff]
  constructor
  · intro h
    rcases h with
      ⟨_, _, c₂,
        ⟨digits, hFirst, ⟨hDigits, _, c₁, hReads, hAhead⟩,
          rfl, hn⟩, ahead, _, hAfter, rfl, rfl⟩
    refine ⟨digits, ahead, c₁, hFirst, hDigits, hn, hReads,
      ?_, rfl⟩
    rw [hAhead]
    exact hAfter
  · intro h
    rcases h with
      ⟨digits, ahead, c₁, hFirst, hDigits, hn, hReads,
        hAfter, rfl⟩
    have hStops := not_isDigit_of_gap
      ((afterNumeral_ok_iff hLax).mp ⟨ahead, hAfter⟩)
    exact ⟨_, _, c₁.next.2,
      ⟨digits, hFirst, ⟨hDigits, hStops, c₁, hReads, rfl⟩,
        rfl, hn⟩, ahead, c', hAfter, rfl, rfl⟩

theorem digitAfterMinus_ok_iff
    {b : UInt8}
    {c c' : Cursor} :
    digitAfterMinus c = .ok b c' ↔
      c.next = (some b, c') ∧
        Byte.IsDigit b ∧
        b ≠ Byte.zero := by
  rw [digitAfterMinus, byte_bind]
  rcases hNext : c.next with ⟨_ | a, c₁⟩
  · simp
  · by_cases hFeed : a = Byte.lineFeed
    · subst hFeed
      simp only [if_true, failBefore_ne_ok, Prod.mk.injEq,
        Option.some.injEq, false_iff]
      intro h
      rcases h with ⟨⟨rfl, _⟩, hDigit, _⟩
      exact absurd hDigit (by decide)
    · by_cases hZero : a = Byte.zero
      · subst hZero
        simp only [if_neg hFeed, if_true, fail_ne_ok,
          Prod.mk.injEq, Option.some.injEq, false_iff]
        intro h
        exact h.2.2 h.1.1.symm
      · by_cases hDigit : Byte.IsDigit a
        · simp only [if_neg hFeed, if_neg hZero,
            if_pos hDigit, pure_ok_iff, Prod.mk.injEq,
            Option.some.injEq]
          constructor
          · intro h
            rcases h with ⟨rfl, rfl⟩
            exact ⟨⟨rfl, rfl⟩, hDigit, hZero⟩
          · intro h
            exact h.1
        · simp only [if_neg hFeed, if_neg hZero,
            if_neg hDigit, fail_ne_ok, Prod.mk.injEq,
            Option.some.injEq, false_iff]
          intro h
          exact hDigit (h.1.1 ▸ h.2.1)

/-
  A well-formed numeral is read, and what stands behind it.
-/
def ReadsNumeral
    (strictness : Strictness)
    (negative : Bool)
    (index : Nat)
    (ahead : Option UInt8)
    (c c' : Cursor) : Prop :=
  ∃ digits c₁,
    (ClauseItem.numeral negative digits).IsWellFormed ∧
    Byte.decimal digits = index ∧
    c.Reads (ClauseItem.numeral negative digits).bytes c₁ ∧
    afterNumeral strictness index c₁.next.1 c₁.next.2 =
      .ok ahead c'

/-
  The first byte of a numeral is its sign or
  its first digit.
-/
theorem readsNumeral_iff
    {negative : Bool}
    {index : Nat}
    {ahead : Option UInt8}
    {b : UInt8}
    {c c₁ c' : Cursor}
    (hLax : ¬ strictness.IsPedantic)
    (hNext : c.next = (some b, c₁)) :
    ReadsNumeral strictness negative index ahead c c' ↔
      (b = Byte.minus ∧
          negative = true ∧
          ∃ first c₂,
            digitAfterMinus c₁ = .ok first c₂ ∧
            numeral strictness true first c₂ =
              .ok (.numeral true index ahead) c') ∨
        (negative = false ∧
          numeral strictness false b c₁ =
            .ok (.numeral false index ahead) c') := by
  simp only [numeral_ok_iff hLax, digitAfterMinus_ok_iff,
    Token.numeral.injEq, true_and]
  constructor
  · intro h
    rcases h with
      ⟨digits, c₂, ⟨⟨hNonempty, hDigits, hn⟩, hSign⟩, rfl,
        hReads, hAfter⟩
    cases digits with
    | nil => exact absurd rfl hNonempty
    | cons first digits =>
        rcases List.forall_mem_cons.mp hDigits with
          ⟨hFirst, hRest⟩
        cases negative with
        | true =>
            rcases (Cursor.reads_cons_of_next hNext).mp
                hReads with
              ⟨rfl, c₄, hDigit, hReads⟩
            refine .inl
              ⟨rfl, rfl, first, c₄, ⟨hDigit, hFirst, ?_⟩,
                digits, ahead, c₂, hFirst, hRest, hn,
                hReads, hAfter, rfl, rfl⟩
            intro hZero
            exact hSign rfl (congrArg some hZero)
        | false =>
            rcases (Cursor.reads_cons_of_next hNext).mp
                hReads with
              ⟨rfl, hReads⟩
            exact .inr
              ⟨rfl, digits, ahead, c₂, hFirst, hRest, hn,
                hReads, hAfter, rfl, rfl⟩
  · intro h
    rcases h with
      ⟨rfl, rfl, first, c₂, ⟨hDigit, _, hSign⟩, digits, _,
        c₃, hFirst, hRest, hn, hReads, hAfter, rfl, rfl⟩ |
      ⟨rfl, digits, _, c₃, hFirst, hRest, hn, hReads,
        hAfter, rfl, rfl⟩
    · refine ⟨first :: digits, c₃,
        ⟨⟨List.cons_ne_nil _ _,
            List.forall_mem_cons.mpr ⟨hFirst, hRest⟩, hn⟩,
          ?_⟩, rfl, ⟨c₁, hNext, c₂, hDigit, hReads⟩, hAfter⟩
      intro _ hZero
      exact hSign (Option.some.inj hZero)
    · exact ⟨b :: digits, c₃,
        ⟨⟨List.cons_ne_nil _ _,
            List.forall_mem_cons.mpr ⟨hFirst, hRest⟩, hn⟩,
          nofun⟩, rfl, ⟨c₁, hNext, hReads⟩, hAfter⟩

/- What each kind of token consumes. -/
def ReadsToken
    (strictness : Strictness)
    (c c' : Cursor) : Token → Prop
  | .gap => ReadsGap c c'
  | .finish => ReadsEnding c c'
  | .numeral negative index ahead =>
      ReadsNumeral strictness negative index ahead c c'

theorem tokenFrom_gap
    {b : UInt8}
    (h : Byte.IsBlank b ∨ b = Byte.lineFeed) :
    tokenFrom strictness b = pure .gap :=
  if_pos h

theorem tokenFrom_carriageReturn :
    tokenFrom strictness Byte.carriageReturn =
      (finishLine >>= fun _ => pure .gap) :=
  rfl

/-
  What a comment among the clauses was, by the byte
  that ended it.
-/
def commentToken : Option UInt8 → Token
  | some _ => .gap
  | none => .finish

theorem tokenFrom_comment
    {found : Token}
    {c c' : Cursor} :
    tokenFrom strictness Byte.letterC c = .ok found c' ↔
      ∃ ahead,
        clauseComment strictness .endInClauseComment c =
          .ok ahead c' ∧
        found = commentToken ahead := by
  refine bind_ok_iff.trans ?_
  constructor
  · intro h
    rcases h with ⟨_ | b, c₁, hComment, hFound⟩
    · cases hFound
      exact ⟨none, hComment, rfl⟩
    · cases hFound
      exact ⟨some b, hComment, rfl⟩
  · intro h
    rcases h with ⟨_ | b, hComment, rfl⟩
    · exact ⟨none, c', hComment, rfl⟩
    · exact ⟨some b, c', hComment, rfl⟩

theorem tokenFrom_minus :
    tokenFrom strictness Byte.minus =
      (digitAfterMinus >>= numeral strictness true) :=
  rfl

theorem tokenFrom_digit
    {b : UInt8}
    (hDigit : Byte.IsDigit b) :
    tokenFrom strictness b =
      numeral strictness false b := by
  have hInner := Byte.isInner_of_isDigit hDigit
  have hGap : ¬ (Byte.IsBlank b ∨ b = Byte.lineFeed) := by
    intro h
    rcases h with hBlank | hFeed
    · exact not_isBlank_of_isDigit hDigit hBlank
    · exact hInner.2 hFeed
  have hComment : b ≠ Byte.letterC := by
    rintro rfl
    exact absurd hDigit (by decide)
  have hMinus : b ≠ Byte.minus := by
    rintro rfl
    exact absurd hDigit (by decide)
  rw [tokenFrom, if_neg hGap, if_neg hInner.1,
    if_neg hComment, if_neg hMinus, if_pos hDigit]

/- The bytes that a token can start with. -/
def StartsToken
    (b : UInt8) : Prop :=
  (Byte.IsBlank b ∨ b = Byte.lineFeed) ∨
    b = Byte.carriageReturn ∨
    b = Byte.letterC ∨
    b = Byte.minus ∨
    Byte.IsDigit b

theorem tokenFrom_other
    {b : UInt8}
    (h : ¬ StartsToken b) :
    tokenFrom strictness b = fail .digitOrMinus := by
  simp only [StartsToken, not_or] at h
  rcases h with ⟨hGap, hReturn, hComment, hMinus, hDigit⟩
  rw [tokenFrom, if_neg (not_or.mpr hGap), if_neg hReturn,
    if_neg hComment, if_neg hMinus, if_neg hDigit]

/- What is read as a token is an item of its kind. -/
theorem readsToken_of_ok
    {found : Token}
    {c c' : Cursor}
    (hLax : ¬ strictness.IsPedantic)
    (hToken : token strictness c = .ok found c') :
    ReadsToken strictness c c' found := by
  rw [token, byte_bind] at hToken
  rcases hNext : c.next with ⟨_ | b, c₁⟩
  · rw [hNext] at hToken
    cases hToken
    exact (readsEnding_of_end hNext).mpr rfl
  · rw [hNext] at hToken
    change tokenFrom strictness b c₁ =
      .ok found c' at hToken
    by_cases hStart : StartsToken b
    · rcases hStart with hGap | rfl | rfl | rfl | hDigit
      · rw [tokenFrom_gap hGap] at hToken
        cases hToken
        exact (readsGap_iff hNext).mpr (.inl ⟨hGap, rfl⟩)
      · rw [tokenFrom_carriageReturn, bind_ok_iff] at hToken
        rcases hToken with ⟨_, c₂, hFinish, hFound⟩
        cases hFound
        exact (readsGap_iff hNext).mpr
          (.inr (.inl ⟨rfl, finishLine_ok_iff.mp hFinish⟩))
      · rcases tokenFrom_comment.mp hToken with
          ⟨ahead, hText, rfl⟩
        rcases (clauseComment_ok_iff hLax).mp hText with
          ⟨text, hRun⟩
        rcases ahead_of_comment hRun with rfl | rfl
        · exact (readsGap_iff hNext).mpr
            (.inr (.inr ⟨rfl, text, hRun⟩))
        · exact (readsEnding_iff hNext).mpr
            ⟨rfl, text, hRun⟩
      · rw [tokenFrom_minus, bind_ok_iff] at hToken
        rcases hToken with ⟨first, c₂, hFirst, hNumeral⟩
        rcases (numeral_ok_iff hLax).mp hNumeral with
          ⟨_, _, _, _, _, _, _, _, rfl⟩
        exact (readsNumeral_iff hLax hNext).mpr
          (.inl ⟨rfl, rfl, first, c₂, hFirst, hNumeral⟩)
      · rw [tokenFrom_digit hDigit] at hToken
        rcases (numeral_ok_iff hLax).mp hToken with
          ⟨_, _, _, _, _, _, _, _, rfl⟩
        exact (readsNumeral_iff hLax hNext).mpr
          (.inr ⟨rfl, hToken⟩)
    · rw [tokenFrom_other hStart] at hToken
      exact absurd hToken fail_ne_ok

/-
  An item that comes next is read as a token of its kind.
-/
theorem token_ok_of_reads
    {found : Token}
    {c c' : Cursor}
    (hLax : ¬ strictness.IsPedantic)
    (hReads : ReadsToken strictness c c' found) :
    token strictness c = .ok found c' := by
  rw [token, byte_bind]
  rcases hNext : c.next with ⟨_ | b, c₁⟩
  · cases found with
    | gap => exact absurd hReads (not_readsGap_of_end hNext)
    | finish =>
        rw [(readsEnding_of_end hNext).mp hReads]
        rfl
    | numeral negative index ahead =>
        rcases hReads with
          ⟨digits, c₂, hFormed, _, hReads, _⟩
        have hSome := Cursor.next_ne_none_of_reads hReads
          (ClauseItem.bytes_ne_nil hFormed)
        rw [hNext] at hSome
        exact absurd rfl hSome
  · change tokenFrom strictness b c₁ = .ok found c'
    cases found with
    | gap =>
        rcases (readsGap_iff hNext).mp hReads with
          ⟨hGap, rfl⟩ | ⟨rfl, hFeed⟩ | ⟨rfl, text, hRun⟩
        · rw [tokenFrom_gap hGap]
          rfl
        · have hFinish : finishLine c₁ = .ok () c' :=
            finishLine_ok_iff.mpr hFeed
          rw [tokenFrom_carriageReturn, bind_of_ok hFinish]
          rfl
        · exact tokenFrom_comment.mpr
            ⟨_,
              (clauseComment_ok_iff hLax).mpr ⟨text, hRun⟩,
              rfl⟩
    | finish =>
        rcases (readsEnding_iff hNext).mp hReads with
          ⟨rfl, text, hRun⟩
        exact tokenFrom_comment.mpr
          ⟨_, (clauseComment_ok_iff hLax).mpr ⟨text, hRun⟩,
            rfl⟩
    | numeral negative index ahead =>
        rcases (readsNumeral_iff hLax hNext).mp hReads with
          ⟨rfl, rfl, first, c₂, hFirst, hNumeral⟩ |
          ⟨rfl, hNumeral⟩
        · rw [tokenFrom_minus, bind_of_ok hFirst]
          exact hNumeral
        · rcases (numeral_ok_iff hLax).mp hNumeral with
            ⟨_, _, _, hDigit, _⟩
          rw [tokenFrom_digit hDigit]
          exact hNumeral

end Parser

end Dimacs
