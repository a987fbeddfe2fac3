import Dimacs.Proofs.Problem.Text

/-
  How a problem may end that pedantic reading accepts. It
  refuses a text that stops behind a numeral or within a
  comment. What is left are texts that end with a line feed,
  and texts that stop at a blank between the items of the
  last line.

  Key definitions include:
    * `lastLine`
    * `EndsCleanly`
    * `IsClosed`
    * `Parser.StopsShort`

  Main statements:
    * `isClosed_of_gap`
    * `isClosed_of_numeral`
    * `Parser.token_pedantic_iff`
    * `Parser.body_pedantic_iff`
    * `pedantic_accepts_clean_ends`
    * `missing_final_line_feed_is_accepted`
-/

namespace Dimacs

------------------------------------------------------------
-- The Last Line
------------------------------------------------------------

/- The bytes behind the last line feed. -/
def lastLine : List UInt8 → List UInt8
  | [] => []
  | b :: rest =>
      if Byte.lineFeed ∈ b :: rest then lastLine rest
      else b :: rest

theorem lastLine_of_notMem
    {bytes : List UInt8}
    (hNone : Byte.lineFeed ∉ bytes) :
    lastLine bytes = bytes := by
  cases bytes with
  | nil => rfl
  | cons b rest => rw [lastLine, if_neg hNone]

/-
  Only behind the last line feed does the text in front of
  it not count.
-/
theorem lastLine_append
    (front back : List UInt8) :
    lastLine (front ++ back) =
      if Byte.lineFeed ∈ back then lastLine back
      else lastLine front ++ back := by
  induction front with
  | nil =>
      by_cases hBack : Byte.lineFeed ∈ back
      · simp [hBack]
      · simp [hBack, lastLine, lastLine_of_notMem]
  | cons b front ih =>
      rw [List.cons_append, lastLine, lastLine, ih]
      by_cases hBack : Byte.lineFeed ∈ back
      · simp [hBack]
      · by_cases hFront : Byte.lineFeed ∈ b :: front
        · have hAll :
              Byte.lineFeed ∈ b :: (front ++ back) := by
            simpa using List.mem_append_left back hFront
          rw [if_pos hAll, if_neg hBack, if_neg hBack,
            if_pos hFront]
        · have hAll :
              Byte.lineFeed ∉ b :: (front ++ back) := by
            simpa [hBack] using hFront
          rw [if_neg hAll, if_neg hBack, if_neg hFront,
            List.cons_append]

/-
  The text ends with a line feed, or its last byte is a
  blank on a line that holds no comment.
-/
def EndsCleanly
    (bytes : List UInt8) : Prop :=
  bytes.getLast? = some Byte.lineFeed ∨
    Byte.letterC ∉ lastLine bytes ∧
      ∃ b ∈ bytes.getLast?, Byte.IsBlank b

/-
  A text in front matters only by a comment that
  it leaves open.
-/
theorem endsCleanly_append_iff_of_ne_nil
    {front back : List UInt8}
    (hFront : Byte.letterC ∉ lastLine front)
    (hBack : back ≠ []) :
    EndsCleanly (front ++ back) ↔ EndsCleanly back := by
  have hLast :
      (front ++ back).getLast? = back.getLast? := by
    rw [List.getLast?_append,
      List.getLast?_eq_some_getLast hBack, Option.some_or]
  have hComment :
      Byte.letterC ∈ lastLine (front ++ back) ↔
        Byte.letterC ∈ lastLine back := by
    rw [lastLine_append]
    by_cases hFeed : Byte.lineFeed ∈ back
    · rw [if_pos hFeed]
    · rw [if_neg hFeed, lastLine_of_notMem hFeed,
        List.mem_append]
      exact or_iff_right hFront
  rw [EndsCleanly, EndsCleanly, hLast, hComment]

------------------------------------------------------------
-- Closed Texts
------------------------------------------------------------

/- Nothing is left to read, or what is left ends cleanly. -/
def IsClosed
    (bytes : List UInt8) : Prop :=
  bytes = [] ∨ EndsCleanly bytes

theorem isClosed_append_iff_of_ne_nil
    {front back : List UInt8}
    (hFront : Byte.letterC ∉ lastLine front)
    (hBack : back ≠ []) :
    IsClosed (front ++ back) ↔ IsClosed back := by
  simp [IsClosed, hBack,
    endsCleanly_append_iff_of_ne_nil hFront hBack]

/-
  A text that ends with a line feed has an empty last line.
-/
theorem lastLine_snoc
    (bytes : List UInt8) :
    lastLine (bytes ++ [Byte.lineFeed]) = [] := by
  rw [lastLine_append, if_pos List.mem_cons_self]
  rfl

theorem endsCleanly_snoc
    (bytes : List UInt8) :
    EndsCleanly (bytes ++ [Byte.lineFeed]) :=
  .inl (by simp)

/- A gap ends cleanly, and leaves no comment open. -/
theorem ClauseItem.IsGap.endsCleanly
    {item : ClauseItem}
    (hGap : item.IsGap) :
    EndsCleanly item.bytes ∧
      Byte.letterC ∉ lastLine item.bytes := by
  cases item with
  | space =>
      exact ⟨.inr ⟨by decide, Byte.space, rfl, .inl rfl⟩,
        by decide⟩
  | tab =>
      exact ⟨.inr ⟨by decide, Byte.tab, rfl, .inr rfl⟩,
        by decide⟩
  | lineEnd close =>
      cases close with
      | lineFeed => exact ⟨endsCleanly_snoc [], by decide⟩
      | carriageReturn =>
          exact ⟨endsCleanly_snoc [Byte.carriageReturn],
            by decide⟩
  | comment text =>
      have hLine := lastLine_snoc (Byte.letterC :: text)
      refine ⟨endsCleanly_snoc (Byte.letterC :: text), ?_⟩
      rw [ClauseItem.bytes, ← List.cons_append, hLine]
      exact List.not_mem_nil
  | openComment text => exact hGap.elim
  | numeral negative digits => exact hGap.elim

/-
  A gap in front of a text does not change how
  the text ends.
-/
theorem isClosed_of_gap
    {item : ClauseItem}
    (hGap : item.IsGap)
    (back : List UInt8) :
    IsClosed (item.bytes ++ back) ↔ IsClosed back := by
  rcases hGap.endsCleanly with ⟨hEnds, hComment⟩
  by_cases hBack : back = []
  · subst hBack
    rw [List.append_nil]
    exact iff_of_true (.inr hEnds) (.inl rfl)
  · exact isClosed_append_iff_of_ne_nil hComment hBack

/- A comment that is left open ends no text cleanly. -/
theorem not_isClosed_of_openComment
    {text : List UInt8}
    (hText : ∀ b ∈ text, Byte.IsNoFeed b) :
    ¬ IsClosed (Byte.letterC :: text) := by
  have hFeed : Byte.lineFeed ∉ Byte.letterC :: text := by
    intro hMem
    rcases List.mem_cons.mp hMem with hLetter | hInner
    · exact absurd hLetter (by decide)
    · exact hText _ hInner rfl
  intro hClosed
  rcases hClosed with hNil | hLast | ⟨hComment, _⟩
  · exact absurd hNil (List.cons_ne_nil _ _)
  · exact hFeed (List.mem_of_getLast? hLast)
  · rw [lastLine_of_notMem hFeed] at hComment
    exact hComment List.mem_cons_self

/-
  The bytes of a numeral are digits behind an optional sign.
-/
theorem isDigit_or_minus_of_numeral
    {negative : Bool}
    {digits : List UInt8}
    (hNumeral :
      (ClauseItem.numeral negative digits).IsWellFormed) :
    ∀ b ∈ (ClauseItem.numeral negative digits).bytes,
      Byte.IsDigit b ∨ b = Byte.minus := by
  intro b hMem
  cases negative with
  | false => exact .inl (hNumeral.1.2.1 b hMem)
  | true =>
      rcases List.mem_cons.mp hMem with hSign | hDigit
      · exact .inr hSign
      · exact .inl (hNumeral.1.2.1 b hDigit)

theorem notMem_of_numeral
    {negative : Bool}
    {digits : List UInt8}
    {b : UInt8}
    (hNumeral :
      (ClauseItem.numeral negative digits).IsWellFormed)
    (hByte : ¬ (Byte.IsDigit b ∨ b = Byte.minus)) :
    b ∉ (ClauseItem.numeral negative digits).bytes :=
  fun hMem =>
    hByte (isDigit_or_minus_of_numeral hNumeral b hMem)

/-
  A text closes behind a numeral if something follows
  that closes it.
-/
theorem isClosed_of_numeral
    {negative : Bool}
    {digits back : List UInt8}
    (hNumeral :
      (ClauseItem.numeral negative digits).IsWellFormed) :
    IsClosed
        ((ClauseItem.numeral negative digits).bytes ++
          back) ↔
      back ≠ [] ∧ IsClosed back := by
  have hFeed := notMem_of_numeral hNumeral
    (b := Byte.lineFeed) (by decide)
  by_cases hBack : back = []
  · subst hBack
    rw [List.append_nil]
    refine iff_of_false ?_ (fun h => h.1 rfl)
    intro hClosed
    rcases hClosed with hNil | hLast | ⟨_, b, hLast, hBlank⟩
    · exact ClauseItem.bytes_ne_nil hNumeral hNil
    · exact hFeed (List.mem_of_getLast? hLast)
    · refine notMem_of_numeral hNumeral ?_
        (List.mem_of_getLast? hLast)
      rcases hBlank with rfl | rfl <;> decide
  · have hComment :
        Byte.letterC ∉
          lastLine
            (ClauseItem.numeral negative digits).bytes := by
      rw [lastLine_of_notMem hFeed]
      exact notMem_of_numeral hNumeral (by decide)
    rw [isClosed_append_iff_of_ne_nil hComment hBack]
    exact (and_iff_right hBack).symm

namespace Parser

variable {c c' : Cursor}

------------------------------------------------------------
-- Tokens that Stop Short
------------------------------------------------------------

/-
  A comment satisfies pedantic reading if a line
  feed ends it.
-/
theorem clauseComment_pedantic_iff
    {fault : Fault}
    {ahead : Option UInt8} :
    clauseComment .pedantic fault c = .ok ahead c' ↔
      clauseComment .relaxed fault c = .ok ahead c' ∧
        ahead ≠ none := by
  have hRelaxed := Strictness.not_isPedantic_relaxed
  fun_induction clauseComment .pedantic fault c with
  | case1 c c₁ hNext =>
      rw [clauseComment, hNext]
      simp only [if_true, EStateM.Result.ok.injEq]
      apply iff_self_and.mpr
      intro h
      exact h.1 ▸ Option.some_ne_none _
  | case2 c b c₁ hNext hFeed ih =>
      rw [clauseComment.eq_def .relaxed fault c, hNext]
      simp only [if_neg hFeed]
      exact ih
  | case3 c c₁ hNext hPedantic =>
      rw [clauseComment, hNext]
      simp only [if_neg hRelaxed, EStateM.Result.ok.injEq]
      constructor
      · intro h
        exact absurd h fail_ne_ok
      · intro h
        exact absurd h.1.1.symm h.2
  | case4 c c₁ hNext hLax => exact absurd rfl hLax

/-
  A numeral satisfies pedantic reading if a gap
  is behind it.
-/
theorem afterNumeral_pedantic_iff
    {index : Nat}
    {first ahead : Option UInt8} :
    afterNumeral .pedantic index first c = .ok ahead c' ↔
      afterNumeral .relaxed index first c = .ok ahead c' ∧
        ahead ≠ none := by
  have hPedantic : Strictness.pedantic.IsPedantic := rfl
  have hRelaxed := Strictness.not_isPedantic_relaxed
  rcases first with _ | b
  · rw [afterNumeral, afterNumeral, if_pos hPedantic,
      if_neg hRelaxed, pure_ok_iff]
    simp only [fail_ne_ok, false_iff]
    intro h
    exact h.2 h.1.1.symm
  · by_cases hReturn : b = Byte.carriageReturn
    · subst hReturn
      rw [afterNumeral_carriageReturn,
        afterNumeral_carriageReturn]
      apply iff_self_and.mpr
      intro h
      rcases bind_ok_iff.mp h with ⟨_, _, _, hFeed⟩
      exact (pure_ok_iff.mp hFeed).1 ▸ Option.some_ne_none _
    · by_cases hComment : b = Byte.letterC
      · subst hComment
        exact clauseComment_pedantic_iff
      · rw [afterNumeral_other hReturn hComment,
          afterNumeral_other hReturn hComment]
        apply iff_self_and.mpr
        intro h
        split at h
        · exact (pure_ok_iff.mp h).1 ▸ Option.some_ne_none _
        · exact absurd h fail_ne_ok

/-
  The token ends at the end of file although it began in
  front of it.
-/
def StopsShort
    (c : Cursor) : Token → Prop
  | .gap => False
  | .finish => c.readable ≠ []
  | .numeral _ _ ahead => ahead = none

/-
  Wherever a numeral began, it does not stop short if a gap
  is behind it.
-/
theorem numeral_pedantic_iff
    {negative : Bool}
    {first : UInt8}
    {found : Token}
    (start : Cursor) :
    numeral .pedantic negative first c = .ok found c' ↔
      numeral .relaxed negative first c = .ok found c' ∧
        ¬ StopsShort start found := by
  simp only [numeral, bind_ok_iff,
    afterNumeral_pedantic_iff, pure_ok_iff]
  constructor
  · intro h
    rcases h with
      ⟨number, c₁, hNumber, ahead, c₂, ⟨hAhead, hSome⟩, rfl,
        rfl⟩
    exact
      ⟨⟨number, c₁, hNumber, ahead, c₂, hAhead, rfl, rfl⟩,
        hSome⟩
  · intro h
    rcases h with
      ⟨⟨number, c₁, hNumber, ahead, c₂, hAhead, rfl, rfl⟩,
        hSome⟩
    exact ⟨number, c₁, hNumber, ahead, c₂, ⟨hAhead, hSome⟩,
      rfl, rfl⟩

/-
  A comment among the clauses stops short if no line
  feed ends it.
-/
theorem tokenFrom_comment_pedantic_iff
    {found : Token}
    {start : Cursor}
    (hStart : start.readable ≠ []) :
    tokenFrom .pedantic Byte.letterC c = .ok found c' ↔
      tokenFrom .relaxed Byte.letterC c = .ok found c' ∧
        ¬ StopsShort start found := by
  simp only [tokenFrom_comment, clauseComment_pedantic_iff]
  constructor
  · intro h
    rcases h with ⟨_ | b, ⟨hComment, hSome⟩, rfl⟩
    · exact absurd rfl hSome
    · exact ⟨⟨_, hComment, rfl⟩, not_false⟩
  · intro h
    rcases h with ⟨⟨_ | b, hComment, rfl⟩, hLong⟩
    · exact absurd hStart hLong
    · exact ⟨_, ⟨hComment, Option.some_ne_none b⟩, rfl⟩

/-
  Pedantic reading refuses the tokens that stop short,
  and no others.
-/
theorem token_pedantic_iff
    {found : Token} :
    token .pedantic c = .ok found c' ↔
      token .relaxed c = .ok found c' ∧
        ¬ StopsShort c found := by
  rw [token, token, byte_bind, byte_bind]
  rcases hNext : c.next with ⟨_ | b, c₁⟩
  · apply iff_self_and.mpr
    intro h hMore
    rw [← (pure_ok_iff.mp h).1] at hMore
    exact hMore (Cursor.readable_of_next_none hNext)
  · change tokenFrom _ b c₁ = _ ↔ tokenFrom _ b c₁ = _ ∧ _
    by_cases hStart : StartsToken b
    · rcases hStart with hGap | rfl | rfl | rfl | hDigit
      · rw [tokenFrom_gap hGap, tokenFrom_gap hGap]
        apply iff_self_and.mpr
        intro h
        exact (pure_ok_iff.mp h).1 ▸ not_false
      · rw [tokenFrom_carriageReturn,
          tokenFrom_carriageReturn]
        apply iff_self_and.mpr
        intro h
        rcases bind_ok_iff.mp h with ⟨_, _, _, hGap⟩
        exact (pure_ok_iff.mp hGap).1 ▸ not_false
      · apply tokenFrom_comment_pedantic_iff
        rw [Cursor.readable_of_next hNext]
        exact List.cons_ne_nil _ _
      · rw [tokenFrom_minus, tokenFrom_minus, bind_ok_iff,
          bind_ok_iff]
        simp only [numeral_pedantic_iff c]
        constructor
        · intro h
          rcases h with ⟨first, c₂, hFirst, hNumeral, hLong⟩
          exact ⟨⟨first, c₂, hFirst, hNumeral⟩, hLong⟩
        · intro h
          rcases h with
            ⟨⟨first, c₂, hFirst, hNumeral⟩, hLong⟩
          exact ⟨first, c₂, hFirst, hNumeral, hLong⟩
      · rw [tokenFrom_digit hDigit, tokenFrom_digit hDigit]
        exact numeral_pedantic_iff c
    · rw [tokenFrom_other hStart, tokenFrom_other hStart]
      simp only [fail_ne_ok, false_and]

/-
  So a token that stops short is an error
  of pedantic reading.
-/
theorem token_pedantic_of_stopsShort
    {found : Token}
    (hToken : token .relaxed c = .ok found c')
    (hShort : StopsShort c found) :
    ∃ e c'', token .pedantic c = .error e c'' := by
  rcases hPedantic : token .pedantic c with
    ⟨other, c₁⟩ | ⟨e, c₁⟩
  · rcases token_pedantic_iff.mp hPedantic with
      ⟨hRelaxed, hLong⟩
    rw [hToken] at hRelaxed
    cases hRelaxed
    exact absurd hShort hLong
  · exact ⟨e, c₁, rfl⟩

------------------------------------------------------------
-- How the Clauses End
------------------------------------------------------------

/-
  A text that a reading finishes closes if nothing was
  left of it.
-/
theorem isClosed_of_ending
    (hReads : ReadsEnding c c') :
    IsClosed c.readable ↔ c.readable = [] := by
  rcases hReads with
    ⟨items, rfl | ⟨text, hText, rfl⟩, hReads⟩
  · have hNil : c.readable = [] :=
      Cursor.readable_of_readsUpTo_end hReads
    exact iff_of_true (.inl hNil) hNil
  · have hOpen : c.readable = Byte.letterC :: text := by
      rw [Cursor.readable_of_readsUpTo_end hReads,
        clauseBytes, List.flatMap_singleton]
      rfl
    rw [hOpen]
    exact iff_of_false (not_isClosed_of_openComment hText)
      (List.cons_ne_nil _ _)

/- A gap that is read does not change how the text ends. -/
theorem isClosed_of_readsGap
    (hReads : ReadsGap c c') :
    c.readable ≠ [] ∧
      (IsClosed c.readable ↔ IsClosed c'.readable) := by
  rcases hReads with ⟨item, hGap, hReads⟩
  have hReadable := Cursor.readable_of_reads hReads
  refine ⟨?_, ?_⟩
  · rw [hReadable]
    exact List.append_ne_nil_of_left_ne_nil
      (item.bytes_ne_nil hGap.isWellFormed) _
  · rw [hReadable]
    exact isClosed_of_gap hGap _

/-
  A numeral leaves it to the gap behind it how
  the text ends.
-/
theorem isClosed_of_readsNumeral
    {negative : Bool}
    {index : Nat}
    {ahead : Option UInt8}
    (hReads :
      ReadsNumeral .relaxed negative index ahead c c') :
    IsClosed c.readable ↔
      ahead ≠ none ∧ IsClosed c'.readable := by
  have hLax := Strictness.not_isPedantic_relaxed
  rcases hReads with
    ⟨digits, c₁, hFormed, _, hReads, hAfter⟩
  rw [Cursor.readable_of_reads hReads,
    isClosed_of_numeral hFormed]
  rcases ahead with _ | b
  · have hEnding := (afterNumeral_iff hLax).2.mp hAfter
    rw [isClosed_of_ending hEnding]
    simp
  · have hGap := (afterNumeral_iff hLax).1.mp ⟨b, hAfter⟩
    rcases isClosed_of_readsGap hGap with ⟨hSome, hSame⟩
    rw [hSame]
    simp [hSome]

variable {header : Header}

/- Only relaxed reading compares less with the header. -/
theorem accept_pedantic
    (header : Header)
    (parsed : Nat)
    (negative : Bool)
    (index : Nat)
    (ahead : Option UInt8) :
    accept .pedantic header parsed negative index ahead =
      accept .normal header parsed negative index
        ahead := by
  have hPedantic : ¬ Strictness.pedantic.IsRelaxed := nofun
  have hNormal : ¬ Strictness.normal.IsRelaxed := nofun
  simp only [accept, hPedantic, hNormal]

theorem closeBody_pedantic
    (header : Header)
    (t : Tally) :
    closeBody .pedantic header t =
      closeBody .normal header t := by
  have hPedantic : ¬ Strictness.pedantic.IsRelaxed := nofun
  have hNormal : ¬ Strictness.normal.IsRelaxed := nofun
  simp only [closeBody, hPedantic, hNormal]

/- Where a numeral is accepted, nothing more is read. -/
theorem cursor_of_accept
    {strictness : Strictness}
    {parsed : Nat}
    {negative : Bool}
    {index : Nat}
    {ahead : Option UInt8}
    {value : Int}
    (hAccept :
      accept strictness header parsed negative index ahead
          c =
        .ok value c') :
    c = c' := by
  unfold accept at hAccept
  split at hAccept
  · exact absurd hAccept failBefore_ne_ok
  · split at hAccept
    · exact absurd hAccept failBefore_ne_ok
    · unfold literal at hAccept
      split at hAccept
      · exact (EStateM.Result.ok.inj hAccept).2
      · cases hAccept

/-
  Of the clauses that normal reading accepts, pedantic
  reading accepts those that close.
-/
theorem body_pedantic_iff
    {t t' : Tally}
    {parsed : Nat}
    (hBody :
      body .normal header t c = (t', .ok parsed c')) :
    body .pedantic header t c = (t', .ok parsed c') ↔
      IsClosed c.readable := by
  have hLax := Strictness.not_isPedantic_relaxed
  have hTokens :=
    token_of_lax Strictness.not_isPedantic_normal
  fun_induction body .normal header t c with
  | case1 t c e c₁ hToken => cases hBody
  | case2 t c c₁ hToken =>
      rw [hTokens] at hToken
      rw [isClosed_of_ending (readsToken_of_ok hLax hToken)]
      by_cases hNil : c.readable = []
      · have hLong : ¬ StopsShort c .finish :=
          fun hMore => hMore hNil
        rw [body_of_finish
            (token_pedantic_iff.mpr ⟨hToken, hLong⟩),
          closeBody_pedantic]
        exact iff_of_true hBody hNil
      · rcases token_pedantic_of_stopsShort hToken hNil with
          ⟨e, c₂, hRefused⟩
        rw [body_of_error hRefused]
        refine iff_of_false ?_ hNil
        simp
  | case3 t c c₁ hToken ih =>
      rw [hTokens] at hToken
      rw [body_of_gap
          (token_pedantic_iff.mpr ⟨hToken, not_false⟩),
        (isClosed_of_readsGap
          (readsToken_of_ok hLax hToken)).2]
      exact ih hBody
  | case4 t c negative index ahead c₁ hToken e c₂ hAccept =>
      cases hBody
  | case5 t c negative index ahead c₁ hToken value c₂
        hAccept ih =>
      rw [hTokens] at hToken
      rw [isClosed_of_readsNumeral
        (readsToken_of_ok hLax hToken)]
      by_cases hShort : ahead = none
      · rcases token_pedantic_of_stopsShort hToken
            hShort with
          ⟨e, c₃, hRefused⟩
        rw [body_of_error hRefused]
        refine iff_of_false ?_ (fun h => h.1 hShort)
        simp
      · have hAccept' :
            accept .pedantic header t.parsed negative index
                ahead c₁ =
              .ok value c₂ := by
          rw [accept_pedantic]
          exact hAccept
        rw [body_of_numeral
            (token_pedantic_iff.mpr ⟨hToken, hShort⟩)
            hAccept', cursor_of_accept hAccept,
          and_iff_right hShort]
        exact ih hBody

end Parser

------------------------------------------------------------
-- Whole Problems
------------------------------------------------------------

theorem LineEnd.bytes_eq_snoc
    (close : LineEnd) :
    ∃ inner, close.bytes = inner ++ [Byte.lineFeed] := by
  cases close with
  | lineFeed => exact ⟨[], rfl⟩
  | carriageReturn => exact ⟨[Byte.carriageReturn], rfl⟩

/-
  The header line ends with a line feed, so only
  the clauses matter.
-/
theorem HeaderText.endsCleanly_append_iff
    (text : HeaderText)
    (back : List UInt8) :
    EndsCleanly (text.bytes ++ back) ↔ IsClosed back := by
  have hFeed :
      ∃ inner, text.bytes = inner ++ [Byte.lineFeed] := by
    rcases text.line.close.bytes_eq_snoc with
      ⟨inner, hClose⟩
    simp only [HeaderText.bytes, HeaderLine.tail, hClose,
      ← List.append_assoc, ← List.cons_append]
    exact ⟨_, rfl⟩
  rcases hFeed with ⟨inner, hBytes⟩
  rw [hBytes]
  by_cases hBack : back = []
  · subst hBack
    rw [List.append_nil]
    exact iff_of_true (endsCleanly_snoc inner) (.inl rfl)
  · have hComment :
        Byte.letterC ∉
          lastLine (inner ++ [Byte.lineFeed]) := by
      rw [lastLine_snoc]
      exact List.not_mem_nil
    rw [endsCleanly_append_iff_of_ne_nil hComment hBack,
      IsClosed]
    exact (or_iff_right hBack).symm

/-
  Of the problems that normal reading accepts behind a
  header that pedantic reading accepts, pedantic reading
  accepts those that end with a line feed or with a blank
  on a line without a comment.
-/
theorem pedantic_accepts_clean_ends
    (o : Options)
    (bytes : List UInt8)
    (name : String)
    (declared : Header)
    (hHeader :
      Parser.verdict
          (Parser.header .pedantic o
            (.ofSource (.ofBytes bytes) name)).2 =
        .ok declared)
    (summary : Summary) :
    (parseProblem .pedantic o
          (.ofSource (.ofBytes bytes) name)).result =
        .ok summary ↔
      (parseProblem .normal o
            (.ofSource (.ofBytes bytes) name)).result =
          .ok summary ∧
        EndsCleanly bytes := by
  have hLe : Strictness.pedantic ≤ Strictness.normal := by
    decide
  rcases hRun :
      Parser.header .pedantic o
        (.ofSource (.ofBytes bytes) name) with
    ⟨p, ⟨header, c⟩ | ⟨e, c⟩⟩
  · have hNormal := Parser.header_refines hLe hRun
    have hEnds :
        EndsCleanly bytes ↔ IsClosed c.readable := by
      rcases Parser.header_ok_iff.mp ⟨p, hRun⟩ with
        ⟨text, _, _, hReads⟩
      rw [← Cursor.readable_ofBytes bytes name,
        Cursor.readable_of_reads hReads]
      exact text.endsCleanly_append_iff c.readable
    rw [hEnds, parseProblem_ok_iff, parseProblem_ok_iff,
      hRun, hNormal]
    constructor
    · intro h
      rcases h with ⟨p', c₁, t, c₂, hSame, hBody, hFailure⟩
      cases hSame
      have hBody' :=
        (Parser.body_graded hLe summary.header .empty c).2 t
          _ c₂ hBody
      exact ⟨⟨p, c, t, c₂, rfl, hBody', hFailure⟩,
        (Parser.body_pedantic_iff hBody').mp hBody⟩
    · intro h
      rcases h with
        ⟨⟨p', c₁, t, c₂, hSame, hBody, hFailure⟩, hClosed⟩
      cases hSame
      exact ⟨p, c, t, c₂, rfl,
        (Parser.body_pedantic_iff hBody).mpr hClosed,
        hFailure⟩
  · rw [hRun] at hHeader
    cases hHeader

/-
  A problem whose last line ends with a zero and a blank.
-/
theorem blank_behind_last_zero_is_clean :
    Parser.verdict
        (Parser.header .pedantic .standard
          (.ofSource
            (.ofBytes
              [112, 32, 99, 110, 102, 32, 49, 32, 49, 10,
                49, 32, 48, 32]) "")).2 =
      .ok ⟨1, 1⟩ ∧
    ((parseProblem .pedantic .standard
          (.ofSource
            (.ofBytes
              [112, 32, 99, 110, 102, 32, 49, 32, 49, 10,
                49, 32, 48, 32]) "")).result =
        .ok ⟨⟨1, 1⟩, 1⟩ ↔
      (parseProblem .normal .standard
            (.ofSource
              (.ofBytes
                [112, 32, 99, 110, 102, 32, 49, 32, 49, 10,
                  49, 32, 48, 32]) "")).result =
          .ok ⟨⟨1, 1⟩, 1⟩ ∧
        EndsCleanly
          [112, 32, 99, 110, 102, 32, 49, 32, 49, 10, 49,
            32, 48, 32]) := by
  have hHeader :
      Parser.verdict
          (Parser.header .pedantic .standard
            (.ofSource
              (.ofBytes
                [112, 32, 99, 110, 102, 32, 49, 32, 49, 10,
                  49, 32, 48, 32]) "")).2 =
        .ok ⟨1, 1⟩ := by
    decide +kernel
  exact ⟨hHeader,
    pedantic_accepts_clean_ends .standard _ "" ⟨1, 1⟩
      hHeader ⟨⟨1, 1⟩, 1⟩⟩

/-
  Pedantic reading does not demand the last line feed: a
  blank may stand in its place.
-/
theorem missing_final_line_feed_is_accepted :
    Parser.verdict
        (Parser.header .pedantic .standard
          (.ofSource
            (.ofBytes
              [112, 32, 99, 110, 102, 32, 49, 32, 49, 10,
                49, 32, 48, 32]) "")).2 =
      .ok ⟨1, 1⟩ ∧
    ¬ ((∃ summary,
          (parseProblem .pedantic .standard
              (.ofSource
                (.ofBytes
                  [112, 32, 99, 110, 102, 32, 49, 32, 49,
                    10, 49, 32, 48, 32]) "")).result =
            .ok summary) ↔
        (∃ summary,
            (parseProblem .normal .standard
                (.ofSource
                  (.ofBytes
                    [112, 32, 99, 110, 102, 32, 49, 32, 49,
                      10, 49, 32, 48, 32]) "")).result =
              .ok summary) ∧
          [112, 32, 99, 110, 102, 32, 49, 32, 49, 10, 49,
              32, 48, 32].getLast? =
            some Byte.lineFeed) := by
  refine ⟨by decide +kernel, ?_⟩
  intro hClaim
  have hFeed :=
    (hClaim.mp ⟨⟨⟨1, 1⟩, 1⟩, by decide +kernel⟩).2
  exact absurd hFeed (by decide)

end Dimacs
