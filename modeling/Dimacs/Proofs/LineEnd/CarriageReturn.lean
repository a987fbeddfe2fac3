import Dimacs.Proofs.Problem.Text

/-
  Where a carriage return may stand in an accepted problem.
  In front of a line feed it may stand anywhere. A lone one
  is refused in every line up to the header and among the
  clauses, with one exception: a comment among the clauses
  is skipped without a look at it.

  Key definitions include:
    * `PairsReturns`
    * `ClauseItem.IsComment`
    * `ProblemText.Comments`

  Main statements:
    * `pairsReturns_append`
    * `HeaderText.pairsReturns`
    * `return_in_clauses`
    * `lone_return_is_commented`
    * `lone_return_in_comment_is_accepted`
-/

namespace Dimacs

------------------------------------------------------------
-- Paired Returns
------------------------------------------------------------

/- Every carriage return is followed by a line feed. -/
def PairsReturns
    (bytes : List UInt8) : Prop :=
  ∀ before behind,
    bytes = before ++ Byte.carriageReturn :: behind →
    behind.head? = some Byte.lineFeed

/- The line feed behind a return stands in the same text. -/
theorem PairsReturns.head?_append
    {front before rest : List UInt8}
    (hPairs : PairsReturns front)
    (hFront : front = before ++ Byte.carriageReturn :: rest)
    (back : List UInt8) :
    (rest ++ back).head? = some Byte.lineFeed := by
  have hFeed := hPairs before rest hFront
  rw [List.head?_append, hFeed, Option.some_or]

theorem pairsReturns_of_notMem
    {bytes : List UInt8}
    (hNone : Byte.carriageReturn ∉ bytes) :
    PairsReturns bytes := by
  intro before behind hBytes
  refine absurd ?_ hNone
  simp [hBytes]

/-
  Returns that are paired within their texts stay paired.
-/
theorem pairsReturns_append
    {front back : List UInt8}
    (hFront : PairsReturns front)
    (hBack : PairsReturns back) :
    PairsReturns (front ++ back) := by
  intro before behind hBytes
  rcases append_eq_append_cons_iff.mp hBytes with
    ⟨rest, hFirst, rfl⟩ | ⟨rest, _, hSecond⟩
  · exact hFront.head?_append hFirst back
  · exact hBack rest behind hSecond

theorem pairsReturns_flatMap
    {α : Type}
    {texts : List α}
    {bytes : α → List UInt8}
    (hEach : ∀ text ∈ texts, PairsReturns (bytes text)) :
    PairsReturns (texts.flatMap bytes) := by
  induction texts with
  | nil => exact pairsReturns_of_notMem List.not_mem_nil
  | cons text texts ih =>
      rcases List.forall_mem_cons.mp hEach with
        ⟨hText, hRest⟩
      rw [List.flatMap_cons]
      exact pairsReturns_append hText (ih hRest)

theorem LineEnd.pairsReturns
    (close : LineEnd) :
    PairsReturns close.bytes := by
  cases close with
  | lineFeed => exact pairsReturns_of_notMem (by decide)
  | carriageReturn =>
      intro before behind hBytes
      have hBytes' :
          Byte.carriageReturn :: [Byte.lineFeed] =
            before ++ Byte.carriageReturn :: behind :=
        hBytes
      rcases List.cons_eq_append_iff.mp hBytes' with
        ⟨_, hSame⟩ | ⟨rest, _, hRest⟩
      · rw [List.cons.injEq] at hSame
        rw [hSame.2]
        rfl
      · have hMem :
            Byte.carriageReturn ∈ [Byte.lineFeed] := by
          simp [hRest]
        exact absurd hMem (by decide)

------------------------------------------------------------
-- Up to the Header Line
------------------------------------------------------------

variable {strictness : Strictness}

theorem LeadLine.pairsReturns
    {line : LeadLine}
    (hLine : line.IsAllowed strictness) :
    PairsReturns line.bytes := by
  cases line with
  | blank close => exact close.pairsReturns
  | comment text close =>
      have hInner :
          Byte.carriageReturn ∉ Byte.letterC :: text := by
        intro hMem
        rcases List.mem_cons.mp hMem with hLetter | hText
        · exact absurd hLetter (by decide)
        · exact (hLine _ hText).1 rfl
      exact pairsReturns_append
        (pairsReturns_of_notMem hInner) close.pairsReturns

theorem IsGap.notMem_return
    {gap : List UInt8}
    (hGap : IsGap strictness gap) :
    Byte.carriageReturn ∉ gap := by
  intro hMem
  exact absurd (hGap.1 _ hMem) (by decide)

theorem IsNumeral.notMem_return
    {limit : Nat}
    {digits : List UInt8}
    (hDigits : IsNumeral limit digits) :
    Byte.carriageReturn ∉ digits := by
  intro hMem
  exact absurd (hDigits.2.1 _ hMem) (by decide)

theorem HeaderLine.pairsReturns
    {line : HeaderLine}
    (hLine : line.IsAllowed strictness) :
    PairsReturns line.tail := by
  have hFormat := hLine.formatGap.notMem_return
  have hVariables := hLine.variablesGap.notMem_return
  have hVariableDigits := hLine.variableDigits.notMem_return
  have hClauses := hLine.clausesGap.notMem_return
  have hClauseDigits := hLine.clauseDigits.notMem_return
  have hClosing := hLine.closingGap.notMem_return
  have hInner :
      Byte.carriageReturn ∉
        Byte.space ::
            (line.formatGap ++
              [Byte.letterC, Byte.letterN, Byte.letterF,
                Byte.space]) ++
          ((line.variablesGap ++ line.variableDigits) ++
            Byte.space ::
              ((line.clausesGap ++ line.clauseDigits) ++
                line.closingGap)) := by
    simp [*, Byte.carriageReturn, Byte.space, Byte.letterC,
      Byte.letterN, Byte.letterF]
  have hSplit := pairsReturns_append
    (pairsReturns_of_notMem hInner) line.close.pairsReturns
  simpa [HeaderLine.tail] using hSplit

/- Up to the end of the header line no return is alone. -/
theorem HeaderText.pairsReturns
    {text : HeaderText}
    (hText : text.IsAllowed strictness) :
    PairsReturns text.bytes := by
  have hLead :
      PairsReturns (text.lead.flatMap LeadLine.bytes) :=
    pairsReturns_flatMap fun line hMem =>
      LeadLine.pairsReturns (hText.1 line hMem)
  have hLetter : PairsReturns [Byte.letterP] :=
    pairsReturns_of_notMem (by decide)
  exact pairsReturns_append hLead
    (pairsReturns_append hLetter
      (HeaderLine.pairsReturns hText.2))

------------------------------------------------------------
-- Among the Clauses
------------------------------------------------------------

/- The item is a comment, closed by a line feed or not. -/
def ClauseItem.IsComment : ClauseItem → Prop
  | comment _ => True
  | openComment _ => True
  | _ => False

/- Any item but a comment pairs its returns. -/
theorem ClauseItem.isComment_or_pairsReturns
    {item : ClauseItem}
    (hItem : item.IsWellFormed) :
    item.IsComment ∨ PairsReturns item.bytes := by
  cases item with
  | space => exact .inr (pairsReturns_of_notMem (by decide))
  | tab => exact .inr (pairsReturns_of_notMem (by decide))
  | lineEnd close => exact .inr close.pairsReturns
  | comment text => exact .inl trivial
  | openComment text => exact .inl trivial
  | numeral negative digits =>
      have hDigits := hItem.1.notMem_return
      refine .inr (pairsReturns_of_notMem ?_)
      cases negative with
      | false => exact hDigits
      | true =>
          intro hMem
          rcases List.mem_cons.mp hMem with hSign | hDigit
          · exact absurd hSign (by decide)
          · exact hDigits hDigit

/- The byte behind the front part belongs to a comment. -/
def InComment
    (items : List ClauseItem)
    (before : List UInt8) : Prop :=
  ∃ front item back inner rest,
    items = front ++ item :: back ∧ item.IsComment ∧
      item.bytes = inner ++ rest ∧ rest ≠ [] ∧
      before = clauseBytes front ++ inner

/-
  A return among the clauses is paired, or a
  comment holds it.
-/
theorem return_in_clauses
    {items : List ClauseItem}
    {before behind : List UInt8}
    (hText : IsClauseText items)
    (hBytes :
      clauseBytes items =
        before ++ Byte.carriageReturn :: behind) :
    behind.head? = some Byte.lineFeed ∨
      InComment items before := by
  induction items generalizing before with
  | nil => simp [clauseBytes] at hBytes
  | cons item items ih =>
      rcases hText with ⟨hItem, _, hRest⟩
      rw [clauseBytes, List.flatMap_cons] at hBytes
      rcases append_eq_append_cons_iff.mp hBytes with
        ⟨rest, hFirst, rfl⟩ | ⟨rest, rfl, hSecond⟩
      · rcases ClauseItem.isComment_or_pairsReturns
            hItem with
          hComment | hPairs
        · exact .inr
            ⟨[], item, items, before, _, rfl, hComment,
              hFirst, List.cons_ne_nil _ _, rfl⟩
        · exact .inl (hPairs.head?_append hFirst _)
      · rcases ih hRest hSecond with hFeed | hComment
        · exact .inl hFeed
        · rcases hComment with
            ⟨front, comment, back, inner, rest', rfl, hKind,
              hInner, hMore, rfl⟩
          refine .inr
            ⟨item :: front, comment, back, inner, rest',
              rfl, hKind, hInner, hMore, ?_⟩
          simp [clauseBytes]

/-
  A comment among the clauses holds the byte behind
  the front part.
-/
def ProblemText.Comments
    (text : ProblemText)
    (before : List UInt8) : Prop :=
  ∃ inner,
    before = text.head.bytes ++ inner ∧
    InComment text.items inner

/-
  In an accepted problem a carriage return is
  followed by a line feed, or it stands within a
  comment among the clauses.
-/
theorem lone_return_is_commented
    (strictness : Strictness)
    (o : Options)
    (bytes : List UInt8)
    (name : String)
    (summary : Summary)
    (hOk :
      (parseProblem strictness o
          (.ofSource (.ofBytes bytes) name)).result =
        .ok summary) :
    ∃ text : ProblemText,
      text.IsAllowed strictness ∧
      bytes = text.bytes ∧
      ∀ before behind,
        bytes = before ++ Byte.carriageReturn :: behind →
        behind.head? = some Byte.lineFeed ∨
          text.Comments before := by
  rcases exists_text_of_ok hOk with ⟨text, hAllowed, hBytes⟩
  rw [Cursor.readable_ofBytes] at hBytes
  refine ⟨text, hAllowed, hBytes, ?_⟩
  intro before behind hReturn
  rw [hBytes, ProblemText.bytes] at hReturn
  rcases append_eq_append_cons_iff.mp hReturn with
    ⟨rest, hHead, rfl⟩ | ⟨inner, rfl, hClauses⟩
  · exact .inl
      ((HeaderText.pairsReturns hAllowed.head).head?_append
        hHead _)
  · rcases return_in_clauses hAllowed.items hClauses with
      hFeed | hComment
    · exact .inl hFeed
    · exact .inr ⟨inner, rfl, hComment⟩

/-
  A return in a comment among the clauses of
  an accepted problem.
-/
theorem return_in_comment_is_commented :
    (parseProblem .pedantic .standard
        (.ofSource
          (.ofBytes
            [112, 32, 99, 110, 102, 32, 48, 32, 48, 10, 99,
              13, 120, 10]) "")).result =
      .ok ⟨⟨0, 0⟩, 0⟩ ∧
    ∃ text : ProblemText,
      text.IsAllowed .pedantic ∧
      [112, 32, 99, 110, 102, 32, 48, 32, 48, 10, 99, 13,
          120, 10] =
        text.bytes ∧
      ∀ before behind,
        [112, 32, 99, 110, 102, 32, 48, 32, 48, 10, 99, 13,
            120, 10] =
          before ++ Byte.carriageReturn :: behind →
        behind.head? = some Byte.lineFeed ∨
          text.Comments before := by
  have hOk :
      (parseProblem .pedantic .standard
          (.ofSource
            (.ofBytes
              [112, 32, 99, 110, 102, 32, 48, 32, 48, 10,
                99, 13, 120, 10]) "")).result =
        .ok ⟨⟨0, 0⟩, 0⟩ := by
    decide +kernel
  exact ⟨hOk,
    lone_return_is_commented .pedantic .standard _ "" _ hOk⟩

/-
  Not every accepted problem pairs its returns: even
  pedantic reading passes over a lone one in a comment
  among the clauses.
-/
theorem lone_return_in_comment_is_accepted :
    ¬ ∀ strictness summary,
      (parseProblem strictness .standard
          (.ofSource
            (.ofBytes
              [112, 32, 99, 110, 102, 32, 48, 32, 48, 10,
                99, 13, 120, 10]) "")).result =
        .ok summary →
      PairsReturns
        [112, 32, 99, 110, 102, 32, 48, 32, 48, 10, 99, 13,
          120, 10] := by
  intro hClaim
  have hPairs :=
    hClaim .pedantic ⟨⟨0, 0⟩, 0⟩ (by decide +kernel)
  have hFeed :=
    hPairs [112, 32, 99, 110, 102, 32, 48, 32, 48, 10, 99]
      [120, 10] rfl
  exact absurd hFeed (by decide)

end Dimacs
