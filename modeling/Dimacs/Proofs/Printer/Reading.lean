import Dimacs.Problem.Printer
import Dimacs.Proofs.Clauses.Grammar
import Dimacs.Proofs.Formula.Blocks
import Dimacs.Proofs.Printer.Decimal
import Dimacs.Proofs.Strictness.Agreement

/-
  What is printed is read again, however strict the reading:
  the header line declares what was printed, and each number
  is a token of its own, because a space or a line feed
  stands behind it.

  Key definitions include:
    * `Printer.item`

  Main statements:
    * `Parser.token_of_item`
    * `Parser.body_of_items`
    * `Parser.header_of_headerLine`
    * `parseProblem_problem`
-/

namespace Dimacs

namespace Printer

------------------------------------------------------------
-- Items
------------------------------------------------------------

/-
  What is printed behind a number: only a zero
  ends its line.
-/
def separator
    (value : Int) : UInt8 :=
  if value = 0 then Byte.lineFeed else Byte.space

/- A number with what is printed behind it. -/
def item
    (value : Int) : List UInt8 :=
  number value ++ [separator value]

theorem separator_ends
    (value : Int) :
    Byte.IsBlank (separator value) ∨
      separator value = Byte.lineFeed := by
  unfold separator
  split
  · exact .inr rfl
  · exact .inl (.inl rfl)

/- The line of a clause holds its literals and a zero. -/
theorem clauseLine_eq
    {clause : List Int}
    (hClause : ∀ value ∈ clause, value ≠ 0) :
    clauseLine clause = (clause ++ [0]).flatMap item := by
  have hItems :
      clause.flatMap
          (fun value => number value ++ [Byte.space]) =
        clause.flatMap item := by
    rw [List.flatMap_def, List.flatMap_def]
    refine congrArg List.flatten (List.map_congr_left ?_)
    intro value hValue
    rw [item, separator, if_neg (hClause value hValue)]
  rw [clauseLine, hItems, List.flatMap_append,
    List.flatMap_singleton]
  rfl

theorem flatMap_clauseLine
    {clauses : List (List Int)}
    (hClauses :
      ∀ clause ∈ clauses, ∀ value ∈ clause, value ≠ 0) :
    clauses.flatMap clauseLine =
      (terminated clauses).flatMap item := by
  rw [terminated, List.flatMap_assoc, List.flatMap_def,
    List.flatMap_def]
  refine congrArg List.flatten (List.map_congr_left ?_)
  intro clause hClause
  exact clauseLine_eq (hClauses clause hClause)

end Printer

namespace Parser

variable {strictness : Strictness}
variable {header : Header}
variable {t : Tally}
variable {c c' : Cursor}

------------------------------------------------------------
-- Numbers
------------------------------------------------------------

/-
  A numeral with a space or a line feed behind it is read.
-/
theorem numeral_of_reads
    {first b : UInt8}
    {digits : List UInt8}
    (negative : Bool)
    (hNumeral : IsNumeral maxVariable (first :: digits))
    (hEnd : Byte.IsBlank b ∨ b = Byte.lineFeed)
    (hReads : c.Reads (digits ++ [b]) c') :
    numeral strictness negative first c =
      .ok
        (.numeral negative (Byte.decimal (first :: digits))
          (some b)) c' := by
  rcases hNumeral with ⟨_, hDigits, hLimit⟩
  rcases List.forall_mem_cons.mp hDigits with
    ⟨hFirst, hRest⟩
  have hStops : ∀ a ∈ some b, ¬ Byte.IsDigit a := by
    rintro a ⟨⟩ hDigit
    rcases hEnd with hBlank | rfl
    · exact not_isBlank_of_isDigit hDigit hBlank
    · exact absurd hDigit (by decide)
  have hOther :
      b ≠ Byte.carriageReturn ∧ b ≠ Byte.letterC := by
    rcases hEnd with (rfl | rfl) | rfl <;> decide
  have hNumber :
      number maxVariable .indexTooLarge first c =
        .ok (Byte.decimal (first :: digits), some b) c' :=
    (number_ok_iff (by decide) (by decide)).mpr
      ⟨digits, hFirst,
        ⟨hRest, hStops, Cursor.readsUpTo_some.mpr hReads⟩,
        rfl, hLimit⟩
  rw [numeral, bind_of_ok hNumber]
  dsimp only
  rw [afterNumeral_other hOther.1 hOther.2, if_pos hEnd]
  rfl

theorem signed_natAbs
    (value : Int) :
    signed (decide (value < 0)) value.natAbs = value := by
  unfold signed
  by_cases hNegative : value < 0
  · rw [if_pos (decide_eq_true hNegative)]
    omega
  · rw [if_neg (mt of_decide_eq_true hNegative)]
    omega

/- A printed number is one token. -/
theorem token_of_item
    {value : Int}
    (strictness : Strictness)
    (hValue : value.natAbs ≤ maxVariable)
    (hReads : c.Reads (Printer.item value) c') :
    token strictness c =
      .ok
        (.numeral (decide (value < 0)) value.natAbs
          (some (Printer.separator value))) c' := by
  have hNumeral := isNumeral_ofDecimal hValue
  have hIndex := Byte.decimal_ofDecimal value.natAbs
  have hEnd := Printer.separator_ends value
  rcases Byte.exists_ofDecimal_eq_cons value.natAbs with
    ⟨first, digits, hDigits, hFirst⟩
  rw [hDigits] at hNumeral hIndex
  have hDigit : Byte.IsDigit first :=
    hNumeral.2.1 first List.mem_cons_self
  rw [Printer.item, Printer.number, hDigits] at hReads
  by_cases hNegative : value < 0
  · rw [if_pos hNegative] at hReads
    rcases hReads with ⟨c₁, hMinus, c₂, hNext, hRest⟩
    have hAfter : digitAfterMinus c₁ = .ok first c₂ :=
      digitAfterMinus_ok_iff.mpr
        ⟨hNext, hDigit, hFirst (by omega)⟩
    rw [token, byte_bind, hMinus, decide_eq_true hNegative]
    change tokenFrom strictness Byte.minus c₁ = _
    rw [tokenFrom_minus, bind_of_ok hAfter,
      numeral_of_reads true hNumeral hEnd hRest, hIndex]
  · rw [if_neg hNegative] at hReads
    rcases hReads with ⟨c₁, hNext, hRest⟩
    rw [token, byte_bind, hNext, decide_eq_false hNegative]
    change tokenFrom strictness first c₁ = _
    rw [tokenFrom_digit hDigit,
      numeral_of_reads false hNumeral hEnd hRest, hIndex]

------------------------------------------------------------
-- Clauses
------------------------------------------------------------

/- Literals that the header admits are read and added. -/
theorem body_of_items
    {literals : List Int}
    (hMax : header.variableCount ≤ maxVariable)
    (hFits : header.Fits t.parsed literals)
    (hReads : c.Reads (literals.flatMap Printer.item) c') :
    body strictness header t c =
      body strictness header (t.addAll literals) c' := by
  induction literals generalizing t c with
  | nil =>
      rw [List.flatMap_nil, Cursor.reads_nil] at hReads
      rw [hReads, Tally.addAll_nil]
  | cons value literals ih =>
      rw [List.flatMap_cons, Cursor.reads_append] at hReads
      rcases hReads with ⟨c₁, hItem, hRest⟩
      have hIndex : value.natAbs ≤ maxVariable :=
        Nat.le_trans
          (hFits.declared value List.mem_cons_self) hMax
      have hToken := token_of_item strictness hIndex hItem
      have hSame := signed_natAbs value
      have hAccept :
          accept strictness header t.parsed
              (decide (value < 0)) value.natAbs
              (some (Printer.separator value)) c₁ =
            .ok (signed (decide (value < 0)) value.natAbs)
              c₁ :=
        accept_of_fits (hSame.symm ▸ hFits) hIndex _ c₁
      rw [body_of_numeral hToken hAccept, hSame,
        Tally.addAll_cons]
      exact ih (Header.fits_cons_iff.mp hFits).2 hRest

/-
  The text may end where the last clause ends, if
  none is missing.
-/
theorem closeBody_of_finished
    (strictness : Strictness)
    (hFinished : t.unfinished = false)
    (hCounted : header.clauseCount ≤ t.parsed) :
    closeBody strictness header t = pure t.parsed := by
  rw [closeBody, hFinished, if_neg Bool.false_ne_true,
    if_neg (fun h => Nat.not_lt.mpr hCounted h.2)]

theorem token_of_end
    (hEnd : c.next = (none, c')) :
    token strictness c = .ok .finish c' := by
  rw [token, byte_bind, hEnd]
  rfl

/-
  The clauses of a printed problem are read to the
  end of file.
-/
theorem body_of_printed
    {literals : List Int}
    {c₁ : Cursor}
    (strictness : Strictness)
    (header : Header)
    (hMax : header.variableCount ≤ maxVariable)
    (hDeclared :
      ∀ value ∈ literals,
        value.natAbs ≤ header.variableCount)
    (hCount : literals.count 0 = header.clauseCount)
    (hLast : EndsInZero literals)
    (hReads : c.Reads (literals.flatMap Printer.item) c₁)
    (hEnd : c₁.next = (none, c')) :
    body strictness header .empty c =
      (Tally.empty.addAll literals,
        .ok header.clauseCount c') := by
  have hParsed :
      (Tally.empty.addAll literals).parsed =
        header.clauseCount := by
    rw [Tally.parsed_addAll_empty, hCount]
  have hFits : header.Fits Tally.empty.parsed literals :=
    ⟨hDeclared, by rw [← hParsed, Tally.parsed_addAll]⟩
  have hFinished := unfinished_addAll_empty_iff.mpr hLast
  rw [body_of_items hMax hFits hReads,
    body_of_finish (token_of_end hEnd),
    closeBody_of_finished strictness hFinished
      (Nat.le_of_eq hParsed.symm), hParsed]
  rfl

------------------------------------------------------------
-- The Header
------------------------------------------------------------

/-
  The printed header line has no blanks that could
  be left out.
-/
def printedHeader
    (header : Header) : HeaderText where
  lead := []
  line :=
    { formatGap := []
      variablesGap := []
      variableDigits := Byte.ofDecimal header.variableCount
      clausesGap := []
      clauseDigits := Byte.ofDecimal header.clauseCount
      closingGap := []
      close := .lineFeed }

theorem bytes_printedHeader
    (header : Header) :
    (printedHeader header).bytes =
      Printer.headerLine header := by
  simp [printedHeader, HeaderText.bytes, HeaderLine.tail,
    LineEnd.bytes, Printer.headerLine]

theorem isAllowed_printedHeader
    (strictness : Strictness)
    (hVariables : header.variableCount ≤ maxVariable)
    (hClauses : header.clauseCount ≤ Check.maxUnsigned64) :
    (printedHeader header).IsAllowed strictness := by
  have hGap : IsGap strictness [] := ⟨nofun, fun _ => rfl⟩
  refine ⟨nofun, hGap, hGap, ?_, hGap, ?_, hGap⟩
  · exact isNumeral_ofDecimal hVariables
  · exact isNumeral_ofDecimal hClauses

/- The printed header line declares what was printed. -/
theorem header_of_headerLine
    (strictness : Strictness)
    (o : Options)
    (hVariables : header.variableCount ≤ maxVariable)
    (hClauses : header.clauseCount ≤ Check.maxUnsigned64)
    (hReads : c.Reads (Printer.headerLine header) c') :
    ∃ p,
      Parser.header strictness o c =
        (p, .ok header c') := by
  apply header_ok_iff.mpr
  refine ⟨printedHeader header,
    isAllowed_printedHeader strictness hVariables hClauses,
    ?_, ?_⟩
  · simp only [printedHeader, HeaderLine.header,
      Byte.decimal_ofDecimal]
  · rw [bytes_printedHeader]
    exact hReads

end Parser

------------------------------------------------------------
-- Problems
------------------------------------------------------------

variable {variableCount : Nat}
variable {clauses : List (List Int)}

/- Every clause ends in its own zero. -/
theorem count_terminated
    (hClauses :
      ∀ clause ∈ clauses, ∀ value ∈ clause, value ≠ 0) :
    (terminated clauses).count 0 = clauses.length := by
  unfold terminated
  induction clauses with
  | nil => rfl
  | cons clause clauses ih =>
      rw [List.forall_mem_cons] at hClauses
      have hNone : clause.count 0 = 0 := by
        apply List.count_eq_zero.mpr
        intro hZero
        exact hClauses.1 0 hZero rfl
      rw [List.flatMap_cons, List.count_append,
        ih hClauses.2, List.count_append, hNone,
        List.length_cons, List.count_singleton_self]
      omega

theorem endsInZero_terminated
    (clauses : List (List Int)) :
    EndsInZero (terminated clauses) := by
  intro value hLast
  rcases List.eq_nil_or_concat clauses with
    rfl | ⟨front, clause, rfl⟩
  · cases hLast
  · rw [terminated, List.concat_eq_append,
      List.flatMap_append, List.flatMap_singleton,
      ← List.append_assoc, List.getLast?_concat] at hLast
    exact (Option.some.inj hLast).symm

/-
  The zeros behind the clauses do not exceed any
  number of variables.
-/
theorem natAbs_le_of_mem_terminated
    (hClauses :
      ∀ clause ∈ clauses,
        ∀ value ∈ clause, value.natAbs ≤ variableCount) :
    ∀ value ∈ terminated clauses,
      value.natAbs ≤ variableCount := by
  intro value hValue
  rcases List.mem_flatMap.mp hValue with
    ⟨clause, hClause, hMem⟩
  rcases List.mem_append.mp hMem with hLiteral | hZero
  · exact hClauses clause hClause value hLiteral
  · rw [List.mem_singleton.mp hZero]
    exact Nat.zero_le variableCount

/-
  A printed problem is read as it was printed, however
  strict the reading: all its clauses are there, and its
  literals are sent to the storage in order.
-/
theorem parseProblem_problem
    (strictness : Strictness)
    (o : Options)
    (name : String)
    (hNonzero :
      ∀ clause ∈ clauses, ∀ value ∈ clause, value ≠ 0)
    (hDeclared :
      ∀ clause ∈ clauses,
        ∀ value ∈ clause, value.natAbs ≤ variableCount)
    (hVariables : variableCount ≤ maxVariable)
    (hClauses : clauses.length ≤ Check.maxUnsigned64) :
    (parseProblem strictness o
          (.ofSource
            (.ofBytes
              (Printer.problem variableCount clauses))
            name)).result =
        .ok
          ⟨⟨variableCount, clauses.length⟩,
            clauses.length⟩ ∧
      (parseProblem strictness o
          (.ofSource
            (.ofBytes
              (Printer.problem variableCount clauses))
            name)).events =
        .reserve variableCount ::
          (terminated clauses).map Event.add := by
  generalize hStart :
      Cursor.ofSource
          (.ofBytes (Printer.problem variableCount clauses))
          name =
        c
  have hReadable :
      c.readable =
        Printer.problem variableCount clauses := by
    rw [← hStart, Cursor.readable_ofBytes]
  have hFree : c.IsFailureFree :=
    hStart ▸ Cursor.isFailureFree_ofBytes _ name
  rcases c.exists_readsUpTo_end with ⟨c', c₂, hReads, hEnd⟩
  rw [hReadable, Printer.problem, Cursor.reads_append,
    Printer.flatMap_clauseLine hNonzero] at hReads
  rcases hReads with ⟨c₁, hHeaderReads, hClauseReads⟩
  rcases Parser.header_of_headerLine strictness o hVariables
      hClauses hHeaderReads with
    ⟨p, hHeader⟩
  have hBody := Parser.body_of_printed strictness
    ⟨variableCount, clauses.length⟩ hVariables
    (natAbs_le_of_mem_terminated hDeclared)
    (count_terminated hNonzero)
    (endsInZero_terminated clauses) hClauseReads hEnd
  constructor
  · have hFree₁ := Parser.header_keeps
      Cursor.isInvariant_isFailureFree strictness o hFree
    rw [hHeader] at hFree₁
    have hFree₂ := Parser.body_keeps
      Cursor.isInvariant_isFailureFree strictness
      ⟨variableCount, clauses.length⟩ .empty hFree₁
    rw [Parser.endOf, hBody] at hFree₂
    exact parseProblem_ok_iff.mpr
      ⟨p, c₁, _, c', hHeader, hBody, hFree₂.1⟩
  · rw [parseProblem_of_header hHeader, events_complete,
      hBody, Tally.events_addAll_empty]

end Dimacs
