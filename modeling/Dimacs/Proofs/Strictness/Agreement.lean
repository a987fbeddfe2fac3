import Dimacs.Proofs.Clauses.Tokens
import Dimacs.Proofs.Problem.Outcome
import Dimacs.Proofs.Strictness.Readers

/-
  Normal reading is relaxed reading that stops where the
  literals leave what the header declares: at a variable
  that was not declared or at a clause too many. If they
  never do, only the number of clauses is left to compare.

  Key definitions include:
    * `Header.Fits`
    * `Header.Refuses`
    * `Header.Concludes`
    * `Parser.LockStep`
    * `Header.Governs`

  Main statements:
    * `Header.fits_or_refuses`
    * `Parser.exists_lockStep`
    * `normal_agrees_with_header`
-/

namespace Dimacs

namespace Header

------------------------------------------------------------
-- What a Header Admits
------------------------------------------------------------

/-
  Behind a number of clauses, the literals use declared
  variables and finish no more clauses than declared.
-/
structure Fits
    (header : Header)
    (parsed : Nat)
    (literals : List Int) : Prop where
  declared :
      ∀ literal ∈ literals,
        literal.natAbs ≤ header.variableCount
  counted : parsed + literals.count 0 ≤ header.clauseCount

/-
  A literal that the header does not admit, and the
  fault it is.
-/
inductive Refuses
    (header : Header)
    (parsed : Nat) : Int → Fault → Prop
  | undeclared
      {literal : Int}
      (h : header.variableCount < literal.natAbs) :
      header.Refuses parsed literal .variableExceeded
  | surplus (h : parsed = header.clauseCount) :
      header.Refuses parsed 0 .tooManyClauses

variable {header : Header}
variable {parsed : Nat}
variable {literal : Int}
variable {literals : List Int}
variable {fault : Fault}

/- Literals are admitted one after the other. -/
theorem fits_cons_iff
    {t : Tally} :
    header.Fits t.parsed (literal :: literals) ↔
      literal.natAbs ≤ header.variableCount ∧
        header.Fits (t.add literal).parsed literals := by
  have hCount :
      t.parsed + (literal :: literals).count 0 =
        (t.add literal).parsed + literals.count 0 := by
    have hOne := Tally.parsed_addAll t (literal :: literals)
    rw [Tally.addAll_cons, Tally.parsed_addAll] at hOne
    exact hOne.symm
  constructor
  · intro h
    rcases List.forall_mem_cons.mp h.declared with
      ⟨hFirst, hRest⟩
    exact ⟨hFirst, hRest, hCount ▸ h.counted⟩
  · intro h
    rcases h with ⟨hFirst, hRest⟩
    exact
      ⟨List.forall_mem_cons.mpr ⟨hFirst, hRest.declared⟩,
        hCount ▸ hRest.counted⟩

/-
  Literals that do not all fit have a first one
  that is refused.
-/
theorem fits_or_refuses
    (t : Tally)
    (literals : List Int)
    (hParsed : t.parsed ≤ header.clauseCount) :
    header.Fits t.parsed literals ∨
      ∃ front literal back fault,
        literals = front ++ literal :: back ∧
        header.Fits t.parsed front ∧
        header.Refuses (t.addAll front).parsed literal
          fault := by
  induction literals generalizing t with
  | nil => exact .inl ⟨nofun, hParsed⟩
  | cons literal literals ih =>
      by_cases hDeclared :
          literal.natAbs ≤ header.variableCount
      · by_cases hSurplus :
            literal = 0 ∧ t.parsed = header.clauseCount
        · rcases hSurplus with ⟨rfl, hFull⟩
          exact .inr
            ⟨[], 0, literals, _, rfl, ⟨nofun, hParsed⟩,
              .surplus hFull⟩
        · have hAdded :
              (t.add literal).parsed ≤
                header.clauseCount := by
            by_cases hZero : literal = 0
            · have hNotFull :
                  t.parsed ≠ header.clauseCount :=
                fun h => hSurplus ⟨hZero, h⟩
              simp only [Tally.add, if_pos hZero]
              omega
            · simp only [Tally.add, if_neg hZero]
              exact hParsed
          rcases ih (t.add literal) hAdded with
            hFits | ⟨front, first, back, fault, rfl, hFront⟩
          · exact .inl
              (fits_cons_iff.mpr ⟨hDeclared, hFits⟩)
          · exact .inr
              ⟨literal :: front, first, back, fault, rfl,
                fits_cons_iff.mpr ⟨hDeclared, hFront.1⟩,
                hFront.2⟩
      · exact .inr
          ⟨[], literal, literals, _, rfl, ⟨nofun, hParsed⟩,
            .undeclared (Nat.lt_of_not_le hDeclared)⟩

/-
  How normal reading ends where relaxed reading does: with
  the same error, or by comparing the number of clauses.
-/
inductive Concludes
    (header : Header)
    (t : Tally) :
    EStateM.Result ParseError Cursor Nat →
      EStateM.Result ParseError Cursor Nat → Prop
  | sameError (e : ParseError) (c : Cursor) :
      header.Concludes t (.error e c) (.error e c)
  | compared
      (c : Cursor)
      (hFinished : t.unfinished = false) :
      header.Concludes t (.ok t.parsed c)
        (Parser.closeBody .normal header t c)

end Header

namespace Parser

variable {header : Header}
variable {t : Tally}
variable {c c' : Cursor}

------------------------------------------------------------
-- Comparing One Numeral
------------------------------------------------------------

/-
  Rejecting before a line feed needs a line to go back to.
-/
theorem failBefore_eq
    {α : Type}
    {ahead : Option UInt8}
    (fault : Fault)
    (hLine : ahead = some Byte.lineFeed → 1 < c.line) :
    ∃ line c',
      (failBefore ahead fault c :
          EStateM.Result ParseError Cursor α) =
        .error (.malformed line fault) c' := by
  have hUnread : ∃ c₁, unreadLine ahead c = .ok () c₁ := by
    unfold unreadLine Cursor.unreadLine
    by_cases hFeed : ahead = some Byte.lineFeed
    · rw [if_pos hFeed, Check.require, if_pos (hLine hFeed)]
      exact ⟨_, rfl⟩
    · rw [if_neg hFeed]
      exact ⟨c, rfl⟩
  rcases hUnread with ⟨c₁, hUnread⟩
  rw [failBefore, bind_of_ok hUnread]
  exact ⟨_, _, rfl⟩

/-
  The line feed at which a numeral was seen to end
  was given out.
-/
theorem next_of_afterNumeral
    {strictness : Strictness}
    {index : Nat}
    (hLax : ¬ strictness.IsPedantic)
    (hAfter :
      afterNumeral strictness index c.next.1 c.next.2 =
        .ok (some Byte.lineFeed) c') :
    ∃ c₁ : Cursor,
      c.line ≤ c₁.line ∧
      c₁.next = (some Byte.lineFeed, c') := by
  have hStep := c.line_le_next
  rcases hNext : c.next with ⟨_ | b, c₂⟩
  · rw [hNext, afterNumeral, if_neg hLax] at hAfter
    cases hAfter
  · rw [hNext] at hAfter hStep
    by_cases hReturn : b = Byte.carriageReturn
    · subst hReturn
      rw [afterNumeral_carriageReturn, bind_ok_iff]
        at hAfter
      rcases hAfter with ⟨_, c₃, hFinish, hEnd⟩
      cases hEnd
      exact ⟨c₂, hStep,
        Cursor.reads_singleton.mp
          (finishLine_ok_iff.mp hFinish)⟩
    · by_cases hComment : b = Byte.letterC
      · subst hComment
        rw [afterNumeral_comment, clauseComment_ok_iff hLax]
          at hAfter
        rcases hAfter with ⟨text, hRun⟩
        rcases hRun.reads with ⟨c₁, hReads, hFeed⟩
        exact ⟨c₁,
          Nat.le_trans hStep
            (Cursor.line_le_of_reads hReads), hFeed⟩
      · rw [afterNumeral_other hReturn hComment] at hAfter
        split at hAfter
        · cases hAfter
          exact ⟨c, Nat.le_refl _, hNext⟩
        · exact absurd hAfter fail_ne_ok

/- The line feed behind a numeral was counted. -/
theorem line_of_numeral
    {strictness : Strictness}
    {negative : Bool}
    {index : Nat}
    (hLax : ¬ strictness.IsPedantic)
    (hLine : 1 ≤ c.line)
    (hToken :
      token strictness c =
        .ok (.numeral negative index (some Byte.lineFeed))
          c') :
    1 < c'.line := by
  rcases readsToken_of_ok hLax hToken with
    ⟨digits, c₁, _, _, hReads, hAfter⟩
  rcases next_of_afterNumeral hLax hAfter with
    ⟨c₂, hLine₂, hNext⟩
  have hLine₁ := Cursor.line_le_of_reads hReads
  have hFeed : c'.line = c₂.line + 1 :=
    Cursor.line_of_next hNext
  omega

/- A numeral that the header does not admit is rejected. -/
theorem accept_of_refuses
    {parsed index : Nat}
    {negative : Bool}
    {ahead : Option UInt8}
    {fault : Fault}
    (hRefuses :
      header.Refuses parsed (signed negative index) fault)
    (hLine : ahead = some Byte.lineFeed → 1 < c.line) :
    ∃ line c',
      accept .normal header parsed negative index ahead c =
        .error (.malformed line fault) c' := by
  have hNormal : ¬ Strictness.normal.IsRelaxed := nofun
  generalize hValue : signed negative index = value
      at hRefuses
  cases hRefuses with
  | undeclared hUndeclared =>
      rw [← hValue, natAbs_signed] at hUndeclared
      rw [accept, if_pos ⟨hNormal, hUndeclared⟩]
      exact failBefore_eq _ hLine
  | surplus hSurplus =>
      have hZero := signed_eq_zero_iff.mp hValue
      have hDeclared : ¬ header.variableCount < index := by
        omega
      rw [accept, if_neg (fun h => hDeclared h.2),
        if_pos ⟨hNormal, hZero, hSurplus⟩]
      exact failBefore_eq _ hLine

/-
  A numeral that the header admits is accepted, however
  strict the reading.
-/
theorem accept_of_fits
    {strictness : Strictness}
    {index : Nat}
    {negative : Bool}
    {literals : List Int}
    (hFits :
      header.Fits t.parsed
        (signed negative index :: literals))
    (hIndex : index ≤ maxVariable)
    (ahead : Option UInt8)
    (c : Cursor) :
    accept strictness header t.parsed negative index ahead
        c =
      .ok (signed negative index) c := by
  rcases Header.fits_cons_iff.mp hFits with
    ⟨hDeclared, hRest⟩
  rw [natAbs_signed] at hDeclared
  have hUnfilled :
      ¬ (index = 0 ∧ t.parsed = header.clauseCount) := by
    intro h
    have hZero : signed negative index = 0 :=
      signed_eq_zero_iff.mpr h.1
    have hParsed :
        (t.add (signed negative index)).parsed =
          t.parsed + 1 :=
      if_pos hZero
    have hCounted := hRest.counted
    omega
  rw [accept,
    if_neg (fun h => Nat.not_lt.mpr hDeclared h.2),
    if_neg (fun h => hUnfilled h.2),
    literal_eq negative hIndex]

------------------------------------------------------------
-- Both Readings in Step
------------------------------------------------------------

/-
  The literals are those that relaxed reading adds. Normal
  reading adds them up to the first one that is refused. If
  all of them fit, it ends where relaxed reading ends.
-/
structure LockStep
    (header : Header)
    (t : Tally)
    (c : Cursor)
    (literals : List Int) : Prop where
  relaxed : (body .relaxed header t c).1 = t.addAll literals
  refused :
      ∀ front literal back fault,
        literals = front ++ literal :: back →
        header.Fits t.parsed front →
        header.Refuses (t.addAll front).parsed literal
          fault →
        ∃ line c',
          body .normal header t c =
            (t.addAll front,
              .error (.malformed line fault) c')
  fits :
      header.Fits t.parsed literals →
      (body .normal header t c).1 = t.addAll literals ∧
        header.Concludes (t.addAll literals)
          (body .relaxed header t c).2
          (body .normal header t c).2

/- Normal and relaxed reading see the same tokens. -/
theorem token_normal :
    token .normal = token .relaxed :=
  token_of_lax Strictness.not_isPedantic_normal

theorem lockStep_of_error
    {e : ParseError}
    (hToken : token .relaxed c = .error e c') :
    LockStep header t c [] := by
  have hRelaxed :
      body .relaxed header t c = (t, .error e c') :=
    body_of_error hToken
  have hNormal :
      body .normal header t c = (t, .error e c') :=
    body_of_error (token_normal ▸ hToken)
  constructor
  · rw [hRelaxed]
    rfl
  · intro front literal back fault hEmpty
    cases front <;> cases hEmpty
  · intro _
    rw [hRelaxed, hNormal]
    exact ⟨rfl, .sameError e c'⟩

theorem lockStep_of_finish
    (hToken : token .relaxed c = .ok .finish c') :
    LockStep header t c [] := by
  have hRelaxed :
      body .relaxed header t c =
        (t, closeBody .relaxed header t c') :=
    body_of_finish hToken
  have hNormal :
      body .normal header t c =
        (t, closeBody .normal header t c') :=
    body_of_finish (token_normal ▸ hToken)
  constructor
  · rw [hRelaxed]
    rfl
  · intro front literal back fault hEmpty
    cases front <;> cases hEmpty
  · intro _
    rw [hRelaxed, hNormal]
    refine ⟨rfl, ?_⟩
    cases hUnfinished : t.unfinished with
    | false =>
        rw [closeBody_relaxed header hUnfinished]
        exact .compared c' hUnfinished
    | true =>
        rw [closeBody_of_unfinished header hUnfinished,
          closeBody_of_unfinished header hUnfinished]
        exact .sameError _ c'

theorem lockStep_of_gap
    {literals : List Int}
    (hToken : token .relaxed c = .ok .gap c')
    (hRest : LockStep header t c' literals) :
    LockStep header t c literals := by
  have hRelaxed :
      body .relaxed header t c =
        body .relaxed header t c' :=
    body_of_gap hToken
  have hNormal :
      body .normal header t c = body .normal header t c' :=
    body_of_gap (token_normal ▸ hToken)
  constructor
  · rw [hRelaxed]
    exact hRest.relaxed
  · rw [hNormal]
    exact hRest.refused
  · rw [hRelaxed, hNormal]
    exact hRest.fits

theorem lockStep_of_numeral
    {negative : Bool}
    {index : Nat}
    {ahead : Option UInt8}
    {literals : List Int}
    (hToken :
      token .relaxed c =
        .ok (.numeral negative index ahead) c')
    (hIndex : index ≤ maxVariable)
    (hLine : ahead = some Byte.lineFeed → 1 < c'.line)
    (hRest :
      LockStep header (t.add (signed negative index)) c'
        literals) :
    LockStep header t c
      (signed negative index :: literals) := by
  have hToken' :
      token .normal c =
        .ok (.numeral negative index ahead) c' :=
    token_normal ▸ hToken
  have hRelaxed :
      body .relaxed header t c =
        body .relaxed header (t.add (signed negative index))
          c' :=
    body_of_numeral hToken
      (accept_relaxed header t.parsed negative ahead hIndex
        c')
  have hNormal :
      ∀ rest,
        header.Fits t.parsed
          (signed negative index :: rest) →
        body .normal header t c =
          body .normal header
            (t.add (signed negative index)) c' := by
    intro rest hFits
    exact body_of_numeral hToken'
      (accept_of_fits hFits hIndex ahead c')
  constructor
  · rw [hRelaxed]
    exact hRest.relaxed
  · intro front literal back fault hLiterals hFits hRefuses
    cases front with
    | nil =>
        cases hLiterals
        rcases accept_of_refuses hRefuses hLine with
          ⟨line, c₁, hAccept⟩
        exact ⟨line, c₁, body_of_refusal hToken' hAccept⟩
    | cons first front =>
        cases hLiterals
        rw [hNormal front hFits]
        exact hRest.refused front literal back fault rfl
          (Header.fits_cons_iff.mp hFits).2 hRefuses
  · intro hFits
    rw [hRelaxed, hNormal literals hFits]
    exact hRest.fits (Header.fits_cons_iff.mp hFits).2

/-
  Wherever relaxed reading leads, normal reading goes
  along in step.
-/
theorem exists_lockStep
    (header : Header)
    (t : Tally)
    (c : Cursor)
    (hLine : 1 ≤ c.line) :
    ∃ literals, LockStep header t c literals := by
  have hLax := Strictness.not_isPedantic_relaxed
  have hKeeps :
      ∀ c found c',
        1 ≤ c.line →
        token .relaxed c = .ok found c' →
        1 ≤ c'.line := by
    intro c found c' hLine hToken
    have hRespects := respects_token
      Cursor.isInvariant_line.isSimulation .relaxed
    have hEnd := hRespects.keeps hLine
    rw [hToken] at hEnd
    exact hEnd
  fun_induction body .relaxed header t c with
  | case1 t c e c₁ hToken =>
      exact ⟨[], lockStep_of_error hToken⟩
  | case2 t c c₁ hToken =>
      exact ⟨[], lockStep_of_finish hToken⟩
  | case3 t c c₁ hToken ih =>
      rcases ih (hKeeps _ _ _ hLine hToken) with
        ⟨literals, hRest⟩
      exact ⟨literals, lockStep_of_gap hToken hRest⟩
  | case4 t c negative index ahead c₁ hToken e c₂ hAccept =>
      rcases readsToken_of_ok hLax hToken with
        ⟨digits, c₃, hFormed, rfl, _⟩
      rw [accept_relaxed header t.parsed negative ahead
        hFormed.1.2.2] at hAccept
      cases hAccept
  | case5 t c negative index ahead c₁ hToken value c₂
        hAccept ih =>
      rcases readsToken_of_ok hLax hToken with
        ⟨digits, c₃, hFormed, rfl, _⟩
      rw [accept_relaxed header t.parsed negative ahead
        hFormed.1.2.2] at hAccept
      cases hAccept
      rcases ih (hKeeps _ _ _ hLine hToken) with
        ⟨literals, hRest⟩
      refine ⟨_,
        lockStep_of_numeral hToken hFormed.1.2.2 ?_ hRest⟩
      intro hFeed
      exact line_of_numeral hLax hLine (hFeed ▸ hToken)

end Parser

------------------------------------------------------------
-- Whole Problems
------------------------------------------------------------

/-
  How the outcome of normal reading follows from relaxed
  reading, which adds the literals. The first literal that
  the header refuses ends normal reading, with everything
  before it added. If there is none, both add the same, and
  a success of relaxed reading stands if no clause is
  missing.
-/
structure Header.Governs
    (header : Header)
    (literals : List Int)
    (relaxed normal : Outcome) : Prop where
  added :
      relaxed.events =
        .reserve header.variableCount :: literals.map .add
  refused :
      ∀ front literal back fault,
        literals = front ++ literal :: back →
        header.Fits 0 front →
        header.Refuses (front.count 0) literal fault →
        normal.events =
            .reserve header.variableCount ::
              front.map .add ∧
          ∃ line,
            normal.result = .error (.malformed line fault)
  exhaustive :
      header.Fits 0 literals ∨
      ∃ front literal back fault,
        literals = front ++ literal :: back ∧
        header.Fits 0 front ∧
        header.Refuses (front.count 0) literal fault
  events :
      header.Fits 0 literals →
      normal.events = relaxed.events
  failed :
      header.Fits 0 literals →
      ∀ e,
        relaxed.result = .error e → normal.result = .error e
  complete :
      header.Fits 0 literals →
      ∀ summary,
        relaxed.result = .ok summary →
        summary.parsed = header.clauseCount →
        normal.result = .ok summary
  oneMissing :
      header.Fits 0 literals →
      ∀ summary,
        relaxed.result = .ok summary →
        summary.parsed + 1 = header.clauseCount →
        ∃ line,
          normal.result =
            .error (.malformed line .oneClauseMissing)
  missing :
      header.Fits 0 literals →
      ∀ summary,
        relaxed.result = .ok summary →
        summary.parsed + 1 < header.clauseCount →
        ∃ line,
          normal.result =
            .error (.malformed line .clausesMissing)

/-
  An error of relaxed reading is an error of normal reading.
-/
theorem Header.Concludes.of_error
    {header : Header}
    {t : Tally}
    {relaxed normal : EStateM.Result ParseError Cursor Nat}
    {e : ParseError}
    (h : header.Concludes t relaxed normal)
    (hRelaxed : Parser.verdict relaxed = .error e) :
    Parser.verdict normal = .error e := by
  cases h with
  | sameError e' c => exact hRelaxed
  | compared c hFinished => cases hRelaxed

/-
  A success of relaxed reading is compared with the header.
-/
theorem Header.Concludes.of_ok
    {header : Header}
    {t : Tally}
    {relaxed normal : EStateM.Result ParseError Cursor Nat}
    {parsed : Nat}
    (h : header.Concludes t relaxed normal)
    (hRelaxed : Parser.verdict relaxed = .ok parsed) :
    (parsed = header.clauseCount →
        Parser.verdict normal = .ok parsed) ∧
      (parsed + 1 = header.clauseCount →
        ∃ line,
          Parser.verdict normal =
            .error (.malformed line .oneClauseMissing)) ∧
      (parsed + 1 < header.clauseCount →
        ∃ line,
          Parser.verdict normal =
            .error (.malformed line .clausesMissing)) := by
  cases h with
  | sameError e c => cases hRelaxed
  | compared c hFinished =>
      cases hRelaxed
      rw [Parser.closeBody_normal header hFinished]
      refine ⟨?_, ?_, ?_⟩
      · intro hAll
        rw [if_neg (by omega)]
        rfl
      · intro hOne
        rw [if_pos (by omega), if_pos hOne]
        exact ⟨c.line, rfl⟩
      · intro hMore
        rw [if_pos (by omega), if_neg (by omega)]
        exact ⟨c.line, rfl⟩

/-
  Readings that go in step have outcomes that
  the header governs.
-/
theorem Parser.LockStep.governs
    {declared : Header}
    {c : Cursor}
    {literals : List Int}
    (hStep : LockStep declared .empty c literals)
    (hFree :
      ∀ strictness,
        (endOf
            (body strictness declared .empty c).2).failure =
          none)
    (p : Preamble) :
    declared.Governs literals
      (.complete p declared
        (body .relaxed declared .empty c).1
        (body .relaxed declared .empty c).2)
      (.complete p declared
        (body .normal declared .empty c).1
        (body .normal declared .empty c).2) := by
  constructor
  case added =>
    rw [events_complete, hStep.relaxed,
      Tally.events_addAll_empty]
  case refused =>
    intro front literal back fault hLiterals hFits hRefuses
    rw [← Tally.parsed_addAll_empty] at hRefuses
    rcases hStep.refused front literal back fault hLiterals
        hFits hRefuses with
      ⟨line, c', hRun⟩
    refine ⟨?_, line, ?_⟩
    · rw [events_complete, hRun, Tally.events_addAll_empty]
    · rw [result_complete_error_iff (hFree .normal), hRun]
      rfl
  case exhaustive =>
    rcases Header.fits_or_refuses .empty literals
        (Nat.zero_le _) with
      hFits |
      ⟨front, literal, back, fault, hLiterals, hFits,
        hRefuses⟩
    · exact .inl hFits
    · rw [Tally.parsed_addAll_empty] at hRefuses
      exact .inr
        ⟨front, literal, back, fault, hLiterals, hFits,
          hRefuses⟩
  case events =>
    intro hFits
    rw [events_complete, events_complete, hStep.relaxed,
      (hStep.fits hFits).1]
  case failed =>
    intro hFits e hRelaxed
    rw [result_complete_error_iff (hFree _)] at hRelaxed ⊢
    exact (hStep.fits hFits).2.of_error hRelaxed
  case complete =>
    intro hFits summary hRelaxed hAll
    rw [result_complete_ok_iff (hFree _)] at hRelaxed ⊢
    exact ⟨hRelaxed.1,
      ((hStep.fits hFits).2.of_ok hRelaxed.2).1 hAll⟩
  case oneMissing =>
    intro hFits summary hRelaxed hOne
    rw [result_complete_ok_iff (hFree _)] at hRelaxed
    simp only [result_complete_error_iff (hFree _)]
    exact ((hStep.fits hFits).2.of_ok hRelaxed.2).2.1 hOne
  case missing =>
    intro hFits summary hRelaxed hMore
    rw [result_complete_ok_iff (hFree _)] at hRelaxed
    simp only [result_complete_error_iff (hFree _)]
    exact ((hStep.fits hFits).2.of_ok hRelaxed.2).2.2 hMore

/-
  For every byte string whose header is accepted, normal
  reading is relaxed reading together with the agreement of
  the literals and the clauses with the header.
-/
theorem normal_agrees_with_header
    (bytes : List UInt8)
    (name : String)
    (o : Options)
    (declared : Header)
    (hHeader :
      Parser.verdict
          (Parser.header .normal o
            (.ofSource (.ofBytes bytes) name)).2 =
        .ok declared) :
    ∃ literals,
      declared.Governs literals
        (parseProblem .relaxed o
          (.ofSource (.ofBytes bytes) name))
        (parseProblem .normal o
          (.ofSource (.ofBytes bytes) name)) := by
  generalize hStart :
      Cursor.ofSource (.ofBytes bytes) name = c at hHeader ⊢
  have hFree : c.IsFailureFree :=
    hStart ▸ Cursor.isFailureFree_ofBytes bytes name
  have hLine : 1 ≤ c.line := hStart ▸ Nat.le_refl 1
  have hFree₁ := Parser.header_keeps
    Cursor.isInvariant_isFailureFree .normal o hFree
  have hLine₁ := Parser.header_keeps Cursor.isInvariant_line
    .normal o hLine
  rcases hNormal : Parser.header .normal o c with
    ⟨p, ⟨header, c₁⟩ | ⟨e, c₁⟩⟩
  · rw [hNormal] at hHeader hFree₁ hLine₁
    cases hHeader
    have hLax := Strictness.not_isPedantic_normal
    have hRelaxed :
        Parser.header .relaxed o c =
          (p, .ok declared c₁) := by
      rw [← Parser.header_of_lax hLax, hNormal]
    have hEnds :
        ∀ strictness,
          (Parser.endOf
            (Parser.body strictness declared .empty
              c₁).2).IsFailureFree := by
      intro strictness
      exact Parser.body_keeps
        Cursor.isInvariant_isFailureFree strictness declared
        .empty hFree₁
    rcases Parser.exists_lockStep declared .empty c₁
        hLine₁ with
      ⟨literals, hStep⟩
    rw [parseProblem_of_header hNormal,
      parseProblem_of_header hRelaxed]
    exact ⟨literals,
      hStep.governs (fun strictness => (hEnds strictness).1)
        p⟩
  · rw [hNormal] at hHeader
    cases hHeader

/-
  A problem with a variable that its header
  does not declare.
-/
theorem undeclared_variable_is_governed :
    Parser.verdict
        (Parser.header .normal .standard
          (.ofSource
            (.ofBytes
              [112, 32, 99, 110, 102, 32, 49, 32, 49, 10,
                50, 32, 48]) "")).2 =
      .ok ⟨1, 1⟩ ∧
    ∃ literals,
      Header.Governs ⟨1, 1⟩ literals
        (parseProblem .relaxed .standard
          (.ofSource
            (.ofBytes
              [112, 32, 99, 110, 102, 32, 49, 32, 49, 10,
                50, 32, 48]) ""))
        (parseProblem .normal .standard
          (.ofSource
            (.ofBytes
              [112, 32, 99, 110, 102, 32, 49, 32, 49, 10,
                50, 32, 48]) "")) := by
  have hHeader :
      Parser.verdict
          (Parser.header .normal .standard
            (.ofSource
              (.ofBytes
                [112, 32, 99, 110, 102, 32, 49, 32, 49, 10,
                  50, 32, 48]) "")).2 =
        .ok ⟨1, 1⟩ := by
    decide +kernel
  exact ⟨hHeader,
    normal_agrees_with_header _ "" .standard ⟨1, 1⟩ hHeader⟩

end Dimacs
