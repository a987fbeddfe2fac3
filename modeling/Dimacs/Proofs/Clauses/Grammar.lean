import Dimacs.Proofs.Clauses.Tokens

/-
  Relaxed reading accepts exactly the texts of the clause
  grammar whose last numeral is zero.

  Key definitions include:
    * `Parser.Resumes`

  Main statements:
    * `Parser.body_of_clauseText`
    * `Parser.exists_clauseText_of_body`
    * `Parser.relaxed_body_reads_exactly`
-/

namespace Dimacs

namespace Parser

variable {header : Header}

/-
  An ending that is all there is to read is read to the
  end of file.
-/
theorem exists_readsEnding
    {items : List ClauseItem}
    {c : Cursor}
    (hEnding : IsEnding items)
    (hBytes : clauseBytes items = c.readable) :
    ∃ c',
      ReadsEnding c c' ∧
      c.ReadsUpTo (clauseBytes items) none c' := by
  rcases c.exists_readsUpTo_end with ⟨c', hReads⟩
  rw [← hBytes] at hReads
  exact ⟨c', ⟨items, hEnding, hReads⟩, hReads⟩

/-
  The items are what stands in front of the cursor. Reading
  on leads to fewer of them, with the same literals.
-/
structure Resumes
    (items : List ClauseItem)
    (c : Cursor)
    (items' : List ClauseItem)
    (c' : Cursor) : Prop where
  read : ReadsGap c c' ∨ ReadsEnding c c'
  fewer : items'.length ≤ items.length
  isText : IsClauseText items'
  bytes : clauseBytes items' = c'.readable
  literals : clauseLiterals items' = clauseLiterals items
  back : ∀ c₁, c'.ReadsUpTo (clauseBytes items') none c₁ →
    c.ReadsUpTo (clauseBytes items) none c₁

theorem resumes_of_gap
    {item : ClauseItem}
    {items : List ClauseItem}
    {c : Cursor}
    (hGap : item.IsGap)
    (hText : IsClauseText items)
    (hBytes : clauseBytes (item :: items) = c.readable) :
    ∃ c', Resumes (item :: items) c items c' := by
  rcases Cursor.exists_reads hBytes.symm with
    ⟨c', hReads, hReadable⟩
  refine ⟨c', .inl ⟨item, hGap, hReads⟩, Nat.le_succ _,
    hText, hReadable.symm,
    (clauseLiterals_cons_of_gap hGap items).symm, ?_⟩
  intro c₁ hRest
  exact Cursor.readsUpTo_append hReads hRest

theorem resumes_of_ending
    {items : List ClauseItem}
    {c : Cursor}
    (hAhead : c.lookahead = none)
    (hEnding : IsEnding items)
    (hBytes : clauseBytes items = c.readable) :
    ∃ c', Resumes items c [] c' := by
  rcases exists_readsEnding hEnding hBytes with
    ⟨c', hRead, hReads⟩
  rcases Cursor.end_of_readsUpTo hAhead hReads with
    ⟨hNil, hEnd⟩
  refine ⟨c', .inr hRead, Nat.zero_le _, trivial, hNil.symm,
    (clauseLiterals_of_ending hEnding).symm, ?_⟩
  -- The end of file is reported once more, at
  -- the same cursor.
  intro c₁ hRest
  have hNext : c'.next = (none, c₁) :=
    Cursor.readsUpTo_nil.mp hRest
  rw [hEnd] at hNext
  exact (Prod.mk.inj hNext).2 ▸ hReads

/-
  Behind a numeral the text goes on with a gap, which is
  consumed with the numeral, or it ends.
-/
theorem exists_resumes_after_numeral
    {negative : Bool}
    {digits : List UInt8}
    {items : List ClauseItem}
    {c : Cursor}
    (hAhead : c.lookahead = none)
    (hFollow :
      (ClauseItem.numeral negative digits).MayPrecede items)
    (hText : IsClauseText items)
    (hBytes : clauseBytes items = c.readable) :
    ∃ items' c', Resumes items c items' c' := by
  cases items with
  | nil =>
      exact ⟨[], resumes_of_ending hAhead (.inl rfl) hBytes⟩
  | cons item items =>
      rcases hText with ⟨hFormed, hMay, hRest⟩
      rcases ClauseItem.isGap_or hFormed with
        hGap | ⟨text, rfl⟩ | ⟨negative', digits', rfl⟩
      · exact ⟨items, resumes_of_gap hGap hRest hBytes⟩
      · have hNil : items = [] := hMay
        subst hNil
        exact ⟨[],
          resumes_of_ending hAhead
            (.inr ⟨text, hFormed, rfl⟩) hBytes⟩
      · exact absurd (hFollow _ rfl) (Option.some_ne_none _)

/-
  A text of the grammar is read item by item, down
  to its end.
-/
theorem body_of_clauseText
    {items : List ClauseItem}
    {t : Tally}
    {c : Cursor}
    (hText : IsClauseText items)
    (hBytes : clauseBytes items = c.readable) :
    ∃ c',
      c.ReadsUpTo (clauseBytes items) none c' ∧
      body .relaxed header t c =
        (t.addAll (clauseLiterals items),
          closeBody .relaxed header
            (t.addAll (clauseLiterals items)) c') := by
  have hLax := Strictness.not_isPedantic_relaxed
  have hEnding :
      ∀ items t (c : Cursor),
        IsEnding items →
        clauseBytes items = c.readable →
        ∃ c',
          c.ReadsUpTo (clauseBytes items) none c' ∧
          body .relaxed header t c =
            (t.addAll (clauseLiterals items),
              closeBody .relaxed header
                (t.addAll (clauseLiterals items)) c') := by
    intro items t c hEnding hBytes
    rcases exists_readsEnding hEnding hBytes with
      ⟨c', hRead, hReads⟩
    rw [clauseLiterals_of_ending hEnding]
    exact ⟨c', hReads,
      body_of_finish (token_ok_of_reads hLax hRead)⟩
  -- A numeral takes the gap behind it along, so the items
  -- shrink by one or by two.
  generalize hLength : items.length = n
  induction n using Nat.strongRecOn
      generalizing items t c with
  | ind n ih =>
      subst hLength
      cases items with
      | nil => exact hEnding [] t c (.inl rfl) hBytes
      | cons item items =>
          rcases hText with ⟨hFormed, hMay, hRest⟩
          rcases Cursor.exists_reads hBytes.symm with
            ⟨c₁, hReads, hReadable⟩
          rcases ClauseItem.isGap_or hFormed with
            hGap | ⟨text, rfl⟩ | ⟨negative, digits, rfl⟩
          · rw [body_of_gap
                (token_ok_of_reads hLax
                  ⟨item, hGap, hReads⟩),
              clauseLiterals_cons_of_gap hGap]
            rcases ih items.length (Nat.lt_succ_self _)
                (t := t) hRest hReadable.symm rfl with
              ⟨c', hReads', hBody⟩
            exact ⟨c',
              Cursor.readsUpTo_append hReads hReads', hBody⟩
          · have hNil : items = [] := hMay
            subst hNil
            exact hEnding _ t c (.inr ⟨text, hFormed, rfl⟩)
              hBytes
          · have hAhead₁ := Cursor.lookahead_of_reads_ne_nil
              hReads (ClauseItem.bytes_ne_nil hFormed)
            rcases exists_resumes_after_numeral hAhead₁ hMay
                hRest hReadable.symm with
              ⟨items', c₂, hResumes⟩
            rcases (afterNumeral_ok_iff hLax).mpr
                hResumes.read with
              ⟨ahead, hAhead⟩
            have hToken :
                token .relaxed c =
                  .ok
                    (.numeral negative (Byte.decimal digits)
                      ahead) c₂ :=
              token_ok_of_reads hLax
                ⟨digits, c₁, hFormed, rfl, hReads, hAhead⟩
            rw [body_of_numeral hToken
              (accept_relaxed header t.parsed negative ahead
                hFormed.1.2.2 c₂)]
            rcases ih items'.length
                (Nat.lt_succ_of_le hResumes.fewer)
                (t :=
                  t.add
                    (signed negative (Byte.decimal digits)))
                hResumes.isText hResumes.bytes rfl with
              ⟨c', hReads', hBody⟩
            rw [hResumes.literals] at hBody
            exact ⟨c',
              Cursor.readsUpTo_append hReads
                (hResumes.back c' hReads'), hBody⟩

/- Only the empty sequence of items has no bytes. -/
theorem eq_nil_of_clauseBytes
    {items : List ClauseItem}
    (hText : IsClauseText items)
    (hBytes : clauseBytes items = []) :
    items = [] := by
  cases items with
  | nil => rfl
  | cons item items =>
      rw [clauseBytes, List.flatMap_cons,
        List.append_eq_nil_iff] at hBytes
      exact absurd hBytes.1 (item.bytes_ne_nil hText.1)

/-
  What was read behind a numeral, put back in front of the
  items that follow it.
-/
theorem exists_items_after_numeral
    {items : List ClauseItem}
    {c c' : Cursor}
    (hAhead : c.lookahead = none)
    (hRead : ReadsGap c c' ∨ ReadsEnding c c')
    (hText : IsClauseText items)
    (hBytes : clauseBytes items = c'.readable) :
    ∃ items',
      IsClauseText items' ∧
      clauseBytes items' = c.readable ∧
      clauseLiterals items' = clauseLiterals items ∧
      ∀ item ∈ items'.head?, item.literal? = none := by
  rcases hRead with
    ⟨item, hGap, hReads⟩ | ⟨ending, hEnding, hReads⟩
  · refine
      ⟨item :: items, isClauseText_cons_of_gap hGap hText,
        ?_, clauseLiterals_cons_of_gap hGap items, ?_⟩
    · rw [Cursor.readable_of_reads hReads, ← hBytes]
      rfl
    · intro first hFirst
      cases hFirst
      exact hGap.literal?_eq_none
  · rw [(Cursor.end_of_readsUpTo hAhead hReads).1] at hBytes
    rw [eq_nil_of_clauseBytes hText hBytes]
    refine ⟨ending, isClauseText_of_ending hEnding,
      (Cursor.readable_of_readsUpTo_end hReads).symm,
      clauseLiterals_of_ending hEnding, ?_⟩
    intro first hFirst
    exact literal?_of_ending hEnding first
      (List.mem_of_head? hFirst)

/-
  Whatever relaxed reading accepts is a text of the grammar.
-/
theorem exists_clauseText_of_body
    {t t' : Tally}
    {parsed : Nat}
    {c c' : Cursor}
    (hBody :
      body .relaxed header t c = (t', .ok parsed c')) :
    ∃ items,
      IsClauseText items ∧
      clauseBytes items = c.readable ∧
      t' = t.addAll (clauseLiterals items) ∧
      t'.unfinished = false := by
  have hLax := Strictness.not_isPedantic_relaxed
  fun_induction body .relaxed header t c with
  | case1 t c e c₁ hToken => cases hBody
  | case2 t c c₁ hToken =>
      rcases readsToken_of_ok hLax hToken with
        ⟨ending, hEnding, hReads⟩
      refine ⟨ending, isClauseText_of_ending hEnding,
        (Cursor.readable_of_readsUpTo_end hReads).symm, ?_⟩
      rw [clauseLiterals_of_ending hEnding,
        Tally.addAll_nil]
      rcases Prod.mk.inj hBody with ⟨rfl, hClose⟩
      exact ⟨rfl, (closeBody_relaxed_ok_iff.mp hClose).1⟩
  | case3 t c c₁ hToken ih =>
      rcases readsToken_of_ok hLax hToken with
        ⟨item, hGap, hReads⟩
      rcases ih hBody with
        ⟨items, hText, hBytes, hTally, hFinished⟩
      refine
        ⟨item :: items, isClauseText_cons_of_gap hGap hText,
          ?_, ?_, hFinished⟩
      · rw [Cursor.readable_of_reads hReads, ← hBytes]
        rfl
      · rw [clauseLiterals_cons_of_gap hGap, hTally]
  | case4 t c negative index ahead c₁ hToken e c₂ hAccept =>
      cases hBody
  | case5 t c negative index ahead c₁ hToken value c₂
        hAccept ih =>
      rcases readsToken_of_ok hLax hToken with
        ⟨digits, c₃, hFormed, rfl, hReads, hAfter⟩
      rw [accept_relaxed header t.parsed negative ahead
        hFormed.1.2.2] at hAccept
      cases hAccept
      have hAhead₃ := Cursor.lookahead_of_reads_ne_nil
        hReads (ClauseItem.bytes_ne_nil hFormed)
      have hRead :=
        (afterNumeral_ok_iff hLax).mp ⟨ahead, hAfter⟩
      rcases ih hBody with
        ⟨items, hText, hBytes, hTally, hFinished⟩
      rcases exists_items_after_numeral hAhead₃ hRead hText
          hBytes with
        ⟨items', hText', hBytes', hLiterals, hFollow⟩
      refine ⟨.numeral negative digits :: items',
        ⟨hFormed, hFollow, hText'⟩, ?_, ?_, hFinished⟩
      · rw [Cursor.readable_of_reads hReads, ← hBytes']
        rfl
      · rw [hTally, ← hLiterals]
        rfl

/-
  Nothing is left unfinished if the last literal is zero.
-/
theorem unfinished_addAll_empty_iff
    {literals : List Int} :
    (Tally.empty.addAll literals).unfinished = false ↔
      EndsInZero literals := by
  rw [Tally.unfinished_addAll, EndsInZero]
  cases literals.getLast? with
  | none => simp [Tally.empty]
  | some literal => simp

/-
  Relaxed reading of the clauses succeeds exactly on the
  texts of the grammar whose last literal is zero. Then
  every literal was added, in order, the clauses counted are
  the zeros, and the text was read up to the end of file.
-/
theorem relaxed_body_reads_exactly
    (header : Header)
    (c : Cursor) :
    ((∃ t parsed c',
        body .relaxed header .empty c =
          (t, .ok parsed c')) ↔
      ∃ items,
        IsClauseText items ∧
        clauseBytes items = c.readable ∧
        EndsInZero (clauseLiterals items)) ∧
    ∀ t parsed c',
      body .relaxed header .empty c = (t, .ok parsed c') →
      ∀ items,
        IsClauseText items →
        clauseBytes items = c.readable →
        t.events.toList =
            (clauseLiterals items).map Event.add ∧
          parsed = (clauseLiterals items).count 0 ∧
          c.ReadsUpTo (clauseBytes items) none c' := by
  refine ⟨⟨?_, ?_⟩, ?_⟩
  · intro h
    rcases h with ⟨t, parsed, c', hBody⟩
    rcases exists_clauseText_of_body hBody with
      ⟨items, hText, hBytes, rfl, hFinished⟩
    exact ⟨items, hText, hBytes,
      unfinished_addAll_empty_iff.mp hFinished⟩
  · intro h
    rcases h with ⟨items, hText, hBytes, hEnds⟩
    rcases body_of_clauseText hText hBytes with
      ⟨c', _, hBody⟩
    have hFinished := unfinished_addAll_empty_iff.mpr hEnds
    rw [closeBody_relaxed_ok_iff.mpr ⟨hFinished, rfl, rfl⟩]
      at hBody
    exact ⟨_, _, c', hBody⟩
  · intro t parsed c' hBody items hText hBytes
    rcases body_of_clauseText hText hBytes with
      ⟨c₁, hReads, hRun⟩
    rw [hBody] at hRun
    rcases Prod.mk.inj hRun with ⟨rfl, hClose⟩
    rcases closeBody_relaxed_ok_iff.mp hClose.symm with
      ⟨_, hParsed, rfl⟩
    exact ⟨Tally.events_addAll_empty _,
      hParsed ▸ Tally.parsed_addAll_empty _, hReads⟩

/-
  A literal that a comment touches is read, one that another
  sign touches is not.
-/
example :
    IsClauseText
      [.numeral true [55], .comment [],
        .numeral false [48]] := by
  decide +kernel

example :
    ¬ IsClauseText
      [.numeral false [55], .numeral true [49]] := by
  decide +kernel

end Parser

end Dimacs
