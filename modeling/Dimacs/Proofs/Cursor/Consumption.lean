import Dimacs.Proofs.Cursor.Accounting
import Dimacs.Proofs.Cursor.Lookahead

/-
  What moves consume is what is then missing in front of
  the text that can be read. This holds as long as
  nothing follows an end of file that was looked at,
  which no move changes.

  Key definitions include:
    * `Cursor.IsOpen`
    * `Cursor.IsSteady`
    * `Cursor.Consumes`

  Main statements:
    * `Cursor.IsOpen.isSteady`
    * `Cursor.readable_of_moves`
    * `Cursor.exists_consumes`
    * `Cursor.Consumes.eq_of_readable`
-/

namespace Dimacs

namespace Cursor

variable {c c' : Cursor}
variable {consumed : List UInt8}

------------------------------------------------------------
-- The End of File
------------------------------------------------------------

/- No failure waits, and no end of file was looked at. -/
structure IsOpen
    (c : Cursor) : Prop where
  failure : c.failure = none
  lookahead : c.lookahead ≠ some none

/-
  Nothing can be read behind an end of file that
  was looked at.
-/
def IsSteady
    (c : Cursor) : Prop :=
  c.lookahead = some none → c.failure ≠ none ∨ c.rest = []

theorem IsOpen.isSteady
    (h : c.IsOpen) :
    c.IsSteady :=
  fun hEnd => absurd hEnd h.lookahead

theorem isOpen_ofSource
    (source : Source)
    (name : String) :
    (ofSource source name).IsOpen :=
  ⟨rfl, nofun⟩

/-
  An end of file is looked at where a failure waits or the
  source is exhausted.
-/
theorem IsSteady.peek
    (h : c.IsSteady) :
    c.peek.2.IsSteady := by
  rcases c with
    ⟨rest, ended, lookahead, line, failure, name⟩
  rcases lookahead with _ | seen
  · rcases failure with _ | text
    · rcases rest with _ | ⟨b | text, rest⟩
      · exact fun _ => .inr rfl
      · exact nofun
      · exact fun _ => .inl (Option.some_ne_none text)
    · exact fun _ => .inl (Option.some_ne_none text)
  · exact h

/-
  Behind a consumed byte, or the end of file, nothing has
  been looked at.
-/
theorem isSteady_next
    (c : Cursor) :
    c.next.2.IsSteady := by
  intro hEnd
  rw [lookahead_next] at hEnd
  cases hEnd

/- The end of file comes again. -/
theorem IsSteady.readable_of_end
    (h : c.IsSteady)
    (hNext : c.next = (none, c')) :
    c'.readable = [] := by
  cases delivers_of_next hNext with
  | seenEnd hAhead =>
      rcases h hAhead with hFailure | hRest
      · rcases Option.ne_none_iff_exists'.mp hFailure with
          ⟨text, hText⟩
        simp only [readable, hText]
      · simp only [readable, hRest, Source.upcoming]
        split <;> rfl
  | waiting text hAhead hFailure =>
      simp only [readable, hAhead, hFailure]
  | failure text rest hAhead hFailure hRest =>
      simp only [readable, hAhead]
  | finished hAhead hFailure hRest =>
      simp only [readable, hAhead, hFailure, hRest,
        Source.upcoming]

------------------------------------------------------------
-- Consumed Bytes
------------------------------------------------------------

/-
  Moves lead from one cursor to the other, and consume the
  bytes by which the text that can be read becomes shorter.
-/
structure Consumes
    (c : Cursor)
    (consumed : List UInt8)
    (c' : Cursor) : Prop where
  moves : c.Moves consumed c'
  readable : c.readable = consumed ++ c'.readable

theorem readable_of_moves
    (hSteady : c.IsSteady)
    (h : c.Moves consumed c') :
    c'.IsSteady ∧ c.readable = consumed ++ c'.readable := by
  induction h with
  | stay => exact ⟨hSteady, rfl⟩
  | @peek bytes c₁ _ ih =>
      rcases ih with ⟨hKept, hText⟩
      have hPeek : c₁.peek = (c₁.peek.1, c₁.peek.2) := rfl
      rw [(readable_of_peek hPeek).2]
      exact ⟨hKept.peek, hText⟩
  | @next bytes c₁ _ ih =>
      rcases ih with ⟨hKept, hText⟩
      refine ⟨c₁.isSteady_next, ?_⟩
      rcases hNext : c₁.next with ⟨_ | b, c₂⟩
      · -- Giving out the end of file must not bring
        -- back what stands behind a failure.
        rw [hText, readable_of_next_none hNext,
          hKept.readable_of_end hNext]
        simp
      · rw [hText, readable_of_next hNext]
        simp

theorem Consumes.isSteady
    (hSteady : c.IsSteady)
    (h : c.Consumes consumed c') :
    c'.IsSteady :=
  (readable_of_moves hSteady h.moves).1

/-
  Whatever is reached by moves, some bytes were consumed
  on the way.
-/
theorem exists_consumes
    (hSteady : c.IsSteady)
    (h : c.Reaches c') :
    ∃ consumed, c.Consumes consumed c' := by
  rcases h with ⟨consumed, hMoves⟩
  exact
    ⟨consumed, hMoves, (readable_of_moves hSteady hMoves).2⟩

/- What was consumed can be told from the texts. -/
theorem Consumes.eq_of_readable
    {front : List UInt8}
    (h : c.Consumes consumed c')
    (hText : c.readable = front ++ c'.readable) :
    consumed = front := by
  rw [h.readable] at hText
  exact List.append_cancel_right hText

theorem Consumes.trans
    {c₁ : Cursor}
    {front back : List UInt8}
    (hFront : c.Consumes front c₁)
    (hBack : c₁.Consumes back c') :
    c.Consumes (front ++ back) c' := by
  refine ⟨hFront.moves.trans hBack.moves, ?_⟩
  rw [hFront.readable, hBack.readable, List.append_assoc]

end Cursor

end Dimacs
