import Dimacs.Cursor.Basic

/-
  What a cursor gives out, said of whole runs of bytes, and
  what giving out bytes does to the line and to failures.

  Key definitions include:
    * `Cursor.Reads`
    * `Cursor.ReadsUpTo`
    * `Cursor.ReadsRun`
    * `Cursor.Delivers`
    * `Cursor.IsFailureFree`

  Main statements:
    * `Cursor.reads_append`
    * `Cursor.delivers_next`
    * `Cursor.readable_of_reads`
    * `Cursor.exists_reads`
    * `Cursor.end_of_next`
    * `Cursor.line_of_next`
    * `Cursor.isFailureFree_next`
-/

namespace Dimacs

/-
  What stands somewhere in two lists in a row belongs to
  one of them.
-/
theorem append_eq_append_cons_iff
    {α : Type}
    {front back before behind : List α}
    {b : α} :
    front ++ back = before ++ b :: behind ↔
      (∃ rest,
          front = before ++ b :: rest ∧
          behind = rest ++ back) ∨
        ∃ rest,
          before = front ++ rest ∧
          back = rest ++ b :: behind := by
  rw [List.append_eq_append_iff]
  constructor
  · intro h
    rcases h with
      ⟨rest, hBefore, hBack⟩ | ⟨rest, hFront, hBehind⟩
    · exact .inr ⟨rest, hBefore, hBack⟩
    · cases rest with
      | nil =>
          exact .inr
            ⟨[], by simpa using hFront.symm, hBehind.symm⟩
      | cons a rest =>
          rw [List.cons_append, List.cons.injEq] at hBehind
          rcases hBehind with ⟨rfl, rfl⟩
          exact .inl ⟨rest, hFront, rfl⟩
  · intro h
    rcases h with
      ⟨rest, hFront, rfl⟩ | ⟨rest, hBefore, hBack⟩
    · exact .inr ⟨b :: rest, hFront, rfl⟩
    · exact .inl ⟨rest, hBefore, hBack⟩

namespace Cursor

------------------------------------------------------------
-- Runs of Bytes
------------------------------------------------------------

/-
  The cursor gives out the bytes in order and is then
  the other cursor.
-/
def Reads
    (c : Cursor)
    (bytes : List UInt8)
    (c' : Cursor) : Prop :=
  match bytes with
  | [] => c = c'
  | b :: bytes =>
      ∃ c₁, c.next = (some b, c₁) ∧ c₁.Reads bytes c'

/-
  The cursor gives out the bytes, and one more request is
  answered by the lookahead, which may be end of file.
-/
def ReadsUpTo
    (c : Cursor)
    (bytes : List UInt8)
    (ahead : Option UInt8)
    (c' : Cursor) : Prop :=
  ∃ c₁, c.Reads bytes c₁ ∧ c₁.next = (ahead, c')

@[simp] theorem reads_nil
    {c c' : Cursor} :
    c.Reads [] c' ↔ c = c' :=
  Iff.rfl

theorem reads_cons
    {c c' : Cursor}
    {b : UInt8}
    {bytes : List UInt8} :
    c.Reads (b :: bytes) c' ↔
      ∃ c₁, c.next = (some b, c₁) ∧ c₁.Reads bytes c' :=
  Iff.rfl

theorem reads_singleton
    {c c' : Cursor}
    {b : UInt8} :
    c.Reads [b] c' ↔ c.next = (some b, c') := by
  simp [reads_cons]

/-
  The first byte that is read is the one that comes next.
-/
theorem reads_cons_of_next
    {c c₁ c' : Cursor}
    {a b : UInt8}
    {bytes : List UInt8}
    (hNext : c.next = (some b, c₁)) :
    c.Reads (a :: bytes) c' ↔
      a = b ∧ c₁.Reads bytes c' := by
  rw [reads_cons, hNext]
  constructor
  · intro h
    rcases h with ⟨c₂, hSame, hReads⟩
    cases hSame
    exact ⟨rfl, hReads⟩
  · intro h
    rcases h with ⟨rfl, hReads⟩
    exact ⟨c₁, rfl, hReads⟩

/- Where bytes are read, the end of file is not reported. -/
theorem next_ne_none_of_reads
    {c c' : Cursor}
    {bytes : List UInt8}
    (h : c.Reads bytes c')
    (hBytes : bytes ≠ []) :
    c.next.1 ≠ none := by
  cases bytes with
  | nil => exact absurd rfl hBytes
  | cons b bytes =>
      rcases h with ⟨c₁, hNext, _⟩
      rw [hNext]
      exact Option.some_ne_none b

theorem reads_append
    {c c' : Cursor}
    {front back : List UInt8} :
    c.Reads (front ++ back) c' ↔
      ∃ c₁, c.Reads front c₁ ∧ c₁.Reads back c' := by
  induction front generalizing c with
  | nil => simp
  | cons b front ih =>
      simp only [List.cons_append, reads_cons, ih]
      constructor
      · intro h
        rcases h with ⟨c₁, hNext, c₂, hFront, hBack⟩
        exact ⟨c₂, ⟨c₁, hNext, hFront⟩, hBack⟩
      · intro h
        rcases h with ⟨c₂, ⟨c₁, hNext, hFront⟩, hBack⟩
        exact ⟨c₁, hNext, c₂, hFront, hBack⟩

theorem readsUpTo_append
    {c c₁ c' : Cursor}
    {front back : List UInt8}
    {ahead : Option UInt8}
    (hFront : c.Reads front c₁)
    (hBack : c₁.ReadsUpTo back ahead c') :
    c.ReadsUpTo (front ++ back) ahead c' := by
  rcases hBack with ⟨c₂, hReads, hNext⟩
  exact ⟨c₂, reads_append.mpr ⟨c₁, hFront, hReads⟩, hNext⟩

theorem readsUpTo_nil
    {c c' : Cursor}
    {ahead : Option UInt8} :
    c.ReadsUpTo [] ahead c' ↔ c.next = (ahead, c') := by
  simp [ReadsUpTo]

theorem readsUpTo_cons
    {c c' : Cursor}
    {b : UInt8}
    {bytes : List UInt8}
    {ahead : Option UInt8} :
    c.ReadsUpTo (b :: bytes) ahead c' ↔
      ∃ c₁,
        c.next = (some b, c₁) ∧
        c₁.ReadsUpTo bytes ahead c' := by
  simp only [ReadsUpTo, reads_cons]
  constructor
  · intro h
    rcases h with ⟨c₂, ⟨c₁, hNext, hReads⟩, hAhead⟩
    exact ⟨c₁, hNext, c₂, hReads, hAhead⟩
  · intro h
    rcases h with ⟨c₁, hNext, c₂, hReads, hAhead⟩
    exact ⟨c₂, ⟨c₁, hNext, hReads⟩, hAhead⟩

theorem readsUpTo_cons_of_next
    {c c₁ c' : Cursor}
    {a b : UInt8}
    {bytes : List UInt8}
    {ahead : Option UInt8}
    (hNext : c.next = (some b, c₁)) :
    c.ReadsUpTo (a :: bytes) ahead c' ↔
      a = b ∧ c₁.ReadsUpTo bytes ahead c' := by
  simp only [ReadsUpTo, reads_cons_of_next hNext, and_assoc,
    exists_and_left]

theorem not_readsUpTo_cons_of_end
    {c c₁ c' : Cursor}
    {a : UInt8}
    {bytes : List UInt8}
    {ahead : Option UInt8}
    (hNext : c.next = (none, c₁)) :
    ¬ c.ReadsUpTo (a :: bytes) ahead c' := by
  intro h
  rcases h with ⟨c₂, hReads, _⟩
  apply next_ne_none_of_reads hReads
  · exact List.cons_ne_nil _ _
  · rw [hNext]

/-
  A lookahead that is a byte is one more byte that was read.
-/
theorem readsUpTo_some
    {c c' : Cursor}
    {bytes : List UInt8}
    {b : UInt8} :
    c.ReadsUpTo bytes (some b) c' ↔
      c.Reads (bytes ++ [b]) c' := by
  simp only [ReadsUpTo, reads_append, reads_singleton]

------------------------------------------------------------
-- Maximal Runs
------------------------------------------------------------

/-
  The bytes are the longest run in front of the cursor that
  consists of bytes of a kind, and the lookahead ends it.
-/
structure ReadsRun
    (kind : UInt8 → Prop)
    (c : Cursor)
    (run : List UInt8)
    (ahead : Option UInt8)
    (c' : Cursor) : Prop where
  all : ∀ b ∈ run, kind b
  stops : ∀ b ∈ ahead, ¬ kind b
  reads : c.ReadsUpTo run ahead c'

variable {kind : UInt8 → Prop}

/- A byte of the kind belongs to the run. -/
theorem readsRun_of_kind
    {c c₁ c' : Cursor}
    {b : UInt8}
    {run : List UInt8}
    {ahead : Option UInt8}
    (hNext : c.next = (some b, c₁))
    (hKind : kind b) :
    ReadsRun kind c run ahead c' ↔
      ∃ rest,
        run = b :: rest ∧
        ReadsRun kind c₁ rest ahead c' := by
  constructor
  · intro h
    rcases h with ⟨hAll, hStops, hReads⟩
    cases run with
    | nil =>
        rw [readsUpTo_nil, hNext, Prod.mk.injEq] at hReads
        exact absurd hKind
          (hStops b (Option.mem_def.mpr hReads.1.symm))
    | cons a rest =>
        rcases (readsUpTo_cons_of_next hNext).mp hReads with
          ⟨rfl, hRest⟩
        exact ⟨rest, rfl, (List.forall_mem_cons.mp hAll).2,
          hStops, hRest⟩
  · intro h
    rcases h with ⟨rest, rfl, hAll, hStops, hReads⟩
    exact ⟨List.forall_mem_cons.mpr ⟨hKind, hAll⟩, hStops,
      readsUpTo_cons.mpr ⟨c₁, hNext, hReads⟩⟩

/- Any other byte ends the run. -/
theorem readsRun_of_not_kind
    {c c₁ c' : Cursor}
    {b : UInt8}
    {run : List UInt8}
    {ahead : Option UInt8}
    (hNext : c.next = (some b, c₁))
    (hKind : ¬ kind b) :
    ReadsRun kind c run ahead c' ↔
      run = [] ∧ ahead = some b ∧ c' = c₁ := by
  constructor
  · intro h
    rcases h with ⟨hAll, hStops, hReads⟩
    cases run with
    | nil =>
        rw [readsUpTo_nil, hNext, Prod.mk.injEq] at hReads
        exact ⟨rfl, hReads.1.symm, hReads.2.symm⟩
    | cons a rest =>
        rcases (readsUpTo_cons_of_next hNext).mp hReads with
          ⟨rfl, _⟩
        exact absurd (hAll a List.mem_cons_self) hKind
  · intro h
    rcases h with ⟨rfl, rfl, rfl⟩
    refine ⟨nofun, ?_, readsUpTo_nil.mpr hNext⟩
    intro a hMem
    rw [Option.mem_some_iff] at hMem
    exact hMem ▸ hKind

/- The end of file ends the run. -/
theorem readsRun_of_end
    {c c₁ c' : Cursor}
    {run : List UInt8}
    {ahead : Option UInt8}
    (hNext : c.next = (none, c₁)) :
    ReadsRun kind c run ahead c' ↔
      run = [] ∧ ahead = none ∧ c' = c₁ := by
  constructor
  · intro h
    rcases h with ⟨_, _, hReads⟩
    cases run with
    | nil =>
        rw [readsUpTo_nil, hNext, Prod.mk.injEq] at hReads
        exact ⟨rfl, hReads.1.symm, hReads.2.symm⟩
    | cons a rest =>
        exact absurd hReads
          (not_readsUpTo_cons_of_end hNext)
  · intro h
    rcases h with ⟨rfl, rfl, rfl⟩
    exact ⟨nofun, nofun, readsUpTo_nil.mpr hNext⟩

------------------------------------------------------------
-- One Byte at a Time
------------------------------------------------------------

/-
  The line behind a byte: only a line feed starts a new one.
-/
def lineBehind
    (b : UInt8)
    (line : Nat) : Nat :=
  if b = Byte.lineFeed then line + 1 else line

/-
  Everything that consuming a byte can do: take the byte or
  the end of file that was looked at, or ask the source,
  unless a failure waits.
-/
inductive Delivers
    (c : Cursor) : Option UInt8 → Cursor → Prop
  | seenByte
      (b : UInt8)
      (hAhead : c.lookahead = some (some b)) :
      c.Delivers (some b)
        { c with
          lookahead := none, line := lineBehind b c.line }
  | seenEnd (hAhead : c.lookahead = some none) :
      c.Delivers none { c with lookahead := none }
  | waiting
      (text : String)
      (hAhead : c.lookahead = none)
      (hFailure : c.failure = some text) :
      c.Delivers none c
  | byte
      (b : UInt8)
      (rest : Source)
      (hAhead : c.lookahead = none)
      (hFailure : c.failure = none)
      (hRest : c.rest = .byte b :: rest) :
      c.Delivers (some b)
        { c with rest := rest, line := lineBehind b c.line }
  | failure
      (text : String)
      (rest : Source)
      (hAhead : c.lookahead = none)
      (hFailure : c.failure = none)
      (hRest : c.rest = .failure text :: rest) :
      c.Delivers none
        { c with rest := rest, failure := some text }
  | finished
      (hAhead : c.lookahead = none)
      (hFailure : c.failure = none)
      (hRest : c.rest = []) :
      c.Delivers none { c with ended := true }

theorem next_of_draw
    {c c' : Cursor}
    {b : UInt8}
    (h : c.draw = (some b, c')) :
    c.next =
      (some b,
        { c' with line := lineBehind b c'.line }) := by
  rw [next, h]
  by_cases hFeed : b = Byte.lineFeed
  · simp only [lineBehind, if_pos hFeed]
  · simp only [lineBehind, if_neg hFeed]

theorem delivers_next
    (c : Cursor) :
    c.Delivers c.next.1 c.next.2 := by
  rcases c with
    ⟨rest, ended, lookahead, line, failure, name⟩
  rcases lookahead with _ | _ | b
  · rcases failure with _ | text
    · rcases rest with _ | ⟨b | text, rest⟩
      · exact .finished rfl rfl rfl
      · rw [next_of_draw rfl]
        exact .byte b rest rfl rfl rfl
      · exact .failure text rest rfl rfl rfl
    · exact .waiting text rfl rfl
  · exact .seenEnd rfl
  · rw [next_of_draw rfl]
    exact .seenByte b rfl

theorem delivers_of_next
    {c c' : Cursor}
    {ahead : Option UInt8}
    (h : c.next = (ahead, c')) :
    c.Delivers ahead c' := by
  have hDelivers := c.delivers_next
  rwa [h] at hDelivers

------------------------------------------------------------
-- Readable Bytes
------------------------------------------------------------

/- A byte that is given out stood at the front. -/
theorem readable_of_next
    {c c' : Cursor}
    {b : UInt8}
    (h : c.next = (some b, c')) :
    c.readable = b :: c'.readable := by
  cases delivers_of_next h with
  | seenByte b hAhead =>
      simp only [readable, hAhead]
  | byte b rest hAhead hFailure hRest =>
      simp only [readable, hAhead, hFailure, hRest,
        Source.upcoming]

/- At the end of file there was nothing to read. -/
theorem readable_of_next_none
    {c c' : Cursor}
    (h : c.next = (none, c')) :
    c.readable = [] := by
  cases delivers_of_next h with
  | seenEnd hAhead => simp only [readable, hAhead]
  | waiting text hAhead hFailure =>
      simp only [readable, hAhead, hFailure]
  | failure text rest hAhead hFailure hRest =>
      simp only [readable, hAhead, hFailure, hRest,
        Source.upcoming]
  | finished hAhead hFailure hRest =>
      simp only [readable, hAhead, hFailure, hRest,
        Source.upcoming]

/- The byte at the front is given out next. -/
theorem next_of_readable
    {c : Cursor}
    {b : UInt8}
    {rest : List UInt8}
    (h : c.readable = b :: rest) :
    ∃ c', c.next = (some b, c') ∧ c'.readable = rest := by
  rcases hNext : c.next with ⟨_ | a, c'⟩
  · rw [readable_of_next_none hNext] at h
    cases h
  · rw [readable_of_next hNext, List.cons.injEq] at h
    rcases h with ⟨rfl, rfl⟩
    exact ⟨c', rfl, rfl⟩

/- If nothing is readable, the end of file is reported. -/
theorem next_of_readable_nil
    {c : Cursor}
    (h : c.readable = []) :
    ∃ c', c.next = (none, c') := by
  rcases hNext : c.next with ⟨_ | a, c'⟩
  · exact ⟨c', rfl⟩
  · rw [readable_of_next hNext] at h
    cases h

/-
  Bytes that were read stood at the front, in this order.
-/
theorem readable_of_reads
    {c c' : Cursor}
    {bytes : List UInt8}
    (h : c.Reads bytes c') :
    c.readable = bytes ++ c'.readable := by
  induction bytes generalizing c with
  | nil =>
      rw [reads_nil] at h
      rw [h, List.nil_append]
  | cons b bytes ih =>
      rcases h with ⟨c₁, hNext, hReads⟩
      rw [readable_of_next hNext, ih hReads,
        List.cons_append]

/-
  What was read between two cursors is determined by them.
-/
theorem bytes_eq_of_reads
    {c c' : Cursor}
    {bytes bytes' : List UInt8}
    (h : c.Reads bytes c')
    (h' : c.Reads bytes' c') :
    bytes = bytes' := by
  have hReadable := readable_of_reads h
  rw [readable_of_reads h'] at hReadable
  exact (List.append_cancel_right hReadable).symm

/- Any front part of what is readable can be read. -/
theorem exists_reads
    {c : Cursor}
    {front back : List UInt8}
    (h : c.readable = front ++ back) :
    ∃ c', c.Reads front c' ∧ c'.readable = back := by
  induction front generalizing c with
  | nil => exact ⟨c, rfl, h⟩
  | cons b front ih =>
      rcases next_of_readable h with ⟨c₁, hNext, hRest⟩
      rcases ih hRest with ⟨c', hReads, hBack⟩
      exact ⟨c', ⟨c₁, hNext, hReads⟩, hBack⟩

------------------------------------------------------------
-- The End of File
------------------------------------------------------------

/- Consuming leaves no lookahead. -/
theorem lookahead_next
    (c : Cursor) :
    c.next.2.lookahead = none := by
  have hDelivers := c.delivers_next
  generalize c.next = delivered at hDelivers ⊢
  rcases delivered with ⟨ahead, c'⟩
  cases hDelivers with
  | seenByte b hAhead => rfl
  | seenEnd hAhead => rfl
  | waiting text hAhead hFailure => exact hAhead
  | byte b rest hAhead hFailure hRest => exact hAhead
  | failure text rest hAhead hFailure hRest => exact hAhead
  | finished hAhead hFailure hRest => exact hAhead

theorem lookahead_of_next
    {c c' : Cursor}
    {ahead : Option UInt8}
    (h : c.next = (ahead, c')) :
    c'.lookahead = none := by
  have hAhead := c.lookahead_next
  rwa [h] at hAhead

theorem lookahead_of_reads
    {c c' : Cursor}
    {bytes : List UInt8}
    (hAhead : c.lookahead = none)
    (h : c.Reads bytes c') :
    c'.lookahead = none := by
  induction bytes generalizing c with
  | nil =>
      rw [reads_nil] at h
      exact h ▸ hAhead
  | cons b bytes ih =>
      rcases h with ⟨c₁, hNext, hReads⟩
      exact ih (lookahead_of_next hNext) hReads

theorem lookahead_of_reads_ne_nil
    {c c' : Cursor}
    {bytes : List UInt8}
    (h : c.Reads bytes c')
    (hBytes : bytes ≠ []) :
    c'.lookahead = none := by
  cases bytes with
  | nil => exact absurd rfl hBytes
  | cons b bytes =>
      rcases h with ⟨c₁, hNext, hReads⟩
      exact lookahead_of_reads (lookahead_of_next hNext)
        hReads

/-
  An end of file that the source reported is final. Only one
  that was looked at before a failure was taken can be
  followed by bytes.
-/
theorem end_of_next
    {c c' : Cursor}
    (hAhead : c.lookahead = none)
    (h : c.next = (none, c')) :
    c'.readable = [] ∧ c'.next = (none, c') := by
  cases delivers_of_next h with
  | seenEnd hSeen =>
      rw [hAhead] at hSeen
      cases hSeen
  | waiting text _ hFailure =>
      simp only [readable, next, draw, fetch, hAhead,
        hFailure, and_self]
  | failure text rest _ hFailure hRest =>
      simp only [readable, next, draw, fetch, hAhead,
        and_self]
  | finished _ hFailure hRest =>
      simp only [readable, next, draw, fetch, hAhead,
        hFailure, hRest, Source.upcoming, and_self]

/-
  What was read up to the end of file is all that
  could be read.
-/
theorem readable_of_readsUpTo_end
    {c c' : Cursor}
    {bytes : List UInt8}
    (h : c.ReadsUpTo bytes none c') :
    c.readable = bytes := by
  rcases h with ⟨c₁, hReads, hEnd⟩
  rw [readable_of_reads hReads, readable_of_next_none hEnd,
    List.append_nil]

theorem end_of_readsUpTo
    {c c' : Cursor}
    {bytes : List UInt8}
    (hAhead : c.lookahead = none)
    (h : c.ReadsUpTo bytes none c') :
    c'.readable = [] ∧ c'.next = (none, c') := by
  rcases h with ⟨c₁, hReads, hEnd⟩
  exact end_of_next (lookahead_of_reads hAhead hReads) hEnd

/-
  Whatever is readable can be read up to the end of file.
-/
theorem exists_readsUpTo_end
    (c : Cursor) :
    ∃ c', c.ReadsUpTo c.readable none c' := by
  rcases exists_reads (List.append_nil c.readable).symm with
    ⟨c₁, hReads, hNil⟩
  rcases next_of_readable_nil hNil with ⟨c', hEnd⟩
  exact ⟨c', c₁, hReads, hEnd⟩

------------------------------------------------------------
-- Lines
------------------------------------------------------------

/- A line feed that is given out is counted. -/
theorem line_of_next
    {c c' : Cursor}
    {b : UInt8}
    (h : c.next = (some b, c')) :
    c'.line = lineBehind b c.line := by
  cases delivers_of_next h with
  | seenByte b hAhead => rfl
  | byte b rest hAhead hFailure hRest => rfl

theorem line_of_next_none
    {c c' : Cursor}
    (h : c.next = (none, c')) :
    c'.line = c.line := by
  cases delivers_of_next h with
  | seenEnd hAhead => rfl
  | waiting text hAhead hFailure => rfl
  | failure text rest hAhead hFailure hRest => rfl
  | finished hAhead hFailure hRest => rfl

theorem line_le_next
    (c : Cursor) :
    c.line ≤ c.next.2.line := by
  rcases hNext : c.next with ⟨_ | b, c'⟩
  · exact Nat.le_of_eq (line_of_next_none hNext).symm
  · rw [line_of_next hNext, lineBehind]
    split
    · exact Nat.le_succ _
    · exact Nat.le_refl _

theorem line_le_of_reads
    {c c' : Cursor}
    {bytes : List UInt8}
    (h : c.Reads bytes c') :
    c.line ≤ c'.line := by
  induction bytes generalizing c with
  | nil =>
      rw [reads_nil] at h
      exact Nat.le_of_eq (congrArg line h)
  | cons b bytes ih =>
      rcases h with ⟨c₁, hNext, hReads⟩
      have hLine := c.line_le_next
      rw [hNext] at hLine
      exact Nat.le_trans hLine (ih hReads)

------------------------------------------------------------
-- Sources without Failures
------------------------------------------------------------

/- No failure waits to be taken, and none lies ahead. -/
def IsFailureFree
    (c : Cursor) : Prop :=
  c.failure = none ∧ c.rest.failures = []

instance (c : Cursor) :
    Decidable c.IsFailureFree :=
  inferInstanceAs (Decidable (_ ∧ _))

theorem isFailureFree_ofBytes
    (bytes : List UInt8)
    (name : String) :
    (ofSource (Source.ofBytes bytes) name).IsFailureFree :=
  ⟨rfl, Source.failures_ofBytes bytes⟩

/- All bytes of such a source can be read. -/
theorem readable_ofBytes
    (bytes : List UInt8)
    (name : String) :
    (ofSource (Source.ofBytes bytes) name).readable =
      bytes := by
  change (Source.ofBytes bytes).upcoming = bytes
  induction bytes with
  | nil => rfl
  | cons b bytes ih => exact congrArg (List.cons b) ih

theorem isFailureFree_next
    {c : Cursor}
    (h : c.IsFailureFree) :
    c.next.2.IsFailureFree := by
  rcases h with ⟨hNone, hSource⟩
  have hDelivers := c.delivers_next
  generalize c.next = delivered at hDelivers ⊢
  rcases delivered with ⟨ahead, c'⟩
  cases hDelivers with
  | seenByte b hAhead => exact ⟨hNone, hSource⟩
  | seenEnd hAhead => exact ⟨hNone, hSource⟩
  | waiting text hAhead hFailure => exact ⟨hNone, hSource⟩
  | byte b rest hAhead hFailure hRest =>
      rw [hRest] at hSource
      exact ⟨hNone, hSource⟩
  | failure text rest hAhead hFailure hRest =>
      rw [hRest] at hSource
      cases hSource
  | finished hAhead hFailure hRest => exact ⟨hNone, hSource⟩

end Cursor

end Dimacs
