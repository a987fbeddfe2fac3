import Dimacs.Proofs.Parser.Success

/-
  Where a reading stands, said from the cursor at which it
  began: which bytes it has consumed, what it saw last, and
  which line an error names. A reader keeps track if what it
  leaves behind is known in this way, also when it rejects.

  Key definitions include:
    * `Cursor.IsFresh`
    * `Cursor.HasSeen`
    * `Cursor.HasReached`
    * `Fault.overshoot`
    * `Cursor.Blames`
    * `Parser.Lands`
    * `Parser.Tracks`

  Main statements:
    * `Cursor.line_of_readsUpTo`
    * `Cursor.HasReached.next`
    * `Parser.tracks_bind`
    * `Parser.tracks_fail`
    * `Parser.tracks_failBefore`
    * `Parser.tracks_number`
-/

namespace Dimacs

namespace Cursor

------------------------------------------------------------
-- Places of a Reading
------------------------------------------------------------

/-
  A cursor at which a reading can begin: nothing
  was looked at.
-/
structure IsFresh
    (start : Cursor) : Prop where
  lookahead : start.lookahead = none
  line : 1 ≤ start.line

theorem isFresh_ofSource
    (source : Source)
    (name : String) :
    (ofSource source name).IsFresh :=
  ⟨rfl, Nat.le_refl 1⟩

/-
  The last request of a reading was answered by a byte or by
  the end of file, behind the bytes in front of it.
-/
def HasSeen
    (start : Cursor)
    (ahead : Option UInt8)
    (c : Cursor) : Prop :=
  ∃ before, start.ReadsUpTo before ahead c

/-
  A reading stands behind some bytes, or has seen the
  end of file.
-/
def HasReached
    (start c : Cursor) : Prop :=
  (∃ bytes, start.Reads bytes c) ∨ start.HasSeen none c

variable {start c c' : Cursor}
variable {ahead : Option UInt8}

theorem hasReached_self
    (start : Cursor) :
    start.HasReached start :=
  .inl ⟨[], rfl⟩

theorem HasSeen.hasReached
    (h : start.HasSeen ahead c) :
    start.HasReached c := by
  rcases h with ⟨before, hReads⟩
  cases ahead with
  | none => exact .inr ⟨before, hReads⟩
  | some b =>
      exact .inl ⟨before ++ [b], readsUpTo_some.mp hReads⟩

/- Wherever a reading stands, it sees what comes next. -/
theorem HasReached.next
    (hFresh : start.IsFresh)
    (h : start.HasReached c)
    (hNext : c.next = (ahead, c')) :
    start.HasSeen ahead c' := by
  rcases h with ⟨bytes, hReads⟩ | ⟨before, hReads⟩
  · exact ⟨bytes, c, hReads, hNext⟩
  · -- The end of file is answered again, by the same
    -- cursor.
    have hEnd :=
      (end_of_readsUpTo hFresh.lookahead hReads).2
    rw [hNext] at hEnd
    cases hEnd
    exact ⟨before, hReads⟩

------------------------------------------------------------
-- Lines
------------------------------------------------------------

/-
  Every line feed that was read is counted, and
  nothing else is.
-/
theorem line_of_reads
    {bytes : List UInt8}
    (h : start.Reads bytes c) :
    c.line = start.line + bytes.count Byte.lineFeed := by
  induction bytes generalizing start with
  | nil =>
      rw [reads_nil] at h
      rw [h, List.count_nil, Nat.add_zero]
  | cons b bytes ih =>
      rcases h with ⟨c₁, hNext, hReads⟩
      rw [ih hReads, line_of_next hNext, lineBehind]
      by_cases hFeed : b = Byte.lineFeed
      · rw [if_pos hFeed, hFeed, List.count_cons_self]
        omega
      · rw [if_neg hFeed, List.count_cons_of_ne hFeed]

/- A line feed that was seen last is counted as well. -/
theorem line_of_readsUpTo
    {before : List UInt8}
    (h : start.ReadsUpTo before ahead c) :
    c.line =
      start.line + before.count Byte.lineFeed +
        (if ahead = some Byte.lineFeed then 1 else 0) := by
  rcases h with ⟨c₁, hReads, hNext⟩
  rw [← line_of_reads hReads]
  cases ahead with
  | none =>
      rw [if_neg (by simp), line_of_next_none hNext,
        Nat.add_zero]
  | some b =>
      rw [line_of_next hNext, lineBehind]
      by_cases hFeed : b = Byte.lineFeed
      · rw [if_pos hFeed, if_pos (congrArg some hFeed)]
      · rw [if_neg hFeed,
          if_neg (fun h => hFeed (Option.some.inj h)),
          Nat.add_zero]

end Cursor

/-
  The lines by which a fault is reported too late. A missing
  number of clauses is reported where the reading stands, so
  a line feed in its place has already been counted.
-/
def Fault.overshoot
    (fault : Fault)
    (ahead : Option UInt8) : Nat :=
  if fault = .expectedClauses ∧
      ahead = some Byte.lineFeed then
    1
  else 0

/-
  An error at a line: the lines in front of what was seen
  last are counted, and the cursor stands behind it.
-/
def Cursor.Blames
    (start : Cursor)
    (line : Nat)
    (fault : Fault)
    (c : Cursor) : Prop :=
  ∃ before ahead c₁,
    start.ReadsUpTo before ahead c₁ ∧
    c = { c₁ with line := line } ∧
    line =
      start.line + before.count Byte.lineFeed +
        fault.overshoot ahead

namespace Parser

variable {α β : Type}
variable {start : Cursor}

------------------------------------------------------------
-- Readers that Keep Track
------------------------------------------------------------

/-
  A result at a known place. The only errors are those that
  blame a line; no check of the library fails.
-/
inductive Lands
    (start : Cursor)
    (post : α → Cursor → Prop) :
    EStateM.Result ParseError Cursor α → Prop
  | ok {a : α} {c : Cursor} (h : post a c) :
      Lands start post (.ok a c)
  | malformed
      {line : Nat}
      {fault : Fault}
      {c : Cursor}
      (h : start.Blames line fault c) :
      Lands start post (.error (.malformed line fault) c)

/-
  From every place of a kind the reader gets to
  a known place.
-/
def Tracks
    (start : Cursor)
    (pre : Cursor → Prop)
    (p : Parser α)
    (post : α → Cursor → Prop) : Prop :=
  ∀ c, pre c → Lands start post (p c)

variable {pre pre' : Cursor → Prop}
variable {post post' : α → Cursor → Prop}
variable {p q : Parser α}

theorem Lands.mono
    {r : EStateM.Result ParseError Cursor α}
    (h : Lands start post r)
    (hPost : ∀ a c, post a c → post' a c) :
    Lands start post' r := by
  cases h with
  | ok h => exact .ok (hPost _ _ h)
  | malformed h => exact .malformed h

theorem Tracks.mono
    (h : Tracks start pre p post)
    (hPre : ∀ c, pre' c → pre c)
    (hPost : ∀ a c, post a c → post' a c) :
    Tracks start pre' p post' := by
  intro c hc
  exact (h c (hPre c hc)).mono hPost

/-
  A reader that succeeds is at the place that was promised.
-/
theorem Tracks.of_ok
    {a : α}
    {c c' : Cursor}
    (h : Tracks start pre p post)
    (hc : pre c)
    (hRun : p c = .ok a c') :
    post a c' := by
  have hLands := h c hc
  rw [hRun] at hLands
  cases hLands with
  | ok h => exact h

/-
  A reader that rejects blames a line,
  whatever was promised.
-/
theorem Tracks.of_error
    {post' : β → Cursor → Prop}
    {e : ParseError}
    {c c' : Cursor}
    (h : Tracks start pre p post)
    (hc : pre c)
    (hRun : p c = .error e c') :
    Lands start post' (.error e c') := by
  have hLands := h c hc
  rw [hRun] at hLands
  cases hLands with
  | malformed h => exact .malformed h

/-
  A reader that keeps track anywhere does so behind what
  was seen last.
-/
theorem Tracks.behind
    (h : Tracks start start.HasReached p post)
    (ahead : Option UInt8) :
    Tracks start (start.HasSeen ahead) p post :=
  h.mono (fun _ => Cursor.HasSeen.hasReached)
    (fun _ _ => id)

/- What holds apart from the cursor may be assumed. -/
theorem tracks_of_and
    {condition : Prop}
    (h : condition → Tracks start pre p post) :
    Tracks start (fun c => condition ∧ pre c) p post := by
  intro c hc
  exact h hc.1 c hc.2

theorem tracks_pure
    {a : α}
    (h : ∀ c, pre c → post a c) :
    Tracks start pre (pure a) post := by
  intro c hc
  exact .ok (h c hc)

theorem tracks_bind
    {mid : α → Cursor → Prop}
    {post : β → Cursor → Prop}
    {f : α → Parser β}
    (hp : Tracks start pre p mid)
    (hf : ∀ a, Tracks start (mid a) (f a) post) :
    Tracks start pre (p >>= f) post := by
  intro c hc
  have hFirst := hp c hc
  rw [bind_apply]
  generalize p c = r at hFirst
  cases hFirst with
  | ok h => exact hf _ _ h
  | malformed h => exact .malformed h

theorem tracks_ite
    {condition : Prop}
    [Decidable condition]
    (hp : condition → Tracks start pre p post)
    (hq : ¬ condition → Tracks start pre q post) :
    Tracks start pre (if condition then p else q) post := by
  split
  · next h => exact hp h
  · next h => exact hq h

theorem tracks_require
    {condition : Prop}
    [Decidable condition]
    (h : condition) :
    Tracks start pre (require condition)
      (fun _ c => pre c) := by
  intro c hc
  have hRequire : require condition c = .ok () c :=
    require_ok_iff.mpr ⟨h, rfl⟩
  rw [hRequire]
  exact .ok hc

------------------------------------------------------------
-- Errors
------------------------------------------------------------

variable {ahead : Option UInt8}

/-
  An error at the current line is right unless a line feed
  was seen last.
-/
theorem tracks_fail
    {fault : Fault}
    (hAhead :
      ahead = some Byte.lineFeed →
      fault = .expectedClauses) :
    Tracks start (start.HasSeen ahead) (fail fault)
      post := by
  intro c hc
  rcases hc with ⟨before, hReads⟩
  have hLine := Cursor.line_of_readsUpTo hReads
  refine .malformed ⟨before, ahead, c, hReads, rfl, ?_⟩
  rw [hLine, Fault.overshoot]
  by_cases hFeed : ahead = some Byte.lineFeed
  · rw [if_pos hFeed, if_pos ⟨hAhead hFeed, hFeed⟩]
  · rw [if_neg hFeed, if_neg (fun h => hFeed h.2)]

theorem tracks_fail_at_end
    {fault : Fault} :
    Tracks start (start.HasSeen none) (fail fault) post :=
  tracks_fail nofun

theorem tracks_fail_at_byte
    {fault : Fault}
    {b : UInt8}
    (hFeed : b ≠ Byte.lineFeed) :
    Tracks start (start.HasSeen (some b)) (fail fault)
      post :=
  tracks_fail fun h => absurd (Option.some.inj h) hFeed

section

variable (hFresh : start.IsFresh)

include hFresh

/-
  An error in front of what was seen last is always right.
-/
theorem tracks_failBefore
    {fault : Fault}
    (hFault : fault ≠ .expectedClauses) :
    Tracks start (start.HasSeen ahead)
      (failBefore ahead fault) post := by
  intro c hc
  rcases hc with ⟨before, hReads⟩
  have hLine := Cursor.line_of_readsUpTo hReads
  have hExact : fault.overshoot ahead = 0 :=
    if_neg (fun h => hFault h.1)
  by_cases hFeed : ahead = some Byte.lineFeed
  · rw [if_pos hFeed] at hLine
    have hCounted : 1 < c.line := by
      have hFirst := hFresh.line
      omega
    have hUnread :
        unreadLine ahead c =
          .ok () { c with line := c.line - 1 } := by
      rw [unreadLine, Cursor.unreadLine, if_pos hFeed,
        Check.require, if_pos hCounted]
    rw [failBefore, bind_of_ok hUnread]
    refine .malformed ⟨before, ahead, c, hReads, rfl, ?_⟩
    rw [hExact]
    change c.line - 1 = _
    omega
  · have hUnread : unreadLine ahead c = .ok () c := by
      rw [unreadLine, Cursor.unreadLine, if_neg hFeed]
    rw [if_neg hFeed] at hLine
    rw [failBefore, bind_of_ok hUnread]
    refine .malformed ⟨before, ahead, c, hReads, rfl, ?_⟩
    rw [hExact, hLine]

------------------------------------------------------------
-- Bytes, Line Ends and Blank Runs
------------------------------------------------------------

theorem tracks_byte :
    Tracks start start.HasReached byte
      (fun ahead c => start.HasSeen ahead c) := by
  intro c hc
  exact .ok (hc.next hFresh rfl)

theorem tracks_finishLine :
    Tracks start start.HasReached finishLine
      (fun _ c => start.HasSeen (some Byte.lineFeed) c) :=
  tracks_bind (tracks_byte hFresh) fun _ =>
    tracks_ite
      (fun hFeed => tracks_pure fun _ hc => hFeed ▸ hc)
      (fun hFeed => tracks_fail fun h => absurd h hFeed)

theorem hasSeen_pastBlanks
    {c : Cursor}
    (h : start.HasReached c) :
    start.HasSeen (pastBlanks c).1 (pastBlanks c).2 := by
  fun_induction pastBlanks c with
  | case1 c b c₁ hNext hBlank ih =>
      exact ih (h.next hFresh hNext).hasReached
  | case2 c b c₁ hNext hBlank => exact h.next hFresh hNext
  | case3 c c₁ hNext => exact h.next hFresh hNext

theorem tracks_byteAfterBlanks :
    Tracks start start.HasReached byteAfterBlanks
      (fun ahead c => start.HasSeen ahead c) := by
  intro c hc
  exact .ok (hasSeen_pastBlanks hFresh hc)

theorem tracks_skipBlanks
    (ahead : Option UInt8) :
    Tracks start (start.HasSeen ahead) (skipBlanks ahead)
      (fun ahead c => start.HasSeen ahead c) := by
  cases ahead with
  | none => exact tracks_pure fun _ => id
  | some b =>
      exact tracks_ite
        (fun _ => (tracks_byteAfterBlanks hFresh).behind _)
        (fun _ => tracks_pure fun _ => id)

------------------------------------------------------------
-- Bounded Numbers
------------------------------------------------------------

/-
  A digit that is taken keeps the value within its limit.
-/
omit hFresh in
theorem le_of_extend?
    {limit value extended : Nat}
    {b : UInt8}
    (h : extend? limit value b = some extended) :
    extended ≤ limit := by
  rw [extend?, Option.filter_eq_some_iff] at h
  exact of_decide_eq_true h.2

/-
  A number ends within its limit, with the byte
  behind it seen.
-/
theorem tracks_numberFrom
    {limit value : Nat}
    (fault : Fault)
    (hValue : value ≤ limit) :
    Tracks start start.HasReached
      (numberFrom limit fault value)
      (fun r c => r.1 ≤ limit ∧ start.HasSeen r.2 c) := by
  intro c hc
  fun_induction numberFrom limit fault value c with
  | case1 value c b c₁ hNext hDigit extended hExtend ih =>
      exact ih (le_of_extend? hExtend)
        (hc.next hFresh hNext).hasReached
  | case2 value c b c₁ hNext hDigit hExtend =>
      have hFeed : b ≠ Byte.lineFeed := by
        rintro rfl
        exact absurd hDigit (by decide)
      exact tracks_fail_at_byte hFeed c₁
        (hc.next hFresh hNext)
  | case3 value c b c₁ hNext hDigit =>
      exact .ok ⟨hValue, hc.next hFresh hNext⟩
  | case4 value c c₁ hNext =>
      exact .ok ⟨hValue, hc.next hFresh hNext⟩

theorem tracks_number
    {first : UInt8}
    (limit : Nat)
    (fault : Fault)
    (hLimit : 9 ≤ limit)
    (hFirst : Byte.IsDigit first) :
    Tracks start start.HasReached (number limit fault first)
      (fun r c => r.1 ≤ limit ∧ start.HasSeen r.2 c) := by
  have hValue :=
    Nat.le_trans (Byte.digit_le_nine hFirst) hLimit
  exact tracks_bind (tracks_require hFirst) fun _ =>
    tracks_numberFrom hFresh fault hValue

end

end Parser

end Dimacs
