import Dimacs.Proofs.Cursor.Moves

/-
  A cursor loses, repeats and reorders nothing. Between any
  two of its states it has asked the source for a number of
  items. Their bytes have been consumed, save one that was
  looked at, and their failures have been taken, save one
  that waits, behind which nothing was asked for.

  Key definitions include:
    * `Cursor.Fetches`
    * `Cursor.Accounts`
    * `Call.Logs`
    * `Cursor.History`
    * `Cursor.Faithful`

  Main statements:
    * `Cursor.Accounts.trans`
    * `Cursor.accounts_of_moves`
    * `Call.Logs.accounts`
    * `Cursor.History.accounts`
    * `Cursor.lookahead_of_history`
    * `Cursor.delivered_before_failure`
    * `cursor_is_faithful`
-/

namespace Dimacs

namespace Source

theorem bytes_append
    (front back : Source) :
    bytes (front ++ back) = front.bytes ++ back.bytes := by
  induction front with
  | nil => rfl
  | cons item front ih =>
      cases item with
      | byte b => exact congrArg (List.cons b) ih
      | failure text => exact ih

theorem failures_append
    (front back : Source) :
    failures (front ++ back) =
      front.failures ++ back.failures := by
  induction front with
  | nil => rfl
  | cons item front ih =>
      cases item with
      | byte b => exact ih
      | failure text => exact congrArg (List.cons text) ih

end Source

namespace Cursor

------------------------------------------------------------
-- Accounts
------------------------------------------------------------

/-
  The byte that was looked at, if it was not the
  end of file.
-/
def ahead
    (c : Cursor) : List UInt8 :=
  match c.lookahead with
  | some (some b) => [b]
  | _ => []

/-
  In between, the source was asked for the items. What they
  brought was consumed, taken, or is at hand. A failure that
  waits was there before, or was asked for last.
-/
structure Fetches
    (start : Cursor)
    (items : Source)
    (consumed : List UInt8)
    (taken : List String)
    (c : Cursor) : Prop where
  rest : start.rest = items ++ c.rest
  bytes : start.ahead ++ items.bytes = consumed ++ c.ahead
  failures :
      start.failure.toList ++ items.failures =
        taken ++ c.failure.toList
  waiting :
      ∀ text ∈ c.failure,
        (items = [] ∧ start.failure = some text) ∨
        ∃ front, items = front ++ [.failure text]
  line : c.line = start.line + consumed.count Byte.lineFeed

/-
  In between, the bytes were consumed and
  the failures taken.
-/
def Accounts
    (start : Cursor)
    (consumed : List UInt8)
    (taken : List String)
    (c : Cursor) : Prop :=
  ∃ items, start.Fetches items consumed taken c

variable {start c c' : Cursor}
variable {consumed consumed' : List UInt8}
variable {taken taken' : List String}

/-
  A step that does not touch the source
  accounts for nothing.
-/
theorem accounts_of_rest
    (hRest : start.rest = c.rest)
    (hBytes : start.ahead = consumed ++ c.ahead)
    (hFailure : start.failure = c.failure)
    (hLine :
      c.line = start.line + consumed.count Byte.lineFeed) :
    start.Accounts consumed [] c := by
  refine ⟨[], hRest, ?_, ?_, ?_, hLine⟩
  · rw [← hBytes]
    exact List.append_nil _
  · rw [hFailure]
    exact List.append_nil _
  · intro text hText
    exact .inl ⟨rfl, hFailure.trans hText⟩

theorem accounts_self
    (c : Cursor) :
    c.Accounts [] [] c :=
  accounts_of_rest rfl rfl rfl rfl

/- Accounts of two stretches add up. -/
theorem Accounts.trans
    (hFirst : start.Accounts consumed taken c)
    (hSecond : c.Accounts consumed' taken' c') :
    start.Accounts (consumed ++ consumed') (taken ++ taken')
      c' := by
  rcases hFirst with ⟨items, hFirst⟩
  rcases hSecond with ⟨items', hSecond⟩
  refine ⟨items ++ items', ?_, ?_, ?_, ?_, ?_⟩
  · rw [hFirst.rest, hSecond.rest, List.append_assoc]
  · rw [Source.bytes_append, ← List.append_assoc,
      hFirst.bytes, List.append_assoc, hSecond.bytes,
      List.append_assoc]
  · rw [Source.failures_append, ← List.append_assoc,
      hFirst.failures, List.append_assoc, hSecond.failures,
      List.append_assoc]
  · intro text hText
    rcases hSecond.waiting text hText with
      ⟨rfl, hKept⟩ | ⟨front, rfl⟩
    · rw [List.append_nil]
      exact hFirst.waiting text hKept
    · exact .inr
        ⟨items ++ front, (List.append_assoc _ _ _).symm⟩
  · rw [hSecond.line, hFirst.line, List.count_append,
      Nat.add_assoc]

/- What lies between two states is determined by them. -/
theorem Accounts.unique
    (h : start.Accounts consumed taken c)
    (h' : start.Accounts consumed' taken' c) :
    consumed = consumed' ∧ taken = taken' := by
  rcases h with ⟨items, h⟩
  rcases h' with ⟨items', h'⟩
  have hItems : items = items' := by
    have hRest := h.rest
    rw [h'.rest] at hRest
    exact (List.append_cancel_right hRest).symm
  subst hItems
  have hBytes := h.bytes
  have hFailures := h.failures
  rw [h'.bytes] at hBytes
  rw [h'.failures] at hFailures
  exact ⟨(List.append_cancel_right hBytes).symm,
    (List.append_cancel_right hFailures).symm⟩

------------------------------------------------------------
-- Steps
------------------------------------------------------------

theorem lineBehind_eq
    (b : UInt8)
    (line : Nat) :
    lineBehind b line = line + [b].count Byte.lineFeed := by
  unfold lineBehind
  by_cases hFeed : b = Byte.lineFeed
  · simp [hFeed]
  · simp [hFeed]

/-
  A byte is accounted for when it is consumed, not when it
  is looked at.
-/
theorem accounts_next
    (c : Cursor) :
    c.Accounts c.next.1.toList [] c.next.2 := by
  have hDelivers := c.delivers_next
  generalize c.next = delivered at hDelivers ⊢
  rcases delivered with ⟨found, c'⟩
  cases hDelivers with
  | seenByte b hAhead =>
      have hByte : c.ahead = [b] := by rw [ahead, hAhead]
      exact accounts_of_rest rfl hByte rfl
        (lineBehind_eq b c.line)
  | seenEnd hAhead =>
      have hEnd : c.ahead = [] := by rw [ahead, hAhead]
      exact accounts_of_rest rfl hEnd rfl rfl
  | waiting text hAhead hFailure => exact accounts_self _
  | byte b rest hAhead hFailure hRest =>
      refine ⟨[.byte b], hRest, ?_, ?_, ?_,
        lineBehind_eq b c.line⟩
      · simp [ahead, hAhead, Source.bytes]
      · simp [hFailure, Source.failures]
      · intro text hText
        rw [hFailure] at hText
        cases hText
  | failure text rest hAhead hFailure hRest =>
      refine ⟨[.failure text], hRest, ?_, ?_, ?_, rfl⟩
      · simp [ahead, hAhead, Source.bytes]
      · simp [hFailure, Source.failures]
      · rintro _ ⟨⟩
        exact .inr ⟨[], rfl⟩
  | finished hAhead hFailure hRest =>
      exact accounts_of_rest rfl rfl rfl rfl

/- Looking at a byte consumes nothing. -/
theorem accounts_peek
    (c : Cursor) :
    c.Accounts [] [] c.peek.2 := by
  rcases c with
    ⟨rest, ended, lookahead, line, failure, name⟩
  rcases lookahead with _ | seen
  · rcases failure with _ | text
    · rcases rest with _ | ⟨b | text, rest⟩
      · exact accounts_of_rest rfl rfl rfl rfl
      · refine ⟨[.byte b], rfl, rfl, rfl, ?_, rfl⟩
        exact nofun
      · refine ⟨[.failure text], rfl, rfl, rfl, ?_, rfl⟩
        rintro _ ⟨⟩
        exact .inr ⟨[], rfl⟩
    · exact accounts_of_rest rfl rfl rfl rfl
  · exact accounts_self _

/- A failure that is taken is the one that waited. -/
theorem accounts_takeFailure
    (c : Cursor) :
    c.Accounts [] c.takeFailure.1.toList
      c.takeFailure.2 := by
  refine ⟨[], rfl, List.append_nil _, rfl, ?_, rfl⟩
  exact nofun

/-
  Moves take no failure, and consume what
  they were answered.
-/
theorem accounts_of_moves
    (h : start.Moves consumed c) :
    start.Accounts consumed [] c := by
  induction h with
  | stay => exact accounts_self start
  | peek _ ih =>
      have hPeeked := ih.trans (accounts_peek _)
      rwa [List.append_nil] at hPeeked
  | next _ ih => exact ih.trans (accounts_next _)

end Cursor

------------------------------------------------------------
-- Histories
------------------------------------------------------------

variable {c c' d d' : Cursor}
variable {call : Call}
variable {calls : List Call}
variable {consumed consumed' : List UInt8}
variable {taken taken' : List String}

/-
  What a call consumed and took. A call that takes no
  failure has consumed what its moves were answered.
-/
inductive Call.Logs :
    Call → Cursor → List UInt8 → List String → Cursor → Prop
  | take
      (c : Cursor) :
      Logs .takeFailure c [] c.takeFailure.1.toList
        c.takeFailure.2
  | move
      {call : Call}
      {c c' : Cursor}
      {consumed : List UInt8}
      (hMove : call ≠ .takeFailure)
      (hPerform : c.perform call = .ok c')
      (hMoves : c.Moves consumed c') :
      Logs call c consumed [] c'

namespace Call

theorem Logs.perform
    (h : call.Logs c consumed taken c') :
    c.perform call = .ok c' := by
  cases h with
  | take => rfl
  | move _ hPerform _ => exact hPerform

theorem Logs.accounts
    (h : call.Logs c consumed taken c') :
    c.Accounts consumed taken c' := by
  cases h with
  | take => exact c.accounts_takeFailure
  | move _ _ hMoves => exact Cursor.accounts_of_moves hMoves

/- Every call succeeds. -/
theorem exists_logs
    (c : Cursor)
    (call : Call) :
    ∃ consumed taken c', call.Logs c consumed taken c' := by
  by_cases hMove : call = .takeFailure
  · subst hMove
    exact ⟨_, _, _, .take c⟩
  · rcases c.exists_moves_of_call hMove with
      ⟨c', hPerform, consumed, hMoves⟩
    exact ⟨consumed, [], c', .move hMove hPerform hMoves⟩

end Call

namespace Cursor

/-
  Calls one after the other, all bytes that they consumed
  and all failures that they took.
-/
inductive History :
    Cursor →
      List Call →
      List UInt8 →
      List String →
      Cursor → Prop
  | start (c : Cursor) : History c [] [] [] c
  | call
      {call : Call}
      {calls : List Call}
      {consumed consumed' : List UInt8}
      {taken taken' : List String}
      {c c₁ c' : Cursor}
      (hCall : call.Logs c consumed taken c₁)
      (hRest : History c₁ calls consumed' taken' c') :
      History c (call :: calls) (consumed ++ consumed')
        (taken ++ taken') c'

/-
  Every run of calls accounts for what the source
  was asked for.
-/
theorem History.accounts
    (h : c.History calls consumed taken c') :
    c.Accounts consumed taken c' := by
  induction h with
  | start => exact accounts_self _
  | call hCall _ ih => exact hCall.accounts.trans ih

theorem exists_history
    (c : Cursor)
    (calls : List Call) :
    ∃ consumed taken c',
      c.History calls consumed taken c' := by
  induction calls generalizing c with
  | nil => exact ⟨[], [], c, .start c⟩
  | cons call calls ih =>
      rcases call.exists_logs c with
        ⟨consumed, taken, c₁, hCall⟩
      rcases ih c₁ with ⟨consumed', taken', c', hRest⟩
      exact ⟨_, _, c', .call hCall hRest⟩

/- The calls alone determine where they lead. -/
theorem History.cursor_eq
    (h : c.History calls consumed taken d)
    (h' : c.History calls consumed' taken' d') :
    d = d' := by
  induction h generalizing consumed' taken' with
  | start =>
      cases h'
      rfl
  | call hCall _ ih =>
      cases h' with
      | call hCall' hRest' =>
          have hSame := hCall.perform
          rw [hCall'.perform] at hSame
          cases hSame
          exact ih hRest'

------------------------------------------------------------
-- What Was Looked At
------------------------------------------------------------

/-
  What was looked at stays in front until
  something is consumed.
-/
theorem lookahead_of_history
    {seen : Option UInt8}
    (hSeen : c.lookahead = some seen)
    (hCalls :
      ∀ call ∈ calls, call = .peek ∨ call = .takeFailure)
    (h : c.History calls consumed taken c') :
    c'.lookahead = some seen := by
  induction h with
  | start => exact hSeen
  | call hCall _ ih =>
      rcases List.forall_mem_cons.mp hCalls with
        ⟨hFirst, hRest⟩
      apply ih _ hRest
      have hPerform := hCall.perform
      rcases hFirst with rfl | rfl
      · cases hPerform
        rw [peek, hSeen]
        exact hSeen
      · cases hPerform
        exact hSeen

theorem next_of_lookahead
    {seen : Option UInt8}
    (hSeen : c.lookahead = some seen) :
    c.next.1 = seen := by
  rw [next, draw, hSeen]
  cases seen with
  | none => rfl
  | some b => rfl

theorem lookahead_peek
    (c : Cursor) :
    c.peek.2.lookahead = some c.peek.1 := by
  unfold peek
  cases hAhead : c.lookahead with
  | none => rfl
  | some seen => exact hAhead

/-
  An end of file that was looked at outlives the failure
  that caused it.
-/
example :
    (ofSource [.failure "broken", .byte 50]
        "").peek.2.takeFailure.2.next.1 =
      none :=
  rfl

------------------------------------------------------------
-- Fresh Cursors
------------------------------------------------------------

variable {source : Source}
variable {name : String}

/-
  The front part of the source that a fresh cursor
  has asked for.
-/
theorem exists_items_of_accounts
    (h : (ofSource source name).Accounts consumed taken c) :
    ∃ items,
      source = items ++ c.rest ∧
      items.bytes = consumed ++ c.ahead ∧
      items.failures = taken ++ c.failure.toList ∧
      ∀ text ∈ c.failure,
        ∃ front, items = front ++ [.failure text] := by
  rcases h with ⟨items, h⟩
  refine ⟨items, h.rest, h.bytes, h.failures, ?_⟩
  intro text hText
  rcases h.waiting text hText with ⟨_, hEarlier⟩ | hLast
  · cases hEarlier
  · exact hLast

/-
  What ends with a failure has nothing behind
  its only failure.
-/
theorem eq_nil_of_failures
    {before rest front : Source}
    {text last : String}
    (hItems :
      before ++ .failure text :: rest =
        front ++ [.failure last])
    (hNone : rest.failures = []) :
    rest = [] := by
  rcases List.eq_nil_or_concat rest with
    rfl | ⟨rest, item, rfl⟩
  · rfl
  · rw [List.concat_eq_append] at hItems hNone
    rw [← List.cons_append, ← List.append_assoc] at hItems
    rcases List.cons.inj
        (List.append_inj' hItems rfl).2 with
      ⟨rfl, _⟩
    rw [Source.failures_append] at hNone
    exact absurd (List.append_eq_nil_iff.mp hNone).2
      (List.cons_ne_nil _ _)

/-
  As long as a failure of the source was not taken, only
  bytes in front of it were given out.
-/
theorem delivered_before_failure
    {before behind : Source}
    {text : String}
    (h : (ofSource source name).Accounts consumed taken c)
    (hSource : source = before ++ .failure text :: behind)
    (hTaken : taken.length ≤ before.failures.length) :
    consumed ++ c.ahead <+: before.bytes := by
  rcases exists_items_of_accounts h with
    ⟨items, hRest, hBytes, hFailures, hWaiting⟩
  rw [← hBytes]
  rw [hRest] at hSource
  rcases append_eq_append_cons_iff.mp hSource with
    ⟨rest, rfl, _⟩ | ⟨rest, rfl, _⟩
  · -- The failure was asked for, so that it is the
    -- one that waits.
    have hLengths := congrArg List.length hFailures
    rw [Source.failures_append, List.length_append,
      List.length_append] at hLengths
    cases hFailure : c.failure with
    | none =>
        rw [hFailure] at hLengths
        simp only [Source.failures, List.length_cons,
          Option.toList_none, List.length_nil] at hLengths
        omega
    | some last =>
        rw [hFailure] at hLengths
        simp only [Source.failures, List.length_cons,
          Option.toList_some, List.length_nil] at hLengths
        have hNone : Source.failures rest = [] :=
          List.eq_nil_of_length_eq_zero (by omega)
        rcases hWaiting last hFailure with ⟨front, hItems⟩
        have hSame :
            Source.bytes (before ++ [.failure text]) =
              before.bytes := by
          rw [Source.bytes_append]
          exact List.append_nil _
        rw [eq_nil_of_failures hItems hNone]
        exact ⟨[], (List.append_nil _).trans hSame⟩
  · rw [Source.bytes_append]
    exact List.prefix_append _ _

/-
  What is known of a cursor that consumed bytes and took
  failures of a source. Both are the front of what the
  source holds, in order, and nothing is missing of the
  rest. No failure that was not taken has been passed. The
  line counts the line feeds, and what is looked at is
  what comes next.
-/
structure Faithful
    (source : Source)
    (consumed : List UInt8)
    (taken : List String)
    (c : Cursor) : Prop where
  bytes :
      source.bytes = consumed ++ (c.ahead ++ c.rest.bytes)
  failures :
      source.failures =
        taken ++ (c.failure.toList ++ c.rest.failures)
  delivered :
      ∀ (before : Source) text behind,
        source = before ++ .failure text :: behind →
        taken.length ≤ before.failures.length →
        consumed ++ c.ahead <+: before.bytes
  line : c.line = 1 + consumed.count Byte.lineFeed
  peeked :
      ∀ calls consumed' taken' c',
        c.peek.2.History calls consumed' taken' c' →
        (∀ call ∈ calls,
          call = .peek ∨ call = .takeFailure) →
        c'.next.1 = c.peek.1

theorem faithful_of_accounts
    (h : (ofSource source name).Accounts consumed taken c) :
    c.Faithful source consumed taken := by
  rcases exists_items_of_accounts h with
    ⟨items, hRest, hBytes, hFailures, _⟩
  constructor
  case bytes =>
    rw [hRest, Source.bytes_append, hBytes,
      List.append_assoc]
  case failures =>
    rw [hRest, Source.failures_append, hFailures,
      List.append_assoc]
  case delivered =>
    intro before text behind hSource hTaken
    exact delivered_before_failure h hSource hTaken
  case line =>
    rcases h with ⟨_, h⟩
    exact h.line
  case peeked =>
    intro calls consumed' taken' c' hHistory hCalls
    exact next_of_lookahead
      (lookahead_of_history c.lookahead_peek hCalls
        hHistory)

end Cursor

/-
  Any calls on a cursor over any source have exactly one
  history, and the cursor they lead to has given out the
  source faithfully.
-/
theorem cursor_is_faithful
    (source : Source)
    (name : String)
    (calls : List Call) :
    ∃ consumed taken c,
      (Cursor.ofSource source name).History calls consumed
        taken c ∧
      c.Faithful source consumed taken ∧
      ∀ consumed' taken' c',
        (Cursor.ofSource source name).History calls
          consumed' taken' c' →
        consumed' = consumed ∧ taken' = taken ∧ c' = c := by
  rcases Cursor.exists_history (Cursor.ofSource source name)
      calls with
    ⟨consumed, taken, c, hHistory⟩
  have hAccounts := hHistory.accounts
  refine ⟨consumed, taken, c, hHistory,
    Cursor.faithful_of_accounts hAccounts, ?_⟩
  intro consumed' taken' c' hOther
  have hCursor := hOther.cursor_eq hHistory
  subst hCursor
  rcases hOther.accounts.unique hAccounts with
    ⟨hConsumed, hTaken⟩
  exact ⟨hConsumed, hTaken, rfl⟩

end Dimacs
