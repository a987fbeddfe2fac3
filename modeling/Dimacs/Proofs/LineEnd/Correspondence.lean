import Dimacs.Proofs.Header.Comment

/-
  A text read twice, once as it is and once with a carriage
  return in front of every line feed. Between two lines both
  cursors stand at the same place. Behind the first byte of
  a line end the second cursor still has the line feed to
  give out.

  Key definitions include:
    * `withReturns`
    * `Cursor.Aligned`
    * `Cursor.AlignedBehind`
    * `Parser.Corresponds`

  Main statements:
    * `Cursor.Aligned.behind_next`
    * `Parser.corresponds_bind`
    * `Parser.corresponds_ite_inner`
    * `Parser.corresponds_ite_lineEnd`
    * `Parser.corresponds_number`
-/

namespace Dimacs

------------------------------------------------------------
-- Texts
------------------------------------------------------------

/-
  The text with a carriage return in front of
  every line feed.
-/
def withReturns
    (bytes : List UInt8) : List UInt8 :=
  bytes.flatMap fun b =>
    if b = Byte.lineFeed then LineEnd.carriageReturn.bytes
    else [b]

theorem withReturns_lineFeed
    (bytes : List UInt8) :
    withReturns (Byte.lineFeed :: bytes) =
      Byte.carriageReturn :: Byte.lineFeed ::
        withReturns bytes :=
  rfl

theorem withReturns_other
    {b : UInt8}
    (hFeed : b ≠ Byte.lineFeed)
    (bytes : List UInt8) :
    withReturns (b :: bytes) = b :: withReturns bytes := by
  rw [withReturns, List.flatMap_cons, if_neg hFeed]
  rfl

namespace Cursor

------------------------------------------------------------
-- Aligned Cursors
------------------------------------------------------------

/-
  Both cursors stand at the same place of a text without
  returns, which the second one gives out with returns.
-/
structure Aligned
    (c d : Cursor) : Prop where
  fresh : c.lookahead = none ∧ d.lookahead = none
  plain : Byte.carriageReturn ∉ c.readable
  paired : d.readable = withReturns c.readable

/-
  What two aligned cursors give out next. Only at a line end
  the bytes differ, and the line feed is still to come.
-/
inductive AlignedBehind :
    Option UInt8 → Cursor → Option UInt8 → Cursor → Prop
  | finish {c d : Cursor} (h : c.Aligned d) :
      AlignedBehind none c none d
  | inner
      {c d : Cursor}
      (b : UInt8)
      (hInner : Byte.IsInner b)
      (h : c.Aligned d) :
      AlignedBehind (some b) c (some b) d
  | lineEnd
      {c d d' : Cursor}
      (hFeed : d.next = (some Byte.lineFeed, d'))
      (h : c.Aligned d') :
      AlignedBehind (some Byte.lineFeed) c
        (some Byte.carriageReturn) d

variable {c c₁ d : Cursor}

theorem aligned_ofBytes
    {bytes : List UInt8}
    (hPlain : Byte.carriageReturn ∉ bytes)
    (name : String) :
    (ofSource (.ofBytes bytes) name).Aligned
      (ofSource (.ofBytes (withReturns bytes)) name) where
  fresh := ⟨rfl, rfl⟩
  plain := by
    rw [readable_ofBytes]
    exact hPlain
  paired := by
    rw [readable_ofBytes, readable_ofBytes]

/- The end of file comes at the same place. -/
theorem Aligned.next_end
    (h : c.Aligned d)
    (hNext : c.next = (none, c₁)) :
    ∃ d₁, d.next = (none, d₁) ∧ c₁.Aligned d₁ := by
  have hReadable : d.readable = [] := by
    rw [h.paired, readable_of_next_none hNext]
    rfl
  rcases next_of_readable_nil hReadable with ⟨d₁, hNext'⟩
  refine ⟨d₁, hNext', ⟨?_, ?_, ?_⟩⟩
  · exact
      ⟨lookahead_of_next hNext, lookahead_of_next hNext'⟩
  · rw [(end_of_next h.fresh.1 hNext).1]
    exact List.not_mem_nil
  · rw [(end_of_next h.fresh.1 hNext).1,
      (end_of_next h.fresh.2 hNext').1]
    rfl

/-
  What is left behind a byte is aligned if its bytes are.
-/
theorem Aligned.of_next
    {d₁ : Cursor}
    {a b : UInt8}
    {d₀ : Cursor}
    (h : c.Aligned d)
    (hNext : c.next = (some b, c₁))
    (hNext' : d₀.next = (some a, d₁))
    (hPaired : d₁.readable = withReturns c₁.readable) :
    c₁.Aligned d₁ where
  fresh :=
    ⟨lookahead_of_next hNext, lookahead_of_next hNext'⟩
  plain := by
    intro hMem
    apply h.plain
    rw [readable_of_next hNext]
    exact List.mem_cons_of_mem b hMem
  paired := hPaired

/- Within a line both give out the same byte. -/
theorem Aligned.next_inner
    {b : UInt8}
    (h : c.Aligned d)
    (hNext : c.next = (some b, c₁))
    (hFeed : b ≠ Byte.lineFeed) :
    ∃ d₁, d.next = (some b, d₁) ∧ c₁.Aligned d₁ := by
  have hReadable :
      d.readable = b :: withReturns c₁.readable := by
    rw [h.paired, readable_of_next hNext,
      withReturns_other hFeed]
  rcases next_of_readable hReadable with
    ⟨d₁, hNext', hPaired⟩
  exact ⟨d₁, hNext', h.of_next hNext hNext' hPaired⟩

/- At a line end the line feed comes behind a return. -/
theorem Aligned.next_lineFeed
    (h : c.Aligned d)
    (hNext : c.next = (some Byte.lineFeed, c₁)) :
    ∃ d₁ d₂,
      d.next = (some Byte.carriageReturn, d₁) ∧
      d₁.next = (some Byte.lineFeed, d₂) ∧
      c₁.Aligned d₂ := by
  have hReadable :
      d.readable =
        Byte.carriageReturn :: Byte.lineFeed ::
          withReturns c₁.readable := by
    rw [h.paired, readable_of_next hNext,
      withReturns_lineFeed]
  rcases next_of_readable hReadable with
    ⟨d₁, hReturn, hReadable₁⟩
  rcases next_of_readable hReadable₁ with
    ⟨d₂, hFeed, hPaired⟩
  exact
    ⟨d₁, d₂, hReturn, hFeed, h.of_next hNext hFeed hPaired⟩

/- The text holds no carriage return to give out. -/
theorem Aligned.isInner_of_next
    {b : UInt8}
    (h : c.Aligned d)
    (hNext : c.next = (some b, c₁))
    (hFeed : b ≠ Byte.lineFeed) :
    Byte.IsInner b := by
  refine ⟨?_, hFeed⟩
  rintro rfl
  apply h.plain
  rw [readable_of_next hNext]
  exact List.mem_cons_self

/- Whatever comes next, both cursors stay together. -/
theorem Aligned.behind_next
    (h : c.Aligned d) :
    AlignedBehind c.next.1 c.next.2 d.next.1 d.next.2 := by
  rcases hNext : c.next with ⟨_ | b, c₁⟩
  · rcases h.next_end hNext with ⟨d₁, hNext', h₁⟩
    rw [hNext']
    exact .finish h₁
  · by_cases hFeed : b = Byte.lineFeed
    · subst hFeed
      rcases h.next_lineFeed hNext with
        ⟨d₁, d₂, hNext', hFeed, h₂⟩
      rw [hNext']
      exact .lineEnd hFeed h₂
    · rcases h.next_inner hNext hFeed with ⟨d₁, hNext', h₁⟩
      rw [hNext']
      exact .inner b (h.isInner_of_next hNext hFeed) h₁

/-
  A byte that ends a run on one side ends it on the other
  side, if a carriage return ends it.
-/
theorem Aligned.stops
    {b : UInt8}
    (h : c.Aligned d)
    (kind : UInt8 → Prop)
    (hReturn : ¬ kind Byte.carriageReturn)
    (hNext : c.next = (some b, c₁))
    (hKind : ¬ kind b) :
    ∃ a d₁,
      d.next = (some a, d₁) ∧
      ¬ kind a ∧
      AlignedBehind (some b) c₁ (some a) d₁ := by
  have hBehind := h.behind_next
  rw [hNext] at hBehind
  rcases hNext' : d.next with ⟨ahead, d₁⟩
  rw [hNext'] at hBehind
  cases hBehind with
  | inner _ hInner h₁ =>
      exact ⟨b, d₁, rfl, hKind, .inner b hInner h₁⟩
  | lineEnd hFeed h₁ =>
      exact ⟨_, d₁, rfl, hReturn, .lineEnd hFeed h₁⟩

/- A byte within a line is seen on both sides or on none. -/
theorem AlignedBehind.eq_some_iff
    {ahead ahead' : Option UInt8}
    {b : UInt8}
    (h : AlignedBehind ahead c ahead' d)
    (hInner : Byte.IsInner b) :
    ahead = some b ↔ ahead' = some b := by
  cases h with
  | finish h => exact Iff.rfl
  | inner a _ h => exact Iff.rfl
  | lineEnd hFeed h =>
      rw [Option.some.injEq, Option.some.injEq]
      exact iff_of_false hInner.2.symm hInner.1.symm

theorem AlignedBehind.aligned
    {ahead : Option UInt8}
    {b : UInt8}
    (h : AlignedBehind (some b) c ahead d)
    (hInner : Byte.IsInner b) :
    c.Aligned d := by
  cases h with
  | inner _ _ h => exact h
  | lineEnd hFeed h => exact absurd rfl hInner.2

end Cursor

namespace Parser

open Cursor (Aligned AlignedBehind)

------------------------------------------------------------
-- Corresponding Results
------------------------------------------------------------

variable {α β : Type}

/-
  Both readings fail, whatever the errors are, or both
  succeed, and what they read and where is related.
-/
inductive Corresponds
    (V : α → Cursor → α → Cursor → Prop) :
    EStateM.Result ParseError Cursor α →
      EStateM.Result ParseError Cursor α → Prop
  | ok {a a' : α} {c d : Cursor} (h : V a c a' d) :
      Corresponds V (.ok a c) (.ok a' d)
  | error (e e' : ParseError) (c d : Cursor) :
      Corresponds V (.error e c) (.error e' d)

/-
  Both have read the same, and their cursors are aligned.
-/
def Agree
    (a : α)
    (c : Cursor)
    (a' : α)
    (d : Cursor) : Prop :=
  a = a' ∧ c.Aligned d

/- Both have read the same, and a byte behind it. -/
def AgreeBefore
    (r : α × Option UInt8)
    (c : Cursor)
    (r' : α × Option UInt8)
    (d : Cursor) : Prop :=
  r.1 = r'.1 ∧ AlignedBehind r.2 c r'.2 d

variable {V : α → Cursor → α → Cursor → Prop}
variable {W : β → Cursor → β → Cursor → Prop}
variable {c d : Cursor}

theorem corresponds_bind
    {p q : Parser α}
    {f g : α → Parser β}
    (hFirst : Corresponds V (p c) (q d))
    (hRest :
      ∀ a c₁ a' d₁,
        V a c₁ a' d₁ → Corresponds W (f a c₁) (g a' d₁)) :
    Corresponds W ((p >>= f) c) ((q >>= g) d) := by
  rw [bind_apply, bind_apply]
  generalize p c = left at hFirst
  generalize q d = right at hFirst
  cases hFirst with
  | ok h => exact hRest _ _ _ _ h
  | error e e' c₁ d₁ => exact .error e e' c₁ d₁

/-
  Readings that both fail correspond, whatever
  their errors are.
-/
theorem corresponds_of_ne_ok
    {p q : Parser α}
    (hLeft : ∀ a c', p c ≠ .ok a c')
    (hRight : ∀ a d', q d ≠ .ok a d') :
    Corresponds V (p c) (q d) := by
  rcases hRun : p c with ⟨a, c'⟩ | ⟨e, c'⟩
  · exact absurd hRun (hLeft a c')
  · rcases hRun' : q d with ⟨a, d'⟩ | ⟨e', d'⟩
    · exact absurd hRun' (hRight a d')
    · exact .error e e' c' d'

theorem corresponds_fail
    (fault fault' : Fault) :
    Corresponds V (fail fault c) (fail fault' d) :=
  .error _ _ _ _

theorem corresponds_failBefore
    (ahead ahead' : Option UInt8)
    (fault fault' : Fault) :
    Corresponds V (failBefore ahead fault c)
      (failBefore ahead' fault' d) :=
  corresponds_of_ne_ok (fun _ _ => failBefore_ne_ok)
    (fun _ _ => failBefore_ne_ok)

theorem corresponds_ite_of_iff
    {condition condition' : Prop}
    [Decidable condition]
    [Decidable condition']
    {p q p' q' : Parser α}
    (hSame : condition ↔ condition')
    (hThen : condition → Corresponds V (p c) (q d))
    (hElse : ¬ condition → Corresponds V (p' c) (q' d)) :
    Corresponds V ((if condition then p else p') c)
      ((if condition' then q else q') d) := by
  by_cases h : condition
  · rw [if_pos h, if_pos (hSame.mp h)]
    exact hThen h
  · rw [if_neg h, if_neg (mt hSame.mpr h)]
    exact hElse h

theorem corresponds_ite
    {condition : Prop}
    [Decidable condition]
    {p q p' q' : Parser α}
    (hThen : condition → Corresponds V (p c) (q d))
    (hElse : ¬ condition → Corresponds V (p' c) (q' d)) :
    Corresponds V ((if condition then p else p') c)
      ((if condition then q else q') d) :=
  corresponds_ite_of_iff Iff.rfl hThen hElse

/-
  A choice by a byte within a line falls the same way
  on both sides.
-/
theorem corresponds_ite_inner
    {ahead ahead' : Option UInt8}
    {b : UInt8}
    {p q p' q' : Parser α}
    (hBehind : AlignedBehind ahead c ahead' d)
    (hInner : Byte.IsInner b)
    (hThen : c.Aligned d → Corresponds V (p c) (q d))
    (hElse : Corresponds V (p' c) (q' d)) :
    Corresponds V ((if ahead = some b then p else p') c)
      ((if ahead' = some b then q else q') d) := by
  apply corresponds_ite_of_iff (hBehind.eq_some_iff hInner)
  · rintro rfl
    exact hThen (hBehind.aligned hInner)
  · intro _
    exact hElse

------------------------------------------------------------
-- Shared Pieces
------------------------------------------------------------

theorem corresponds_byte
    (h : c.Aligned d) :
    Corresponds AlignedBehind (byte c) (byte d) :=
  .ok h.behind_next

/-
  Behind a return the line is finished, which leaves
  the cursors aligned.
-/
theorem finishLine_of_next
    {d' : Cursor}
    (hFeed : d.next = (some Byte.lineFeed, d')) :
    finishLine d = .ok () d' :=
  finishLine_ok_iff.mpr (Cursor.reads_singleton.mpr hFeed)

/-
  A choice that goes on behind the line end, which on one
  side has the line feed still to come.
-/
theorem corresponds_ite_lineEnd
    {ahead ahead' : Option UInt8}
    {p q q' : Parser α}
    (hBehind : AlignedBehind ahead c ahead' d)
    (hEnd : ∀ d', c.Aligned d' → Corresponds V (p c) (p d'))
    (hElse : Corresponds V (q c) (q' d)) :
    Corresponds V
      ((if ahead = some Byte.carriageReturn then
          finishLine >>= fun _ => p
        else if ahead = some Byte.lineFeed then p else q) c)
      ((if ahead' = some Byte.carriageReturn then
          finishLine >>= fun _ => p
        else if ahead' = some Byte.lineFeed then p else q')
        d) := by
  cases hBehind with
  | finish h => exact hElse
  | inner b hInner h =>
      have hReturn : some b ≠ some Byte.carriageReturn :=
        mt Option.some.inj hInner.1
      have hFeed : some b ≠ some Byte.lineFeed :=
        mt Option.some.inj hInner.2
      rw [if_neg hReturn, if_neg hFeed, if_neg hReturn,
        if_neg hFeed]
      exact hElse
  | lineEnd hFeed h =>
      have hReturn :
          some Byte.lineFeed ≠
            some Byte.carriageReturn := by
        decide
      rw [if_neg hReturn, if_pos rfl, if_pos rfl,
        bind_of_ok (finishLine_of_next hFeed)]
      exact hEnd _ h

theorem pastBlanks_corresponds
    (h : c.Aligned d) :
    AlignedBehind (pastBlanks c).1 (pastBlanks c).2
      (pastBlanks d).1 (pastBlanks d).2 := by
  fun_induction pastBlanks c generalizing d with
  | case1 c b c₁ hNext hBlank ih =>
      rcases h.next_inner hNext
          (Byte.isInner_of_isBlank hBlank).2 with
        ⟨d₁, hNext', h₁⟩
      rw [pastBlanks.eq_def d, hNext']
      simp only [if_pos hBlank]
      exact ih h₁
  | case2 c b c₁ hNext hBlank =>
      rcases h.stops Byte.IsBlank (by decide) hNext
          hBlank with
        ⟨a, d₁, hNext', hBlank', hBehind⟩
      rw [pastBlanks.eq_def d, hNext']
      simp only [if_neg hBlank']
      exact hBehind
  | case3 c c₁ hNext =>
      rcases h.next_end hNext with ⟨d₁, hNext', h₁⟩
      rw [pastBlanks.eq_def d, hNext']
      exact .finish h₁

theorem corresponds_byteAfterBlanks
    (h : c.Aligned d) :
    Corresponds AlignedBehind (byteAfterBlanks c)
      (byteAfterBlanks d) :=
  .ok (pastBlanks_corresponds h)

theorem corresponds_skipBlanks
    {ahead ahead' : Option UInt8}
    (hBehind : AlignedBehind ahead c ahead' d) :
    Corresponds AlignedBehind (skipBlanks ahead c)
      (skipBlanks ahead' d) := by
  cases hBehind with
  | finish h => exact .ok (.finish h)
  | inner b hInner h =>
      apply corresponds_ite
      · intro _
        exact corresponds_byteAfterBlanks h
      · intro _
        exact .ok (.inner b hInner h)
  | lineEnd hFeed h => exact .ok (.lineEnd hFeed h)

theorem corresponds_require
    (condition : Prop)
    [Decidable condition]
    (h : c.Aligned d) :
    Corresponds Agree (require condition c)
      (require condition d) := by
  unfold require
  cases Check.require condition with
  | ok u => exact .ok ⟨rfl, h⟩
  | error violation => exact .error _ _ c d

theorem corresponds_numberFrom
    (limit : Nat)
    (fault : Fault)
    (value : Nat)
    (h : c.Aligned d) :
    Corresponds AgreeBefore (numberFrom limit fault value c)
      (numberFrom limit fault value d) := by
  fun_induction numberFrom limit fault value c
      generalizing d with
  | case1 value c b c₁ hNext hDigit extended hExtend ih =>
      rcases h.next_inner hNext
          (Byte.isInner_of_isDigit hDigit).2 with
        ⟨d₁, hNext', h₁⟩
      rw [numberFrom.eq_def limit fault value d, hNext']
      simp only [if_pos hDigit, hExtend]
      exact ih h₁
  | case2 value c b c₁ hNext hDigit hExtend =>
      rcases h.next_inner hNext
          (Byte.isInner_of_isDigit hDigit).2 with
        ⟨d₁, hNext', h₁⟩
      rw [numberFrom.eq_def limit fault value d, hNext']
      simp only [if_pos hDigit, hExtend]
      exact corresponds_fail _ _
  | case3 value c b c₁ hNext hDigit =>
      rcases h.stops Byte.IsDigit (by decide) hNext
          hDigit with
        ⟨a, d₁, hNext', hDigit', hBehind⟩
      rw [numberFrom.eq_def limit fault value d, hNext']
      simp only [if_neg hDigit']
      exact .ok ⟨rfl, hBehind⟩
  | case4 value c c₁ hNext =>
      rcases h.next_end hNext with ⟨d₁, hNext', h₁⟩
      rw [numberFrom.eq_def limit fault value d, hNext']
      exact .ok ⟨rfl, .finish h₁⟩

/-
  A number is read the same way, together with the
  byte behind it.
-/
theorem corresponds_number
    (limit : Nat)
    (fault : Fault)
    (first : UInt8)
    (h : c.Aligned d) :
    Corresponds AgreeBefore (number limit fault first c)
      (number limit fault first d) := by
  apply corresponds_bind (corresponds_require _ h)
  intro _ c₁ _ d₁ hAgree
  exact corresponds_numberFrom _ _ _ hAgree.2

end Parser

end Dimacs
