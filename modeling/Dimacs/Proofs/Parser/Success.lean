import Dimacs.Problem.Parser
import Dimacs.Proofs.Cursor.Reading

/-
  When a reader succeeds, and where it leaves the cursor:
  one equivalence for each way to combine readers and for
  each piece that comments, header and clauses share.

  Key definitions include:
    * `LineEnd`

  Main statements:
    * `Parser.bind_ok_iff`
    * `Parser.finishLine_ok_iff`
    * `Parser.pastBlanks_iff`
    * `Parser.skipBlanks_next`
    * `Parser.numberFrom_ok_iff`
    * `Parser.number_ok_iff`
-/

namespace Dimacs

namespace Byte

/- A longer run of digits never denotes a smaller number. -/
theorem le_foldl_decimal
    (value : Nat)
    (digits : List UInt8) :
    value ≤
      digits.foldl (fun value b => value * 10 + digit b)
        value := by
  induction digits generalizing value with
  | nil => exact Nat.le_refl _
  | cons b digits ih =>
      rw [List.foldl_cons]
      have hRest := ih (value * 10 + digit b)
      omega

theorem decimal_cons
    (b : UInt8)
    (digits : List UInt8) :
    decimal (b :: digits) =
      digits.foldl (fun value b => value * 10 + digit b)
        (digit b) := by
  rw [decimal, List.foldl_cons, Nat.zero_mul, Nat.zero_add]

end Byte

/- The two ways to end a line. -/
inductive LineEnd where
  | lineFeed
  | carriageReturn
deriving DecidableEq

/- The bytes of a line end. -/
def LineEnd.bytes : LineEnd → List UInt8
  | lineFeed => [Byte.lineFeed]
  | carriageReturn => [Byte.carriageReturn, Byte.lineFeed]

theorem LineEnd.bytes_ne_nil
    (close : LineEnd) :
    close.bytes ≠ [] := by
  cases close <;> exact List.cons_ne_nil _ _

namespace Parser

variable {α β : Type}

------------------------------------------------------------
-- Combinations of Readers
------------------------------------------------------------

theorem pure_ok_iff
    {a b : α}
    {c c' : Cursor} :
    (pure a : Parser α) c = .ok b c' ↔ a = b ∧ c = c' := by
  constructor
  · intro h
    cases h
    exact ⟨rfl, rfl⟩
  · intro h
    rcases h with ⟨rfl, rfl⟩
    rfl

theorem bind_apply
    (p : Parser α)
    (f : α → Parser β)
    (c : Cursor) :
    (p >>= f) c =
      match p c with
      | .ok a c₁ => f a c₁
      | .error e c₁ => .error e c₁ := by
  change EStateM.bind p f c = _
  unfold EStateM.bind
  cases p c <;> rfl

theorem bind_of_ok
    {p : Parser α}
    {f : α → Parser β}
    {a : α}
    {c c₁ : Cursor}
    (h : p c = .ok a c₁) :
    (p >>= f) c = f a c₁ := by
  rw [bind_apply, h]

theorem bind_of_error
    {p : Parser α}
    {f : α → Parser β}
    {e : ParseError}
    {c c₁ : Cursor}
    (h : p c = .error e c₁) :
    (p >>= f) c = .error e c₁ := by
  rw [bind_apply, h]

theorem byte_bind
    (f : Option UInt8 → Parser β)
    (c : Cursor) :
    (byte >>= f) c = f c.next.1 c.next.2 :=
  bind_of_ok rfl

/-
  A sequence succeeds if both readers do, one
  behind the other.
-/
theorem bind_ok_iff
    {p : Parser α}
    {f : α → Parser β}
    {b : β}
    {c c' : Cursor} :
    (p >>= f) c = .ok b c' ↔
      ∃ a c₁, p c = .ok a c₁ ∧ f a c₁ = .ok b c' := by
  rw [bind_apply]
  split
  · next a c₁ hFirst =>
      constructor
      · intro h
        exact ⟨a, c₁, hFirst, h⟩
      · intro h
        rcases h with ⟨a', c₁', hFirst', h⟩
        rw [hFirst] at hFirst'
        cases hFirst'
        exact h
  · next e c₁ hFirst =>
      constructor
      · intro h
        cases h
      · intro h
        rcases h with ⟨a', c₁', hFirst', h⟩
        rw [hFirst] at hFirst'
        cases hFirst'

theorem byte_ok_iff
    {ahead : Option UInt8}
    {c c' : Cursor} :
    byte c = .ok ahead c' ↔ c.next = (ahead, c') := by
  rcases hNext : c.next with ⟨b, c₁⟩
  simp only [byte, hNext, EStateM.Result.ok.injEq,
    Prod.mk.injEq]

@[simp] theorem fail_ne_ok
    {fault : Fault}
    {a : α}
    {c c' : Cursor} :
    fail fault c ≠ .ok a c' :=
  nofun

@[simp] theorem failBefore_ne_ok
    {ahead : Option UInt8}
    {fault : Fault}
    {a : α}
    {c c' : Cursor} :
    failBefore ahead fault c ≠ .ok a c' := by
  intro h
  rw [failBefore, bind_ok_iff] at h
  rcases h with ⟨_, _, _, hFail⟩
  exact fail_ne_ok hFail

theorem require_ok_iff
    {condition : Prop}
    [Decidable condition]
    {u : Unit}
    {c c' : Cursor} :
    require condition c = .ok u c' ↔
      condition ∧ c = c' := by
  unfold require Check.require
  by_cases h : condition
  · simp [h]
  · simp [h]

------------------------------------------------------------
-- Line Ends and Blank Runs
------------------------------------------------------------

theorem finishLine_ok_iff
    {u : Unit}
    {c c' : Cursor} :
    finishLine c = .ok u c' ↔
      c.Reads [Byte.lineFeed] c' := by
  simp only [finishLine, bind_ok_iff, byte_ok_iff,
    Cursor.reads_singleton]
  constructor
  · intro h
    rcases h with ⟨ahead, c₁, hNext, h⟩
    split at h
    · next hFeed =>
        rw [pure_ok_iff] at h
        rw [← h.2, hNext, hFeed]
    · exact absurd h fail_ne_ok
  · intro hNext
    exact ⟨_, c', hNext,
      by rw [if_pos rfl, pure_ok_iff]; exact ⟨rfl, rfl⟩⟩

/-
  A blank run is read as a whole, together with the
  byte behind it.
-/
theorem pastBlanks_iff
    {ahead : Option UInt8}
    {c c' : Cursor} :
    pastBlanks c = (ahead, c') ↔
      ∃ blanks,
        c.ReadsRun Byte.IsBlank blanks ahead c' := by
  fun_induction pastBlanks c with
  | case1 c b c₁ hNext hBlank ih =>
      simp only [ih, Cursor.readsRun_of_kind hNext hBlank]
      constructor
      · intro h
        rcases h with ⟨blanks, hRun⟩
        exact ⟨b :: blanks, blanks, rfl, hRun⟩
      · intro h
        rcases h with ⟨_, blanks, rfl, hRun⟩
        exact ⟨blanks, hRun⟩
  | case2 c b c₁ hNext hBlank =>
      simp [Cursor.readsRun_of_not_kind hNext hBlank,
        eq_comm]
  | case3 c c₁ hNext =>
      simp [Cursor.readsRun_of_end hNext, eq_comm]

theorem byteAfterBlanks_ok_iff
    {ahead : Option UInt8}
    {c c' : Cursor} :
    byteAfterBlanks c = .ok ahead c' ↔
      ∃ blanks,
        c.ReadsRun Byte.IsBlank blanks ahead c' := by
  rw [← pastBlanks_iff]
  rcases hBlanks : pastBlanks c with ⟨b, c₁⟩
  simp only [byteAfterBlanks, hBlanks,
    EStateM.Result.ok.injEq, Prod.mk.injEq]

/- A byte is found behind any run of blanks. -/
theorem byteAfterBlanks_some_iff
    {b : UInt8}
    {c c' : Cursor}
    (hBlank : ¬ Byte.IsBlank b) :
    byteAfterBlanks c = .ok (some b) c' ↔
      ∃ blanks,
        (∀ a ∈ blanks, Byte.IsBlank a) ∧
        c.Reads (blanks ++ [b]) c' := by
  rw [byteAfterBlanks_ok_iff]
  constructor
  · intro h
    rcases h with ⟨blanks, hRun⟩
    exact ⟨blanks, hRun.all,
      Cursor.readsUpTo_some.mp hRun.reads⟩
  · intro h
    rcases h with ⟨blanks, hAll, hReads⟩
    refine
      ⟨blanks, hAll, ?_, Cursor.readsUpTo_some.mpr hReads⟩
    intro a hMem
    rw [Option.mem_some_iff] at hMem
    exact hMem ▸ hBlank

/-
  Skipping blanks from the byte that comes next reads
  the whole run.
-/
theorem skipBlanks_next
    (c : Cursor) :
    skipBlanks c.next.1 c.next.2 = byteAfterBlanks c := by
  unfold byteAfterBlanks
  rw [pastBlanks]
  rcases hNext : c.next with ⟨_ | b, c₁⟩
  · rfl
  · by_cases hBlank : Byte.IsBlank b
    · simp [skipBlanks, hBlank, byteAfterBlanks]
    · simp [skipBlanks, hBlank]
      rfl

------------------------------------------------------------
-- Bounded Numbers
------------------------------------------------------------

/-
  Within 64 bits only the limit decides whether a
  digit is taken.
-/
theorem extend?_eq
    {limit : Nat}
    (hLimit : limit ≤ Check.maxUnsigned64)
    (value : Nat)
    (b : UInt8) :
    extend? limit value b =
      if value * 10 + Byte.digit b ≤ limit then
        some (value * 10 + Byte.digit b)
      else none := by
  rw [extend?, Check.appendDigit?_eq]
  by_cases hFits : value * 10 + Byte.digit b ≤ limit
  · rw [if_pos (Nat.le_trans hFits hLimit), if_pos hFits,
      Option.filter_some, decide_eq_true hFits]
    rfl
  · rw [if_neg hFits]
    split
    · rw [Option.filter_some, decide_eq_false hFits]
      rfl
    · rfl

/-
  Digits are read as a whole if the number they continue
  stays within the limit.
-/
theorem numberFrom_ok_iff
    {limit value n : Nat}
    {fault : Fault}
    {ahead : Option UInt8}
    {c c' : Cursor}
    (hLimit : limit ≤ Check.maxUnsigned64)
    (hValue : value ≤ limit) :
    numberFrom limit fault value c = .ok (n, ahead) c' ↔
      ∃ digits,
        c.ReadsRun Byte.IsDigit digits ahead c' ∧
        digits.foldl
            (fun value b => value * 10 + Byte.digit b)
            value =
          n ∧
        n ≤ limit := by
  fun_induction numberFrom limit fault value c with
  | case1 value c b c₁ hNext hDigit extended hExtend ih =>
      rw [extend?_eq hLimit] at hExtend
      split at hExtend
      case isFalse => cases hExtend
      case isTrue hFits =>
        cases hExtend
        simp only [ih hFits,
          Cursor.readsRun_of_kind hNext hDigit]
        constructor
        · intro h
          rcases h with ⟨digits, hRun, hValue⟩
          exact ⟨b :: digits, ⟨digits, rfl, hRun⟩, hValue⟩
        · intro h
          rcases h with ⟨_, ⟨digits, rfl, hRun⟩, hValue⟩
          exact ⟨digits, hRun, hValue⟩
  | case2 value c b c₁ hNext hDigit hExtend =>
      constructor
      · intro h
        exact absurd h fail_ne_ok
      · intro h
        rcases h with ⟨digits, hRun, hFold, hn⟩
        rcases (Cursor.readsRun_of_kind hNext hDigit).mp
            hRun with
          ⟨rest, rfl, _⟩
        -- The digit that is refused already carries the
        -- number past the limit.
        have hMono := Byte.le_foldl_decimal
          (value * 10 + Byte.digit b) rest
        rw [List.foldl_cons] at hFold
        rw [extend?_eq hLimit, if_pos (by omega)] at hExtend
        cases hExtend
  | case3 value c b c₁ hNext hDigit =>
      simp only [Cursor.readsRun_of_not_kind hNext hDigit,
        EStateM.Result.ok.injEq, Prod.mk.injEq]
      constructor
      · intro h
        rcases h with ⟨⟨rfl, rfl⟩, rfl⟩
        exact ⟨[], ⟨rfl, rfl, rfl⟩, rfl, hValue⟩
      · intro h
        rcases h with ⟨_, ⟨rfl, rfl, rfl⟩, rfl, _⟩
        exact ⟨⟨rfl, rfl⟩, rfl⟩
  | case4 value c c₁ hNext =>
      simp only [Cursor.readsRun_of_end hNext,
        EStateM.Result.ok.injEq, Prod.mk.injEq]
      constructor
      · intro h
        rcases h with ⟨⟨rfl, rfl⟩, rfl⟩
        exact ⟨[], ⟨rfl, rfl, rfl⟩, rfl, hValue⟩
      · intro h
        rcases h with ⟨_, ⟨rfl, rfl, rfl⟩, rfl, _⟩
        exact ⟨⟨rfl, rfl⟩, rfl⟩

theorem isDigit_of_number_ok
    {limit : Nat}
    {fault : Fault}
    {first : UInt8}
    {r : Nat × Option UInt8}
    {c c' : Cursor}
    (h : number limit fault first c = .ok r c') :
    Byte.IsDigit first := by
  rcases bind_ok_iff.mp h with ⟨_, _, hRequire, _⟩
  exact (require_ok_iff.mp hRequire).1

/-
  A number is read if its whole run of digits is
  within the limit.
-/
theorem number_ok_iff
    {limit n : Nat}
    {fault : Fault}
    {first : UInt8}
    {ahead : Option UInt8}
    {c c' : Cursor}
    (hLimit : limit ≤ Check.maxUnsigned64)
    (hNine : 9 ≤ limit) :
    number limit fault first c = .ok (n, ahead) c' ↔
      ∃ digits,
        Byte.IsDigit first ∧
        c.ReadsRun Byte.IsDigit digits ahead c' ∧
        Byte.decimal (first :: digits) = n ∧
        n ≤ limit := by
  rw [number]
  refine bind_ok_iff.trans ?_
  simp only [require_ok_iff, Byte.decimal_cons]
  constructor
  · intro h
    rcases h with ⟨_, c₁, ⟨hFirst, rfl⟩, h⟩
    have hValue :=
      Nat.le_trans (Byte.digit_le_nine hFirst) hNine
    rcases (numberFrom_ok_iff hLimit hValue).mp h with
      ⟨digits, hRun⟩
    exact ⟨digits, hFirst, hRun⟩
  · intro h
    rcases h with ⟨digits, hFirst, hRun⟩
    have hValue :=
      Nat.le_trans (Byte.digit_le_nine hFirst) hNine
    exact ⟨(), c, ⟨hFirst, rfl⟩,
      (numberFrom_ok_iff hLimit hValue).mpr ⟨digits, hRun⟩⟩

end Parser

end Dimacs
