import Dimacs.Proofs.Parser.Success

/-
  Bounded numbers are read exactly. A number is found if the
  longest run of digits denotes one within the limit,
  however many zeros stand in front. Otherwise reading stops
  behind the digit by which the limit is first exceeded.
  This holds for every limit of 64 bits, also for the
  largest one, where the next product or sum may not fit its
  width any more.

  Key definitions include:
    * `Cursor.digitRun`
    * `IsShortestExcess`

  Main statements:
    * `Cursor.exists_readsRun`
    * `IsShortestExcess.of_last`
    * `Parser.numberFrom_of_excess`
    * `Parser.number_of_excess`
    * `Parser.bounded_numbers_are_read_exactly`
-/

namespace Dimacs

------------------------------------------------------------
-- Runs of Digits
------------------------------------------------------------

namespace Byte

/- A digit at the end shifts the number in front of it. -/
theorem decimal_concat
    (digits : List UInt8)
    (b : UInt8) :
    decimal (digits ++ [b]) =
      decimal digits * 10 + digit b := by
  simp only [decimal, List.foldl_append, List.foldl_cons,
    List.foldl_nil]

/-
  The front part of a run of digits denotes
  no larger number.
-/
theorem decimal_le_of_leads
    {front digits : List UInt8}
    (h : front <+: digits) :
    decimal front ≤ decimal digits := by
  rcases h with ⟨back, rfl⟩
  have hBack := le_foldl_decimal (decimal front) back
  rwa [decimal, decimal, List.foldl_append]

end Byte

namespace Cursor

/- The longest run of digits that comes next. -/
def digitRun
    (c : Cursor) : List UInt8 :=
  c.readable.takeWhile (fun b => decide (Byte.IsDigit b))

/-
  Whatever stands in front of a cursor, its longest run of a
  kind can be read.
-/
theorem exists_readsRun
    (kind : UInt8 → Prop)
    [DecidablePred kind]
    (c : Cursor) :
    ∃ ahead c',
      ReadsRun kind c
        (c.readable.takeWhile (fun b => decide (kind b)))
        ahead c' := by
  rcases exists_reads
      (List.takeWhile_append_dropWhile
        (p := fun b => decide (kind b))
        (l := c.readable)).symm with
    ⟨c₁, hReads, hRest⟩
  rcases hNext : c₁.next with ⟨ahead, c'⟩
  refine ⟨ahead, c', ?_, ?_, c₁, hReads, hNext⟩
  · intro b hb
    exact of_decide_eq_true
      (List.all_eq_true.mp List.all_takeWhile b hb)
  · rintro b rfl
    -- The lookahead is the first byte that was not taken
    -- into the run.
    have hStop := List.head?_dropWhile_not
      (fun b => decide (kind b)) c.readable
    rw [← hRest, readable_of_next hNext] at hStop
    exact of_decide_eq_false hStop

theorem exists_readsRun_digitRun
    (c : Cursor) :
    ∃ ahead c',
      c.ReadsRun Byte.IsDigit c.digitRun ahead c' :=
  exists_readsRun Byte.IsDigit c

end Cursor

------------------------------------------------------------
-- Excess
------------------------------------------------------------

/-
  The shortest front part of the digits that denotes a
  number beyond the limit.
-/
structure IsShortestExcess
    (limit : Nat)
    (digits front : List UInt8) : Prop where
  leads : front <+: digits
  exceeds : limit < Byte.decimal front
  shortest :
      ∀ other,
        other <+: digits →
        limit < Byte.decimal other →
        front.length ≤ other.length

/-
  If the last digit is the one that leads beyond the limit,
  no shorter part does.
-/
theorem IsShortestExcess.of_last
    {limit : Nat}
    {seen : List UInt8}
    {b : UInt8}
    (hWithin : Byte.decimal seen ≤ limit)
    (hExceeds : limit < Byte.decimal (seen ++ [b]))
    (rest : List UInt8) :
    IsShortestExcess limit (seen ++ b :: rest)
      (seen ++ [b]) := by
  refine
    ⟨⟨rest, List.append_assoc seen [b] rest⟩, hExceeds, ?_⟩
  intro other hOther hBeyond
  apply Nat.le_of_not_lt
  intro hShorter
  have hLength : other.length ≤ seen.length := by
    rw [List.length_append, List.length_singleton]
      at hShorter
    exact Nat.le_of_lt_succ hShorter
  have hLeads : other <+: seen :=
    List.prefix_of_prefix_length_le hOther
      (List.prefix_append seen (b :: rest)) hLength
  have hNumber := Byte.decimal_le_of_leads hLeads
  omega

namespace Parser

variable {limit value : Nat}
variable {fault : Fault}
variable {b first : UInt8}
variable {ahead : Option UInt8}
variable {c c₁ c' : Cursor}

------------------------------------------------------------
-- The Loop over the Digits
------------------------------------------------------------

/-
  One digit is appended, or is the last one
  that is consumed.
-/
theorem numberFrom_of_digit
    (hWidth : limit ≤ Check.maxUnsigned64)
    (hNext : c.next = (some b, c₁))
    (hDigit : Byte.IsDigit b) :
    numberFrom limit fault value c =
      if value * 10 + Byte.digit b ≤ limit then
        numberFrom limit fault (value * 10 + Byte.digit b)
          c₁
      else fail fault c₁ := by
  -- A product or a sum that leaves 64 bits has passed
  -- the limit before.
  have hExtend := extend?_eq hWidth value b
  rw [numberFrom.eq_def limit fault value c, hNext]
  by_cases hFits : value * 10 + Byte.digit b ≤ limit
  · rw [if_pos hFits] at hExtend ⊢
    simp only [if_pos hDigit, hExtend]
  · rw [if_neg hFits] at hExtend ⊢
    simp only [if_pos hDigit, hExtend]

/-
  The value that was computed is the number of the digits
  that were seen. If it lies within the limit and the
  number of all digits does not, reading stops where the
  limit is passed.
-/
theorem numberFrom_of_excess
    (fault : Fault)
    {seen run : List UInt8}
    (hWidth : limit ≤ Check.maxUnsigned64)
    (hWithin : Byte.decimal seen ≤ limit)
    (hRun : c.ReadsRun Byte.IsDigit run ahead c')
    (hExceeds : limit < Byte.decimal (seen ++ run)) :
    ∃ front c₁,
      IsShortestExcess limit (seen ++ run) (seen ++ front) ∧
      c.Reads front c₁ ∧
      numberFrom limit fault (Byte.decimal seen) c =
        fail fault c₁ := by
  induction run generalizing seen c with
  | nil =>
      rw [List.append_nil] at hExceeds
      exact absurd hWithin (Nat.not_le_of_lt hExceeds)
  | cons b run ih =>
      rcases Cursor.readsUpTo_cons.mp hRun.reads with
        ⟨c₁, hNext, hRest⟩
      rcases List.forall_mem_cons.mp hRun.all with
        ⟨hDigit, hDigits⟩
      rw [numberFrom_of_digit hWidth hNext hDigit,
        ← Byte.decimal_concat]
      by_cases hNumber : Byte.decimal (seen ++ [b]) ≤ limit
      · rw [if_pos hNumber]
        rw [List.append_cons seen b run] at hExceeds ⊢
        rcases ih hNumber ⟨hDigits, hRun.stops, hRest⟩
            hExceeds with
          ⟨front, c₂, hShortest, hReads, hFails⟩
        refine
          ⟨b :: front, c₂, ?_, ⟨c₁, hNext, hReads⟩, hFails⟩
        rw [List.append_cons seen b front]
        exact hShortest
      · rw [if_neg hNumber]
        have hShortest := IsShortestExcess.of_last hWithin
          (Nat.lt_of_not_le hNumber) run
        exact ⟨[b], c₁, hShortest,
          Cursor.reads_singleton.mpr hNext, rfl⟩

/-
  The first digit is the value that the loop starts with.
-/
theorem number_of_digit
    (limit : Nat)
    (fault : Fault)
    (hFirst : Byte.IsDigit first)
    (c : Cursor) :
    number limit fault first c =
      numberFrom limit fault (Byte.decimal [first]) c := by
  have hRequire :
      require (Byte.IsDigit first) c = .ok () c :=
    require_ok_iff.mpr ⟨hFirst, rfl⟩
  rw [Byte.decimal_cons]
  exact bind_of_ok hRequire

------------------------------------------------------------
-- Bounded Numbers
------------------------------------------------------------

/-
  A single digit is within the limit, so that only those
  behind it can pass it.
-/
theorem number_of_excess
    (fault : Fault)
    {run : List UInt8}
    (hNine : 9 ≤ limit)
    (hWidth : limit ≤ Check.maxUnsigned64)
    (hFirst : Byte.IsDigit first)
    (hRun : c.ReadsRun Byte.IsDigit run ahead c')
    (hExceeds : limit < Byte.decimal (first :: run)) :
    ∃ front c₁,
      IsShortestExcess limit (first :: run)
        (first :: front) ∧
      c.Reads front c₁ ∧
      number limit fault first c = fail fault c₁ := by
  have hSeen : Byte.decimal [first] ≤ limit := by
    rw [Byte.decimal_cons]
    exact Nat.le_trans (Byte.digit_le_nine hFirst) hNine
  rw [number_of_digit limit fault hFirst c]
  exact numberFrom_of_excess fault hWidth hSeen hRun
    hExceeds

/-
  Wherever a number starts, its longest run of digits can
  be read. If the run denotes a number within the limit,
  this is the number that is found, and the run is
  consumed together with the byte behind it, or the end
  of file. Otherwise, and only then, the number is
  refused, and the shortest part of the run that exceeds
  the limit is consumed.
-/
theorem bounded_numbers_are_read_exactly
    (hNine : 9 ≤ limit)
    (hWidth : limit ≤ Check.maxUnsigned64)
    (hFirst : Byte.IsDigit first)
    (fault : Fault)
    (c : Cursor) :
    ∃ ahead c',
      c.ReadsRun Byte.IsDigit c.digitRun ahead c' ∧
      (∀ n next c₁,
        number limit fault first c = .ok (n, next) c₁ ↔
        Byte.decimal (first :: c.digitRun) ≤ limit ∧
          n = Byte.decimal (first :: c.digitRun) ∧
          next = ahead ∧
          c₁ = c') ∧
      (limit < Byte.decimal (first :: c.digitRun) →
        ∃ front c₁,
          IsShortestExcess limit (first :: c.digitRun)
            (first :: front) ∧
          c.Reads front c₁ ∧
          number limit fault first c =
            .error (.malformed c₁.line fault) c₁) := by
  rcases c.exists_readsRun_digitRun with ⟨ahead, c', hRun⟩
  refine ⟨ahead, c', hRun, ?_,
    number_of_excess fault hNine hWidth hFirst hRun⟩
  intro n next c₁
  rcases Nat.lt_or_ge limit
      (Byte.decimal (first :: c.digitRun)) with
    hExceeds | hWithin
  · rcases number_of_excess fault hNine hWidth hFirst hRun
        hExceeds with
      ⟨_, c₂, _, _, hFails⟩
    rw [hFails]
    constructor
    · intro h
      exact absurd h fail_ne_ok
    · intro h
      exact absurd h.1 (Nat.not_le_of_lt hExceeds)
  · have hFound :
        number limit fault first c =
          .ok (Byte.decimal (first :: c.digitRun), ahead)
            c' :=
      (number_ok_iff hWidth hNine).mpr
        ⟨c.digitRun, hFirst, hRun, rfl, hWithin⟩
    rw [hFound, EStateM.Result.ok.injEq, Prod.mk.injEq]
    constructor
    · intro h
      rcases h with ⟨⟨rfl, rfl⟩, rfl⟩
      exact ⟨hWithin, rfl, rfl, rfl⟩
    · intro h
      rcases h with ⟨_, rfl, rfl, rfl⟩
      exact ⟨⟨rfl, rfl⟩, rfl⟩

/-
  The first digits of `0018446744073709551615` and of
  `18446744073709551616` were consumed: the largest number
  of 64 bits is found, and the one behind it is refused.
-/
theorem largest_number_of_64_bits_is_read :
    9 ≤ Check.maxUnsigned64 ∧
      Byte.IsDigit 48 ∧
      Byte.IsDigit 49 ∧
      (∃ c next c',
        c.digitRun =
          [48, 49, 56, 52, 52, 54, 55, 52, 52, 48, 55, 51,
            55, 48, 57, 53, 53, 49, 54, 49, 53] ∧
        number Check.maxUnsigned64 .clausesTooLarge 48 c =
          .ok (18446744073709551615, next) c') ∧
      ∃ c front c',
        c.digitRun =
          [56, 52, 52, 54, 55, 52, 52, 48, 55, 51, 55, 48,
            57, 53, 53, 49, 54, 49, 54, 48] ∧
        IsShortestExcess Check.maxUnsigned64
          (49 :: c.digitRun) (49 :: front) ∧
        number Check.maxUnsigned64 .clausesTooLarge 49 c =
          .error (.malformed c'.line .clausesTooLarge)
            c' := by
  have hNine : 9 ≤ Check.maxUnsigned64 := by decide
  have hZero : Byte.IsDigit 48 := by decide
  have hOne : Byte.IsDigit 49 := by decide
  refine ⟨hNine, hZero, hOne, ?_, ?_⟩
  · let c := Cursor.ofSource
      (.ofBytes
        [48, 49, 56, 52, 52, 54, 55, 52, 52, 48, 55, 51, 55,
          48, 57, 53, 53, 49, 54, 49, 53, 10]) "problem"
    rcases bounded_numbers_are_read_exactly hNine
        (Nat.le_refl _) hZero .clausesTooLarge c with
      ⟨next, c', _, hFound, _⟩
    refine ⟨c, next, c', rfl,
      (hFound _ _ _).mpr ⟨?_, ?_, rfl, rfl⟩⟩
    · decide +kernel
    · decide +kernel
  · let c := Cursor.ofSource
      (.ofBytes
        [56, 52, 52, 54, 55, 52, 52, 48, 55, 51, 55, 48, 57,
          53, 53, 49, 54, 49, 54, 48, 32]) "problem"
    rcases bounded_numbers_are_read_exactly hNine
        (Nat.le_refl _) hOne .clausesTooLarge c with
      ⟨_, _, _, _, hRefused⟩
    rcases hRefused (by decide +kernel) with
      ⟨front, c', hShortest, _, hFails⟩
    exact ⟨c, front, c', rfl, hShortest, hFails⟩

end Parser

end Dimacs
