import Dimacs.Formula.Operation
import Dimacs.Proofs.Storage.Assignment

/-
  Random initial phases. The words of the generator are put
  out block by block, but the one at a position does not
  depend on how many are asked for. So the phase of a
  variable is a function of the seed and of its position,
  whatever the formula holds and whatever its phases were.

  Key definitions include:
    * `Formula.IsRandomized`

  Main statements:
    * `ChaCha.getElem?_words`
    * `Table.get_overwrite`
    * `Formula.randomPhase_eq`
    * `Formula.isRandomized_randomize`
    * `Formula.random_phases_depend_on_seed_and_position`
-/

namespace Dimacs

------------------------------------------------------------
-- The Stream
------------------------------------------------------------

section Blocks

variable {α : Type}
variable {width : Nat}
variable {blocks : Nat → List α}

theorem length_flatMap_blocks
    (hWidth : ∀ counter, (blocks counter).length = width)
    (count : Nat) :
    ((List.range count).flatMap blocks).length =
      width * count := by
  induction count with
  | zero => simp
  | succ count ih =>
      simp [List.range_succ, List.flatMap_append, ih,
        hWidth, Nat.mul_succ]

/-
  A position in blocks of the same length is a place in
  one of them.
-/
theorem getElem?_flatMap_blocks
    {counter place count : Nat}
    (hWidth : ∀ counter, (blocks counter).length = width)
    (hCounter : counter < count)
    (hPlace : place < width) :
    ((List.range count).flatMap
        blocks)[width * counter + place]? =
      (blocks counter)[place]? := by
  induction count with
  | zero => exact absurd hCounter (Nat.not_lt_zero counter)
  | succ count ih =>
      have hFront := length_flatMap_blocks hWidth count
      rw [List.range_succ, List.flatMap_append,
        List.flatMap_singleton]
      -- The place is in the last block, or in one of those
      -- that were there before.
      rcases Nat.lt_succ_iff_lt_or_eq.mp hCounter with
        hEarlier | rfl
      · have hNext :
            width * counter + width ≤ width * count := by
          rw [← Nat.mul_succ]
          exact Nat.mul_le_mul_left width hEarlier
        rw [List.getElem?_append_left (by omega)]
        exact ih hEarlier
      · rw [List.getElem?_append_right (by omega), hFront,
          Nat.add_sub_cancel_left]

end Blocks

namespace ChaCha

theorem toList_words
    (key : Key)
    (count : Nat) :
    (words key count).toList =
      (List.range ((count + 15) / 16)).flatMap
        fun counter =>
          (block key counter.toUInt64).toArray.toList := by
  simp [words, Array.toList_flatMap]

/-
  However many words are put out, the one at a position
  is the same.
-/
theorem getElem?_words
    {position count : Nat}
    (key : Key)
    (h : position < count) :
    (words key count)[position]? =
      some (word key position) := by
  have hWidth :
      ∀ counter : Nat,
        (block key counter.toUInt64).toArray.toList.length =
          16 := by
    intro counter
    exact (block key counter.toUInt64).size_toArray
  have hPlace : position % 16 < 16 :=
    Nat.mod_lt position (by decide)
  have hCounter : position / 16 < (count + 15) / 16 := by
    omega
  have hPosition :=
    getElem?_flatMap_blocks hWidth hCounter hPlace
  rw [Nat.div_add_mod] at hPosition
  rw [← Array.getElem?_toList, toList_words, hPosition,
    Array.getElem?_toList]
  exact Array.getElem?_eq_getElem _

end ChaCha

/-
  An element that reaches into a table replaces the one
  that is there.
-/
theorem Table.get_overwrite
    {width : Nat}
    {α : Type}
    {t : Table width α}
    {xs : Array α}
    {v : Variable}
    {x : α}
    (hPlace : v.index < t.size)
    (hElement : xs[v.index]? = some x) :
    (t.overwrite xs).get v = .ok x := by
  rcases t with ⟨⟨items, capacity⟩⟩
  have hBound : v.index < items.size := hPlace
  rw [get_eq_ok_iff, toList, overwrite, Buffer.toList,
    Array.getElem?_toList]
  simp [hBound, hElement]

namespace Formula

------------------------------------------------------------
-- Random Phases
------------------------------------------------------------

/-
  The highest bit of a word is the polarity it stands for.
-/
theorem randomPhase_eq
    (word : UInt32) :
    randomPhase word =
      if 0x80000000 ≤ word then .positive
      else .negative := by
  simp [randomPhase, ChaCha.isPositive]

theorem randomPhase_ne_unset
    (word : UInt32) :
    randomPhase word ≠ .unset := by
  rw [randomPhase_eq]
  split
  · exact nofun
  · exact nofun

/-
  All initial phases were drawn anew. The one at a position
  is positive if the word that the stream of the seed has at
  this position has its highest bit set, and negative if it
  has not, and so is never unset. Nothing else changed.
-/
structure IsRandomized
    (seed : UInt64)
    (f f' : Formula) : Prop where
  size : f'.initial.size = f.initial.size
  drawn : ∀ v : Variable, v.index < f.initial.size →
    f'.initialPhase v =
      .ok
        (if 0x80000000 ≤
            ChaCha.word (.ofSeed seed) v.index then
          .positive
        else .negative)
  decided : ∀ v phase,
    f'.initialPhase v = .ok phase → phase ≠ .unset
  unchanged : f' = { f with initial := f'.initial }

theorem initialPhase_randomize
    {f : Formula}
    {v : Variable}
    (seed : UInt64)
    (h : v.index < f.initial.size) :
    (f.randomize seed).initialPhase v =
      .ok
        (randomPhase
          (ChaCha.word (.ofSeed seed) v.index)) := by
  apply Table.get_overwrite h
  rw [Array.getElem?_map, ChaCha.getElem?_words _ h,
    Option.map_some]

theorem isRandomized_randomize
    (seed : UInt64)
    (f : Formula) :
    f.IsRandomized seed (f.randomize seed) := by
  have hSize :
      (f.randomize seed).initial.size = f.initial.size :=
    Table.size_overwrite _ _
  refine ⟨hSize, ?_, ?_, rfl⟩
  · intro v hv
    rw [initialPhase_randomize seed hv, randomPhase_eq]
  · intro v phase hPhase
    have hPlace := (List.getElem?_eq_some_iff.mp
      (Table.get_eq_ok_iff.mp hPhase)).1
    have hBound : v.index < f.initial.size := by
      rw [← hSize]
      exact Nat.lt_of_lt_of_eq hPlace
        (Buffer.length_toList _)
    rw [initialPhase_randomize seed hBound] at hPhase
    rcases Except.ok.inj hPhase with rfl
    exact randomPhase_ne_unset _

/-
  Two formulas, of whatever size and with whatever phases,
  that are given random phases from the same seed agree
  wherever both have a phase. In both each phase is the
  polarity of the word at its position, and nothing but the
  initial phases has changed.
-/
theorem random_phases_depend_on_seed_and_position
    (seed : UInt64)
    (operations operations' : List Operation) :
    (run operations).IsRandomized seed
        ((run operations).randomize seed) ∧
      (run operations').IsRandomized seed
        ((run operations').randomize seed) ∧
      ∀ v : Variable,
        v.index < (run operations).initial.size →
        v.index < (run operations').initial.size →
        ((run operations).randomize seed).initialPhase v =
          ((run operations').randomize seed).initialPhase
            v := by
  refine ⟨isRandomized_randomize seed _,
    isRandomized_randomize seed _, ?_⟩
  intro v hFirst hSecond
  rw [initialPhase_randomize seed hFirst,
    initialPhase_randomize seed hSecond]

/-
  The first word from the seed zero has its highest bit set,
  and the sixth one has not. The second formula is the one
  with more places, and agrees on the sixth.
-/
theorem random_phases_have_both_polarities :
    ((run [.apply (.reserve 6)]).randomize 0).initialPhase
        ⟨0⟩ = .ok .positive ∧
      ((run [.apply (.reserve 6)]).randomize 0).initialPhase
        ⟨5⟩ = .ok .negative ∧
      ((run [.apply (.add 7),
        .apply (.reserve 20)]).randomize 0).initialPhase
        ⟨5⟩ = .ok .negative := by
  rcases random_phases_depend_on_seed_and_position 0
      [.apply (.reserve 6)]
      [.apply (.add 7), .apply (.reserve 20)] with
    ⟨hFirst, hSecond, hSame⟩
  have hNegative :
      ((run [.apply (.reserve 6)]).randomize 0).initialPhase
        ⟨5⟩ = .ok .negative := by
    rw [hFirst.drawn ⟨5⟩ (by decide),
      if_neg (by decide +kernel)]
  refine ⟨?_, hNegative, ?_⟩
  · rw [hFirst.drawn ⟨0⟩ (by decide),
      if_pos (by decide +kernel)]
  · rw [← hSame ⟨5⟩ (by decide) (by decide)]
    exact hNegative

end Formula

end Dimacs
