import Dimacs.Formula.Translation
import Dimacs.Problem.Header
import Dimacs.Proofs.Storage.Contents
import Mathlib.Order.Interval.Finset.Nat

/-
  The two tables of a translation are inverse to each other:
  an external index is found exactly if it occurred, and
  then under the variable that stands at its place.

  Key definitions include:
    * `Translation.indices`
    * `Translation.IsSound`
    * `Translation.remember`
    * `Translation.encode`

  Main statements:
    * `Translation.IsSound.length_le`
    * `Translation.IsSound.length_lt`
    * `Translation.lookup_cover`
    * `Translation.IsSound.exists_importVariable`
    * `Translation.IsSound.exportLiteral_encode`
-/

namespace Dimacs

namespace Translation

variable {t : Translation}
variable {index : Nat}

------------------------------------------------------------
-- Sound Translations
------------------------------------------------------------

/-
  The external indices that occurred, in the order
  of their variables.
-/
def indices
    (t : Translation) : List Nat :=
  t.external.toList

theorem length_indices
    (t : Translation) :
    t.indices.length = t.size :=
  t.external.length_toList

/- An index that an external variable may have. -/
def IsIndex
    (index : Nat) : Prop :=
  1 ≤ index ∧ index ≤ maxVariable

/-
  No index occurred twice, all are in range, and an index is
  found exactly if it occurred.
-/
structure IsSound
    (t : Translation) : Prop where
  nodup : t.indices.Nodup
  inRange : ∀ index ∈ t.indices, IsIndex index
  lookup : ∀ index,
    t.lookup index =
      if index ∈ t.indices then
        some ⟨2 * t.indices.idxOf index⟩
      else none

theorem isSound_empty :
    empty.IsSound :=
  ⟨List.nodup_nil, nofun, fun _ => rfl⟩

/-
  There is no more than one variable for each index up
  to a bound.
-/
theorem length_le_of_nodup
    {indices : List Nat}
    {bound : Nat}
    (hNodup : indices.Nodup)
    (hRange :
      ∀ index ∈ indices, 1 ≤ index ∧ index ≤ bound) :
    indices.length ≤ bound := by
  have hSubset : indices.toFinset ⊆ Finset.Icc 1 bound := by
    intro index hIndex
    exact Finset.mem_Icc.mpr
      (hRange index (List.mem_toFinset.mp hIndex))
  have hCard := Finset.card_le_card hSubset
  rw [List.toFinset_card_of_nodup hNodup, Nat.card_Icc,
    Nat.add_sub_cancel] at hCard
  exact hCard

/-
  Distinct indices up to a bound have no more variables
  than the bound.
-/
theorem IsSound.length_le
    {bound : Nat}
    (h : t.IsSound)
    (hBound : ∀ index ∈ t.indices, index ≤ bound) :
    t.indices.length ≤ bound :=
  length_le_of_nodup h.nodup fun index hIndex =>
    ⟨(h.inRange index hIndex).1, hBound index hIndex⟩

/-
  An index that has not occurred yet leaves room
  for its variable.
-/
theorem IsSound.length_lt
    {bound : Nat}
    (h : t.IsSound)
    (hBound : ∀ other ∈ t.indices, other ≤ bound)
    (hIndex : 1 ≤ index ∧ index ≤ bound)
    (hFresh : index ∉ t.indices) :
    t.indices.length < bound := by
  have hNodup : (index :: t.indices).Nodup :=
    List.nodup_cons.mpr ⟨hFresh, h.nodup⟩
  refine length_le_of_nodup hNodup
    (List.forall_mem_cons.mpr ⟨hIndex, ?_⟩)
  intro other hOther
  exact ⟨(h.inRange other hOther).1, hBound other hOther⟩

------------------------------------------------------------
-- Room for Indices
------------------------------------------------------------

theorem lookup_eq
    (t : Translation)
    (index : Nat) :
    t.lookup index = t.internal.toList[index]?.join := by
  rw [lookup, Buffer.toList, Array.getElem?_toList]
  cases t.internal.items[index]? <;> rfl

/- A place that is new holds nothing. -/
theorem join_getElem?_cover
    (count : Nat)
    (internal : Buffer 8 (Option Literal))
    (index : Nat) :
    (cover count internal).toList[index]?.join =
      internal.toList[index]?.join := by
  by_cases hSize : internal.size ≤ count
  · rw [cover, if_pos hSize,
      Buffer.toList_resize none (Nat.lt_succ_of_le hSize)]
    by_cases hIndex : index < internal.toList.length
    · rw [List.getElem?_append_left hIndex]
    · have hBeyond := Nat.not_lt.mp hIndex
      rw [List.getElem?_append_right hBeyond,
        List.getElem?_eq_none hBeyond,
        List.getElem?_replicate]
      split <;> rfl
  · rw [cover, if_neg hSize]

theorem lookup_cover
    (count : Nat)
    (internal : Buffer 8 (Option Literal))
    (external : Buffer 4 Nat)
    (index : Nat) :
    lookup ⟨cover count internal, external⟩ index =
      lookup ⟨internal, external⟩ index := by
  rw [lookup_eq, lookup_eq, join_getElem?_cover]

/- The index that room is made for has a place. -/
theorem lt_size_cover
    (index : Nat)
    (internal : Buffer 8 (Option Literal)) :
    index < (cover index internal).size := by
  by_cases hSize : internal.size ≤ index
  · rw [cover, if_pos hSize,
      Buffer.size_resize none (Nat.lt_succ_of_le hSize)]
    exact Nat.lt_succ_self index
  · rw [cover, if_neg hSize]
    exact Nat.not_le.mp hSize

/-
  Translations with the same indices and the same lookup
  are equally sound.
-/
theorem IsSound.of_same
    {t' : Translation}
    (h : t.IsSound)
    (hIndices : t'.indices = t.indices)
    (hLookup : ∀ index, t'.lookup index = t.lookup index) :
    t'.IsSound := by
  refine ⟨?_, ?_, ?_⟩
  · rw [hIndices]
    exact h.nodup
  · rw [hIndices]
    exact h.inRange
  · intro index
    rw [hLookup, hIndices]
    exact h.lookup index

theorem indices_reserve
    (count : Nat)
    (t : Translation) :
    (t.reserve count).indices = t.indices :=
  t.external.toList_reserveExact count

theorem IsSound.reserve
    (h : t.IsSound)
    (count : Nat) :
    (t.reserve count).IsSound :=
  h.of_same (indices_reserve count t) fun index => by
    rw [← lookup_cover count t.internal t.external]
    rfl

theorem IsSound.shrink
    (h : t.IsSound) :
    t.shrink.IsSound :=
  h.of_same rfl fun _ => rfl

------------------------------------------------------------
-- Importing Variables
------------------------------------------------------------

/-
  An index joins those that occurred, unless it is
  one of them.
-/
def remember
    (index : Nat)
    (indices : List Nat) : List Nat :=
  if index ∈ indices then indices else indices ++ [index]

/- Indices that occurred keep their places. -/
theorem prefix_remember
    (index : Nat)
    (indices : List Nat) :
    indices <+: remember index indices := by
  rw [remember]
  split
  · exact List.prefix_refl indices
  · exact List.prefix_append indices [index]

theorem var_double
    (position : Nat) :
    Literal.var ⟨2 * position⟩ = ⟨position⟩ := by
  rw [Literal.var,
    Nat.mul_div_cancel_left position (by decide)]

/-
  A variable below the largest index has a literal
  of 32 bits.
-/
theorem literal_eq_ok
    {position : Nat}
    (negative : Bool)
    (h : position < maxVariable) :
    Variable.literal ⟨position⟩ negative =
      .ok ⟨2 * position + negative.toNat⟩ := by
  have hBool := negative.toNat_le
  have hMax : maxVariable = 2147483646 := rfl
  have hFits :
      position * 2 + negative.toNat ≤
        Check.maxUnsigned32 := by
    unfold Check.maxUnsigned32
    omega
  rw [Variable.literal, Check.uint32, if_pos hFits,
    Nat.mul_comm]

/-
  The index that is imported becomes the last one, with a
  place of its own.
-/
theorem IsSound.push
    {internal internal' : Buffer 8 (Option Literal)}
    {external : Buffer 4 Nat}
    (h : (Translation.mk internal external).IsSound)
    (hIndex : IsIndex index)
    (hFresh : index ∉ external.toList)
    (hPlace : index < internal.size)
    (hSet :
      internal'.toList =
        internal.toList.set index
          (some ⟨2 * external.toList.length⟩)) :
    (Translation.mk internal'
      (external.push index)).IsSound := by
  have hIndices :
      (Translation.mk internal'
          (external.push index)).indices =
        external.toList ++ [index] :=
    external.toList_push index
  refine ⟨?_, ?_, ?_⟩
  · rw [hIndices, List.nodup_append]
    refine ⟨h.nodup,
      List.nodup_cons.mpr
        ⟨List.not_mem_nil, List.nodup_nil⟩, ?_⟩
    intro other hOther last hLast hSame
    rw [List.mem_singleton.mp hLast] at hSame
    exact hFresh (hSame ▸ hOther)
  · rw [hIndices]
    intro other hOther
    rcases List.mem_append.mp hOther with hOld | hNew
    · exact h.inRange other hOld
    · rw [List.mem_singleton.mp hNew]
      exact hIndex
  · intro other
    rw [hIndices, lookup_eq]
    dsimp only
    rw [hSet]
    by_cases hSame : other = index
    · subst hSame
      have hPosition : other < internal.toList.length :=
        internal.length_toList ▸ hPlace
      rw [List.getElem?_set_self hPosition,
        if_pos List.mem_append_cons_self,
        List.idxOf_append_of_notMem hFresh,
        List.idxOf_cons_self]
      rfl
    · have hOld := h.lookup other
      rw [lookup_eq] at hOld
      rw [List.getElem?_set_ne (Ne.symm hSame), hOld]
      by_cases hMem : other ∈ external.toList
      · have hMem' : other ∈ external.toList ++ [index] :=
          List.mem_append_left _ hMem
        rw [if_pos hMem', List.idxOf_append_of_mem hMem]
        exact if_pos hMem
      · have hMem' :
            other ∉ external.toList ++ [index] := by
          simp only [List.mem_append, List.mem_singleton,
            hMem, hSame, or_self, not_false_eq_true]
        rw [if_neg hMem']
        exact if_neg hMem

/- An index that has a literal keeps it. -/
theorem importVariable_of_known
    {internal : Buffer 8 (Option Literal)}
    {external : Buffer 4 Nat}
    {known : Literal}
    (hIndex : IsIndex index)
    (hFound :
      (cover index internal).toList[index]? =
        some (some known)) :
    importVariable index ⟨internal, external⟩ =
      .ok
        (known.var, ⟨cover index internal, external⟩) := by
  have hRequire : Check.require (0 < index) = .ok () :=
    if_pos hIndex.1
  simp only [importVariable, hRequire,
    Buffer.get_eq_ok_iff.mpr hFound, bind, Except.bind,
    pure, Except.pure]

/-
  An index without a literal gets that of the next variable.
-/
theorem exists_importVariable_of_fresh
    {internal : Buffer 8 (Option Literal)}
    {external : Buffer 4 Nat}
    (hIndex : IsIndex index)
    (hFound :
      (cover index internal).toList[index]? = some none)
    (hRoom : external.size < maxVariable) :
    ∃ changed,
      importVariable index ⟨internal, external⟩ =
        .ok
          (⟨external.size⟩,
            ⟨changed, external.push index⟩) ∧
      changed.toList =
        (cover index internal).toList.set index
          (some ⟨2 * external.size⟩) := by
  have hRequire : Check.require (0 < index) = .ok () :=
    if_pos hIndex.1
  have hMax : maxVariable = 2147483646 := rfl
  have hWidth :
      Check.uint32 external.size = .ok external.size := by
    refine if_pos ?_
    unfold Check.maxUnsigned32
    omega
  have hLiteral := literal_eq_ok false hRoom
  rw [Bool.toNat_false, Nat.add_zero] at hLiteral
  rcases Buffer.exists_set
      (some (Literal.mk (2 * external.size)))
      (lt_size_cover index internal) with
    ⟨changed, hSet, hChanged⟩
  refine ⟨changed, ?_, hChanged⟩
  simp only [importVariable, hRequire,
    Buffer.get_eq_ok_iff.mpr hFound, hWidth, hLiteral, hSet,
    bind, Except.bind, pure, Except.pure]

/-
  An index in range is always imported. It is remembered,
  and its variable is the place at which it stands.
-/
theorem IsSound.exists_importVariable
    (h : t.IsSound)
    (hIndex : IsIndex index) :
    ∃ t',
      t.importVariable index =
        .ok (⟨t'.indices.idxOf index⟩, t') ∧
      t'.IsSound ∧
      t'.indices = remember index t.indices := by
  rcases t with ⟨internal, external⟩
  have hCovered :
      (Translation.mk (cover index internal)
        external).IsSound :=
    h.of_same rfl (lookup_cover index internal external)
  have hPlace := lt_size_cover index internal
  have hLookup := hCovered.lookup index
  rw [lookup_eq] at hLookup
  rcases hFound : (cover index internal).toList[index]? with
    _ | found
  · rw [List.getElem?_eq_none_iff, Buffer.length_toList]
      at hFound
    exact absurd hPlace (Nat.not_lt.mpr hFound)
  · rw [hFound, Option.join_some] at hLookup
    by_cases hKnown : index ∈ external.toList
    · have hValue :
          found = some ⟨2 * external.toList.idxOf index⟩ :=
        hLookup.trans (if_pos hKnown)
      rw [hValue] at hFound
      refine ⟨⟨cover index internal, external⟩, ?_,
        hCovered, (if_pos hKnown).symm⟩
      rw [importVariable_of_known hIndex hFound, var_double]
      rfl
    · have hValue : found = none :=
        hLookup.trans (if_neg hKnown)
      rw [hValue] at hFound
      have hRoom : external.size < maxVariable := by
        rw [← Buffer.length_toList]
        exact h.length_lt
          (fun other hOther => (h.inRange other hOther).2)
          hIndex hKnown
      rcases exists_importVariable_of_fresh hIndex hFound
          hRoom with
        ⟨changed, hImport, hChanged⟩
      have hIndices :
          (Translation.mk changed
              (external.push index)).indices =
            external.toList ++ [index] :=
        external.toList_push index
      refine ⟨⟨changed, external.push index⟩, ?_, ?_,
        hIndices.trans (if_neg hKnown).symm⟩
      · rw [hImport, hIndices,
          List.idxOf_append_of_notMem hKnown,
          List.idxOf_cons_self, Nat.add_zero,
          Buffer.length_toList]
      · rw [← external.length_toList] at hChanged
        exact hCovered.push hIndex hKnown hPlace hChanged

------------------------------------------------------------
-- Exporting Literals
------------------------------------------------------------

/-
  The literal that stands for a number whose index occurred.
-/
def encode
    (indices : List Nat)
    (value : Int) : Literal where
  encoding :=
    2 * indices.idxOf value.natAbs +
      (decide (value < 0)).toNat

theorem var_encode
    (indices : List Nat)
    (value : Int) :
    (encode indices value).var =
      ⟨indices.idxOf value.natAbs⟩ := by
  have hBool := (decide (value < 0)).toNat_le
  rw [Literal.var, encode, Variable.mk.injEq]
  dsimp only
  omega

theorem isNegative_encode
    (indices : List Nat)
    (value : Int) :
    (encode indices value).isNegative =
      decide (value < 0) := by
  rw [Literal.isNegative, encode]
  cases decide (value < 0)
  · simp
  · simp [Nat.add_mod]

/-
  Indices that occur later do not change the literal of
  an earlier one.
-/
theorem encode_of_extended
    {indices indices' : List Nat}
    {value : Int}
    (hPrefix : indices <+: indices')
    (h : value.natAbs ∈ indices) :
    encode indices' value = encode indices value := by
  rcases hPrefix with ⟨later, rfl⟩
  rw [encode, List.idxOf_append_of_mem h, encode]

/- A literal is exported as the number it stands for. -/
theorem IsSound.exportLiteral_encode
    {value : Int}
    (h : t.IsSound)
    (hMem : value.natAbs ∈ t.indices) :
    t.exportLiteral (encode t.indices value) =
      .ok value := by
  have hRange := h.inRange _ hMem
  have hMax : maxVariable = 2147483646 := rfl
  have hIndex :
      t.externalIndex (encode t.indices value).var =
        .ok value.natAbs := by
    rw [externalIndex, var_encode, Buffer.get_eq_ok_iff]
    exact List.getElem?_idxOf hMem
  have hValue :
      (if decide (value < 0) = true then
          -(value.natAbs : Int)
        else (value.natAbs : Int)) =
        value := by
    by_cases hNegative : value < 0
    · rw [if_pos (decide_eq_true hNegative)]
      omega
    · rw [if_neg fun h => hNegative (of_decide_eq_true h)]
      omega
  have hFits : Check.FitsInt32 value := by
    have hLe := hRange.2
    unfold Check.FitsInt32
    omega
  simp only [exportLiteral, hIndex, isNegative_encode, bind,
    Except.bind]
  rw [hValue, Check.int32, if_pos hFits]

end Translation

end Dimacs
