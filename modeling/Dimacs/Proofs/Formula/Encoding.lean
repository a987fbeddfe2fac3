import Dimacs.Proofs.Formula.Compactness

/-
  The literals of a formula fit into 32 bits, although
  nothing checks the number of its variables: there is one
  variable at most for each index in range. From a literal,
  its variable and its polarity are regained, and the index
  that it stands for in the file.

  Key definitions include:
    * `Translation.Represents`

  Main statements:
    * `Translation.IsSound.exists_represents`
    * `Formula.Holds.variableCount_le`
    * `Formula.run_literals_fit`
-/

namespace Dimacs

/-
  A magnitude other than zero keeps the sign that
  it is given.
-/
theorem decide_signed_lt_zero
    {index : Nat}
    (negative : Bool)
    (hIndex : 1 ≤ index) :
    decide (signed negative index < 0) = negative := by
  cases negative
  · exact decide_eq_false
      (Int.not_lt.mpr (Int.natCast_nonneg index))
  · exact decide_eq_true
      (Int.neg_neg_of_pos (Int.natCast_pos.mpr hIndex))

namespace Translation

variable {t : Translation}
variable {v : Variable}

/-
  A literal of a variable from which everything is regained:
  the variable, the polarity and the signed external index.
-/
structure Represents
    (t : Translation)
    (v : Variable)
    (negative : Bool)
    (index : Nat)
    (l : Literal) : Prop where
  made : v.literal negative = .ok l
  encoding : l.encoding = 2 * v.index + negative.toNat
  width : l.encoding < 2 ^ 32
  var : l.var = v
  isNegative : l.isNegative = negative
  external : t.externalIndex v = .ok index
  exported : t.exportLiteral l = .ok (signed negative index)

/-
  The literal of a signed index is that of the variable
  at its place.
-/
theorem IsSound.encode_signed
    (h : t.IsSound)
    (negative : Bool)
    (hPlace : v.index < t.indices.length) :
    encode t.indices (signed negative t.indices[v.index]) =
      ⟨2 * v.index + negative.toNat⟩ := by
  have hRange := h.inRange _ (List.getElem_mem hPlace)
  rw [encode, natAbs_signed,
    h.nodup.idxOf_getElem v.index hPlace,
    decide_signed_lt_zero negative hRange.1]

/-
  Every variable that occurs has a literal of either
  polarity, which stands for its index.
-/
theorem IsSound.exists_represents
    (h : t.IsSound)
    (negative : Bool)
    (hv : v.index < t.size) :
    ∃ index l,
      IsIndex index ∧ t.Represents v negative index l := by
  have hPlace : v.index < t.indices.length := by
    rw [length_indices]
    exact hv
  have hLarge : v.index < maxVariable :=
    Nat.lt_of_lt_of_le hPlace
      (h.length_le fun index hIndex =>
        (h.inRange index hIndex).2)
  have hMem := List.getElem_mem hPlace
  have hRange := h.inRange _ hMem
  have hEncode := h.encode_signed negative hPlace
  have hValue :
      (signed negative t.indices[v.index]).natAbs ∈
        t.indices := by
    rw [natAbs_signed]
    exact hMem
  have hMax : maxVariable = 2147483646 := rfl
  have hBool := negative.toNat_le
  refine ⟨t.indices[v.index],
    ⟨2 * v.index + negative.toNat⟩, hRange, ?_⟩
  constructor
  · exact literal_eq_ok negative hLarge
  · rfl
  · dsimp only
    omega
  · rw [← hEncode, var_encode, natAbs_signed,
      h.nodup.idxOf_getElem v.index hPlace]
  · rw [← hEncode, isNegative_encode,
      decide_signed_lt_zero negative hRange.1]
  · exact externalIndex_eq_ok_iff.mpr
      (List.getElem?_eq_getElem hPlace)
  · rw [← hEncode]
    exact h.exportLiteral_encode hValue

end Translation

namespace Formula

variable {f : Formula}
variable {literals : List Int}

/-
  There are no more variables than magnitudes
  of the literals.
-/
theorem Holds.variableCount_le
    {bound : Nat}
    (h : f.Holds literals)
    (hBound : ∀ value ∈ literals, value.natAbs ≤ bound) :
    f.variableCount ≤ bound := by
  rw [variableCount, ← Translation.length_indices]
  apply h.sound.length_le
  intro index hIndex
  rw [h.indices] at hIndex
  rcases mem_indicesOf.mp hIndex with
    ⟨value, hValue, _, rfl⟩
  exact hBound value hValue

/-
  Whatever is done to a formula, it has no more variables
  than the largest index in range, nor than the largest
  magnitude that was added. Their number is one of 32 bits,
  and so is the encoding of both literals of each variable,
  from which the variable, the polarity and the signed
  external index are regained.
-/
theorem run_literals_fit
    (operations : List Operation) :
    (run operations).variableCount ≤ maxVariable ∧
      (∀ bound,
        (∀ value ∈ Operation.addedBy operations,
          value.natAbs ≤ bound) →
        (run operations).variableCount ≤ bound) ∧
      (UInt32.ofNat (run operations).variableCount).toNat =
        (run operations).variableCount ∧
      ∀ v : Variable,
        v.index < (run operations).variableCount →
        ∀ negative,
          ∃ index l,
            (1 ≤ index ∧ index ≤ maxVariable) ∧
            (run operations).translation.Represents v
              negative index l := by
  have hHolds := holds_run operations
  have hCount :
      (run operations).variableCount ≤ maxVariable := by
    rw [variableCount, ← Translation.length_indices]
    exact hHolds.sound.length_le fun index hIndex =>
      (hHolds.sound.inRange index hIndex).2
  have hMax : maxVariable = 2147483646 := rfl
  refine ⟨hCount,
    fun bound hBound => hHolds.variableCount_le hBound, ?_,
    ?_⟩
  · apply UInt32.toNat_ofNat_of_lt
    rw [UInt32.size]
    omega
  · intro v hv negative
    exact hHolds.sound.exists_represents negative hv

/-
  The second variable stands for the index two, and its
  negative literal is encoded as three.
-/
theorem second_variable_is_regained :
    (run
          [.apply (.add 5),
            .apply (.add (-2))]).variableCount ≤
        5 ∧
      Variable.literal ⟨1⟩ true = .ok ⟨3⟩ ∧
      (run
            [.apply (.add 5),
              .apply (.add (-2))]).translation.exportLiteral
          ⟨3⟩ =
        .ok (-2) := by
  have hFits :=
    run_literals_fit [.apply (.add 5), .apply (.add (-2))]
  rcases hFits.2.2.2 ⟨1⟩ (by decide) true with
    ⟨index, ⟨encoding⟩, _, hRepresents⟩
  have hEncoding : encoding = 3 := hRepresents.encoding
  have hIndex :
      (run
            [.apply (.add 5),
              .apply (.add (-2))]).translation.externalIndex
          ⟨1⟩ =
        .ok 2 := by
    decide
  rw [hRepresents.external] at hIndex
  rcases Except.ok.inj hIndex with rfl
  subst hEncoding
  exact ⟨hFits.2.1 5 (by decide), hRepresents.made,
    hRepresents.exported⟩

end Formula

end Dimacs
