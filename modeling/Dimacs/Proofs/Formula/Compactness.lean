import Dimacs.Proofs.Formula.Contents
import Dimacs.Proofs.Formula.Run

/-
  The variables of a formula are numbered compactly: the two
  tables of its translation are inverse to each other, and
  everything a formula refers to is one of its variables.

  Key definitions include:
    * `Formula.IsCompact`

  Main statements:
    * `Translation.IsSound.inverse`
    * `Formula.Holds.isCompact`
    * `Formula.run_isCompact`
-/

namespace Dimacs

namespace Translation

variable {t : Translation}
variable {index : Nat}

theorem IsSound.exists_lookup_iff
    (h : t.IsSound) :
    (∃ l, t.lookup index = some l) ↔ index ∈ t.indices := by
  rw [h.lookup index]
  constructor
  · intro hFound
    by_contra hMem
    rcases hFound with ⟨l, hLookup⟩
    rw [if_neg hMem] at hLookup
    cases hLookup
  · intro hMem
    exact ⟨_, if_pos hMem⟩

theorem externalIndex_eq_ok_iff
    {v : Variable} :
    t.externalIndex v = .ok index ↔
      t.indices[v.index]? = some index :=
  Buffer.get_eq_ok_iff

/-
  The literal of an index is the positive one of the only
  variable that has this index.
-/
theorem IsSound.inverse
    {l : Literal}
    (h : t.IsSound)
    (hLookup : t.lookup index = some l) :
    ∃ v,
      v.literal false = .ok l ∧
      t.externalIndex v = .ok index ∧
      ∀ other,
        t.externalIndex other = .ok index → other = v := by
  have hMem : index ∈ t.indices :=
    h.exists_lookup_iff.mp ⟨l, hLookup⟩
  have hPosition : t.indices.idxOf index < maxVariable :=
    Nat.lt_of_lt_of_le (List.idxOf_lt_length_iff.mpr hMem)
      (length_le_of_nodup h.nodup h.inRange)
  rw [h.lookup index, if_pos hMem] at hLookup
  rcases Option.some.inj hLookup with rfl
  refine ⟨⟨t.indices.idxOf index⟩,
    literal_eq_ok false hPosition, ?_, ?_⟩
  · rw [externalIndex_eq_ok_iff]
    exact List.getElem?_idxOf hMem
  · intro other hOther
    rcases List.getElem?_eq_some_iff.mp
        (externalIndex_eq_ok_iff.mp hOther) with
      ⟨hBound, hIndex⟩
    have hSame := h.nodup.idxOf_getElem other.index hBound
    rw [hIndex] at hSame
    rw [hSame]

end Translation

namespace Formula

/-
  A formula whose variables are numbered in the order in
  which the indices of the given literals first occur. An
  index is found exactly if it is in the table of
  external indices, and then under the literal of the
  variable that stands there; all variables that are
  referred to have a place.
-/
structure IsCompact
    (f : Formula)
    (literals : List Int) : Prop where
  found :
      ∀ index,
        (∃ l, f.translation.lookup index = some l) ↔
        index ∈ f.translation.indices
  inverse :
      ∀ index l,
        f.translation.lookup index = some l →
        ∃ v,
          v.literal false = .ok l ∧
          f.translation.externalIndex v = .ok index ∧
          ∀ other,
            f.translation.externalIndex other = .ok index →
            other = v
  distinct : f.translation.indices.Nodup
  ordered : f.translation.indices = indicesOf literals
  inRange :
      ∀ index ∈ f.translation.indices,
        1 ≤ index ∧ index ≤ maxVariable
  zero : f.translation.lookup 0 = none
  clauses :
      ∀ index < f.clauseCount,
        ∃ clause,
          f.clause index = .ok clause ∧
          ∀ l ∈ clause, l.var.index < f.variableCount
  pending :
      ∀ l ∈ f.pending.toList, l.var.index < f.variableCount
  order : ∀ v ∈ f.order.toList, v.index < f.variableCount
  phases : f.initial.size = f.neural.size
  room : max f.variableCount f.reserved ≤ f.initial.size

theorem Holds.isCompact
    {f : Formula}
    {literals : List Int}
    (h : f.Holds literals) :
    f.IsCompact literals where
  found := fun _ => h.sound.exists_lookup_iff
  inverse := fun _ _ => h.sound.inverse
  distinct := h.sound.nodup
  ordered := h.indices
  inRange := h.sound.inRange
  zero := by
    rw [h.sound.lookup 0]
    apply if_neg
    intro hZero
    exact Nat.not_lt_zero 0 (h.sound.inRange 0 hZero).1
  clauses := by
    intro index hIndex
    rw [h.clauseCount_eq] at hIndex
    refine ⟨_, h.clause_eq_ok hIndex, ?_⟩
    intro l hl
    rcases List.mem_map.mp hl with ⟨value, hValue, rfl⟩
    exact h.var_lt
      (natAbs_mem_of_clause (List.getElem_mem hIndex)
        hValue)
  pending := by
    intro l hl
    rw [h.pending] at hl
    rcases List.mem_map.mp hl with ⟨value, hValue, rfl⟩
    exact h.var_lt (natAbs_mem_of_unfinished hValue)
  order := h.order
  phases := h.phases
  room := h.room

/-
  Whatever was done to a formula, its variables are
  numbered compactly, in the order in which their
  literals were added.
-/
theorem run_isCompact
    (operations : List Operation) :
    (run operations).IsCompact
      (Operation.addedBy operations) :=
  (holds_run operations).isCompact

end Formula

end Dimacs
