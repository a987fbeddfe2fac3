import Dimacs.Proofs.Clauses.Tokens
import Dimacs.Proofs.Formula.History
import Dimacs.Proofs.Problem.Outcome
import Dimacs.Proofs.Strictness.Readers

/-
  What a reading sends to the storage is admitted there: the
  readers hold every numeral to the indices that a variable
  may have, wherever the reading starts and however it ends.

  Main statements:
    * `Parser.index_le_of_token`
    * `Parser.natAbs_of_accept`
    * `Parser.index_le_of_accept`
    * `Parser.forall_mem_events_body`
    * `Parser.isAdmitted_body`
    * `isAdmitted_of_mem_events`
-/

namespace Dimacs

open Formula (IsAdmitted)

variable {strictness : Strictness}

namespace Parser

variable {negative : Bool}
variable {index : Nat}
variable {ahead : Option UInt8}
variable {c c' : Cursor}

/- A numeral that is read has an index in range. -/
theorem index_le_of_token
    (hToken :
      token strictness c =
        .ok (.numeral negative index ahead) c') :
    index ≤ maxVariable := by
  have hRelaxed :=
    refines_token strictness.le_relaxed _ _ _ hToken
  rcases readsToken_of_ok Strictness.not_isPedantic_relaxed
      hRelaxed with
    ⟨digits, _, ⟨⟨_, _, hDigits⟩, _⟩, hIndex, _⟩
  exact hIndex ▸ hDigits

/-
  A numeral that is accepted keeps its index as a magnitude.
-/
theorem natAbs_of_accept
    {header : Header}
    {parsed : Nat}
    {value : Int}
    (hIndex : index ≤ maxVariable)
    (hAccept :
      accept strictness header parsed negative index ahead
          c =
        .ok value c') :
    value.natAbs = index := by
  have hRelaxed := refines_accept strictness.le_relaxed
    header parsed negative index ahead _ _ _ hAccept
  rw [accept_relaxed header parsed negative ahead hIndex]
    at hRelaxed
  rcases EStateM.Result.ok.inj hRelaxed with ⟨rfl, _⟩
  exact natAbs_signed negative index

/-
  Unless reading is relaxed, a numeral that is
  accepted was declared.
-/
theorem index_le_of_accept
    {header : Header}
    {parsed : Nat}
    {value : Int}
    (hStrict : ¬ strictness.IsRelaxed)
    (hAccept :
      accept strictness header parsed negative index ahead
          c =
        .ok value c') :
    index ≤ header.variableCount := by
  by_contra hUndeclared
  rw [accept, if_pos ⟨hStrict, Nat.not_le.mp hUndeclared⟩]
    at hAccept
  exact failBefore_ne_ok hAccept

/-
  What holds of every literal that is accepted holds of all
  that the loop adds.
-/
theorem forall_mem_events_body
    {P : Event → Prop}
    {header : Header}
    {t : Tally}
    (hAccepted :
      ∀ {parsed negative index ahead c c'} {value : Int},
        index ≤ maxVariable →
        accept strictness header parsed negative index ahead
            c =
          .ok value c' →
        P (.add value))
    (h : ∀ event ∈ t.events.toList, P event) :
    ∀ event ∈ (body strictness header t c).1.events.toList,
      P event := by
  fun_induction body strictness header t c with
  | case1 t c e c₁ hToken => exact h
  | case2 t c c₁ hToken => exact h
  | case3 t c c₁ hToken ih => exact ih h
  | case4 t c negative index ahead c₁ hToken e c₂ hAccept =>
      exact h
  | case5 t c negative index ahead c₁ hToken value c₂
        hAccept ih =>
      apply ih
      intro event hEvent
      rw [Tally.add, Array.toList_push, List.mem_append,
        List.mem_singleton] at hEvent
      rcases hEvent with hOld | rfl
      · exact h event hOld
      · exact hAccepted (index_le_of_token hToken) hAccept

/-
  The loop over the clauses adds nothing but
  literals in range.
-/
theorem isAdmitted_body
    {header : Header}
    {t : Tally}
    (h : ∀ event ∈ t.events.toList, IsAdmitted event) :
    ∀ event ∈ (body strictness header t c).1.events.toList,
      IsAdmitted event :=
  forall_mem_events_body
    (fun hIndex hAccept =>
      Nat.le_trans
        (Nat.le_of_eq (natAbs_of_accept hIndex hAccept))
        hIndex) h

end Parser

/-
  A reading sends nothing out of range, wherever it starts.
-/
theorem isAdmitted_of_mem_events
    (strictness : Strictness)
    (o : Options)
    (c : Cursor) :
    ∀ event ∈ (parseProblem strictness o c).events,
      IsAdmitted event := by
  rcases hHeader : Parser.header strictness o c with
    ⟨p, ⟨declared, c₁⟩ | ⟨e, c₁⟩⟩
  · rw [parseProblem_of_header hHeader, events_complete,
      List.forall_mem_cons]
    exact ⟨trivial, Parser.isAdmitted_body nofun⟩
  · rw [parseProblem_of_refusal hHeader]
    exact nofun

end Dimacs
