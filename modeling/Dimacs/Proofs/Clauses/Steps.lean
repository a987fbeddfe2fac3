import Dimacs.Problem.Body
import Dimacs.Proofs.Parser.Success

/-
  The loop over the clauses, one token at a time: what each
  kind of token leads to, and what a run of literals leaves
  in the tally.

  Key definitions include:
    * `signed`
    * `Tally.addAll`

  Main statements:
    * `Parser.body_of_error`
    * `Parser.body_of_finish`
    * `Parser.body_of_gap`
    * `Parser.body_of_numeral`
    * `Parser.body_of_refusal`
    * `Tally.events_addAll`
    * `Tally.parsed_addAll`
    * `Tally.unfinished_addAll`
-/

namespace Dimacs

/- The number that a sign and a magnitude stand for. -/
def signed
    (negative : Bool)
    (index : Nat) : Int :=
  if negative then -(index : Int) else (index : Int)

theorem natAbs_signed
    (negative : Bool)
    (index : Nat) :
    (signed negative index).natAbs = index := by
  cases negative
  · exact Int.natAbs_natCast index
  · exact (Int.natAbs_neg _).trans
      (Int.natAbs_natCast index)

theorem signed_eq_zero_iff
    {negative : Bool}
    {index : Nat} :
    signed negative index = 0 ↔ index = 0 := by
  rw [← Int.natAbs_eq_zero, natAbs_signed]

/-
  A magnitude of 31 bits fits its width with either sign.
-/
theorem int32_signed
    {index : Nat}
    (negative : Bool)
    (hIndex : index ≤ 2147483647) :
    Check.int32
        (if negative then -(index : Int)
        else (index : Int)) =
      .ok (signed negative index) := by
  have hFits : Check.FitsInt32 (signed negative index) := by
    unfold Check.FitsInt32 signed
    split <;> omega
  exact if_pos hFits

namespace Tally

------------------------------------------------------------
-- Runs of Literals
------------------------------------------------------------

/- Account for literals one after the other. -/
def addAll
    (t : Tally)
    (literals : List Int) : Tally :=
  literals.foldl add t

@[simp] theorem addAll_nil
    (t : Tally) :
    t.addAll [] = t :=
  rfl

@[simp] theorem addAll_cons
    (t : Tally)
    (literal : Int)
    (literals : List Int) :
    t.addAll (literal :: literals) =
      (t.add literal).addAll literals :=
  rfl

/- Every literal becomes one event, in order. -/
theorem events_addAll
    (t : Tally)
    (literals : List Int) :
    (t.addAll literals).events.toList =
      t.events.toList ++ literals.map Event.add := by
  induction literals generalizing t with
  | nil => simp
  | cons literal literals ih =>
      rw [addAll_cons, ih]
      simp [add]

/- Every zero ends a clause. -/
theorem parsed_addAll
    (t : Tally)
    (literals : List Int) :
    (t.addAll literals).parsed =
      t.parsed + literals.count 0 := by
  induction literals generalizing t with
  | nil => simp
  | cons literal literals ih =>
      rw [addAll_cons, ih]
      by_cases hZero : literal = 0
      · subst hZero
        simp only [add, if_true, List.count_cons_self]
        omega
      · rw [List.count_cons_of_ne hZero]
        simp [add, hZero]

theorem events_addAll_empty
    (literals : List Int) :
    (empty.addAll literals).events.toList =
      literals.map Event.add :=
  events_addAll empty literals

theorem parsed_addAll_empty
    (literals : List Int) :
    (empty.addAll literals).parsed = literals.count 0 := by
  rw [parsed_addAll]
  exact Nat.zero_add _

/-
  A clause is unfinished if the last literal is not zero.
-/
theorem unfinished_addAll
    (t : Tally)
    (literals : List Int) :
    (t.addAll literals).unfinished =
      match literals.getLast? with
      | some literal => decide (literal ≠ 0)
      | none => t.unfinished := by
  induction literals generalizing t with
  | nil => rfl
  | cons literal literals ih =>
      rw [addAll_cons, ih, List.getLast?_cons]
      cases literals.getLast? <;> rfl

end Tally

namespace Parser

variable {strictness : Strictness}
variable {header : Header}
variable {t : Tally}
variable {c c' : Cursor}

------------------------------------------------------------
-- Literals
------------------------------------------------------------

/- An index that a variable may have fits its width. -/
theorem literal_eq
    {index : Nat}
    (negative : Bool)
    (hIndex : index ≤ maxVariable)
    (c : Cursor) :
    literal negative index c =
      .ok (signed negative index) c := by
  rw [literal,
    int32_signed negative (Nat.le_succ_of_le hIndex)]

/-
  Relaxed reading accepts every index that a
  variable may have.
-/
theorem accept_relaxed
    {index : Nat}
    (header : Header)
    (parsed : Nat)
    (negative : Bool)
    (ahead : Option UInt8)
    (hIndex : index ≤ maxVariable)
    (c : Cursor) :
    accept .relaxed header parsed negative index ahead c =
      .ok (signed negative index) c := by
  have hRelaxed : Strictness.relaxed.IsRelaxed := rfl
  rw [accept, if_neg (fun h => h.1 hRelaxed),
    if_neg (fun h => h.1 hRelaxed),
    literal_eq negative hIndex]

/-
  A clause without its zero is an error, however
  strict the reading.
-/
theorem closeBody_of_unfinished
    (header : Header)
    (hUnfinished : t.unfinished = true) :
    closeBody strictness header t = fail .zeroMissing :=
  if_pos hUnfinished

theorem closeBody_relaxed
    (header : Header)
    (hFinished : t.unfinished = false) :
    closeBody .relaxed header t = pure t.parsed := by
  have hRelaxed : Strictness.relaxed.IsRelaxed := rfl
  rw [closeBody, hFinished, if_neg Bool.false_ne_true,
    if_neg (fun h => h.1 hRelaxed)]

/-
  Normal reading also wants as many clauses as
  the header declares.
-/
theorem closeBody_normal
    (header : Header)
    (hFinished : t.unfinished = false) :
    closeBody .normal header t =
      if t.parsed < header.clauseCount then
        fail
          (if t.parsed + 1 = header.clauseCount then
            .oneClauseMissing
          else .clausesMissing)
      else pure t.parsed := by
  have hNormal : ¬ Strictness.normal.IsRelaxed := nofun
  rw [closeBody, hFinished, if_neg Bool.false_ne_true]
  simp only [hNormal, not_false_eq_true, true_and]

/-
  Relaxed reading only wants the last clause to be finished.
-/
theorem closeBody_relaxed_ok_iff
    {parsed : Nat} :
    closeBody .relaxed header t c = .ok parsed c' ↔
      t.unfinished = false ∧
        t.parsed = parsed ∧
        c = c' := by
  cases hUnfinished : t.unfinished with
  | false =>
      rw [closeBody_relaxed header hUnfinished, pure_ok_iff]
      simp only [true_and]
  | true =>
      rw [closeBody_of_unfinished header hUnfinished]
      constructor
      · intro h
        exact absurd h fail_ne_ok
      · intro h
        cases h.1

------------------------------------------------------------
-- One Token at a Time
------------------------------------------------------------

theorem body_of_error
    {e : ParseError}
    (hToken : token strictness c = .error e c') :
    body strictness header t c = (t, .error e c') := by
  rw [body]
  split <;> simp_all

theorem body_of_finish
    (hToken : token strictness c = .ok .finish c') :
    body strictness header t c =
      (t, closeBody strictness header t c') := by
  rw [body]
  split <;> simp_all

theorem body_of_gap
    (hToken : token strictness c = .ok .gap c') :
    body strictness header t c =
      body strictness header t c' := by
  rw [body]
  split <;> simp_all

theorem body_of_numeral
    {negative : Bool}
    {index : Nat}
    {ahead : Option UInt8}
    {value : Int}
    {c₁ : Cursor}
    (hToken :
      token strictness c =
        .ok (.numeral negative index ahead) c₁)
    (hAccept :
      accept strictness header t.parsed negative index ahead
          c₁ =
        .ok value c') :
    body strictness header t c =
      body strictness header (t.add value) c' := by
  rw [body]
  split <;> simp_all
  split <;> simp_all

theorem body_of_refusal
    {negative : Bool}
    {index : Nat}
    {ahead : Option UInt8}
    {e : ParseError}
    {c₁ : Cursor}
    (hToken :
      token strictness c =
        .ok (.numeral negative index ahead) c₁)
    (hAccept :
      accept strictness header t.parsed negative index ahead
          c₁ =
        .error e c') :
    body strictness header t c = (t, .error e c') := by
  rw [body]
  split <;> simp_all
  split <;> simp_all

end Parser

end Dimacs
