import Dimacs.Formula.Basic

/-
  Additions as a storage makes them that is changed in
  place, one step after the other. A step that fails leaves
  behind what those in front of it have changed. This comes
  to the same as `Formula.add`, which says nothing about
  what a failure leaves behind.

  Key definitions include:
    * `Check.inPlace`
    * `Translation.importInPlace`
    * `Formula.addInPlace`

  Main statements:
    * `Translation.importVariable_eq_settled`
    * `Formula.add_eq_settled`
    * `Formula.addInPlace_eq_ok_iff`
    * `Formula.addInPlace_of_gt`
-/

namespace Dimacs

------------------------------------------------------------
-- Steps
------------------------------------------------------------

section Steps

variable {σ α β : Type}

/- A check changes nothing, whether it fails or not. -/
def Check.inPlace
    (result : Except Violation α) :
    EStateM Violation σ α :=
  fun s =>
    match result with
    | .ok a => .ok a s
    | .error violation => .error violation s

/- The result together with the state, if there is one. -/
def settled : EStateM.Result Violation σ α →
    Except Violation (α × σ)
  | .ok a s => .ok (a, s)
  | .error violation _ => .error violation

@[simp] theorem settled_pure
    (a : α)
    (s : σ) :
    settled ((pure a : EStateM Violation σ α) s) =
      pure (a, s) :=
  rfl

@[simp] theorem settled_get_bind
    (next : σ → EStateM Violation σ α)
    (s : σ) :
    settled ((get >>= next) s) = settled (next s s) :=
  rfl

@[simp] theorem settled_modify_bind
    (change : σ → σ)
    (next : PUnit → EStateM Violation σ α)
    (s : σ) :
    settled ((modify change >>= next) s) =
      settled (next () (change s)) :=
  rfl

@[simp] theorem settled_check_bind
    (result : Except Violation α)
    (next : α → EStateM Violation σ β)
    (s : σ) :
    settled ((Check.inPlace result >>= next) s) =
      result >>= fun a => settled (next a s) := by
  cases result <;> rfl

end Steps

------------------------------------------------------------
-- Translations
------------------------------------------------------------

namespace Translation

/-
  Import an external index in place. Its number is put down
  on both sides before the new variable is handed on.
-/
def importInPlace
    (index : Nat) :
      EStateM Violation Translation Variable := do
  Check.inPlace (Check.require (0 < index))
  modify fun t => ⟨cover index t.internal, t.external⟩
  let t ← get
  match ← Check.inPlace (t.internal.get index) with
  | some known => pure known.var
  | none =>
      let size ←
        Check.inPlace (Check.uint32 t.external.size)
      modify fun t => ⟨t.internal, t.external.push index⟩
      let made ←
        Check.inPlace (Variable.literal ⟨size⟩ false)
      let internal ←
        Check.inPlace (t.internal.set index (some made))
      modify fun t => ⟨internal, t.external⟩
      pure ⟨size⟩

theorem importVariable_eq_settled
    (index : Nat)
    (t : Translation) :
    t.importVariable index =
      settled (importInPlace index t) := by
  rcases t with ⟨internal, external⟩
  simp only [importVariable, importInPlace,
    settled_check_bind, settled_modify_bind,
    settled_get_bind]
  congr
  funext _
  congr
  funext found
  cases found with
  | some known => rfl
  | none =>
      simp only [settled_check_bind, settled_modify_bind,
        settled_pure]

end Translation

------------------------------------------------------------
-- Formulas
------------------------------------------------------------

namespace Formula

/- Change the translation in place, also by a failure. -/
def onTranslation
    {α : Type}
    (step : EStateM Violation Translation α) :
    EStateM Violation Formula α :=
  fun f =>
    match step f.translation with
    | .ok a t => .ok a { f with translation := t }
    | .error violation t =>
        .error violation { f with translation := t }

theorem settled_onTranslation_bind
    {α β : Type}
    (step : EStateM Violation Translation α)
    (next : α → EStateM Violation Formula β)
    (f : Formula) :
    settled ((onTranslation step >>= next) f) =
      settled (step f.translation) >>=
        fun found =>
          settled
            (next found.1
              { f with translation := found.2 }) := by
  change settled (EStateM.bind _ _ _) = _
  rw [EStateM.bind, onTranslation]
  cases step f.translation <;> rfl

/- Every variable that occurs has a place for its phases. -/
def growPhases
    (f : Formula) : Formula :=
  { f with
    initial := f.initial.grow f.translation.size .unset
    neural := f.neural.grow f.translation.size .unset }

/-
  Add a literal in place. Its index is checked before the
  formula is touched.
-/
def addInPlace
    (value : Int) : EStateM Violation Formula Unit :=
  if value = 0 then modify endClause
  else do
    Check.inPlace
      (Check.require (value.natAbs ≤ maxVariable))
    let v ←
      onTranslation (Translation.importInPlace value.natAbs)
    modify growPhases
    let l ← Check.inPlace (v.literal (decide (value < 0)))
    modify fun f => { f with pending := f.pending.push l }

theorem add_eq_settled
    (value : Int)
    (f : Formula) :
    f.add value =
      (settled (addInPlace value f)).map Prod.snd := by
  rw [add, addInPlace]
  split
  · rfl
  · rw [settled_check_bind]
    cases Check.require (value.natAbs ≤ maxVariable) with
    | error violation => rfl
    | ok _ =>
        change f.addLiteral _ _ = (settled _).map Prod.snd
        rw [settled_onTranslation_bind,
          ← Translation.importVariable_eq_settled,
          addLiteral]
        cases f.translation.importVariable value.natAbs with
        | error violation => rfl
        | ok found =>
            change _ = (settled _).map Prod.snd
            rw [settled_modify_bind, settled_check_bind]
            cases hLiteral :
                found.1.literal (decide (value < 0)) with
            | error violation =>
                simp only [bind, Except.bind, hLiteral]
                rfl
            | ok l =>
                simp only [bind, Except.bind, hLiteral]
                rfl

variable {f f' : Formula}
variable {value : Int}

/- Both ways of adding have the same successes. -/
theorem addInPlace_eq_ok_iff :
    addInPlace value f = .ok () f' ↔
      f.add value = .ok f' := by
  rw [add_eq_settled]
  cases addInPlace value f with
  | ok _ f₁ => simp [settled, Except.map]
  | error violation f₁ => simp [settled, Except.map]

/- An index out of range is refused by the first step. -/
theorem addInPlace_of_gt
    (f : Formula)
    (h : maxVariable < value.natAbs) :
    addInPlace value f = .error .assertion f := by
  have hZero : value ≠ 0 := by
    rintro rfl
    exact Nat.not_lt_zero _ h
  have hRange : ¬ value.natAbs ≤ maxVariable :=
    Nat.not_le.mpr h
  have hRequire :
      Check.require (value.natAbs ≤ maxVariable) =
        .error .assertion :=
    if_neg hRange
  rw [addInPlace, if_neg hZero, hRequire]
  rfl

end Formula

end Dimacs
