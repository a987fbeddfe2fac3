import Dimacs.Proofs.Cursor.Consumption
import Dimacs.Proofs.Hint.Integer

/-
  The scanners of integers accept exactly their tokens.
  Where a text starts with one they consume it to its
  last digit; elsewhere they consume at most a front part
  of one. No computation leaves 64 bits, however many
  digits there are.

  Key definitions include:
    * `IntegerText.DenotesInt`
    * `IntegerText.DenotesUnsigned`
    * `IntegerText.IsFragment`
    * `Cursor.ScansInteger`

  Main statements:
    * `Cursor.exists_digits_of_scanDigits`
    * `Cursor.exists_fragment`
    * `Cursor.exists_scansInteger`
    * `integers_are_scanned_exactly`
-/

namespace Dimacs

namespace IntegerText

/- The integer stands for a signed number of 32 bits. -/
def DenotesInt
    (t : IntegerText)
    (value : Int) : Prop :=
  t.value = value ∧ Check.FitsInt32 value

/-
  The integer stands for an unsigned number of 32 bits, and
  has no minus sign.
-/
def DenotesUnsigned
    (t : IntegerText)
    (value : Nat) : Prop :=
  t.sign ≠ some Byte.minus ∧
    Byte.decimal t.digits = value ∧
    value ≤ Check.maxUnsigned32

/-
  What a scanner may have consumed of an integer: white
  space, a sign of the kind that is admitted, and digits,
  each of which may be missing.
-/
structure IsFragment
    (admitted : UInt8 → Prop)
    (t : IntegerText) : Prop where
  spaces : ∀ b ∈ t.spaces, Byte.IsSpace b
  sign : ∀ b ∈ t.sign, admitted b
  digits : ∀ b ∈ t.digits, Byte.IsDigit b

end IntegerText

namespace Cursor

variable {c c' : Cursor}
variable {admitted : UInt8 → Prop}

/-
  What scanning an integer comes to. A value is found
  exactly if the text starts with an integer that stands for
  it, which is then consumed, and nothing else. In any case
  no more than a front part of an integer is consumed.
-/
structure ScansInteger
    {α : Type}
    (denotes : IntegerText → α → Prop)
    (admitted : UInt8 → Prop)
    (c : Cursor)
    (found : Option α)
    (consumed : List UInt8)
    (c' : Cursor) : Prop where
  consumes : c.Consumes consumed c'
  found_iff :
      ∀ value,
        found = some value ↔
        ∃ (t : IntegerText) (rest : List UInt8),
          t.Leads c.readable rest ∧ denotes t value
  token :
      ∀ value,
        found = some value →
        ∃ t : IntegerText,
          t.Leads c.readable c'.readable ∧
          denotes t value ∧
          consumed = t.bytes
  fragment :
      ∃ t : IntegerText,
        t.IsFragment admitted ∧ consumed = t.bytes

------------------------------------------------------------
-- Fragments
------------------------------------------------------------

/-
  Whether digits are given up or not, nothing but
  digits was consumed.
-/
theorem exists_digits_of_digitsFrom
    {value : Int}
    {found : Option Int}
    (h : digitsFrom value c = .ok found c') :
    ∃ digits,
      (∀ b ∈ digits, Byte.IsDigit b) ∧
      c.readable = digits ++ c'.readable := by
  fun_induction digitsFrom value c with
  | case1 value c b c₁ hPeek hDigit violation hStep =>
      cases h
  | case2 value c b c₁ hPeek hDigit value' hStep hLarge =>
      cases h
      exact ⟨[], List.forall_mem_nil _,
        (readable_of_peek hPeek).2.symm⟩
  | case3 value c b c₁ hPeek hDigit value' hStep hLarge ih
        =>
      rcases ih h with ⟨digits, hDigits, hText⟩
      refine ⟨b :: digits,
        List.forall_mem_cons.mpr ⟨hDigit, hDigits⟩, ?_⟩
      rw [readable_next_of_peek hPeek, hText,
        List.cons_append]
  | case4 value c b c₁ hPeek hDigit =>
      cases h
      exact ⟨[], List.forall_mem_nil _,
        (readable_of_peek hPeek).2.symm⟩
  | case5 value c c₁ hPeek =>
      cases h
      exact ⟨[], List.forall_mem_nil _,
        (readable_of_peek hPeek).2.symm⟩

theorem exists_digits_of_scanDigits
    {found : Option Int}
    (h : scanDigits c = .ok found c') :
    ∃ digits,
      (∀ b ∈ digits, Byte.IsDigit b) ∧
      c.readable = digits ++ c'.readable := by
  unfold scanDigits at h
  split at h
  · next b c₁ hPeek =>
      have hSame := (readable_of_peek hPeek).2
      split at h
      · rw [← hSame]
        exact exists_digits_of_digitsFrom h
      · cases h
        exact ⟨[], List.forall_mem_nil _, hSame.symm⟩
  · next c₁ hPeek =>
      cases h
      exact ⟨[], List.forall_mem_nil _,
        (readable_of_peek hPeek).2.symm⟩

/-
  White space, perhaps a sign, and digits are all
  that is consumed.
-/
theorem exists_fragment
    [DecidablePred admitted]
    {c₁ : Cursor}
    {sign : Option UInt8}
    {found : Option Int}
    (hSign :
      c.skipSpaces.takeIf (fun b => decide (admitted b)) =
        (sign, c₁))
    (hDigits : scanDigits c₁ = .ok found c') :
    ∃ t : IntegerText,
      t.IsFragment admitted ∧
      c.readable = t.bytes ++ c'.readable := by
  rcases (readable_skipSpaces_iff (c := c)).mp rfl with
    ⟨spaces, hSpaces⟩
  rcases finds_takeIf_iff.mp ⟨c₁, hSign, rfl⟩ with
    ⟨hSigned, hAdmitted, _⟩
  rcases exists_digits_of_scanDigits hDigits with
    ⟨digits, hAll, hText⟩
  refine ⟨⟨spaces, sign, digits⟩,
    ⟨hSpaces.all, hAdmitted, hAll⟩, ?_⟩
  rw [hSpaces.text_eq, hSigned, hText]
  simp only [IntegerText.bytes, List.append_assoc]

theorem exists_fragment_of_scanInt
    {found : Option Int}
    (h : scanInt c = .ok found c') :
    ∃ t : IntegerText,
      t.IsFragment Byte.IsSign ∧
      c.readable = t.bytes ++ c'.readable := by
  unfold scanInt at h
  split at h
  next sign c₁ hSign =>
    split at h
    · cases h
    · next hDigits =>
        cases h
        exact exists_fragment hSign hDigits
    · next hDigits =>
        split at h
        · cases h
        · cases h
          exact exists_fragment hSign hDigits

theorem exists_fragment_of_scanUnsigned
    {found : Option Nat}
    (h : scanUnsigned c = .ok found c') :
    ∃ t : IntegerText,
      t.IsFragment (fun b => b = Byte.plus) ∧
      c.readable = t.bytes ++ c'.readable := by
  unfold scanUnsigned at h
  rw [scanChar_eq] at h
  rcases hSign :
      c.skipSpaces.takeIf
        (fun b => decide (b = Byte.plus)) with
    ⟨sign, c₁⟩
  simp only [hSign] at h
  split at h
  · cases h
  · next hDigits =>
      cases h
      exact exists_fragment hSign hDigits
  · next hDigits =>
      cases h
      exact exists_fragment hSign hDigits

------------------------------------------------------------
-- Tokens
------------------------------------------------------------

/-
  A scanner that finds exactly the integers in front of a
  text has consumed them, because moves consume what is then
  missing of the text.
-/
theorem exists_scansInteger
    {α : Type}
    {scan : Scanner (Option α)}
    {denotes : IntegerText → α → Prop}
    {found : Option α}
    (hSteady : c.IsSteady)
    (hScan : scan c = .ok found c')
    (hReaches : c.Reaches c')
    (hYields :
      ∀ value rest,
        Yields (scan c) (some value) rest ↔
        ∃ t : IntegerText,
          t.Leads c.readable rest ∧ denotes t value)
    (hFragment : ∃ t : IntegerText, t.IsFragment admitted ∧
      c.readable = t.bytes ++ c'.readable) :
    ∃ consumed,
      ScansInteger denotes admitted c found consumed
        c' := by
  rcases exists_consumes hSteady hReaches with
    ⟨consumed, hConsumes⟩
  have hToken :
      ∀ value,
        found = some value →
        ∃ t : IntegerText,
          t.Leads c.readable c'.readable ∧
          denotes t value := by
    rintro value rfl
    exact (hYields value c'.readable).mp ⟨c', hScan, rfl⟩
  refine ⟨consumed, hConsumes, ?_, ?_, ?_⟩
  · intro value
    constructor
    · intro hFound
      rcases hToken value hFound with ⟨t, hLeads, hDenotes⟩
      exact ⟨t, c'.readable, hLeads, hDenotes⟩
    · intro h
      rcases h with ⟨t, rest, hLeads, hDenotes⟩
      rcases (hYields value rest).mpr
          ⟨t, hLeads, hDenotes⟩ with
        ⟨c₁, hFound, _⟩
      rw [hScan] at hFound
      exact (EStateM.Result.ok.inj hFound).1
  · intro value hFound
    rcases hToken value hFound with ⟨t, hLeads, hDenotes⟩
    exact ⟨t, hLeads, hDenotes,
      hConsumes.eq_of_readable hLeads.text_eq⟩
  · rcases hFragment with ⟨t, hKinds, hText⟩
    exact ⟨t, hKinds, hConsumes.eq_of_readable hText⟩

end Cursor

/-
  Both scanners of integers come to a result without a
  failed check. A signed number is found exactly where
  white space, perhaps a sign, and digits of a number of 32
  bits stand; an unsigned one exactly where the sign is a
  plus, or missing.
-/
theorem integers_are_scanned_exactly
    {c : Cursor}
    (h : c.IsOpen) :
    (∃ found consumed c',
        c.scanInt = .ok found c' ∧
        Cursor.ScansInteger IntegerText.DenotesInt
          Byte.IsSign c found consumed c') ∧
      ∃ found consumed c',
        c.scanUnsigned = .ok found c' ∧
        Cursor.ScansInteger IntegerText.DenotesUnsigned
          (fun b => b = Byte.plus) c found consumed c' := by
  constructor
  · rcases Cursor.completes_scanInt c with
      ⟨found, c', hScan, _⟩
    rcases Cursor.exists_scansInteger h.isSteady hScan
        (Cursor.reaches_scanInt hScan)
        (fun _ _ => Cursor.yields_scanInt_iff)
        (Cursor.exists_fragment_of_scanInt hScan) with
      ⟨consumed, hScans⟩
    exact ⟨found, consumed, c', hScan, hScans⟩
  · rcases Cursor.completes_scanUnsigned c with
      ⟨found, c', hScan, _⟩
    rcases Cursor.exists_scansInteger h.isSteady hScan
        (Cursor.reaches_scanUnsigned hScan)
        (fun _ _ => Cursor.yields_scanUnsigned_iff)
        (Cursor.exists_fragment_of_scanUnsigned hScan) with
      ⟨consumed, hScans⟩
    exact ⟨found, consumed, c', hScan, hScans⟩

/-
  The smallest signed number is found behind a tabulator,
  with a leading zero: `-02147483648;`.
-/
theorem smallest_integer_is_scanned :
    ∃ c : Cursor,
      c.readable =
        [9, 45, 48, 50, 49, 52, 55, 52, 56, 51, 54, 52, 56,
          59] ∧
      c.IsOpen ∧
      ∃ consumed c',
        c.scanInt = .ok (some (-2147483648)) c' ∧
        Cursor.ScansInteger IntegerText.DenotesInt
          Byte.IsSign c (some (-2147483648)) consumed
          c' := by
  have hOpen := Cursor.isOpen_ofSource
    (.ofBytes
      [9, 45, 48, 50, 49, 52, 55, 52, 56, 51, 54, 52, 56,
        59]) "hints"
  rcases (integers_are_scanned_exactly hOpen).1 with
    ⟨found, consumed, c', hScan, hScans⟩
  have hForm :
      IntegerText.IsWellFormed
        ⟨[9], some 45,
          [48, 50, 49, 52, 55, 52, 56, 51, 54, 52, 56]⟩ :=
    ⟨by simp [Byte.IsSpace], by simp [Byte.IsSign],
      by simp [Byte.IsDigit], List.cons_ne_nil _ _⟩
  have hFound : found = some (-2147483648) := by
    rw [hScans.found_iff]
    refine ⟨_, [59], ⟨hForm, rfl, ?_⟩, by decide +kernel,
      by decide⟩
    rintro b ⟨⟩
    decide
  subst hFound
  exact ⟨_, rfl, hOpen, consumed, c', hScan, hScans⟩

end Dimacs
