import Dimacs.Proofs.Clauses.Steps
import Dimacs.Proofs.Cursor.Lookahead
import Dimacs.Proofs.Hint.Scanning

/-
  The form of an integer in a hint file, stated apart from
  the scanners, and its equivalence with them: a scanner
  finds a number exactly if the text starts with one, and
  leaves what stands behind its last digit.

  Key definitions include:
    * `IntegerText`
    * `IntegerText.IsWellFormed`
    * `IntegerText.Leads`
    * `StartsWithInt`
    * `StartsWithUnsigned`

  Main statements:
    * `Cursor.yields_digitsFrom_iff`
    * `Cursor.yields_scanDigits_iff`
    * `Cursor.yields_scanInt_iff`
    * `Cursor.yields_scanUnsigned_iff`
-/

namespace Dimacs

------------------------------------------------------------
-- The Form of an Integer
------------------------------------------------------------

/-
  White space, which may be missing, perhaps a
  sign, and digits.
-/
structure IntegerText where
  spaces : List UInt8
  sign : Option UInt8
  digits : List UInt8

namespace IntegerText

def bytes
    (t : IntegerText) : List UInt8 :=
  t.spaces ++ (t.sign.toList ++ t.digits)

/-
  The number that is denoted, with any number
  of leading zeros.
-/
def value
    (t : IntegerText) : Int :=
  signed (decide (t.sign = some Byte.minus))
    (Byte.decimal t.digits)

structure IsWellFormed
    (t : IntegerText) : Prop where
  spaces : ∀ b ∈ t.spaces, Byte.IsSpace b
  sign : ∀ b ∈ t.sign, Byte.IsSign b
  digits : ∀ b ∈ t.digits, Byte.IsDigit b
  nonempty : t.digits ≠ []

/-
  The text starts with the integer, and no further digit
  belongs to it.
-/
structure Leads
    (t : IntegerText)
    (text rest : List UInt8) : Prop where
  wellFormed : t.IsWellFormed
  text_eq : text = t.bytes ++ rest
  ends : ∀ b ∈ rest.head?, ¬ Byte.IsDigit b

end IntegerText

/- The text starts with a signed number of 32 bits. -/
def StartsWithInt
    (text : List UInt8)
    (value : Int)
    (rest : List UInt8) : Prop :=
  ∃ t : IntegerText,
    t.Leads text rest ∧
    t.value = value ∧
    Check.FitsInt32 value

/-
  The text starts with an unsigned number of 32 bits,
  perhaps with a plus sign.
-/
def StartsWithUnsigned
    (text : List UInt8)
    (value : Nat)
    (rest : List UInt8) : Prop :=
  ∃ t : IntegerText,
    t.Leads text rest ∧
    t.sign ≠ some Byte.minus ∧
    Byte.decimal t.digits = value ∧
    value ≤ Check.maxUnsigned32

/- White space is neither a sign nor a digit. -/
theorem Byte.not_isSpace_of_isSign
    {b : UInt8}
    (h : IsSign b) :
    ¬ IsSpace b := by
  rcases h with rfl | rfl <;> decide

theorem Byte.not_isSpace_of_isDigit
    {b : UInt8}
    (h : IsDigit b) :
    ¬ IsSpace b := by
  have hLower := UInt8.le_iff_toNat_le.mp h.1
  rintro (rfl | rfl | rfl | rfl | rfl | rfl) <;>
    exact absurd hLower (by decide)

theorem Byte.not_isSign_of_isDigit
    {b : UInt8}
    (h : IsDigit b) :
    ¬ IsSign b := by
  have hLower := UInt8.le_iff_toNat_le.mp h.1
  rintro (rfl | rfl) <;> exact absurd hLower (by decide)

/- Digits do not start with a sign. -/
theorem not_isSign_of_digits
    {digits : List UInt8}
    (hDigits : ∀ b ∈ digits, Byte.IsDigit b)
    (hNonempty : digits ≠ [])
    (rest : List UInt8) :
    ∀ b ∈ (digits ++ rest).head?, ¬ Byte.IsSign b := by
  rcases List.exists_cons_of_ne_nil hNonempty with
    ⟨b, back, rfl⟩
  rintro a ⟨⟩
  exact Byte.not_isSign_of_isDigit
    (hDigits b List.mem_cons_self)

namespace IntegerText

variable {t : IntegerText}
variable {text rest : List UInt8}

/- Behind the white space stands a sign or a digit. -/
theorem Leads.isRun_spaces
    (h : t.Leads text rest) :
    IsRun Byte.IsSpace text t.spaces
      (t.sign.toList ++ (t.digits ++ rest)) := by
  rcases h with
    ⟨⟨hSpaces, hSign, hDigits, hNonempty⟩, rfl, _⟩
  refine
    ⟨by simp only [bytes, List.append_assoc], hSpaces, ?_⟩
  rcases hKind : t.sign with _ | sign
  · rcases List.exists_cons_of_ne_nil hNonempty with
      ⟨b, digits, hCons⟩
    rw [hCons] at hDigits ⊢
    rintro a ⟨⟩
    exact Byte.not_isSpace_of_isDigit
      (hDigits b List.mem_cons_self)
  · rintro a ⟨⟩
    exact Byte.not_isSpace_of_isSign (hSign sign hKind)

end IntegerText

namespace Cursor

variable {c : Cursor}
variable {rest : List UInt8}

/-
  A scanner came to a result, and the rest of the text
  is still readable.
-/
def Yields
    {α : Type}
    (result : EStateM.Result Violation Cursor α)
    (found : α)
    (rest : List UInt8) : Prop :=
  ∃ c', result = .ok found c' ∧ c'.readable = rest

------------------------------------------------------------
-- Digits
------------------------------------------------------------

/-
  The number that arises when digits are appended
  to a value.
-/
def appendDigits
    (value : Int)
    (digits : List UInt8) : Int :=
  digits.foldl
    (fun value b => value * 10 + (Byte.digit b : Int)) value

theorem appendDigits_cons
    (value : Int)
    (b : UInt8)
    (digits : List UInt8) :
    appendDigits value (b :: digits) =
      appendDigits (value * 10 + (Byte.digit b : Int))
        digits :=
  rfl

/- Further digits do not make a value smaller. -/
theorem le_appendDigits
    {value : Int}
    (hValue : 0 ≤ value)
    (digits : List UInt8) :
    value ≤ appendDigits value digits := by
  induction digits generalizing value with
  | nil => exact Int.le_refl value
  | cons b digits ih =>
      have hStep :
          0 ≤ value * 10 + (Byte.digit b : Int) := by
        omega
      rw [appendDigits_cons]
      exact Int.le_trans (by omega) (ih hStep)

theorem appendDigits_natCast
    (value : Nat)
    (digits : List UInt8) :
    appendDigits value digits =
      (digits.foldl
          (fun value b => value * 10 + Byte.digit b) value :
        Nat) := by
  induction digits generalizing value with
  | nil => rfl
  | cons b digits ih =>
      rw [appendDigits_cons, List.foldl_cons, ← ih,
        Int.natCast_add, Int.natCast_mul]
      rfl

/- Where no digit stands, the value is complete. -/
theorem yields_complete_iff
    {c₁ : Cursor}
    {value n : Int}
    (hValue : IsMagnitude value)
    (hSame : c₁.readable = c.readable)
    (hStops : ∀ b ∈ c.readable.head?, ¬ Byte.IsDigit b) :
    Yields (.ok (some value) c₁) (some n) rest ↔
      ∃ digits, IsRun Byte.IsDigit c.readable digits rest ∧
        n = appendDigits value digits ∧ n ≤ maxValue := by
  simp only [isRun_nil_iff hStops]
  constructor
  · intro h
    rcases h with ⟨c', hFound, rfl⟩
    cases hFound
    exact ⟨[], ⟨rfl, hSame⟩, rfl, hValue.2⟩
  · intro h
    rcases h with ⟨_, ⟨rfl, rfl⟩, rfl, _⟩
    exact ⟨c₁, rfl, hSame⟩

/-
  All digits are read if the number stays within the limit.
  Once a digit leaves it, those behind do not lead back.
-/
theorem yields_digitsFrom_iff
    {value n : Int}
    (hValue : IsMagnitude value) :
    Yields (digitsFrom value c) (some n) rest ↔
      ∃ digits, IsRun Byte.IsDigit c.readable digits rest ∧
        n = appendDigits value digits ∧ n ≤ maxValue := by
  fun_induction digitsFrom value c with
  | case1 value c b c₁ hPeek hDigit violation hStep =>
      rw [accumulate_eq_ok hValue hDigit] at hStep
      cases hStep
  | case2 value c b c₁ hPeek hDigit value' hStep hLarge =>
      rw [accumulate_eq_ok hValue hDigit] at hStep
      rcases Except.ok.inj hStep with rfl
      rw [readable_next_of_peek hPeek]
      simp only [isRun_cons_iff hDigit]
      constructor
      · intro h
        rcases h with ⟨c', hNone, _⟩
        cases hNone
      · intro h
        rcases h with ⟨_, ⟨back, rfl, _⟩, rfl, hFits⟩
        have hLower := hValue.1
        have hStep :
            0 ≤ value * 10 + (Byte.digit b : Int) := by
          omega
        have hGrown := le_appendDigits hStep back
        rw [appendDigits_cons] at hFits
        omega
  | case3 value c b c₁ hPeek hDigit value' hStep hLarge ih
        =>
      rw [accumulate_eq_ok hValue hDigit] at hStep
      rcases Except.ok.inj hStep with rfl
      have hLower := hValue.1
      rw [ih ⟨by omega, Int.not_lt.mp hLarge⟩,
        readable_next_of_peek hPeek]
      simp only [isRun_cons_iff hDigit]
      constructor
      · intro h
        rcases h with ⟨back, hRun, hNumber, hFits⟩
        exact ⟨b :: back, ⟨back, rfl, hRun⟩, hNumber, hFits⟩
      · intro h
        rcases h with ⟨_, ⟨back, rfl, hRun⟩, hNumber, hFits⟩
        exact ⟨back, hRun, hNumber, hFits⟩
  | case4 value c b c₁ hPeek hDigit =>
      rcases readable_of_peek hPeek with ⟨hHead, hSame⟩
      apply yields_complete_iff hValue hSame
      rw [← hHead]
      rintro a ⟨⟩
      exact hDigit
  | case5 value c c₁ hPeek =>
      rcases readable_of_peek hPeek with ⟨hHead, hSame⟩
      apply yields_complete_iff hValue hSame
      rw [← hHead]
      intro b hb
      cases hb

/- Where no digit stands, nothing is found. -/
theorem scanDigits_of_stop
    (hStops : ∀ b ∈ c.readable.head?, ¬ Byte.IsDigit b) :
    Yields (scanDigits c) none c.readable := by
  unfold Yields scanDigits
  rcases hPeek : c.peek with ⟨_ | b, c₁⟩
  · exact ⟨c₁, rfl, (readable_of_peek hPeek).2⟩
  · rcases readable_of_peek hPeek with ⟨hHead, hSame⟩
    have hOther : ¬ Byte.IsDigit b := hStops b hHead.symm
    simp only [if_neg hOther]
    exact ⟨c₁, rfl, hSame⟩

theorem scanDigits_of_digit
    {b : UInt8}
    (hHead : c.readable.head? = some b)
    (hDigit : Byte.IsDigit b) :
    ∃ c₁,
      scanDigits c = digitsFrom 0 c₁ ∧
      c₁.readable = c.readable := by
  unfold scanDigits
  rcases hPeek : c.peek with ⟨ahead, c₁⟩
  rcases readable_of_peek hPeek with ⟨rfl, hSame⟩
  simp only [hHead, if_pos hDigit]
  exact ⟨c₁, rfl, hSame⟩

/-
  One digit is enough, and any number of leading
  zeros is allowed.
-/
theorem yields_scanDigits_iff
    {n : Int} :
    Yields (scanDigits c) (some n) rest ↔
      ∃ digits,
        digits ≠ [] ∧
        IsRun Byte.IsDigit c.readable digits rest ∧
        n = (Byte.decimal digits : Int) ∧
        n ≤ maxValue := by
  by_cases hStart :
      ∃ b, c.readable.head? = some b ∧ Byte.IsDigit b
  · rcases hStart with ⟨b, hHead, hDigit⟩
    rcases scanDigits_of_digit hHead hDigit with
      ⟨c₁, hDigits, hSame⟩
    rcases List.head?_eq_some_iff.mp hHead with
      ⟨text, hText⟩
    have hZero : IsMagnitude 0 := ⟨Int.le_refl 0, by decide⟩
    rw [hDigits, yields_digitsFrom_iff hZero, hSame, hText]
    simp only [isRun_cons_iff hDigit]
    constructor
    · intro h
      rcases h with ⟨digits, ⟨back, rfl, hRun⟩, rfl, hFits⟩
      exact ⟨b :: back, List.cons_ne_nil b back,
        ⟨back, rfl, hRun⟩, appendDigits_natCast 0 _, hFits⟩
    · intro h
      rcases h with ⟨digits, _, hRun, rfl, hFits⟩
      exact ⟨digits, hRun,
        (appendDigits_natCast 0 digits).symm, hFits⟩
  · have hStops :
        ∀ b ∈ c.readable.head?, ¬ Byte.IsDigit b :=
      fun b hHead hDigit => hStart ⟨b, hHead, hDigit⟩
    rcases scanDigits_of_stop hStops with ⟨c₁, hNone, _⟩
    simp only [isRun_nil_iff hStops]
    constructor
    · intro h
      rcases h with ⟨c', hFound, _⟩
      rw [hNone] at hFound
      cases hFound
    · intro h
      rcases h with ⟨digits, hNonempty, ⟨hNil, _⟩, _⟩
      exact absurd hNil hNonempty

------------------------------------------------------------
-- Numbers
------------------------------------------------------------

/-
  White space, perhaps a sign of the kind that is admitted,
  and digits are found exactly if the text starts with them.
-/
theorem exists_digits_iff
    {kind : UInt8 → Prop}
    [DecidablePred kind]
    {sign : Option UInt8}
    {n : Int}
    (hKind : ∀ b, kind b → Byte.IsSign b) :
    (∃ c₁,
        c.skipSpaces.takeIf (fun b => decide (kind b)) =
          (sign, c₁) ∧
        Yields (scanDigits c₁) (some n) rest) ↔
      ∃ t : IntegerText,
        t.Leads c.readable rest ∧
        t.sign = sign ∧
        (∀ b ∈ sign, kind b) ∧
        n = (Byte.decimal t.digits : Int) ∧
        n ≤ maxValue := by
  constructor
  · intro h
    rcases h with ⟨c₁, hSign, hDigits⟩
    rcases (readable_skipSpaces_iff (c := c)).mp rfl with
      ⟨spaces, hSpaces⟩
    rcases finds_takeIf_iff.mp ⟨c₁, hSign, rfl⟩ with
      ⟨hText, hAdmitted, _⟩
    rcases yields_scanDigits_iff.mp hDigits with
      ⟨digits, hNonempty, hRun, hNumber, hLimit⟩
    refine ⟨⟨spaces, sign, digits⟩,
      ⟨⟨hSpaces.all, ?_, hRun.all, hNonempty⟩, ?_,
        hRun.stops⟩, rfl, hAdmitted, hNumber, hLimit⟩
    · exact fun b hb => hKind b (hAdmitted b hb)
    · rw [hSpaces.text_eq, hText, hRun.text_eq]
      simp only [IntegerText.bytes, List.append_assoc]
  · intro h
    rcases h with
      ⟨t, hLeads, rfl, hAdmitted, hNumber, hLimit⟩
    have hSpaces := readable_skipSpaces_iff.mpr
      ⟨t.spaces, hLeads.isRun_spaces⟩
    have hRest :
        t.sign = none →
          ∀ b ∈ (t.digits ++ rest).head?, ¬ kind b :=
      fun _ b hb hSign =>
        not_isSign_of_digits hLeads.wellFormed.digits
          hLeads.wellFormed.nonempty rest b hb
          (hKind b hSign)
    rcases finds_takeIf_iff.mpr
        ⟨hSpaces, hAdmitted, hRest⟩ with
      ⟨c₁, hSign, hText⟩
    refine ⟨c₁, hSign,
      yields_scanDigits_iff.mpr
        ⟨t.digits, hLeads.wellFormed.nonempty, ?_, hNumber,
          hLimit⟩⟩
    exact ⟨hText, hLeads.wellFormed.digits, hLeads.ends⟩

theorem applySign_eq_ok
    {magnitude : Nat}
    (sign : Option UInt8)
    (h : (magnitude : Int) ≤ maxValue) :
    applySign sign magnitude =
      .ok
        (signed (decide (sign = some Byte.minus))
          magnitude) := by
  have hUpper : (magnitude : Int) ≤ 4294967295 := h
  by_cases hMinus : sign = some Byte.minus
  · rw [applySign, if_pos hMinus, signed,
      if_pos (decide_eq_true hMinus)]
    exact if_pos ⟨by omega, by omega⟩
  · have hPlus :
        ¬ decide (sign = some Byte.minus) = true := by
      simpa using hMinus
    rw [applySign, if_neg hMinus, signed, if_neg hPlus]
    exact if_pos ⟨by omega, by omega⟩

/-
  The digits of a number of 32 bits stay within the limit.
-/
theorem le_maxValue_of_fits
    {t : IntegerText}
    (h : Check.FitsInt32 t.value) :
    (Byte.decimal t.digits : Int) ≤ maxValue := by
  have hAbs :=
    natAbs_signed (decide (t.sign = some Byte.minus))
      (Byte.decimal t.digits)
  have hLower : -2147483648 ≤ t.value := h.1
  have hUpper : t.value ≤ 2147483647 := h.2
  have hMax : maxValue = 4294967295 := rfl
  change t.value.natAbs = _ at hAbs
  omega

/-
  A signed number is found exactly if the text
  starts with one.
-/
theorem yields_scanInt_iff
    {value : Int} :
    Yields (scanInt c) (some value) rest ↔
      StartsWithInt c.readable value rest := by
  unfold scanInt
  constructor
  · intro h
    rcases h with ⟨c', hScan, rfl⟩
    rcases hSign :
        c.skipSpaces.takeIf
          (fun b => decide (Byte.IsSign b)) with
      ⟨sign, c₁⟩
    rcases hDigits : scanDigits c₁ with
      ⟨_ | magnitude, c₂⟩ | _
    · simp only [hSign, hDigits] at hScan
      cases hScan
    · rcases (exists_digits_iff fun _ h => h).mp
          ⟨c₁, hSign, c₂, hDigits, rfl⟩ with
        ⟨t, hLeads, rfl, _, rfl, hLimit⟩
      simp only [hSign, hDigits,
        applySign_eq_ok t.sign hLimit] at hScan
      split at hScan
      · next hFits =>
          cases hScan
          exact ⟨t, hLeads, rfl, hFits⟩
      · cases hScan
    · simp only [hSign, hDigits] at hScan
      cases hScan
  · intro h
    rcases h with ⟨t, hLeads, rfl, hFits⟩
    have hLimit := le_maxValue_of_fits hFits
    rcases (exists_digits_iff fun _ h => h).mpr
        ⟨t, hLeads, rfl, hLeads.wellFormed.sign, rfl,
          hLimit⟩ with
      ⟨c₁, hSign, c₂, hDigits, hRest⟩
    simp only [hSign, hDigits,
      applySign_eq_ok t.sign hLimit]
    exact
      ⟨c₂, congrArg (EStateM.Result.ok · c₂) (if_pos hFits),
        hRest⟩

/-
  An unsigned number is found exactly if the text
  starts with one.
-/
theorem yields_scanUnsigned_iff
    {value : Nat} :
    Yields (scanUnsigned c) (some value) rest ↔
      StartsWithUnsigned c.readable value rest := by
  have hAdmitted : ∀ b, b = Byte.plus → Byte.IsSign b :=
    fun _ => .inr
  unfold scanUnsigned
  constructor
  · intro h
    rcases h with ⟨c', hScan, rfl⟩
    rw [scanChar_eq] at hScan
    rcases hSign :
        c.skipSpaces.takeIf
          (fun b => decide (b = Byte.plus)) with
      ⟨sign, c₁⟩
    rcases hDigits : scanDigits c₁ with
      ⟨_ | magnitude, c₂⟩ | _
    · simp only [hSign, hDigits] at hScan
      cases hScan
    · rcases (exists_digits_iff hAdmitted).mp
          ⟨c₁, hSign, c₂, hDigits, rfl⟩ with
        ⟨t, hLeads, rfl, hPlus, rfl, hLimit⟩
      simp only [hSign, hDigits, if_pos hLimit,
        Int.toNat_natCast] at hScan
      cases hScan
      refine ⟨t, hLeads, ?_, rfl, ?_⟩
      · intro hMinus
        cases hPlus Byte.minus hMinus
      · exact Int.ofNat_le.mp hLimit
    · simp only [hSign, hDigits] at hScan
      cases hScan
  · intro h
    rcases h with ⟨t, hLeads, hMinus, rfl, hFits⟩
    have hLimit :
        (Byte.decimal t.digits : Int) ≤ maxValue :=
      Int.ofNat_le.mpr hFits
    have hPlus : ∀ b ∈ t.sign, b = Byte.plus := by
      intro b hb
      rcases hLeads.wellFormed.sign b hb with rfl | rfl
      · exact absurd hb hMinus
      · rfl
    rcases (exists_digits_iff hAdmitted).mpr
        ⟨t, hLeads, rfl, hPlus, rfl, hLimit⟩ with
      ⟨c₁, hSign, c₂, hDigits, hRest⟩
    rw [scanChar_eq]
    simp only [hSign, hDigits, if_pos hLimit,
      Int.toNat_natCast]
    exact ⟨c₂, rfl, hRest⟩

end Cursor

end Dimacs
