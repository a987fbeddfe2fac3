import Dimacs.Proofs.Cursor.Consumption
import Dimacs.Proofs.Hint.Fraction
import Mathlib.Algebra.Field.Rat
import Mathlib.Tactic.FieldSimp
import Mathlib.Tactic.Ring

/-
  The scanner of decimal fractions accepts exactly its
  tokens, and what it hands on to be converted stands for
  the same rational number as the token, although the digits
  that are missing beside a point have been filled in.

  Key definitions include:
    * `Decimal.toRat`
    * `SignificandText.value`
    * `ExponentText.value`
    * `FractionText.value`
    * `Cursor.ScansFraction`

  Main statements:
    * `decimal_append_scaled`
    * `FractionText.toRat_numeral`
    * `fractions_are_scanned_exactly`
-/

namespace Dimacs

------------------------------------------------------------
-- Values
------------------------------------------------------------

/- The rational number that a decimal stands for. -/
def Decimal.toRat
    (d : Decimal) : ℚ :=
  (if d.negative then -1 else 1) * (d.significand : ℚ) *
    (10 : ℚ) ^ d.exponent

/- What the digits behind a point add to a number. -/
def fractionValue
    (digits : List UInt8) : ℚ :=
  (Byte.decimal digits : ℚ) / (10 : ℚ) ^ digits.length

/- The number in front of an exponent, without its sign. -/
def SignificandText.value
    (s : SignificandText) : ℚ :=
  (Byte.decimal s.whole : ℚ) +
    fractionValue (s.fraction.getD [])

/- The power of ten by which a significand is multiplied. -/
def ExponentText.value
    (e : ExponentText) : Int :=
  signed (decide (e.sign = some Byte.minus))
    (Byte.decimal e.digits)

/- The rational number that the token stands for. -/
def FractionText.value
    (t : FractionText) : ℚ :=
  (if t.sign = some Byte.minus then -1 else 1) *
    t.significand.value *
    (10 : ℚ) ^ (t.exponent.map ExponentText.value).getD 0

------------------------------------------------------------
-- Digits That Are Filled In
------------------------------------------------------------

theorem decimal_filled
    (digits : List UInt8) :
    Byte.decimal (filled digits) = Byte.decimal digits := by
  unfold filled
  split
  · next hNil =>
      rw [hNil]
      rfl
  · rfl

/- A zero behind the point adds nothing. -/
theorem fractionValue_filled
    (digits : List UInt8) :
    fractionValue (filled digits) =
      fractionValue digits := by
  unfold filled
  split
  · next hNil =>
      have hZero : Byte.decimal [Byte.zero] = 0 := rfl
      rw [hNil, fractionValue, hZero, fractionValue]
      simp [Byte.decimal]
  · rfl

/-
  Digits may be read in one go if the exponent makes up for
  those behind the point.
-/
theorem decimal_append_scaled
    (whole fraction : List UInt8)
    (exponent : Int) :
    (Byte.decimal (whole ++ fraction) : ℚ) *
        (10 : ℚ) ^ (exponent - fraction.length) =
      ((Byte.decimal whole : ℚ) + fractionValue fraction) *
        (10 : ℚ) ^ exponent := by
  have hTen : (10 : ℚ) ≠ 0 := by norm_num
  rw [Byte.decimal_append, Nat.pow_eq, fractionValue,
    zpow_sub₀ hTen, zpow_natCast]
  push_cast
  field_simp

/-
  The parts of a written number stand for what is written.
-/
theorem Numeral.toRat_value
    (n : Numeral) :
    n.value.toRat =
      (if n.negative then -1 else 1) *
        ((Byte.decimal n.whole : ℚ) +
          fractionValue n.fraction) *
        (10 : ℚ) ^
          signed n.exponentNegative
            (Byte.decimal n.exponent) := by
  -- The significand is computed from all digits at
  -- once, in halves.
  rw [mul_assoc, ← decimal_append_scaled, ← mul_assoc,
    ← Byte.longDecimal_eq]
  rfl

/-
  The parts that are handed on stand for the number
  that was read.
-/
theorem FractionText.toRat_numeral
    (t : FractionText) :
    t.numeral.value.toRat = t.value := by
  rcases t with ⟨spaces, sign, ⟨whole, fraction⟩, exponent⟩
  have hFraction :
      fractionValue ((fraction.map filled).getD []) =
        fractionValue (fraction.getD []) := by
    cases fraction with
    | none => rfl
    | some digits => exact fractionValue_filled digits
  have hExponent :
      signed
          (decide
            (exponent.bind ExponentText.sign =
              some Byte.minus))
          (Byte.decimal
            ((exponent.map ExponentText.digits).getD [])) =
        (exponent.map ExponentText.value).getD 0 := by
    cases exponent with
    | none => rfl
    | some e => rfl
  rw [Numeral.toRat_value]
  simp only [numeral, FractionText.value,
    SignificandText.value, decimal_filled, hFraction,
    hExponent, decide_eq_true_eq]

------------------------------------------------------------
-- Tokens
------------------------------------------------------------

namespace Cursor

variable {c c' : Cursor}

/-
  What scanning a fraction comes to. A number is found
  exactly if the text starts with a token, which is then
  consumed, and nothing else. The text that is handed on is
  always one that can be converted, and stands for the
  number of the token.
-/
structure ScansFraction
    (c : Cursor)
    (found : Option Float)
    (consumed : List UInt8)
    (c' : Cursor) : Prop where
  consumes : c.Consumes consumed c'
  found_iff :
      found.isSome ↔
      ∃ (t : FractionText) (rest : List UInt8),
        t.Leads c.readable rest
  token :
      ∀ value,
        found = some value →
        ∃ (t : FractionText) (text : List UInt8)
            (n : Numeral),
          t.Leads c.readable c'.readable ∧
          consumed = t.bytes ∧
          scanFloatText c = (some text, c') ∧
          Numeral.ofBytes? text = some n ∧
          n.value.toRat = t.value ∧
          n.toFloat = value
  converts :
      ∀ text,
        (scanFloatText c).1 = some text →
        (Numeral.ofBytes? text).isSome

/-
  Where the text starts with a token, it is handed
  on and converted.
-/
theorem scanFloat_of_text
    {text : List UInt8}
    (h : scanFloatText c = (some text, c')) :
    ∃ t : FractionText,
      t.Leads c.readable c'.readable ∧
      Numeral.ofBytes? text = some t.numeral ∧
      scanFloat c = (some t.numeral.toFloat, c') := by
  rcases finds_scanFloatText_iff.mp ⟨c', h, rfl⟩ with
    ⟨t, hLeads, rfl⟩
  have hParts :=
    FractionText.ofBytes?_text hLeads.wellFormed
  refine ⟨t, hLeads, hParts, ?_⟩
  rw [scanFloat, h]
  simp only [Option.bind_some, hParts, Option.map_some]

/-
  Where nothing is handed on, the text starts with no token.
-/
theorem not_leads_of_no_text
    (h : scanFloatText c = (none, c'))
    (t : FractionText)
    (rest : List UInt8) :
    ¬ t.Leads c.readable rest := by
  intro hLeads
  rcases finds_scanFloatText_iff.mpr ⟨t, hLeads, rfl⟩ with
    ⟨c₁, hText, _⟩
  rw [h] at hText
  cases hText

theorem exists_scansFraction
    (hSteady : c.IsSteady) :
    ∃ found consumed c',
      scanFloat c = (found, c') ∧
      c.ScansFraction found consumed c' := by
  rcases exists_consumes hSteady (reaches_scanFloat c) with
    ⟨consumed, hConsumes⟩
  rcases hText : scanFloatText c with ⟨_ | text, c'⟩
  · have hScan : scanFloat c = (none, c') := by
      rw [scanFloat, hText]
      rfl
    have hNone := not_leads_of_no_text hText
    rw [hScan] at hConsumes
    refine
      ⟨none, consumed, c', hScan, hConsumes, ?_, nofun, ?_⟩
    · simp [hNone]
    · rw [hText]
      exact nofun
  · rcases scanFloat_of_text hText with
      ⟨t, hLeads, hParts, hScan⟩
    rw [hScan] at hConsumes
    refine ⟨some t.numeral.toFloat, consumed, c', hScan,
      hConsumes, ?_, ?_, ?_⟩
    · exact iff_of_true rfl ⟨t, c'.readable, hLeads⟩
    · rintro value ⟨⟩
      exact ⟨t, text, t.numeral, hLeads,
        hConsumes.eq_of_readable hLeads.text_eq, hText,
        hParts, t.toRat_numeral, rfl⟩
    · rw [hText]
      rintro _ ⟨⟩
      rw [hParts]
      rfl

end Cursor

/-
  The scanner of fractions finds a number exactly where
  white space, perhaps a sign, digits with or without a
  point among them, and perhaps an exponent stand, each read
  as far as it goes. What is converted stands for the number
  of the token.
-/
theorem fractions_are_scanned_exactly
    {c : Cursor}
    (h : c.IsOpen) :
    ∃ found consumed c',
      c.scanFloat = (found, c') ∧
      c.ScansFraction found consumed c' :=
  Cursor.exists_scansFraction h.isSteady

/-
  Without a digit in front of the point, `+.5e-3` is a
  token, here in front of a comma.
-/
theorem fraction_without_whole_is_scanned :
    ∃ c : Cursor,
      c.readable = [43, 46, 53, 101, 45, 51, 44] ∧
      c.IsOpen ∧
      ∃ value consumed c',
        c.scanFloat = (some value, c') ∧
        c.ScansFraction (some value) consumed c' := by
  have hOpen := Cursor.isOpen_ofSource
    (.ofBytes [43, 46, 53, 101, 45, 51, 44]) "hints"
  rcases fractions_are_scanned_exactly hOpen with
    ⟨found, consumed, c', hScan, hScans⟩
  have hForm :
      FractionText.IsWellFormed
        ⟨[], some 43, ⟨[], some [53]⟩,
          some ⟨101, some 45, [51]⟩⟩ := by
    refine ⟨nofun, by simp [Byte.IsSign],
      ⟨nofun, ?_, .inr ⟨[53], rfl, List.cons_ne_nil _ _⟩⟩,
      ?_⟩
    · simp [Byte.IsDigit]
    · rintro e ⟨⟩
      exact ⟨.inl rfl, by simp [Byte.IsSign],
        by simp [Byte.IsDigit], List.cons_ne_nil _ _⟩
  have hFound : found.isSome := by
    rw [hScans.found_iff]
    refine ⟨_, [44], hForm, rfl, ?_⟩
    have hComma : ¬ Byte.IsDigit Byte.comma := by decide
    rintro b ⟨⟩ (hDigit | ⟨hNone, _⟩)
    · exact hComma hDigit
    · cases hNone
  rcases Option.isSome_iff_exists.mp hFound with
    ⟨value, rfl⟩
  exact ⟨_, rfl, hOpen, value, consumed, c', hScan, hScans⟩

end Dimacs
