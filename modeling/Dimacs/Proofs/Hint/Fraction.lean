import Dimacs.Proofs.Hint.Integer
import Mathlib.Data.List.TakeDrop

/-
  The form of a decimal fraction in a hint file, stated
  apart from the scanner, and its equivalence with it. The
  digits that are missing beside a point count as zeros.

  Key definitions include:
    * `SignificandText`
    * `ExponentText`
    * `FractionText`
    * `FractionText.numeral`
    * `FractionText.Leads`
    * `StartsWithFraction`

  Main statements:
    * `Cursor.finds_scanSignificand_iff`
    * `Cursor.finds_scanExponent_iff`
    * `Cursor.finds_scanFloatText_iff`
    * `FractionText.ofBytes?_text`
    * `Cursor.finds_scanFloat_iff`
-/

namespace Dimacs

------------------------------------------------------------
-- The Form of a Fraction
------------------------------------------------------------

/-
  Digits, of which those behind the point are there only
  with a point.
-/
structure SignificandText where
  whole : List UInt8
  fraction : Option (List UInt8)

/- An exponent mark, perhaps a sign, and digits. -/
structure ExponentText where
  mark : UInt8
  sign : Option UInt8
  digits : List UInt8

/-
  White space, which may be missing, and a number whose
  exponent may be missing.
-/
structure FractionText where
  spaces : List UInt8
  sign : Option UInt8
  significand : SignificandText
  exponent : Option ExponentText

/- A zero stands for digits that are missing. -/
def filled
    (digits : List UInt8) : List UInt8 :=
  if digits = [] then [Byte.zero] else digits

namespace SignificandText

def bytes
    (s : SignificandText) : List UInt8 :=
  match s.fraction with
  | none => s.whole
  | some fraction => s.whole ++ Byte.point :: fraction

/-
  The digits as they are handed on, with one on both sides
  of a point.
-/
def text
    (s : SignificandText) : List UInt8 :=
  match s.fraction with
  | none => s.whole
  | some fraction =>
      filled s.whole ++ Byte.point :: filled fraction

/- There is a digit, before or behind the point. -/
structure IsWellFormed
    (s : SignificandText) : Prop where
  whole : ∀ b ∈ s.whole, Byte.IsDigit b
  fraction :
      ∀ digits ∈ s.fraction, ∀ b ∈ digits, Byte.IsDigit b
  nonempty :
      s.whole ≠ [] ∨
      ∃ digits, s.fraction = some digits ∧ digits ≠ []

/-
  The bytes that would belong to the digits: further digits,
  and a first point.
-/
def Continues
    (s : SignificandText)
    (b : UInt8) : Prop :=
  Byte.IsDigit b ∨ s.fraction = none ∧ b = Byte.point

end SignificandText

namespace ExponentText

def bytes
    (e : ExponentText) : List UInt8 :=
  e.mark :: (e.sign.toList ++ e.digits)

structure IsWellFormed
    (e : ExponentText) : Prop where
  mark : Byte.IsExponentMark e.mark
  sign : ∀ b ∈ e.sign, Byte.IsSign b
  digits : ∀ b ∈ e.digits, Byte.IsDigit b
  nonempty : e.digits ≠ []

/- The bytes of an exponent, if there is one. -/
def bytesOf : Option ExponentText → List UInt8
  | none => []
  | some e => e.bytes

/-
  The bytes that would belong to an exponent, or start one.
-/
def Continues : Option ExponentText → UInt8 → Prop
  | none, b => Byte.IsExponentMark b
  | some _, b => Byte.IsDigit b

end ExponentText

namespace FractionText

def bytes
    (t : FractionText) : List UInt8 :=
  t.spaces ++
    (t.sign.toList ++
      (t.significand.bytes ++
        ExponentText.bytesOf t.exponent))

/- The number as it is handed on. -/
def text
    (t : FractionText) : List UInt8 :=
  t.sign.toList ++
    (t.significand.text ++ ExponentText.bytesOf t.exponent)

/- The parts of the number that is denoted. -/
def numeral
    (t : FractionText) : Numeral where
  negative := decide (t.sign = some Byte.minus)
  whole := filled t.significand.whole
  fraction := (t.significand.fraction.map filled).getD []
  exponentNegative :=
    decide
      (t.exponent.bind ExponentText.sign = some Byte.minus)
  exponent := (t.exponent.map ExponentText.digits).getD []

structure IsWellFormed
    (t : FractionText) : Prop where
  spaces : ∀ b ∈ t.spaces, Byte.IsSpace b
  sign : ∀ b ∈ t.sign, Byte.IsSign b
  significand : t.significand.IsWellFormed
  exponent : ∀ e ∈ t.exponent, e.IsWellFormed

/-
  The bytes that would belong to the number. Behind an
  exponent only digits would.
-/
def Continues
    (t : FractionText)
    (b : UInt8) : Prop :=
  ExponentText.Continues t.exponent b ∨
    t.exponent = none ∧ t.significand.Continues b

/-
  The text starts with the fraction, and no further byte
  belongs to it.
-/
structure Leads
    (t : FractionText)
    (text rest : List UInt8) : Prop where
  wellFormed : t.IsWellFormed
  text_eq : text = t.bytes ++ rest
  ends : ∀ b ∈ rest.head?, ¬ t.Continues b

end FractionText

/-
  The text starts with a number, given as the
  nearest floating-point one.
-/
def StartsWithFraction
    (text : List UInt8)
    (value : Float)
    (rest : List UInt8) : Prop :=
  ∃ t : FractionText,
    t.Leads text rest ∧ t.numeral.toFloat = value

namespace Byte

theorem not_isDigit_point :
    ¬ IsDigit point := by
  decide

theorem not_isDigit_of_isExponentMark
    {b : UInt8}
    (h : IsExponentMark b) :
    ¬ IsDigit b := by
  rcases h with rfl | rfl <;> decide

theorem ne_point_of_isExponentMark
    {b : UInt8}
    (h : IsExponentMark b) :
    b ≠ point := by
  rcases h with rfl | rfl <;> decide

theorem not_isExponentMark_of_isSpace
    {b : UInt8}
    (h : IsSpace b) :
    ¬ IsExponentMark b := by
  rcases h with rfl | rfl | rfl | rfl | rfl | rfl <;>
    decide

end Byte

------------------------------------------------------------
-- Where the Parts Meet
------------------------------------------------------------

variable {text rest : List UInt8}

/- A significand starts with a digit or with its point. -/
theorem SignificandText.IsWellFormed.starts
    {s : SignificandText}
    (h : s.IsWellFormed)
    (rest : List UInt8) :
    ∀ b ∈ (s.bytes ++ rest).head?,
      Byte.IsDigit b ∨ b = Byte.point := by
  rcases s with ⟨_ | ⟨first, whole⟩, fraction⟩
  · rcases h.nonempty with hWhole | ⟨digits, rfl, _⟩
    · exact absurd rfl hWhole
    · rintro b ⟨⟩
      exact .inr rfl
  · have hFirst : Byte.IsDigit first :=
      h.whole first List.mem_cons_self
    cases fraction with
    | none =>
        rintro b ⟨⟩
        exact .inl hFirst
    | some digits =>
        rintro b ⟨⟩
        exact .inl hFirst

/-
  An exponent, or what stands in its place, does not go on
  with the significand.
-/
theorem SignificandText.stops
    {s : SignificandText}
    {exponent : Option ExponentText}
    (hForm : ∀ e ∈ exponent, e.IsWellFormed)
    (hEnds :
      exponent = none → ∀ b ∈ rest.head?, ¬ s.Continues b) :
    ∀ b ∈ (ExponentText.bytesOf exponent ++ rest).head?,
      ¬ s.Continues b := by
  cases exponent with
  | none => exact hEnds rfl
  | some e =>
      have hMark := (hForm e rfl).mark
      rintro b ⟨⟩ (hDigit | ⟨_, hPoint⟩)
      · exact Byte.not_isDigit_of_isExponentMark hMark
          hDigit
      · exact Byte.ne_point_of_isExponentMark hMark hPoint

/-
  Behind the white space stands a sign, a digit or a point.
-/
theorem FractionText.Leads.isRun_spaces
    {t : FractionText}
    (h : t.Leads text rest) :
    IsRun Byte.IsSpace text t.spaces
      (t.sign.toList ++
        (t.significand.bytes ++
          (ExponentText.bytesOf t.exponent ++ rest))) := by
  rcases h with ⟨⟨hSpaces, hSign, hSignificand, _⟩, rfl, _⟩
  refine
    ⟨by simp only [bytes, List.append_assoc], hSpaces, ?_⟩
  rcases hKind : t.sign with _ | sign
  · intro b hb
    rcases hSignificand.starts _ b hb with hDigit | rfl
    · exact Byte.not_isSpace_of_isDigit hDigit
    · decide
  · rintro a ⟨⟩
    exact Byte.not_isSpace_of_isSign (hSign sign hKind)

namespace Cursor

variable {c : Cursor}

------------------------------------------------------------
-- Significands
------------------------------------------------------------

/- What is found are the digits in front of the text. -/
theorem exists_significand_of_scan
    {c' : Cursor}
    (h : scanSignificand c = (some text, c')) :
    ∃ s : SignificandText,
      s.IsWellFormed ∧
      c.readable = s.bytes ++ c'.readable ∧
      (∀ b ∈ c'.readable.head?, ¬ s.Continues b) ∧
      s.text = text := by
  unfold scanSignificand at h
  rcases hWhole : takeDigits #[] c with ⟨whole, c₁⟩
  have hRun := finds_digits_iff.mp ⟨c₁, hWhole, rfl⟩
  rcases hPoint : c₁.scanChar Byte.point with ⟨_ | _, c₂⟩
  · rcases finds_scanChar_false_iff.mp
        ⟨c₂, hPoint, rfl⟩ with
      ⟨hSame, hOther⟩
    simp only [hWhole, hPoint, Prod.mk.injEq] at h
    rcases h with ⟨hFound, rfl⟩
    split at hFound
    · cases hFound
    · next hNonempty =>
        cases hFound
        rw [hSame] at hRun
        refine
          ⟨⟨text, none⟩, ⟨hRun.all, nofun, .inl hNonempty⟩,
            hRun.text_eq, ?_, rfl⟩
        rintro b hb (hDigit | ⟨_, hPoint⟩)
        · exact hRun.stops b hb hDigit
        · exact hOther b hb hPoint
  · have hText :=
      finds_scanChar_true_iff.mp ⟨c₂, hPoint, rfl⟩
    rcases hFraction : takeDigits #[] c₂ with ⟨fraction, c₃⟩
    have hBehind := finds_digits_iff.mp ⟨c₃, hFraction, rfl⟩
    simp only [hWhole, hPoint, hFraction] at h
    split at h
    · cases h
    · next hNonempty =>
        cases h
        refine ⟨⟨whole, some fraction⟩, ⟨hRun.all, ?_, ?_⟩,
          ?_, ?_, rfl⟩
        · rintro digits ⟨⟩
          exact hBehind.all
        · by_cases hEmpty : whole = []
          · exact .inr
              ⟨fraction, rfl,
                fun hNil => hNonempty ⟨hEmpty, hNil⟩⟩
          · exact .inl hEmpty
        · rw [hRun.text_eq, hText, hBehind.text_eq]
          simp only [SignificandText.bytes,
            List.append_assoc, List.cons_append]
        · rintro b hb (hDigit | ⟨hNone, _⟩)
          · exact hBehind.stops b hb hDigit
          · cases hNone

/- Digits that nothing continues are found. -/
theorem finds_scanSignificand_of_text
    {s : SignificandText}
    (hForm : s.IsWellFormed)
    (hText : c.readable = s.bytes ++ rest)
    (hEnds : ∀ b ∈ rest.head?, ¬ s.Continues b) :
    Finds (scanSignificand c) (some s.text) rest := by
  unfold scanSignificand
  rcases hForm with ⟨hAll, hBehind, hNonempty⟩
  rcases s with ⟨whole, _ | fraction⟩
  · have hRun : IsRun Byte.IsDigit c.readable whole rest :=
      ⟨hText, hAll,
        fun b hb hDigit => hEnds b hb (.inl hDigit)⟩
    rcases finds_digits_iff.mpr hRun with
      ⟨c₁, hWhole, hRest⟩
    have hOther : ∀ b ∈ rest.head?, b ≠ Byte.point :=
      fun b hb hPoint => hEnds b hb (.inr ⟨rfl, hPoint⟩)
    rcases finds_scanChar_false_iff.mpr ⟨hRest, hOther⟩ with
      ⟨c₂, hPoint, hRest₂⟩
    have hSome : whole ≠ [] := by
      rcases hNonempty with hWhole | ⟨digits, hNone, _⟩
      · exact hWhole
      · cases hNone
    simp only [hWhole, hPoint, if_neg hSome]
    exact ⟨c₂, rfl, hRest₂⟩
  · have hRun :
        IsRun Byte.IsDigit c.readable whole
          (Byte.point :: (fraction ++ rest)) := by
      refine ⟨?_, hAll, ?_⟩
      · rw [hText]
        simp only [SignificandText.bytes, List.append_assoc,
          List.cons_append]
      · rintro b ⟨⟩
        exact Byte.not_isDigit_point
    rcases finds_digits_iff.mpr hRun with
      ⟨c₁, hWhole, hRest⟩
    rcases finds_scanChar_true_iff.mpr hRest with
      ⟨c₂, hPoint, hRest₂⟩
    have hFractionRun :
        IsRun Byte.IsDigit c₂.readable fraction rest :=
      ⟨hRest₂, hBehind fraction rfl,
        fun b hb hDigit => hEnds b hb (.inl hDigit)⟩
    rcases finds_digits_iff.mpr hFractionRun with
      ⟨c₃, hFraction, hRest₃⟩
    have hSome : ¬ (whole = [] ∧ fraction = []) := by
      rintro ⟨hEmpty, hNil⟩
      rcases hNonempty with
        hWhole | ⟨digits, hDigits, hFilled⟩
      · exact hWhole hEmpty
      · cases hDigits
        exact hFilled hNil
    simp only [hWhole, hPoint, hFraction, if_neg hSome]
    exact ⟨c₃, rfl, hRest₃⟩

theorem finds_scanSignificand_iff :
    Finds (scanSignificand c) (some text) rest ↔
      ∃ s : SignificandText,
        s.IsWellFormed ∧
        c.readable = s.bytes ++ rest ∧
        (∀ b ∈ rest.head?, ¬ s.Continues b) ∧
        s.text = text := by
  constructor
  · intro h
    rcases h with ⟨c', hScan, rfl⟩
    exact exists_significand_of_scan hScan
  · intro h
    rcases h with ⟨s, hForm, hText, hEnds, rfl⟩
    exact finds_scanSignificand_of_text hForm hText hEnds

------------------------------------------------------------
-- Exponents
------------------------------------------------------------

theorem finds_scanExponent_iff :
    Finds (scanExponent c) (some text) rest ↔
      ∃ exponent,
        (∀ e ∈ exponent, ExponentText.IsWellFormed e) ∧
        c.readable = ExponentText.bytesOf exponent ++ rest ∧
        (∀ b ∈ rest.head?,
          ¬ ExponentText.Continues exponent b) ∧
        ExponentText.bytesOf exponent = text := by
  unfold scanExponent
  constructor
  · intro h
    rcases h with ⟨c', hScan, rfl⟩
    rcases hMark :
        c.takeIf
          (fun b => decide (Byte.IsExponentMark b)) with
      ⟨_ | mark, c₁⟩
    · simp only [hMark] at hScan
      cases hScan
      rcases finds_takeIf_none_iff.mp ⟨_, hMark, rfl⟩ with
        ⟨hSame, hStops⟩
      exact ⟨none, nofun, hSame, hStops, rfl⟩
    · rcases finds_takeIf_some_iff.mp ⟨c₁, hMark, rfl⟩ with
        ⟨hText, hKind⟩
      rcases hSign :
          c₁.takeIf (fun b => decide (Byte.IsSign b)) with
        ⟨sign, c₂⟩
      rcases finds_takeIf_iff.mp ⟨c₂, hSign, rfl⟩ with
        ⟨hSigned, hSignKind, _⟩
      rcases hDigits : takeDigits #[] c₂ with ⟨digits, c₃⟩
      have hRun := finds_digits_iff.mp ⟨c₃, hDigits, rfl⟩
      simp only [hMark, hSign, hDigits, Prod.mk.injEq]
        at hScan
      rcases hScan with ⟨hFound, rfl⟩
      split at hFound
      · cases hFound
      · next hNonempty =>
          cases hFound
          refine ⟨some ⟨mark, sign, digits⟩, ?_, ?_,
            hRun.stops, rfl⟩
          · rintro e ⟨⟩
            exact ⟨hKind, hSignKind, hRun.all, hNonempty⟩
          · rw [hText, hSigned, hRun.text_eq]
            simp only [ExponentText.bytesOf,
              ExponentText.bytes, List.append_assoc,
              List.cons_append]
  · intro h
    rcases h with
      ⟨_ | ⟨mark, sign, digits⟩, hForm, hText, hEnds, rfl⟩
    · have hStops :
          ∀ b ∈ rest.head?, ¬ Byte.IsExponentMark b :=
        hEnds
      rcases finds_takeIf_none_iff.mpr ⟨hText, hStops⟩ with
        ⟨c₁, hMark, hRest⟩
      simp only [hMark]
      exact ⟨c₁, rfl, hRest⟩
    · rcases hForm _ rfl with
        ⟨hKind, hSignKind, hAll, hNonempty⟩
      have hFirst :
          c.readable =
            mark :: (sign.toList ++ (digits ++ rest)) := by
        rw [hText]
        simp only [ExponentText.bytesOf, ExponentText.bytes,
          List.append_assoc, List.cons_append]
      rcases finds_takeIf_some_iff.mpr ⟨hFirst, hKind⟩ with
        ⟨c₁, hMark, hRest₁⟩
      have hOther :
          sign = none →
            ∀ b ∈ (digits ++ rest).head?, ¬ Byte.IsSign b :=
        fun _ => not_isSign_of_digits hAll hNonempty rest
      rcases finds_takeIf_iff.mpr
          ⟨hRest₁, hSignKind, hOther⟩ with
        ⟨c₂, hSign, hRest₂⟩
      rcases finds_digits_iff.mpr ⟨hRest₂, hAll, hEnds⟩ with
        ⟨c₃, hDigits, hRest₃⟩
      simp only [hMark, hSign, hDigits, if_neg hNonempty]
      exact ⟨c₃, rfl, hRest₃⟩

------------------------------------------------------------
-- Fractions
------------------------------------------------------------

theorem finds_scanFloatText_iff :
    Finds (scanFloatText c) (some text) rest ↔
      ∃ t : FractionText,
        t.Leads c.readable rest ∧ t.text = text := by
  unfold scanFloatText
  constructor
  · intro h
    rcases h with ⟨c', hScan, rfl⟩
    rcases (readable_skipSpaces_iff (c := c)).mp rfl with
      ⟨spaces, hSpaces⟩
    rcases hSign :
        c.skipSpaces.takeIf
          (fun b => decide (Byte.IsSign b)) with
      ⟨sign, c₁⟩
    rcases finds_takeIf_iff.mp ⟨c₁, hSign, rfl⟩ with
      ⟨hSigned, hSignKind, _⟩
    rcases hDigits : scanSignificand c₁ with
      ⟨_ | digits, c₂⟩
    · simp only [hSign, hDigits] at hScan
      cases hScan
    · rcases finds_scanSignificand_iff.mp
          ⟨c₂, hDigits, rfl⟩ with
        ⟨s, hSignificand, hText, hStops, rfl⟩
      rcases hExponent : scanExponent c₂ with
        ⟨_ | behind, c₃⟩
      · simp only [hSign, hDigits, hExponent] at hScan
        cases hScan
      · rcases finds_scanExponent_iff.mp
            ⟨c₃, hExponent, rfl⟩ with
          ⟨exponent, hForm, hBehind, hEnds, rfl⟩
        simp only [hSign, hDigits, hExponent] at hScan
        cases hScan
        refine ⟨⟨spaces, sign, s, exponent⟩,
          ⟨⟨hSpaces.all, hSignKind, hSignificand, hForm⟩,
            ?_, ?_⟩, ?_⟩
        · rw [hSpaces.text_eq, hSigned, hText, hBehind]
          simp only [FractionText.bytes, List.append_assoc]
        · rintro b hb (hContinues | ⟨hNone, hContinues⟩)
          · exact hEnds b hb hContinues
          · dsimp only at hNone hContinues
            rw [hBehind, hNone] at hStops
            exact hStops b hb hContinues
        · simp only [FractionText.text, List.append_assoc]
  · intro h
    rcases h with ⟨t, hLeads, rfl⟩
    have hSpaces := readable_skipSpaces_iff.mpr
      ⟨t.spaces, hLeads.isRun_spaces⟩
    rcases hLeads with
      ⟨⟨_, hSignKind, hSignificand, hForm⟩, _, hEnds⟩
    have hUnsigned :
        t.sign = none →
          ∀ b ∈
              (t.significand.bytes ++
                (ExponentText.bytesOf t.exponent ++
                  rest)).head?,
            ¬ Byte.IsSign b := by
      intro _ b hb
      rcases hSignificand.starts _ b hb with hDigit | rfl
      · exact Byte.not_isSign_of_isDigit hDigit
      · decide
    have hStops := SignificandText.stops hForm
      fun hNone b hb hContinues =>
        hEnds b hb (.inr ⟨hNone, hContinues⟩)
    rcases finds_takeIf_iff.mpr
        ⟨hSpaces, hSignKind, hUnsigned⟩ with
      ⟨c₁, hSign, hRest₁⟩
    rcases finds_scanSignificand_iff.mpr
        ⟨t.significand, hSignificand, hRest₁, hStops,
          rfl⟩ with
      ⟨c₂, hDigits, hRest₂⟩
    rcases finds_scanExponent_iff.mpr
        ⟨t.exponent, hForm, hRest₂,
          fun b hb hContinues =>
            hEnds b hb (.inl hContinues), rfl⟩ with
      ⟨c₃, hExponent, hRest₃⟩
    simp only [hSign, hDigits, hExponent]
    refine ⟨c₃, ?_, hRest₃⟩
    simp only [FractionText.text, List.append_assoc]

end Cursor

------------------------------------------------------------
-- Conversion
------------------------------------------------------------

namespace Numeral

theorem spanDigits_eq
    {digits : List UInt8}
    (h : IsRun Byte.IsDigit text digits rest) :
    spanDigits text = (digits, rest) := by
  rw [spanDigits, List.span_eq_takeWhile_dropWhile,
    h.takeWhile_eq, h.dropWhile_eq]

theorem splitSign_eq
    {sign : Option UInt8}
    (hSign : ∀ b ∈ sign, Byte.IsSign b)
    (hRest : ∀ b ∈ rest.head?, ¬ Byte.IsSign b) :
    splitSign (sign.toList ++ rest) =
      (decide (sign = some Byte.minus), rest) := by
  rcases sign with _ | sign
  · rw [Option.toList_none, List.nil_append]
    cases rest with
    | nil => rfl
    | cons b back =>
        have hOther : ¬ Byte.IsSign b := hRest b rfl
        rw [splitSign,
          if_neg fun hMinus => hOther (.inl hMinus),
          if_neg fun hPlus => hOther (.inr hPlus)]
        rfl
  · rcases hSign sign rfl with rfl | rfl <;> rfl

/- Without a point there is no fraction. -/
theorem splitFraction_eq
    (h : ∀ b ∈ text.head?, b ≠ Byte.point) :
    splitFraction text = ([], text) := by
  cases text with
  | nil => rfl
  | cons b back =>
      have hOther : b ≠ Byte.point := h b rfl
      rw [splitFraction, if_neg hOther]

theorem exponent?_eq
    {exponent : Option ExponentText}
    (hForm : ∀ e ∈ exponent, e.IsWellFormed) :
    exponent? (ExponentText.bytesOf exponent) =
      some
        (decide
            (exponent.bind ExponentText.sign =
              some Byte.minus),
          (exponent.map ExponentText.digits).getD []) := by
  rcases exponent with _ | ⟨mark, sign, digits⟩
  · rfl
  · rcases hForm _ rfl with
      ⟨hMark, hSign, hDigits, hNonempty⟩
    have hOther := not_isSign_of_digits hDigits hNonempty []
    rw [List.append_nil] at hOther
    have hRun : IsRun Byte.IsDigit digits digits [] :=
      ⟨(List.append_nil digits).symm, hDigits, nofun⟩
    have hAll :
        ¬ (digits = [] ∨ ([] : List UInt8) ≠ []) := by
      simp [hNonempty]
    simp only [ExponentText.bytesOf, ExponentText.bytes,
      exponent?, if_pos hMark, splitSign_eq hSign hOther,
      spanDigits_eq hRun, if_neg hAll]
    rfl

end Numeral

theorem isDigit_of_mem_filled
    {digits : List UInt8}
    (hDigits : ∀ b ∈ digits, Byte.IsDigit b) :
    ∀ b ∈ filled digits, Byte.IsDigit b := by
  unfold filled
  split
  · intro b hb
    rw [List.mem_singleton.mp hb]
    decide
  · exact hDigits

theorem filled_ne_nil
    (digits : List UInt8) :
    filled digits ≠ [] := by
  unfold filled
  split
  · exact List.cons_ne_nil _ _
  · next hNonempty => exact hNonempty

/-
  Neither a digit nor the point starts what stands
  behind the digits.
-/
theorem ExponentText.stops_bytesOf
    {exponent : Option ExponentText}
    (hForm : ∀ e ∈ exponent, e.IsWellFormed) :
    ∀ b ∈ (bytesOf exponent).head?,
      ¬ Byte.IsDigit b ∧ b ≠ Byte.point := by
  cases exponent with
  | none => nofun
  | some e =>
      have hMark := (hForm e rfl).mark
      rintro b ⟨⟩
      exact ⟨Byte.not_isDigit_of_isExponentMark hMark,
        Byte.ne_point_of_isExponentMark hMark⟩

/-
  The number that is handed on is well-formed, and has the
  parts of the one that was read.
-/
theorem FractionText.ofBytes?_text
    {t : FractionText}
    (h : t.IsWellFormed) :
    Numeral.ofBytes? t.text = some t.numeral := by
  rcases t with ⟨spaces, sign, ⟨whole, fraction⟩, exponent⟩
  rcases h with
    ⟨_, hSign, ⟨hWhole, hFraction, hSome⟩, hForm⟩
  have hStops := ExponentText.stops_bytesOf hForm
  cases fraction with
  | none =>
      have hNonempty : whole ≠ [] := by simpa using hSome
      have hRun :
          IsRun Byte.IsDigit
            (whole ++ ExponentText.bytesOf exponent) whole
            (ExponentText.bytesOf exponent) :=
        ⟨rfl, hWhole, fun b hb => (hStops b hb).1⟩
      have hUnsigned := not_isSign_of_digits hWhole
        hNonempty (ExponentText.bytesOf exponent)
      simp only [text, SignificandText.text,
        Numeral.ofBytes?,
        Numeral.splitSign_eq hSign hUnsigned,
        Numeral.spanDigits_eq hRun,
        Numeral.splitFraction_eq fun b hb =>
          (hStops b hb).2, Numeral.exponent?_eq hForm,
        if_neg fun hNil : whole = [] ∧ True =>
          hNonempty hNil.1]
      rw [Option.map_some, numeral, filled,
        if_neg hNonempty]
      rfl
  | some fraction =>
      have hFilled := isDigit_of_mem_filled hWhole
      have hBehind :
          IsRun Byte.IsDigit
            (filled fraction ++
              ExponentText.bytesOf exponent)
            (filled fraction)
            (ExponentText.bytesOf exponent) :=
        ⟨rfl,
          isDigit_of_mem_filled (hFraction fraction rfl),
          fun b hb => (hStops b hb).1⟩
      have hRun :
          IsRun Byte.IsDigit
            (filled whole ++
              Byte.point ::
                (filled fraction ++
                  ExponentText.bytesOf exponent))
            (filled whole)
            (Byte.point ::
              (filled fraction ++
                ExponentText.bytesOf exponent)) := by
        refine ⟨rfl, hFilled, ?_⟩
        rintro b ⟨⟩
        exact Byte.not_isDigit_point
      have hUnsigned :=
        not_isSign_of_digits hFilled (filled_ne_nil whole)
          (Byte.point ::
            (filled fraction ++
              ExponentText.bytesOf exponent))
      simp only [text, SignificandText.text,
        Numeral.ofBytes?, List.append_assoc,
        List.cons_append,
        Numeral.splitSign_eq hSign hUnsigned,
        Numeral.spanDigits_eq hRun, Numeral.splitFraction,
        if_true, Numeral.spanDigits_eq hBehind,
        Numeral.exponent?_eq hForm,
        if_neg
          fun hNil : filled whole = [] ∧ filled fraction =
              [] =>
            filled_ne_nil whole hNil.1]
      rfl

/- A number is found exactly if the text starts with one. -/
theorem Cursor.finds_scanFloat_iff
    {c : Cursor}
    {value : Float} :
    Cursor.Finds (Cursor.scanFloat c) (some value) rest ↔
      StartsWithFraction c.readable value rest := by
  unfold Cursor.scanFloat
  constructor
  · intro h
    rcases h with ⟨c', hScan, rfl⟩
    rcases hText : Cursor.scanFloatText c with
      ⟨_ | found, c₁⟩
    · rw [hText] at hScan
      cases hScan
    · rcases Cursor.finds_scanFloatText_iff.mp
          ⟨c₁, hText, rfl⟩ with
        ⟨t, hLeads, rfl⟩
      rw [hText] at hScan
      simp only [Option.bind_some,
        FractionText.ofBytes?_text hLeads.wellFormed]
        at hScan
      cases hScan
      exact ⟨t, hLeads, rfl⟩
  · intro h
    rcases h with ⟨t, hLeads, rfl⟩
    rcases Cursor.finds_scanFloatText_iff.mpr
        ⟨t, hLeads, rfl⟩ with
      ⟨c₁, hText, hRest⟩
    refine ⟨c₁, ?_, hRest⟩
    rw [hText]
    simp only [Option.bind_some,
      FractionText.ofBytes?_text hLeads.wellFormed]
    rfl

end Dimacs
