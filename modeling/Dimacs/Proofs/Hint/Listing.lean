import Dimacs.Hint.UnsatOrder
import Dimacs.Proofs.Hint.Fraction

/-
  A hint file is read as the longest sequence of entries
  that its text starts with. The first malformed entry ends
  it, whatever stands behind.

  Key definitions include:
    * `StartsWithEntry`
    * `StartsWithAll`
    * `IsLongest`
    * `Scanner.Lists`

  Main statements:
    * `IsLongest.unique`
    * `startsWithEntry_of_digits`
    * `Scanner.Lists.isLongest`
    * `ScoreEntry.recognizes_scan`
    * `Backbone.exists_readScores`
    * `Backbone.exists_readPolarities`
    * `UnsatOrder.exists_read`
-/

namespace Dimacs

variable {α : Type}
variable {starts : List UInt8 → α → List UInt8 → Prop}
variable {text rest : List UInt8}
variable {values values' : List α}

------------------------------------------------------------
-- Sequences
------------------------------------------------------------

/-
  The text starts with an index, a comma at once,
  and a score.
-/
def StartsWithEntry
    (text : List UInt8)
    (entry : ScoreEntry)
    (rest : List UInt8) : Prop :=
  ∃ behind,
    StartsWithInt text entry.index (Byte.comma :: behind) ∧
    StartsWithFraction behind entry.score rest

/-
  The text starts with what stands for the values, one
  behind the other.
-/
def StartsWithAll
    (starts : List UInt8 → α → List UInt8 → Prop)
    (text : List UInt8)
    (values : List α)
    (rest : List UInt8) : Prop :=
  match values with
  | [] => text = rest
  | a :: values =>
      ∃ behind,
        starts text a behind ∧
        StartsWithAll starts behind values rest

/-
  The values are the longest sequence that the text starts
  with: any other one is a front part of it.
-/
structure IsLongest
    (starts : List UInt8 → α → List UInt8 → Prop)
    (text : List UInt8)
    (values : List α) : Prop where
  exists_rest :
      ∃ rest, StartsWithAll starts text values rest
  isPrefix :
      ∀ other rest,
        StartsWithAll starts text other rest →
        other <+: values

/- There is only one longest sequence. -/
theorem IsLongest.unique
    (h : IsLongest starts text values)
    (h' : IsLongest starts text values') :
    values = values' := by
  rcases h.exists_rest with ⟨rest, hStarts⟩
  rcases h'.exists_rest with ⟨rest', hStarts'⟩
  exact (h'.isPrefix values rest hStarts).eq_of_length_le
    (h.isPrefix values' rest' hStarts').length_le

/-
  What a text starts with is determined, if no
  two values fit.
-/
def Determines
    (starts : List UInt8 → α → List UInt8 → Prop) : Prop :=
  ∀ text a b rest rest',
    starts text a rest →
    starts text b rest' →
    a = b ∧ rest = rest'

/-
  A sequence behind which no value stands is
  the longest one.
-/
theorem StartsWithAll.isLongest
    (hDetermines : Determines starts)
    (hStarts : StartsWithAll starts text values rest)
    (hEnds : ∀ a behind, ¬ starts rest a behind) :
    IsLongest starts text values := by
  refine ⟨⟨rest, hStarts⟩, ?_⟩
  intro other rest' hOther
  induction values generalizing text other with
  | nil =>
      cases other with
      | nil => exact List.nil_prefix
      | cons b other =>
          rcases hStarts with rfl
          rcases hOther with ⟨behind, hFirst, _⟩
          exact absurd hFirst (hEnds b behind)
  | cons a values ih =>
      cases other with
      | nil => exact List.nil_prefix
      | cons b other =>
          rcases hStarts with ⟨behind, hFirst, hBehind⟩
          rcases hOther with ⟨behind', hFirst', hBehind'⟩
          rcases hDetermines _ _ _ _ _ hFirst hFirst' with
            ⟨rfl, rfl⟩
          exact (List.prefix_cons_inj a).mpr
            (ih hBehind other hBehind')

------------------------------------------------------------
-- Entries
------------------------------------------------------------

/-
  Digits, a comma and digits on both sides of a point are an
  entry, in front of white space and at the end of the text.
-/
theorem startsWithEntry_of_digits
    {spaces index whole fraction rest : List UInt8}
    (hSpaces : ∀ b ∈ spaces, Byte.IsSpace b)
    (hDigits : ∀ b ∈ index ++ (whole ++ fraction),
      Byte.IsDigit b)
    (hNonempty : index ≠ [] ∧ whole ≠ [] ∧ fraction ≠ [])
    (hFits : Check.FitsInt32 (Byte.decimal index))
    (hEnds : ∀ b ∈ rest.head?, Byte.IsSpace b) :
    StartsWithEntry
      (spaces ++ (index ++ Byte.comma ::
        (whole ++ Byte.point :: (fraction ++ rest))))
      ⟨Byte.decimal index,
        Numeral.toFloat ⟨false, whole, fraction, false, []⟩⟩
      rest := by
  rcases hNonempty with ⟨hIndex, hWhole, hFraction⟩
  rcases List.forall_mem_append.mp hDigits with
    ⟨hIndexDigits, hScoreDigits⟩
  rcases List.forall_mem_append.mp hScoreDigits with
    ⟨hWholeDigits, hFractionDigits⟩
  refine
    ⟨whole ++ Byte.point :: (fraction ++ rest),
      ⟨⟨spaces, none, index⟩, ?_, rfl, hFits⟩,
      ⟨⟨[], none, ⟨whole, some fraction⟩, none⟩, ?_, ?_⟩⟩
  · refine
      ⟨⟨hSpaces, by simp, hIndexDigits, hIndex⟩, ?_, ?_⟩
    · simp [IntegerText.bytes]
    · rintro b ⟨⟩
      decide
  · refine
      ⟨⟨by simp, by simp,
        ⟨hWholeDigits, by simpa, .inl hWhole⟩, by simp⟩,
        ?_, ?_⟩
    · simp [FractionText.bytes, SignificandText.bytes,
        ExponentText.bytesOf]
    · intro b hb
      have hSpace := hEnds b hb
      rintro (hMark | ⟨_, hDigit | ⟨hNone, _⟩⟩)
      · exact Byte.not_isExponentMark_of_isSpace hSpace
          hMark
      · exact Byte.not_isSpace_of_isDigit hDigit hSpace
      · cases hNone
  · simp [FractionText.numeral, filled, hWhole, hFraction]

theorem not_startsWithEntry_nil
    (entry : ScoreEntry)
    (rest : List UInt8) :
    ¬ StartsWithEntry [] entry rest := by
  rintro ⟨behind, ⟨t, hLeads, _⟩, _⟩
  have hEmpty := hLeads.text_eq
  simp [IntegerText.bytes] at hEmpty

------------------------------------------------------------
-- Scanning One Value after the Other
------------------------------------------------------------

namespace Scanner

variable {scan : Scanner (Option α)}
variable {c c' : Cursor}

/-
  A scanner gives the values one after the other,
  and then none.
-/
inductive Lists
    (scan : Scanner (Option α)) :
      Cursor → List α → Cursor → Prop
  | done
      {c c' : Cursor}
      (h : scan c = .ok none c') :
      Lists scan c [] c'
  | more
      {c c₁ c' : Cursor}
      {a : α}
      {values : List α}
      (h : scan c = .ok (some a) c₁)
      (rest : Lists scan c₁ values c') :
      Lists scan c (a :: values) c'

/-
  A scanner finds a value exactly if the text
  starts with it.
-/
def Recognizes
    (scan : Scanner (Option α))
    (starts : List UInt8 → α → List UInt8 → Prop) : Prop :=
  ∀ c a rest,
    Cursor.Yields (scan c) (some a) rest ↔
    starts c.readable a rest

/-
  A text that a scanner recognizes starts with
  one value only.
-/
theorem Recognizes.determines
    (h : Recognizes scan starts) :
    Determines starts := by
  intro text a b rest rest' hFirst hFirst'
  have hText := Cursor.readable_ofBytes text ""
  rw [← hText] at hFirst hFirst'
  rcases (h _ _ _).mpr hFirst with ⟨c, hScan, rfl⟩
  rcases (h _ _ _).mpr hFirst' with ⟨c', hScan', rfl⟩
  rw [hScan] at hScan'
  cases hScan'
  exact ⟨rfl, rfl⟩

/-
  The values that a scanner gives are the longest sequence
  in front of the text.
-/
theorem Lists.isLongest
    (hScan : Recognizes scan starts)
    (h : Lists scan c values c') :
    IsLongest starts c.readable values := by
  have hAll :
      ∃ rest,
        StartsWithAll starts c.readable values rest ∧
        ∀ a behind, ¬ starts rest a behind := by
    induction h with
    | @done c c' hNone =>
        refine ⟨c.readable, rfl, ?_⟩
        intro a behind hStarts
        rcases (hScan c a behind).mpr hStarts with
          ⟨c₁, hSome, _⟩
        rw [hNone] at hSome
        cases hSome
    | @more c c₁ c' a values hSome _ ih =>
        rcases ih with ⟨rest, hBehind, hEnds⟩
        exact ⟨rest,
          ⟨c₁.readable, (hScan c a _).mp ⟨c₁, hSome, rfl⟩,
            hBehind⟩, hEnds⟩
  rcases hAll with ⟨rest, hStarts, hEnds⟩
  exact hStarts.isLongest hScan.determines hEnds

end Scanner

open Scanner (Lists Recognizes)

theorem Cursor.recognizes_scanInt :
    Recognizes Cursor.scanInt StartsWithInt :=
  fun _ _ _ => Cursor.yields_scanInt_iff

theorem Cursor.recognizes_scanUnsigned :
    Recognizes Cursor.scanUnsigned StartsWithUnsigned :=
  fun _ _ _ => Cursor.yields_scanUnsigned_iff

theorem ScoreEntry.recognizes_scan :
    Recognizes ScoreEntry.scan StartsWithEntry := by
  intro c entry rest
  unfold ScoreEntry.scan
  constructor
  · intro h
    rcases h with ⟨c', hScan, rfl⟩
    rcases hIndex : c.scanInt with ⟨_ | index, c₁⟩ | _
    · simp only [hIndex] at hScan
      cases hScan
    · have hFirst :=
        Cursor.yields_scanInt_iff.mp ⟨c₁, hIndex, rfl⟩
      rcases hComma : c₁.scanChar Byte.comma with
        ⟨_ | _, c₂⟩
      · simp only [hIndex, hComma] at hScan
        cases hScan
      · rw [Cursor.finds_scanChar_true_iff.mp
          ⟨c₂, hComma, rfl⟩] at hFirst
        rcases hScore : c₂.scanFloat with ⟨_ | score, c₃⟩
        · simp only [hIndex, hComma, hScore] at hScan
          cases hScan
        · simp only [hIndex, hComma, hScore] at hScan
          cases hScan
          exact ⟨c₂.readable, hFirst,
            Cursor.finds_scanFloat_iff.mp ⟨_, hScore, rfl⟩⟩
    · simp only [hIndex] at hScan
      cases hScan
  · intro h
    rcases h with ⟨behind, hIndex, hScore⟩
    rcases Cursor.yields_scanInt_iff.mpr hIndex with
      ⟨c₁, hIndex, hRest₁⟩
    rcases Cursor.finds_scanChar_true_iff.mpr hRest₁ with
      ⟨c₂, hComma, hRest₂⟩
    rw [← hRest₂] at hScore
    rcases Cursor.finds_scanFloat_iff.mpr hScore with
      ⟨c₃, hScore, hRest₃⟩
    simp only [hIndex, hComma, hScore]
    exact ⟨c₃, rfl, hRest₃⟩

------------------------------------------------------------
-- Hint Files
------------------------------------------------------------

theorem Backbone.lists_of_readScores
    {seen found : Array ScoreEntry}
    {c c' : Cursor}
    (h : readScores seen c = .ok found c') :
    ∃ entries,
      found.toList = seen.toList ++ entries ∧
      Lists ScoreEntry.scan c entries c' := by
  fun_induction readScores seen c with
  | case1 seen c violation c₁ hScan => cases h
  | case2 seen c c₁ hScan =>
      cases h
      exact ⟨[], (List.append_nil _).symm, .done hScan⟩
  | case3 seen c entry c₁ hScan ih =>
      rcases ih h with ⟨entries, hFound, hLists⟩
      refine ⟨entry :: entries, ?_, .more hScan hLists⟩
      rw [hFound, Array.toList_push, List.append_assoc,
        List.singleton_append]

theorem Backbone.lists_of_readPolarities
    {seen found : Array Int}
    {c c' : Cursor}
    (h : readPolarities seen c = .ok found c') :
    ∃ values,
      found.toList = seen.toList ++ values ∧
      Lists Cursor.scanInt c values c' := by
  fun_induction readPolarities seen c with
  | case1 seen c violation c₁ hScan => cases h
  | case2 seen c c₁ hScan =>
      cases h
      exact ⟨[], (List.append_nil _).symm, .done hScan⟩
  | case3 seen c value c₁ hScan violation hMagnitude =>
      cases h
  | case4 seen c value c₁ hScan magnitude hMagnitude ih =>
      rcases ih h with ⟨values, hFound, hLists⟩
      refine ⟨value :: values, ?_, .more hScan hLists⟩
      rw [hFound, Array.toList_push, List.append_assoc,
        List.singleton_append]

theorem UnsatOrder.lists_of_readIndices
    {seen found : Array Nat}
    {c c' : Cursor}
    (h : readIndices seen c = .ok found c') :
    ∃ indices, found.toList = seen.toList ++ indices ∧
      Lists Cursor.scanUnsigned c indices c' := by
  fun_induction readIndices seen c with
  | case1 seen c violation c₁ hScan => cases h
  | case2 seen c c₁ hScan =>
      cases h
      exact ⟨[], (List.append_nil _).symm, .done hScan⟩
  | case3 seen c index c₁ hScan ih =>
      rcases ih h with ⟨indices, hFound, hLists⟩
      refine ⟨index :: indices, ?_, .more hScan hLists⟩
      rw [hFound, Array.toList_push, List.append_assoc,
        List.singleton_append]

/-
  The entries of a file with scores are the longest sequence
  in front of it.
-/
theorem Backbone.exists_readScores
    (c : Cursor) :
    ∃ entries c',
      readScores #[] c = .ok entries c' ∧
      IsLongest StartsWithEntry c.readable
        entries.toList := by
  rcases completes_readScores #[] c with
    ⟨entries, c', hRead, _⟩
  rcases lists_of_readScores hRead with
    ⟨_, hEntries, hLists⟩
  rw [List.nil_append] at hEntries
  exact ⟨entries, c', hRead,
    hEntries ▸ hLists.isLongest ScoreEntry.recognizes_scan⟩

/-
  The values of a file with polarities are the longest
  sequence in front of it.
-/
theorem Backbone.exists_readPolarities
    (c : Cursor) :
    ∃ values c', readPolarities #[] c = .ok values c' ∧
      IsLongest StartsWithInt c.readable values.toList := by
  rcases completes_readPolarities #[] c with
    ⟨values, c', hRead, _⟩
  rcases lists_of_readPolarities hRead with
    ⟨_, hValues, hLists⟩
  rw [List.nil_append] at hValues
  exact ⟨values, c', hRead,
    hValues ▸ hLists.isLongest Cursor.recognizes_scanInt⟩

/-
  The indices of an unsat-order file are the longest
  sequence in front of it.
-/
theorem UnsatOrder.exists_read
    (c : Cursor) :
    ∃ indices c', read c = .ok indices c' ∧
      IsLongest StartsWithUnsigned c.readable indices := by
  rcases completes_readIndices #[] c with
    ⟨indices, c', hRead, _⟩
  rcases lists_of_readIndices hRead with
    ⟨_, hIndices, hLists⟩
  rw [List.nil_append] at hIndices
  refine ⟨indices.toList, c', ?_,
    hIndices ▸
      hLists.isLongest Cursor.recognizes_scanUnsigned⟩
  rw [read, hRead]

end Dimacs
