import Dimacs.Proofs.Formula.HintFiles
import Dimacs.Proofs.Printer.Decimal

/-
  Numbers that are written in decimal, one behind the other
  and with white space in between, are read back as they
  are, up to both ends of their range. Whatever stands
  behind them neither adds a number nor takes one away,
  unless it looks like the start of one.

  Key definitions include:
    * `NumberWord`
    * `AreSeparated`
    * `BreaksOff`

  Main statements:
    * `NumberWord.startsWithInt`
    * `NumberWord.startsWithUnsigned`
    * `startsWithAll_words`
    * `Formula.hint_files_round_trip`
-/

namespace Dimacs

------------------------------------------------------------
-- Written Numbers
------------------------------------------------------------

/-
  A number as it is written into a hint file: behind white
  space, perhaps with a plus sign if it is not negative, and
  with any number of leading zeros.
-/
structure NumberWord where
  spaces : List UInt8
  plus : Bool
  zeros : Nat
  value : Int

namespace NumberWord

/- The sign that is written. -/
def sign
    (word : NumberWord) : Option UInt8 :=
  if word.value < 0 then some Byte.minus
  else if word.plus then some Byte.plus
  else none

/- The leading zeros and the digits of the magnitude. -/
def digits
    (word : NumberWord) : List UInt8 :=
  List.replicate word.zeros Byte.zero ++
    Byte.ofDecimal word.value.natAbs

/- The integer that is written. -/
def text
    (word : NumberWord) : IntegerText where
  spaces := word.spaces
  sign := word.sign
  digits := word.digits

def bytes
    (word : NumberWord) : List UInt8 :=
  word.spaces ++ (word.sign.toList ++ word.digits)

variable {word : NumberWord}
variable {rest : List UInt8}

theorem isSign_of_mem_sign
    (word : NumberWord) :
    ∀ b ∈ word.sign, Byte.IsSign b := by
  intro b hb
  rw [sign] at hb
  split at hb
  · rcases Option.some.inj hb with rfl
    exact .inl rfl
  · split at hb
    · rcases Option.some.inj hb with rfl
      exact .inr rfl
    · cases hb

theorem isDigit_of_mem_digits
    (word : NumberWord) :
    ∀ b ∈ word.digits, Byte.IsDigit b := by
  intro b hb
  rcases List.mem_append.mp hb with hZero | hDigit
  · rw [List.eq_of_mem_replicate hZero]
    exact ⟨by decide, by decide⟩
  · exact Byte.isDigit_of_mem_ofDecimal _ b hDigit

theorem digits_ne_nil
    (word : NumberWord) :
    word.digits ≠ [] := by
  rcases Byte.exists_ofDecimal_eq_cons
      word.value.natAbs with
    ⟨first, back, hDigits, _⟩
  rw [digits, hDigits]
  exact List.append_ne_nil_of_right_ne_nil _
    (List.cons_ne_nil first back)

/- Leading zeros do not change the number. -/
theorem decimal_digits
    (word : NumberWord) :
    Byte.decimal word.digits = word.value.natAbs := by
  have hZeros :
      ∀ zeros,
        Byte.decimal (List.replicate zeros Byte.zero) =
          0 := by
    intro zeros
    induction zeros with
    | zero => rfl
    | succ zeros ih => exact ih
  rw [digits, Byte.decimal_append, hZeros,
    Byte.decimal_ofDecimal, Nat.zero_mul, Nat.zero_add]

theorem sign_eq_minus_iff
    (word : NumberWord) :
    word.sign = some Byte.minus ↔ word.value < 0 := by
  rw [sign]
  split
  · next hNegative => exact iff_of_true rfl hNegative
  · next hOther =>
      refine iff_of_false ?_ hOther
      split
      · decide
      · nofun

/- The number is read back with its sign. -/
theorem value_text
    (word : NumberWord) :
    word.text.value = word.value := by
  have hDigits :
      Byte.decimal word.text.digits = word.value.natAbs :=
    word.decimal_digits
  have hSign :
      word.text.sign = some Byte.minus ↔ word.value < 0 :=
    word.sign_eq_minus_iff
  rw [IntegerText.value, hDigits, signed]
  simp only [hSign, decide_eq_true_eq]
  split <;> omega

/- A written number ends where no further digit stands. -/
theorem leads
    (hSpaces : ∀ b ∈ word.spaces, Byte.IsSpace b)
    (hEnds : ∀ b ∈ rest.head?, ¬ Byte.IsDigit b) :
    word.text.Leads (word.bytes ++ rest) rest where
  wellFormed :=
    ⟨hSpaces, word.isSign_of_mem_sign,
      word.isDigit_of_mem_digits, word.digits_ne_nil⟩
  text_eq := rfl
  ends := hEnds

theorem startsWithInt
    (hSpaces : ∀ b ∈ word.spaces, Byte.IsSpace b)
    (hEnds : ∀ b ∈ rest.head?, ¬ Byte.IsDigit b)
    (hFits : Check.FitsInt32 word.value) :
    StartsWithInt (word.bytes ++ rest) word.value rest :=
  ⟨word.text, leads hSpaces hEnds, word.value_text, hFits⟩

theorem startsWithUnsigned
    (hSpaces : ∀ b ∈ word.spaces, Byte.IsSpace b)
    (hEnds : ∀ b ∈ rest.head?, ¬ Byte.IsDigit b)
    (hLower : 0 ≤ word.value)
    (hUpper : word.value ≤ Check.maxUnsigned32) :
    StartsWithUnsigned (word.bytes ++ rest) word.value.toNat
      rest := by
  have hMagnitude :
      word.value.natAbs = word.value.toNat := by
    omega
  refine ⟨word.text, leads hSpaces hEnds, ?_, ?_,
    Int.toNat_le.mpr hUpper⟩
  · intro hMinus
    exact Int.not_lt.mpr hLower
      (word.sign_eq_minus_iff.mp hMinus)
  · rw [← hMagnitude]
    exact word.decimal_digits

end NumberWord

------------------------------------------------------------
-- Lists of Numbers
------------------------------------------------------------

/- Numbers with white space between any two of them. -/
structure AreSeparated
    (words : List NumberWord) : Prop where
  spaces : ∀ word ∈ words, ∀ b ∈ word.spaces, Byte.IsSpace b
  between : ∀ word ∈ words.tail, word.spaces ≠ []

/-
  Behind a list of numbers stands nothing, or white space
  and then nothing that may start a further number.
-/
structure BreaksOff
    (starts : UInt8 → Prop)
    (tail : List UInt8) : Prop where
  boundary : ∀ b ∈ tail.head?, Byte.IsSpace b
  broken :
      ∀ b ∈
          (tail.dropWhile fun b =>
            decide (Byte.IsSpace b)).head?,
        ¬ starts b

variable {words : List NumberWord}
variable {tail rest : List UInt8}

theorem AreSeparated.of_cons
    {word : NumberWord}
    (h : AreSeparated (word :: words)) :
    AreSeparated words where
  spaces := (List.forall_mem_cons.mp h.spaces).2
  between :=
    fun other hOther =>
      h.between other (List.mem_of_mem_tail hOther)

/- Behind a number stands white space, or nothing. -/
theorem AreSeparated.isSpace_behind
    {word : NumberWord}
    (h : AreSeparated (word :: words))
    (hTail : ∀ b ∈ tail.head?, Byte.IsSpace b) :
    ∀ b ∈ (words.flatMap NumberWord.bytes ++ tail).head?,
      Byte.IsSpace b := by
  cases words with
  | nil => exact hTail
  | cons next words =>
      rcases List.exists_cons_of_ne_nil
          (h.between next List.mem_cons_self) with
        ⟨b, back, hSpaces⟩
      have hWhite :=
        h.of_cons.spaces next List.mem_cons_self b
      rw [List.flatMap_cons, NumberWord.bytes, hSpaces]
      rintro a ⟨⟩
      apply hWhite
      rw [hSpaces]
      exact List.mem_cons_self

/- If each number is recognized, so is the list of them. -/
theorem startsWithAll_words
    {α : Type}
    {starts : List UInt8 → α → List UInt8 → Prop}
    {value : NumberWord → α}
    (hWords : AreSeparated words)
    (hTail : ∀ b ∈ tail.head?, Byte.IsSpace b)
    (hStarts :
      ∀ word ∈ words,
        ∀ rest,
          (∀ b ∈ rest.head?, ¬ Byte.IsDigit b) →
          starts (word.bytes ++ rest) (value word) rest) :
    StartsWithAll starts
      (words.flatMap NumberWord.bytes ++ tail)
      (words.map value) tail := by
  induction words with
  | nil => rfl
  | cons word words ih =>
      rw [List.forall_mem_cons] at hStarts
      have hEnds :
          ∀ b ∈
              (words.flatMap NumberWord.bytes ++
                tail).head?,
            ¬ Byte.IsDigit b := by
        intro b hb hDigit
        exact Byte.not_isSpace_of_isDigit hDigit
          (hWords.isSpace_behind hTail b hb)
      rw [List.flatMap_cons, List.append_assoc]
      exact
        ⟨_, hStarts.1 _ hEnds, ih hWords.of_cons hStarts.2⟩

/- No number starts where a list breaks off. -/
theorem BreaksOff.not_leads
    {starts : UInt8 → Prop}
    {t : IntegerText}
    (h : BreaksOff starts tail)
    (hSign : ∀ b ∈ t.sign, starts b)
    (hDigit : ∀ b, Byte.IsDigit b → starts b) :
    ¬ t.Leads tail rest := by
  intro hLeads
  have hBroken := h.broken
  rw [hLeads.isRun_spaces.dropWhile_eq] at hBroken
  rcases hFirst : t.sign with _ | sign
  · rcases List.exists_cons_of_ne_nil
        hLeads.wellFormed.nonempty with
      ⟨b, back, hDigits⟩
    rw [hFirst, hDigits] at hBroken
    refine hBroken b rfl
      (hDigit b (hLeads.wellFormed.digits b ?_))
    rw [hDigits]
    exact List.mem_cons_self
  · rw [hFirst] at hBroken
    exact hBroken sign rfl (hSign sign hFirst)

/-
  Signed numbers are the longest sequence in front
  of their text.
-/
theorem isLongest_signed
    (hWords : AreSeparated words)
    (hFits : ∀ word ∈ words, Check.FitsInt32 word.value)
    (hTail :
      BreaksOff (fun b => Byte.IsDigit b ∨ Byte.IsSign b)
        tail) :
    IsLongest StartsWithInt
      (words.flatMap NumberWord.bytes ++ tail)
      (words.map NumberWord.value) := by
  have hAll :
      StartsWithAll StartsWithInt
        (words.flatMap NumberWord.bytes ++ tail)
        (words.map NumberWord.value) tail := by
    apply startsWithAll_words hWords hTail.boundary
    intro word hWord rest hEnds
    exact NumberWord.startsWithInt
      (hWords.spaces word hWord) hEnds (hFits word hWord)
  apply hAll.isLongest Cursor.recognizes_scanInt.determines
  intro value behind hStarts
  rcases hStarts with ⟨t, hLeads, _⟩
  exact hTail.not_leads
    (fun b hb => .inr (hLeads.wellFormed.sign b hb))
    (fun _ => .inl) hLeads

/-
  So are unsigned ones, even if a minus sign
  stands behind them.
-/
theorem isLongest_unsigned
    (hWords : AreSeparated words)
    (hFits :
      ∀ word ∈ words,
        0 ≤ word.value ∧ word.value ≤ Check.maxUnsigned32)
    (hTail :
      BreaksOff (fun b => Byte.IsDigit b ∨ b = Byte.plus)
        tail) :
    IsLongest StartsWithUnsigned
      (words.flatMap NumberWord.bytes ++ tail)
      (words.map fun word => word.value.toNat) := by
  have hAll :
      StartsWithAll StartsWithUnsigned
        (words.flatMap NumberWord.bytes ++ tail)
        (words.map fun word => word.value.toNat) tail := by
    apply startsWithAll_words hWords hTail.boundary
    intro word hWord rest hEnds
    have hRange := hFits word hWord
    exact NumberWord.startsWithUnsigned
      (hWords.spaces word hWord) hEnds hRange.1 hRange.2
  apply hAll.isLongest
    Cursor.recognizes_scanUnsigned.determines
  intro value behind hStarts
  rcases hStarts with ⟨t, hLeads, hMinus, _⟩
  refine hTail.not_leads ?_ (fun _ => .inl) hLeads
  intro b hb
  rcases hLeads.wellFormed.sign b hb with rfl | rfl
  · exact absurd hb hMinus
  · exact .inr rfl

------------------------------------------------------------
-- Reading Back
------------------------------------------------------------

theorem Buffer.toList_foldl_push
    {width : Nat}
    {α : Type}
    (b : Buffer width α)
    (xs : List α) :
    (xs.foldl Buffer.push b).toList = b.toList ++ xs := by
  induction xs generalizing b with
  | nil => exact (List.append_nil _).symm
  | cons x xs ih =>
      rw [List.foldl_cons, ih, Buffer.toList_push,
        List.append_assoc]
      rfl

namespace Formula

variable {f : Formula}
variable {literals : List Int}

/-
  The indices that occur are looked up one by one, and the
  others are left out.
-/
theorem Holds.forall₂_lookupVariable
    (h : f.Holds literals)
    (indices : List Nat) :
    List.Forall₂
      (fun index v =>
        f.translation.externalIndex v = .ok index)
      (indices.filter fun index =>
        index ∈ f.translation.indices)
      (indices.filterMap f.lookupVariable) := by
  induction indices with
  | nil => exact .nil
  | cons index indices ih =>
      cases hLookup : f.lookupVariable index with
      | none =>
          have hMem : index ∉ f.translation.indices := by
            intro hMem
            rw [lookupVariable, h.sound.lookup index,
              if_pos hMem] at hLookup
            cases hLookup
          rw [List.filterMap_cons_none hLookup,
            List.filter_cons_of_neg (by simpa using hMem)]
          exact ih
      | some v =>
          have hIndex :=
            h.lookupVariable_eq_some_iff.mp hLookup
          have hMem : index ∈ f.translation.indices :=
            List.mem_of_getElem?
              (Translation.externalIndex_eq_ok_iff.mp
                hIndex)
          rw [List.filterMap_cons_some hLookup,
            List.filter_cons_of_pos (by simpa using hMem)]
          exact .cons hIndex ih

/-
  A formula counts the longest sequence of integers in front
  of a file with polarities.
-/
theorem Holds.exists_readBackbone_polarities
    (h : f.Holds literals)
    (threshold : Float)
    (defaultPhase : Phase)
    (c : Cursor) :
    ∃ values f' c',
      IsLongest StartsWithInt c.readable values ∧
      f.readBackbone ⟨.polarities, threshold, defaultPhase⟩
          c =
        .ok (values.length, f') c' := by
  rcases Backbone.exists_read_polarities f.lookupVariable
      threshold defaultPhase c with
    ⟨values, c', hLongest, hRead⟩
  rcases h.exists_rephased
      ⟨.polarities, threshold, defaultPhase⟩
      (fun value : Int => value.natAbs)
      (fun value => some (Backbone.signPhase value))
      values with
    ⟨neural, _, _, _, hReads⟩
  exact
    ⟨values, _, c', hLongest, hReads f _ _ _ rfl rfl hRead⟩

/-
  A list of numbers that is written with white space between
  any two of them is read back exactly as it is, whatever
  breaks it off: signed numbers of 32 bits as polarities,
  and unsigned ones as an unsat order, where a minus sign
  may follow as well. The order of a formula then goes on
  with the variables of the indices that occur, one for each
  of them, and all indices are counted.
-/
theorem hint_files_round_trip
    (operations : List Operation)
    {words : List NumberWord}
    {tail : List UInt8}
    {source : Source}
    (name : String)
    (hText :
      source.upcoming =
        words.flatMap NumberWord.bytes ++ tail)
    (hWords : AreSeparated words) :
    ((∀ word ∈ words, Check.FitsInt32 word.value) →
      BreaksOff (fun b => Byte.IsDigit b ∨ Byte.IsSign b)
        tail →
      ∃ c',
        Backbone.readPolarities #[]
            (.ofSource source name) =
          .ok (words.map NumberWord.value).toArray c' ∧
        ∀ threshold defaultPhase,
          ∃ f' c'',
            (run operations).readBackbone
                ⟨.polarities, threshold, defaultPhase⟩
                (.ofSource source name) =
              .ok (words.length, f') c'') ∧
    ((∀ word ∈ words,
        0 ≤ word.value ∧ word.value ≤ Check.maxUnsigned32) →
      BreaksOff (fun b => Byte.IsDigit b ∨ b = Byte.plus)
        tail →
      ∃ c',
        UnsatOrder.read (.ofSource source name) =
          .ok (words.map fun word => word.value.toNat) c' ∧
        ∃ f' added,
          (run operations).readUnsatOrder
              (.ofSource source name) =
            .ok (words.length, f') c' ∧
          f'.order.toList =
            (run operations).order.toList ++ added ∧
          List.Forall₂
            (fun index v =>
              (run operations).translation.externalIndex v =
                .ok index)
            ((words.map fun word => word.value.toNat).filter
              fun index =>
                index ∈
                  (run operations).translation.indices)
            added) := by
  have hReadable :
      (Cursor.ofSource source name).readable = _ :=
    hText
  constructor
  · intro hFits hTail
    rcases Backbone.exists_readPolarities
        (.ofSource source name) with
      ⟨found, c', hRead, hLongest⟩
    rw [hReadable] at hLongest
    have hFound :=
      hLongest.unique (isLongest_signed hWords hFits hTail)
    refine ⟨c', by rw [hRead, ← hFound], ?_⟩
    intro threshold defaultPhase
    rcases (holds_run
          operations).exists_readBackbone_polarities
        threshold defaultPhase (.ofSource source name) with
      ⟨values, f', c'', hValues, hBackbone⟩
    rw [hReadable] at hValues
    rw [hValues.unique
        (isLongest_signed hWords hFits hTail),
      List.length_map] at hBackbone
    exact ⟨f', c'', hBackbone⟩
  · intro hFits hTail
    rcases UnsatOrder.exists_read
        (.ofSource source name) with
      ⟨indices, c', hRead, hLongest⟩
    rw [hReadable] at hLongest
    rcases hLongest.unique
        (isLongest_unsigned hWords hFits hTail) with
      rfl
    have hAdded :=
      readUnsatOrder_of_read (run operations) hRead
    rw [List.length_map] at hAdded
    exact ⟨c', hRead, _, _, hAdded,
      Buffer.toList_foldl_push _ _,
      (holds_run operations).forall₂_lookupVariable _⟩

/-
  Both extremes are read back, here behind `+007` and with
  `x` behind them, and in front of a minus sign.
-/
theorem extremes_are_read_back :
    (∃ c',
        Backbone.readPolarities #[]
            (.ofSource
              (.ofBytes
                [43, 48, 48, 55, 32, 45, 50, 49, 52, 55, 52,
                  56, 51, 54, 52, 56, 10, 50, 49, 52, 55,
                  52, 56, 51, 54, 52, 55, 32, 120]) "") =
          .ok #[7, -2147483648, 2147483647] c') ∧
      ∃ c',
        UnsatOrder.read
            (.ofSource
              (.ofBytes
                [52, 50, 57, 52, 57, 54, 55, 50, 57, 53, 32,
                  45]) "") =
          .ok [4294967295] c' := by
  constructor
  · have hWords :
        AreSeparated
          [⟨[], true, 2, 7⟩, ⟨[32], false, 0, -2147483648⟩,
            ⟨[10], false, 0, 2147483647⟩] :=
      ⟨by simp [Byte.IsSpace], by simp⟩
    have hTail :
        BreaksOff (fun b => Byte.IsDigit b ∨ Byte.IsSign b)
          [32, 120] := by
      refine ⟨by simp [Byte.IsSpace], ?_⟩
      rintro b ⟨⟩
      decide
    have hText :
        Source.upcoming
            (.ofBytes
              [43, 48, 48, 55, 32, 45, 50, 49, 52, 55, 52,
                56, 51, 54, 52, 56, 10, 50, 49, 52, 55, 52,
                56, 51, 54, 52, 55, 32, 120]) =
          List.flatMap NumberWord.bytes
              [⟨[], true, 2, 7⟩,
                ⟨[32], false, 0, -2147483648⟩,
                ⟨[10], false, 0, 2147483647⟩] ++
            [32, 120] := by
      decide +kernel
    rcases (hint_files_round_trip [] "" hText hWords).1
        (by simp [Check.FitsInt32]) hTail with
      ⟨c', hRead, _⟩
    exact ⟨c', hRead⟩
  · have hWords :
        AreSeparated [⟨[], false, 0, 4294967295⟩] :=
      ⟨by simp, by simp⟩
    have hTail :
        BreaksOff (fun b => Byte.IsDigit b ∨ b = Byte.plus)
          [32, 45] := by
      refine ⟨by simp [Byte.IsSpace], ?_⟩
      rintro b ⟨⟩
      decide
    have hText :
        Source.upcoming
            (.ofBytes
              [52, 50, 57, 52, 57, 54, 55, 50, 57, 53, 32,
                45]) =
          List.flatMap NumberWord.bytes
              [⟨[], false, 0, 4294967295⟩] ++
            [32, 45] := by
      decide +kernel
    rcases (hint_files_round_trip [] "" hText hWords).2
        (by simp [Check.maxUnsigned32]) hTail with
      ⟨c', hRead, _⟩
    exact ⟨c', hRead⟩

end Formula

end Dimacs
