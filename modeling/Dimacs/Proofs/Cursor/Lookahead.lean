import Dimacs.Cursor.Scan
import Dimacs.Proofs.Cursor.Reading

/-
  What a reader that looks at a byte before it consumes it
  finds, said of the text that can be read: single bytes and
  longest runs of bytes of a kind.

  Key definitions include:
    * `Cursor.Finds`
    * `IsRun`

  Main statements:
    * `Cursor.readable_of_peek`
    * `Cursor.finds_takeIf_iff`
    * `Cursor.finds_scanChar_true_iff`
    * `Cursor.readable_skipSpaces_iff`
    * `Cursor.finds_digits_iff`
-/

namespace Dimacs

------------------------------------------------------------
-- Longest Runs
------------------------------------------------------------

/-
  The run is the longest one in front of the text that
  consists of bytes of a kind.
-/
structure IsRun
    (kind : UInt8 → Prop)
    (text run rest : List UInt8) : Prop where
  text_eq : text = run ++ rest
  all : ∀ b ∈ run, kind b
  stops : ∀ b ∈ rest.head?, ¬ kind b

variable {kind : UInt8 → Prop}
variable {text run rest : List UInt8}

/- A byte of the kind belongs to the run. -/
theorem isRun_cons_iff
    {b : UInt8}
    (hKind : kind b) :
    IsRun kind (b :: text) run rest ↔
      ∃ back,
        run = b :: back ∧ IsRun kind text back rest := by
  constructor
  · intro h
    rcases h with ⟨hText, hAll, hStops⟩
    cases run with
    | nil =>
        rw [List.nil_append] at hText
        subst hText
        exact absurd hKind (hStops b rfl)
    | cons a back =>
        rw [List.cons_append, List.cons.injEq] at hText
        rcases hText with ⟨rfl, rfl⟩
        exact ⟨back, rfl, rfl,
          (List.forall_mem_cons.mp hAll).2, hStops⟩
  · intro h
    rcases h with ⟨back, rfl, rfl, hAll, hStops⟩
    exact
      ⟨rfl, List.forall_mem_cons.mpr ⟨hKind, hAll⟩, hStops⟩

/- Where no byte of the kind stands, the run is empty. -/
theorem isRun_nil_iff
    (hStops : ∀ b ∈ text.head?, ¬ kind b) :
    IsRun kind text run rest ↔ run = [] ∧ rest = text := by
  constructor
  · intro h
    rcases h with ⟨rfl, hAll, _⟩
    cases run with
    | nil => exact ⟨rfl, rfl⟩
    | cons a back =>
        exact absurd (hAll a List.mem_cons_self)
          (hStops a rfl)
  · intro h
    rcases h with ⟨rfl, rfl⟩
    exact ⟨rfl, nofun, hStops⟩

/- The run is what is taken while bytes are of the kind. -/
theorem IsRun.takeWhile_eq
    [DecidablePred kind]
    (h : IsRun kind text run rest) :
    (text.takeWhile fun b => decide (kind b)) = run := by
  have hAll : ∀ b ∈ run, decide (kind b) = true :=
    fun b hb => decide_eq_true (h.all b hb)
  rw [h.text_eq, List.takeWhile_append_of_pos hAll]
  cases rest with
  | nil => exact List.append_nil run
  | cons b back =>
      have hStop : decide (kind b) = false :=
        decide_eq_false (h.stops b rfl)
      simp [hStop]

/-
  Behind the run stands what is left when bytes of the
  kind are dropped.
-/
theorem IsRun.dropWhile_eq
    [DecidablePred kind]
    (h : IsRun kind text run rest) :
    (text.dropWhile fun b => decide (kind b)) = rest := by
  have hAll : ∀ b ∈ run, decide (kind b) = true :=
    fun b hb => decide_eq_true (h.all b hb)
  rw [h.text_eq, List.dropWhile_append_of_pos hAll]
  cases rest with
  | nil => rfl
  | cons b back =>
      have hStop : ¬ decide (kind b) = true := by
        simpa using h.stops b rfl
      exact List.dropWhile_cons_of_neg hStop

namespace Cursor

variable {c c' : Cursor}

------------------------------------------------------------
-- Single Bytes
------------------------------------------------------------

/-
  A reader found something, and the rest of the text
  is still readable.
-/
def Finds
    {α : Type}
    (result : α × Cursor)
    (found : α)
    (rest : List UInt8) : Prop :=
  ∃ c', result = (found, c') ∧ c'.readable = rest

/-
  Looking at a byte shows the first readable one,
  and consumes nothing.
-/
theorem readable_of_peek
    {ahead : Option UInt8}
    (h : c.peek = (ahead, c')) :
    ahead = c.readable.head? ∧
      c'.readable = c.readable := by
  rcases c with
    ⟨source, ended, lookahead, line, failure, name⟩
  rcases lookahead with _ | _ | b
  · rcases failure with _ | text
    · rcases source with _ | ⟨b | text, source⟩ <;>
        cases h <;>
        exact ⟨rfl, rfl⟩
    · cases h
      exact ⟨rfl, rfl⟩
  · cases h
    exact ⟨rfl, rfl⟩
  · cases h
    exact ⟨rfl, rfl⟩

/-
  The byte that was looked at is the one that is consumed.
-/
theorem readable_next_of_peek
    {b : UInt8}
    (h : c.peek = (some b, c')) :
    c.readable = b :: c'.next.2.readable := by
  rcases readable_of_peek h with ⟨hHead, hSame⟩
  rcases hText : c'.readable with _ | ⟨a, rest⟩
  · rw [← hSame, hText] at hHead
    cases hHead
  · rcases next_of_readable hText with ⟨c₁, hNext, hRest⟩
    rw [← hSame, hText] at hHead
    rcases Option.some.inj hHead with rfl
    rw [← hSame, hText, hNext, hRest]

/- A byte of the kind is taken. -/
theorem finds_takeIf_some_iff
    [DecidablePred kind]
    {b : UInt8} :
    Finds (c.takeIf (fun b => decide (kind b))) (some b)
        rest ↔
      c.readable = b :: rest ∧ kind b := by
  unfold Finds takeIf
  rcases hPeek : c.peek with ⟨_ | a, c₁⟩
  · have hNil : c.readable = [] :=
      List.head?_eq_none_iff.mp
        (readable_of_peek hPeek).1.symm
    simp [hNil]
  · have hText := readable_next_of_peek hPeek
    by_cases hKind : kind a
    · simp only [hKind, decide_true, if_true, hText]
      grind
    · simp only [hKind, decide_false, Bool.false_eq_true,
        if_false, hText]
      grind

/- Any other byte is left, and so is the end of the text. -/
theorem finds_takeIf_none_iff
    [DecidablePred kind] :
    Finds (c.takeIf (fun b => decide (kind b))) none rest ↔
      c.readable = rest ∧ ∀ b ∈ rest.head?, ¬ kind b := by
  unfold Finds takeIf
  rcases hPeek : c.peek with ⟨_ | a, c₁⟩
  · have hNil : c.readable = [] :=
      List.head?_eq_none_iff.mp
        (readable_of_peek hPeek).1.symm
    have hSame := (readable_of_peek hPeek).2
    simp only [hNil] at hSame ⊢
    grind
  · have hText := readable_next_of_peek hPeek
    have hSame := (readable_of_peek hPeek).2
    by_cases hKind : kind a
    · simp only [hKind, decide_true, if_true, hText]
      grind
    · simp only [hKind, decide_false, Bool.false_eq_true,
        if_false]
      grind

theorem finds_takeIf_iff
    [DecidablePred kind]
    {found : Option UInt8} :
    Finds (c.takeIf (fun b => decide (kind b))) found rest ↔
      c.readable = found.toList ++ rest ∧
        (∀ b ∈ found, kind b) ∧
        (found = none → ∀ b ∈ rest.head?, ¬ kind b) := by
  cases found with
  | none => simp [finds_takeIf_none_iff]
  | some b => simp [finds_takeIf_some_iff]

theorem scanChar_eq
    (expected : UInt8)
    (c : Cursor) :
    c.scanChar expected =
      ((c.takeIf (fun b => decide (b = expected))).1.isSome,
        (c.takeIf (fun b => decide (b = expected))).2) := by
  unfold scanChar
  rcases c.takeIf (fun b => decide (b = expected)) with
    ⟨_ | b, c'⟩ <;>
    rfl

/- The expected byte is taken. -/
theorem finds_scanChar_true_iff
    {expected : UInt8} :
    Finds (c.scanChar expected) true rest ↔
      c.readable = expected :: rest := by
  rw [Finds, scanChar_eq]
  constructor
  · intro h
    rcases h with ⟨c', hScan, rfl⟩
    rcases hTake :
        c.takeIf (fun b => decide (b = expected)) with
      ⟨_ | b, c₁⟩
    · rw [hTake] at hScan
      cases hScan
    · rw [hTake] at hScan
      cases hScan
      rcases finds_takeIf_some_iff.mp ⟨c₁, hTake, rfl⟩ with
        ⟨hText, rfl⟩
      exact hText
  · intro h
    have hFinds :
        Finds (c.takeIf (fun b => decide (b = expected)))
          (some expected) rest :=
      finds_takeIf_some_iff.mpr ⟨h, rfl⟩
    rcases hFinds with ⟨c', hTake, hRest⟩
    exact ⟨c', by rw [hTake]; rfl, hRest⟩

/- Any other byte is left. -/
theorem finds_scanChar_false_iff
    {expected : UInt8} :
    Finds (c.scanChar expected) false rest ↔
      c.readable = rest ∧
        ∀ b ∈ rest.head?, b ≠ expected := by
  rw [Finds, scanChar_eq]
  constructor
  · intro h
    rcases h with ⟨c', hScan, rfl⟩
    rcases hTake :
        c.takeIf (fun b => decide (b = expected)) with
      ⟨_ | b, c₁⟩
    · rw [hTake] at hScan
      cases hScan
      exact finds_takeIf_none_iff.mp ⟨c₁, hTake, rfl⟩
    · rw [hTake] at hScan
      cases hScan
  · intro h
    rcases finds_takeIf_none_iff.mpr h with
      ⟨c', hTake, hRest⟩
    exact ⟨c', by rw [hTake]; rfl, hRest⟩

------------------------------------------------------------
-- Runs of Bytes
------------------------------------------------------------

/- White space is skipped as far as it goes. -/
theorem readable_skipSpaces_iff :
    c.skipSpaces.readable = rest ↔
      ∃ spaces,
        IsRun Byte.IsSpace c.readable spaces rest := by
  fun_induction skipSpaces c with
  | case1 c b c₁ hTake ih =>
      rcases finds_takeIf_some_iff.mp ⟨c₁, hTake, rfl⟩ with
        ⟨hText, hSpace⟩
      rw [ih, hText]
      simp only [isRun_cons_iff hSpace]
      constructor
      · intro h
        rcases h with ⟨back, hRun⟩
        exact ⟨b :: back, back, rfl, hRun⟩
      · intro h
        rcases h with ⟨_, back, rfl, hRun⟩
        exact ⟨back, hRun⟩
  | case2 c c₁ hTake =>
      rcases finds_takeIf_none_iff.mp ⟨c₁, hTake, rfl⟩ with
        ⟨hText, hStops⟩
      rw [hText]
      simp only [isRun_nil_iff hStops, exists_eq_left,
        eq_comm]

/- Digits are taken as far as they go. -/
theorem finds_takeDigits_iff
    {seen : Array UInt8}
    {digits : List UInt8} :
    Finds (takeDigits seen c) digits rest ↔
      ∃ run,
        digits = seen.toList ++ run ∧
        IsRun Byte.IsDigit c.readable run rest := by
  fun_induction takeDigits seen c with
  | case1 seen c b c₁ hTake ih =>
      rcases finds_takeIf_some_iff.mp ⟨c₁, hTake, rfl⟩ with
        ⟨hText, hDigit⟩
      rw [ih, hText]
      simp only [isRun_cons_iff hDigit, Array.toList_push,
        List.append_assoc, List.singleton_append]
      constructor
      · intro h
        rcases h with ⟨back, hDigits, hRun⟩
        exact ⟨b :: back, hDigits, back, rfl, hRun⟩
      · intro h
        rcases h with ⟨_, hDigits, back, rfl, hRun⟩
        exact ⟨back, hDigits, hRun⟩
  | case2 seen c c₁ hTake =>
      rcases finds_takeIf_none_iff.mp ⟨c₁, hTake, rfl⟩ with
        ⟨hText, hStops⟩
      rw [hText]
      simp only [isRun_nil_iff hStops]
      constructor
      · intro h
        rcases h with ⟨c', hFound, rfl⟩
        cases hFound
        exact ⟨[], (List.append_nil _).symm, rfl, rfl⟩
      · intro h
        rcases h with ⟨_, hDigits, rfl, rfl⟩
        rw [List.append_nil] at hDigits
        exact ⟨c₁, by rw [hDigits], rfl⟩

theorem finds_digits_iff
    {digits : List UInt8} :
    Finds (takeDigits #[] c) digits rest ↔
      IsRun Byte.IsDigit c.readable digits rest := by
  simp only [finds_takeDigits_iff, List.nil_append,
    exists_eq_left']

end Cursor

end Dimacs
