import Dimacs.Proofs.Clauses.Steps
import Dimacs.Proofs.Header.Grammar

/-
  The grammar of the clause text, stated apart from the
  reader: separators, comments and numerals, of which no two
  numerals touch.

  Key definitions include:
    * `ClauseItem`
    * `ClauseItem.IsGap`
    * `IsClauseText`
    * `clauseBytes`
    * `clauseLiterals`
    * `EndsInZero`
    * `IsEnding`

  Main statements:
    * `clauseLiterals_cons_of_gap`
    * `isClauseText_cons_of_gap`
    * `isClauseText_of_ending`
    * `clauseLiterals_of_ending`
-/

namespace Dimacs

/-
  Any byte but the one that ends a comment
  among the clauses.
-/
def Byte.IsNoFeed
    (b : UInt8) : Prop :=
  b ≠ lineFeed

instance (b : UInt8) :
    Decidable (Byte.IsNoFeed b) :=
  inferInstanceAs (Decidable (_ ≠ _))

------------------------------------------------------------
-- Items
------------------------------------------------------------

/-
  A piece of the clause text. A comment runs to the next
  line feed, an open one to the end of the text.
-/
inductive ClauseItem where
  | space
  | tab
  | lineEnd (close : LineEnd)
  | comment (text : List UInt8)
  | openComment (text : List UInt8)
  | numeral (negative : Bool) (digits : List UInt8)
deriving DecidableEq

namespace ClauseItem

/- The bytes of an item. -/
def bytes : ClauseItem → List UInt8
  | space => [Byte.space]
  | tab => [Byte.tab]
  | lineEnd close => close.bytes
  | comment text =>
      Byte.letterC :: (text ++ [Byte.lineFeed])
  | openComment text => Byte.letterC :: text
  | numeral negative digits =>
      if negative then Byte.minus :: digits else digits

/-
  The literal that an item stands for, if it is a numeral.
-/
def literal? : ClauseItem → Option Int
  | numeral negative digits =>
      some (signed negative (Byte.decimal digits))
  | _ => none

/-
  No line feed stands within a comment. A numeral is in
  range, and a sign is not followed by a zero.
-/
def IsWellFormed : ClauseItem → Prop
  | comment text => ∀ b ∈ text, Byte.IsNoFeed b
  | openComment text => ∀ b ∈ text, Byte.IsNoFeed b
  | numeral negative digits =>
      IsNumeral maxVariable digits ∧
        (negative = true → digits.head? ≠ some Byte.zero)
  | _ => True

instance : (item : ClauseItem) → Decidable item.IsWellFormed
  | space => .isTrue trivial
  | tab => .isTrue trivial
  | lineEnd _ => .isTrue trivial
  | comment text => List.decidableBAll Byte.IsNoFeed text
  | openComment text =>
      List.decidableBAll Byte.IsNoFeed text
  | numeral _ digits =>
      inferInstanceAs
        (Decidable
          (IsNumeral maxVariable digits ∧
            (_ = true → _ ≠ _)))

theorem bytes_ne_nil
    {item : ClauseItem}
    (h : item.IsWellFormed) :
    item.bytes ≠ [] := by
  cases item with
  | lineEnd close => exact close.bytes_ne_nil
  | numeral negative digits =>
      cases negative
      · exact h.1.1
      · exact List.cons_ne_nil _ _
  | _ => exact List.cons_ne_nil _ _

/-
  What may follow an item: behind an open comment nothing,
  behind a numeral anything but another numeral.
-/
def MayPrecede
    (rest : List ClauseItem) : ClauseItem → Prop
  | openComment _ => rest = []
  | numeral _ _ => ∀ item ∈ rest.head?, item.literal? = none
  | _ => True

instance (rest : List ClauseItem) :
    (item : ClauseItem) → Decidable (item.MayPrecede rest)
  | space => .isTrue trivial
  | tab => .isTrue trivial
  | lineEnd _ => .isTrue trivial
  | comment _ => .isTrue trivial
  | openComment _ => inferInstanceAs (Decidable (rest = []))
  | numeral _ _ =>
      inferInstanceAs
        (Decidable
          (∀ item ∈ rest.head?, item.literal? = none))

end ClauseItem

/- A sequence of items that can be told apart again. -/
def IsClauseText : List ClauseItem → Prop
  | [] => True
  | item :: rest =>
      item.IsWellFormed ∧
        item.MayPrecede rest ∧
        IsClauseText rest

instance decidableIsClauseText :
    (items : List ClauseItem) →
      Decidable (IsClauseText items)
  | [] => .isTrue trivial
  | item :: rest =>
      have := decidableIsClauseText rest
      inferInstanceAs
        (Decidable
          (item.IsWellFormed ∧
            item.MayPrecede rest ∧
            IsClauseText rest))

/- The bytes of a sequence of items. -/
def clauseBytes
    (items : List ClauseItem) : List UInt8 :=
  items.flatMap ClauseItem.bytes

/- The literals of a sequence of items, in order. -/
def clauseLiterals
    (items : List ClauseItem) : List Int :=
  items.filterMap ClauseItem.literal?

/- The last literal, if there is one, is zero. -/
def EndsInZero
    (literals : List Int) : Prop :=
  ∀ literal ∈ literals.getLast?, literal = 0

instance (literals : List Int) :
    Decidable (EndsInZero literals) :=
  inferInstanceAs
    (Decidable (∀ literal ∈ literals.getLast?, literal = 0))

------------------------------------------------------------
-- Gaps and Ends
------------------------------------------------------------

/- An item between numerals that does not end the text. -/
def ClauseItem.IsGap : ClauseItem → Prop
  | openComment _ => False
  | numeral _ _ => False
  | item => item.IsWellFormed

theorem ClauseItem.IsGap.isWellFormed
    {item : ClauseItem}
    (h : item.IsGap) :
    item.IsWellFormed := by
  cases item with
  | openComment text => exact h.elim
  | numeral negative digits => exact h.elim
  | _ => exact h

/- Any other item is an open comment or a numeral. -/
theorem ClauseItem.isGap_or
    {item : ClauseItem}
    (h : item.IsWellFormed) :
    item.IsGap ∨
      (∃ text, item = openComment text) ∨
      ∃ negative digits,
        item = numeral negative digits := by
  cases item with
  | openComment text => exact .inr (.inl ⟨text, rfl⟩)
  | numeral negative digits =>
      exact .inr (.inr ⟨negative, digits, rfl⟩)
  | _ => exact .inl h

/- A gap is no numeral. -/
theorem ClauseItem.IsGap.literal?_eq_none
    {item : ClauseItem}
    (h : item.IsGap) :
    item.literal? = none := by
  cases item with
  | openComment text => exact h.elim
  | numeral negative digits => exact h.elim
  | _ => rfl

theorem clauseLiterals_cons_of_gap
    {item : ClauseItem}
    (h : item.IsGap)
    (items : List ClauseItem) :
    clauseLiterals (item :: items) = clauseLiterals items :=
  List.filterMap_cons_none h.literal?_eq_none

theorem isClauseText_cons_of_gap
    {item : ClauseItem}
    {items : List ClauseItem}
    (hGap : item.IsGap)
    (hText : IsClauseText items) :
    IsClauseText (item :: items) := by
  refine ⟨hGap.isWellFormed, ?_, hText⟩
  cases item with
  | openComment text => exact hGap.elim
  | numeral negative digits => exact hGap.elim
  | _ => trivial

/-
  What may stand at the end of the text behind the last
  gap or numeral.
-/
def IsEnding
    (items : List ClauseItem) : Prop :=
  items = [] ∨
    ∃ text,
      (∀ b ∈ text, Byte.IsNoFeed b) ∧
      items = [.openComment text]

theorem isClauseText_of_ending
    {items : List ClauseItem}
    (h : IsEnding items) :
    IsClauseText items := by
  rcases h with rfl | ⟨text, hText, rfl⟩
  · exact trivial
  · exact ⟨hText, rfl, trivial⟩

/- An ending holds no numeral. -/
theorem literal?_of_ending
    {items : List ClauseItem}
    (h : IsEnding items) :
    ∀ item ∈ items, item.literal? = none := by
  intro item hMem
  rcases h with rfl | ⟨text, _, rfl⟩
  · cases hMem
  · rw [List.mem_singleton.mp hMem]
    rfl

theorem clauseLiterals_of_ending
    {items : List ClauseItem}
    (h : IsEnding items) :
    clauseLiterals items = [] :=
  List.filterMap_eq_nil_iff.mpr (literal?_of_ending h)

end Dimacs
