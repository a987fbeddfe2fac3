import Dimacs.Options.Basic
import Dimacs.Problem.Parser

/-
  Comment lines in front of the header, and the directives
  `--name=value` that may stand in them. Whatever deviates
  from the form of a directive is an ordinary comment.

  Key definitions include:
    * `Directive`
    * `Directive.apply`
    * `Remark`
    * `Parser.remark`
    * `Parser.skipComment`
    * `Parser.headerComment`
-/

namespace Dimacs

------------------------------------------------------------
-- Directives
------------------------------------------------------------

/-
  The name and the value of an option, as they were written.
-/
structure Directive where
  name : String
  value : Int
deriving DecidableEq

namespace Directive

/- The longest name of an option in a directive. -/
def maxName : Nat := 31

/- The largest magnitude of a value in a directive. -/
def maxMagnitude : Nat := 2147483647

/-
  The options after a directive; an unknown
  name changes nothing.
-/
def apply
    (d : Directive)
    (o : Options) : Options :=
  match Setting.ofName? d.name with
  | some setting => o.set setting d.value
  | none => o

/- The written form of an option with a value. -/
def written
    (name : String)
    (value : Int) : String :=
  s!"--{name}={value}"

/- What is printed when a directive is applied. -/
def notices
    (d : Directive)
    (o : Options) : List String :=
  match Setting.ofName? d.name with
  | some setting =>
      let form := written d.name (setting.clamp d.value)
      (d.apply o).log 1 s!"parsed embedded option '{form}'"
  | none =>
      let form := written d.name d.value
      o.warn s!"invalid embedded option '{form}'"

end Directive

/-
  What a comment that starts with a minus turned out to be:
  a directive, a line that ended before it became one, or a
  text that goes on with the given byte.
-/
inductive Remark where
  | directive (d : Directive)
  | ended
  | text (ahead : Option UInt8)

namespace Parser

------------------------------------------------------------
-- Names and Values
------------------------------------------------------------

/-
  Read the letters of a name, and the byte behind the last
  letter that the name has room for.
-/
def letters
    (name : List UInt8)
    (c : Cursor) : (List UInt8 × Option UInt8) × Cursor :=
  match _h : c.next with
  | (some b, c') =>
      if Byte.IsLower b ∧
          name.length < Directive.maxName then
        letters (name ++ [b]) c'
      else ((name, some b), c')
  | (none, c') => ((name, none), c')
termination_by c.remaining
decreasing_by exact Cursor.remaining_lt_of_next _h

/-
  Read the digits of a value, and the byte behind the last
  digit that fits.
-/
def magnitude
    (value : Nat)
    (c : Cursor) : (Nat × Option UInt8) × Cursor :=
  match _h : c.next with
  | (some b, c') =>
      if Byte.IsDigit b then
        match Check.appendDigit? Directive.maxMagnitude
            value (Byte.digit b) with
        | some extended => magnitude extended c'
        | none => ((value, some b), c')
      else ((value, some b), c')
  | (none, c') => ((value, none), c')
termination_by c.remaining
decreasing_by exact Cursor.remaining_lt_of_next _h

/- Read a name and the byte behind it. -/
def directiveName : Parser (List UInt8 × Option UInt8) :=
  fun c => .ok (letters [] c).1 (letters [] c).2

/-
  Read the digits behind the first digit, and the
  byte behind them.
-/
def directiveMagnitude
    (first : UInt8) : Parser (Nat × Option UInt8) :=
  fun c =>
    .ok (magnitude (Byte.digit first) c).1
      (magnitude (Byte.digit first) c).2

/- Hold the value of a directive to its width. -/
def directiveValue
    (negative : Bool)
    (value : Nat) : Parser Int :=
  fun c =>
    match Check.int32
        (if negative then -(value : Int)
        else (value : Int)) with
    | .ok signed => .ok signed c
    | .error violation => .error (.violated violation) c

------------------------------------------------------------
-- Remarks
------------------------------------------------------------

/-
  Decide what follows the last digit of a value: only
  blanks may stand before the end of the line.
-/
def closeDirective
    (name : List UInt8)
    (negative : Bool)
    (value : Nat)
    (ahead : Option UInt8) : Parser Remark := do
  let ahead ← skipBlanks ahead
  if ahead = some Byte.carriageReturn then
    finishLine
    let signed ← directiveValue negative value
    pure (.directive ⟨Byte.text name, signed⟩)
  else if ahead = some Byte.lineFeed then
    let signed ← directiveValue negative value
    pure (.directive ⟨Byte.text name, signed⟩)
  else pure (.text ahead)

/-
  Read the value of a directive, behind its optional sign.
-/
def unsignedValue
    (name : List UInt8)
    (negative : Bool)
    (ahead : Option UInt8) : Parser Remark :=
  match ahead with
  | some b =>
      if Byte.IsDigit b then do
        let (value, ahead) ← directiveMagnitude b
        closeDirective name negative value ahead
      else pure (.text (some b))
  | none => pure (.text none)

/- Read the value of a directive, behind the equals sign. -/
def optionValue
    (name : List UInt8) : Parser Remark := do
  let ahead ← byte
  if ahead = some Byte.minus then
    let ahead ← byte
    unsignedValue name true ahead
  else unsignedValue name false ahead

/-
  Read what follows the first minus of a comment. Only a
  carriage return without line feed is an error.
-/
def remark : Parser Remark := do
  let ahead ← byte
  if ahead = some Byte.minus then
    let (name, ahead) ← directiveName
    if ahead = some Byte.carriageReturn then
      finishLine
      pure .ended
    else if ahead = some Byte.lineFeed then pure .ended
    else if ahead = some Byte.equals ∧ name ≠ [] then
      optionValue name
    else pure (.text ahead)
  else pure (.text ahead)

------------------------------------------------------------
-- Comments
------------------------------------------------------------

/-
  Skip the rest of a comment line, which starts with
  the given byte.
-/
def skipComment
    (ahead : Option UInt8)
    (c : Cursor) : EStateM.Result ParseError Cursor Unit :=
  match ahead with
  | none => fail .endInHeaderComment c
  | some b =>
      if b = Byte.lineFeed then .ok () c
      else if b = Byte.carriageReturn then finishLine c
      else skipComment c.next.1 c.next.2
termination_by c.remaining + ahead.isSome.toNat
decreasing_by
  have hStep := c.remaining_next_add
  simp only [Option.isSome_some, Bool.toNat_true]
  omega

/-
  Read a comment line behind its first letter, and the
  directive in it. If directives are disabled, every line
  is an ordinary comment.
-/
def headerComment
    (enabled : Bool) : Parser (Option Directive) := do
  let ahead ← byteAfterBlanks
  if enabled ∧ ahead = some Byte.minus then
    match ← remark with
    | .directive d => pure (some d)
    | .ended => pure none
    | .text ahead =>
        skipComment ahead
        pure none
  else
    skipComment ahead
    pure none

------------------------------------------------------------
-- Progress
------------------------------------------------------------

theorem remaining_letters
    (name : List UInt8)
    (c : Cursor) :
    (letters name c).2.remaining ≤ c.remaining := by
  fun_induction letters name c with
  | case1 name c b c' h hLower ih =>
      exact Nat.le_trans ih (Cursor.remaining_le_of_next h)
  | case2 name c b c' h hLower =>
      exact Cursor.remaining_le_of_next h
  | case3 name c c' h => exact Cursor.remaining_le_of_next h

theorem remaining_magnitude
    (value : Nat)
    (c : Cursor) :
    (magnitude value c).2.remaining ≤ c.remaining := by
  fun_induction magnitude value c with
  | case1 value c b c' h hDigit extended hExtend ih =>
      exact Nat.le_trans ih (Cursor.remaining_le_of_next h)
  | case2 value c b c' h hDigit hExtend =>
      exact Cursor.remaining_le_of_next h
  | case3 value c b c' h hDigit =>
      exact Cursor.remaining_le_of_next h
  | case4 value c c' h =>
      exact Cursor.remaining_le_of_next h

theorem advances_directiveName :
    Advances directiveName := by
  intro c a c' h
  cases h
  exact remaining_letters [] c

theorem advances_directiveMagnitude
    (first : UInt8) :
    Advances (directiveMagnitude first) := by
  intro c a c' h
  cases h
  exact remaining_magnitude (Byte.digit first) c

theorem advances_directiveValue
    (negative : Bool)
    (value : Nat) :
    Advances (directiveValue negative value) := by
  intro c a c' h
  unfold directiveValue at h
  split at h
  · cases h
    exact Nat.le_refl _
  · cases h

theorem advances_closeDirective
    (name : List UInt8)
    (negative : Bool)
    (value : Nat)
    (ahead : Option UInt8) :
    Advances (closeDirective name negative value ahead) :=
  advances_bind (advances_skipBlanks ahead) fun _ =>
    advances_ite
      (advances_bind advances_finishLine fun _ =>
        advances_bind (advances_directiveValue _ _) fun _ =>
          advances_pure _)
      (advances_ite
        (advances_bind (advances_directiveValue _ _)
          fun _ => advances_pure _) (advances_pure _))

theorem advances_unsignedValue
    (name : List UInt8)
    (negative : Bool)
    (ahead : Option UInt8) :
    Advances (unsignedValue name negative ahead) := by
  rcases ahead with _ | b
  · exact advances_pure _
  · exact advances_ite
      (advances_bind (advances_directiveMagnitude b)
        fun _ => advances_closeDirective _ _ _ _)
      (advances_pure _)

theorem advances_optionValue
    (name : List UInt8) :
    Advances (optionValue name) :=
  advances_bind advances_byte fun _ =>
    advances_ite
      (advances_bind advances_byte fun _ =>
        advances_unsignedValue _ _ _)
      (advances_unsignedValue _ _ _)

theorem advances_remark :
    Advances remark :=
  advances_bind advances_byte fun _ =>
    advances_ite
      (advances_bind advances_directiveName fun _ =>
        advances_ite
          (advances_bind advances_finishLine fun _ =>
            advances_pure _)
          (advances_ite (advances_pure _)
            (advances_ite (advances_optionValue _)
              (advances_pure _)))) (advances_pure _)

theorem advances_skipComment
    (ahead : Option UInt8) :
    Advances (skipComment ahead) := by
  intro c a c'
  fun_induction skipComment ahead c with
  | case1 c =>
      intro hRun
      cases hRun
  | case2 c =>
      intro hRun
      cases hRun
      exact Nat.le_refl _
  | case3 c hFeed =>
      intro hRun
      exact advances_finishLine c a c' hRun
  | case4 c b hFeed hReturn ih =>
      intro hRun
      exact Nat.le_trans (ih hRun)
        (Cursor.remaining_le_of_next rfl)

theorem advances_headerComment
    (enabled : Bool) :
    Advances (headerComment enabled) :=
  advances_bind advances_byteAfterBlanks fun _ =>
    advances_ite
      (advances_bind advances_remark fun found => by
        rcases found with d | _ | ahead
        · exact advances_pure _
        · exact advances_pure _
        · exact advances_bind (advances_skipComment ahead)
            fun _ => advances_pure _)
      (advances_bind (advances_skipComment _) fun _ =>
        advances_pure _)

end Parser

end Dimacs
