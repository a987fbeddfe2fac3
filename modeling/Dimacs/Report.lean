import Dimacs.Check

/-
  The lines that are printed: comments, warnings, errors,
  and statistics in two columns.

  Key definitions include:
    * `Report.comment`
    * `Report.warning`
    * `Report.error`
    * `Report.keyValue`
    * `Report.seconds`
    * `Report.megabytes`
-/

namespace Dimacs

namespace Report

------------------------------------------------------------
-- Kinds of Lines
------------------------------------------------------------

/- A comment line. -/
def comment
    (text : String) : String :=
  "c " ++ text

/- A warning. -/
def warning
    (text : String) : String :=
  "Warning: " ++ text

/- A fatal error. -/
def error
    (text : String) : String :=
  "Error: " ++ text

------------------------------------------------------------
-- Columns
------------------------------------------------------------

/-
  Spaces that fill a text up to a width,
  counted in characters.
-/
def padding
    (width : Nat)
    (text : String) : String :=
  String.ofList (List.replicate (width - text.length) ' ')

/- A text at the left of a column. -/
def alignLeft
    (width : Nat)
    (text : String) : String :=
  text ++ padding width text

/- A text at the right of a column. -/
def alignRight
    (width : Nat)
    (text : String) : String :=
  padding width text ++ text

/-
  The width of the column of keys, in which a colon has
  to fit too.
-/
def keyWidth : Nat := 35

/- The width of the column of values. -/
def valueWidth : Nat := 15

/- The width of a memory size. -/
def sizeWidth : Nat := 12

/-
  A statistic. The key has to be shorter than its column,
  counted in bytes.
-/
def keyValue
    (key value : String) : Except Violation String :=
  match Check.require (key.utf8ByteSize < keyWidth) with
  | .error violation => .error violation
  | .ok () =>
      .ok
        (comment
          (alignLeft keyWidth (key ++ ":") ++ " " ++
            alignRight valueWidth value))

/-
  A number of milliseconds in seconds, with
  three decimal places.
-/
def seconds
    (milliseconds : Nat) : String :=
  let fraction := toString (1000 + milliseconds % 1000)
  toString (milliseconds / 1000) ++ "." ++
    (fraction.drop 1).toString

/- A number of bytes in megabytes, rounded down. -/
def megabytes
    (bytes : Nat) : String :=
  alignRight sizeWidth (toString (bytes / 1048576))

end Report

end Dimacs
