import Dimacs.Source

/-
  The files that a session can read, and its standard
  input, which several readers may share.

  Key definitions include:
    * `Environment`
    * `Environment.contents`
    * `Environment.leaveInput`
-/

namespace Dimacs

------------------------------------------------------------
-- Environments
------------------------------------------------------------

/-
  What each file name leads to, the text of a failure to
  open it or its bytes; and the bytes of standard input.
-/
structure Environment where
  files : String → Except String Source
  input : Source

namespace Environment

/- The number of bytes by which standard input is read. -/
def blockSize : Nat := 8192

/- The bytes of a source that can be read to its end. -/
def contents
    (source : Source) : Except String (List UInt8) :=
  match Source.failures source with
  | [] => .ok (Source.bytes source)
  | text :: _ => .error text

/-
  What a reader leaves of standard input: it takes whole
  blocks, even if it uses only a part of the last one.
-/
def leaveInput
    (env : Environment)
    (rest : Source) : Environment :=
  let used := env.input.length - rest.length
  let blocks := (used + blockSize - 1) / blockSize
  { env with input := env.input.drop (blocks * blockSize) }

end Environment

end Dimacs
