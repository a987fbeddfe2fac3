import Dimacs.Session.Run

/-
  The command line: read the files that the arguments name,
  hold the session, print its lines.
-/

namespace Dimacs

namespace Main

------------------------------------------------------------
-- Files
------------------------------------------------------------

/- The operating system's text for a failure. -/
def failureText
    (e : IO.Error) : String :=
  match e with
  | .noFileOrDirectory _ code details =>
      s!"{details} (os error {code})"
  | .permissionDenied _ code details =>
      s!"{details} (os error {code})"
  | .inappropriateType _ code details =>
      s!"{details} (os error {code})"
  | .invalidArgument _ code details =>
      s!"{details} (os error {code})"
  | .resourceExhausted _ code details =>
      s!"{details} (os error {code})"
  | .otherError code details =>
      s!"{details} (os error {code})"
  | _ => toString e

/- Read from a stream until it ends or fails. -/
def drain
    (h : IO.FS.Handle) : IO Source := do
  try
    let bytes ← h.readBinToEnd
    pure (Source.ofBytes bytes.toList)
  catch e =>
    pure [.failure (failureText e)]

/- What opening a file leads to. -/
def openPath
    (path : String) : IO (Except String Source) := do
  try
    let h ← IO.FS.Handle.mk path .read
    let source ← drain h
    pure (.ok source)
  catch e =>
    pure (.error (failureText e))

/-
  The bytes of standard input, which are read up
  to their end.
-/
def drainInput : IO Source := do
  let input ← IO.getStdin
  let mut bytes := ByteArray.empty
  let mut block ← input.read Environment.blockSize.toUSize
  while !block.isEmpty do
    bytes := bytes ++ block
    block ← input.read Environment.blockSize.toUSize
  pure (Source.ofBytes bytes.toList)

/- The names of the files that the arguments mention. -/
def mentioned : CommandLine.Request → List String
  | .run a =>
      a.input :: a.config.toList ++ a.backbone.toList ++
        a.unsatOrder.toList
  | _ => []

/-
  Everything that a session with the given
  arguments may read.
-/
def environment
    (arguments : List String) : IO Environment := do
  let names := mentioned (CommandLine.interpret arguments)
  let opened ← names.mapM fun name => do
    let found ← openPath name
    pure (name, found)
  let input ←
    if Session.inputName ∈ names then drainInput
    else pure []
  pure
    { files := fun name =>
        match opened.lookup name with
        | some found => found
        | none =>
            .error "No such file or directory (os error 2)"
      input := input }

------------------------------------------------------------
-- Output
------------------------------------------------------------

/-
  The text of a line, given the time since the start
  of the session.
-/
def lineText
    (milliseconds : Nat) : Line → String
  | .text content => content
  | .elapsed what =>
      match Report.keyValue (what ++ " (s)")
          (Report.seconds milliseconds) with
      | .ok line => line
      | .error violation => violation.message

end Main

end Dimacs

open Dimacs in
/- Hold a session and return its exit code. -/
def main
    (arguments : List String) : IO UInt32 := do
  let begun ← IO.monoMsNow
  let env ← Main.environment arguments
  let (lines, code) := Session.answer env arguments
  let ended ← IO.monoMsNow
  lines.forM fun line =>
    IO.println (Main.lineText (ended - begun) line)
  pure code.toUInt32
