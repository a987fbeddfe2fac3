import Dimacs.Toml.Key
import Dimacs.Toml.Scalar

/-
  TOML documents, read token by token. Brackets may be
  nested, so those that are open are kept on a stack. Of a
  document the entries of its root table are kept, and where
  its last header stands.

  Key definitions include:
    * `Toml.Entry`
    * `Toml.Place`
    * `Toml.Document`
    * `Toml.Reader`
    * `Toml.Reader.step`
    * `Toml.Document.read?`
-/

namespace Dimacs

namespace Toml

------------------------------------------------------------
-- Documents
------------------------------------------------------------

/- A key with its value. -/
structure Entry where
  key : String
  value : Value
deriving DecidableEq

/-
  A place in a text; lines and the bytes of a line are
  counted from one.
-/
structure Place where
  line : Nat
  column : Nat
deriving DecidableEq

/- The place that a text leads up to. -/
def Place.behind
    (text : List Char) : Place where
  line := text.count '\n' + 1
  column :=
    (text.reverse.takeWhile fun c =>
        decide (c ≠ '\n')).foldl
      (fun column c => column + c.utf8Size) 1

/-
  The entries of the root table in the order in which their
  keys occur. A key that occurs again is an entry again. The
  place is that of the last header, or the start.
-/
structure Document where
  entries : List Entry
  place : Place
deriving DecidableEq

------------------------------------------------------------
-- Readers
------------------------------------------------------------

/-
  An open bracket of a value: an array, or a table with the
  names in it.
-/
inductive Bracket where
  | array
  | table (scope : Scope)

/- Whether a bracket is that of an array. -/
def Bracket.isArray : Bracket → Bool
  | array => true
  | table _ => false

/- What has been read just now, and so what may follow. -/
inductive Stage where
  | line
  | lineEnd
  | headerStart
  | header (isDouble : Bool) (key : Key)
  | headerEnd (path : Path)
  | tableStart
  | pair (key : Key)
  | value
  | scalar (s : Scalar)
  | separator
deriving DecidableEq

/-
  A document as far as it has been read: the entries of the
  root table in reverse, the text from the last header on,
  the names of the section, the last path that was defined
  there, and the brackets that are open, the innermost
  first.
-/
structure Reader where
  entries : List Entry
  header : Option (List Char)
  scope : Scope
  path : Path
  brackets : List Bracket
  stage : Stage

namespace Reader

/- Nothing has been read. -/
def start : Reader where
  entries := []
  header := none
  scope := .empty
  path := []
  brackets := []
  stage := .line

/-
  Add the entry of a path to the root table; a dotted key
  has a table as its value.
-/
def addEntry
    (r : Reader)
    (path : Path)
    (value : Value) : Reader :=
  match path with
  | [] => r
  | [key] =>
      { r with
        entries := ⟨String.ofList key, value⟩ :: r.entries }
  | key :: _ =>
      { r with
        entries :=
          ⟨String.ofList key, .other⟩ :: r.entries }

/-
  A value is complete. Outside of brackets it belongs to
  the last path.
-/
def complete
    (r : Reader)
    (value : Value) : Reader :=
  match r.brackets with
  | _ :: _ => { r with stage := .separator }
  | [] =>
      let r' := { r with stage := .lineEnd }
      if r.header = none then r'.addEntry r.path value
      else r'

/- Close the innermost bracket, which completes a value. -/
def close
    (r : Reader) : Reader :=
  complete { r with brackets := r.brackets.tail } .other

/-
  A header is complete, and a section without names starts.
-/
def completeHeader
    (r : Reader)
    (path : Path) : Reader :=
  { r.addEntry path .other with
    scope := .empty, stage := .lineEnd }

/-
  Define a path in the innermost table, or else
  in the section.
-/
def define
    (r : Reader)
    (path : Path) : Option Reader :=
  match r.brackets with
  | [] =>
      (Scope.define? path r.scope).map fun scope =>
        { r with
          scope := scope, path := path, stage := .value }
  | .table scope :: outer =>
      (Scope.define? path scope).map fun scope' =>
        { r with
          brackets := .table scope' :: outer,
          stage := .value }
  | .array :: _ => none

------------------------------------------------------------
-- Steps
------------------------------------------------------------

/- Read on in the key of a pair. -/
def stepPair
    (r : Reader)
    (key : Key)
    (token : Token) : Option Reader :=
  if token = .equals then key.path?.bind r.define
  else
    (key.next? token).map fun key' =>
      { r with stage := .pair key' }

/-
  Read on in the key of a header. Two brackets are
  closed by two.
-/
def stepHeader
    (r : Reader)
    (isDouble : Bool)
    (key : Key)
    (token : Token) : Option Reader :=
  if token = .closeBracket then
    key.path?.map fun path =>
      if isDouble then { r with stage := .headerEnd path }
      else r.completeHeader path
  else
    (key.next? token).map fun key' =>
      { r with stage := .header isDouble key' }

/- Read on at the start of a line. -/
def stepLine
    (r : Reader)
    (x : Lexeme) : Option Reader :=
  match x.token with
  | .blank _ | .comment | .lineEnd => some r
  | .openBracket =>
      some
        { r with
          header := some x.source, stage := .headerStart }
  | token => r.stepPair .start token

/- Read on where the line has to end. -/
def stepLineEnd
    (r : Reader) : Token → Option Reader
  | .blank _ | .comment => some r
  | .lineEnd => some { r with stage := .line }
  | _ => none

/- Whether the innermost bracket is that of an array. -/
def isInArray
    (r : Reader) : Bool :=
  r.brackets.head?.any Bracket.isArray

/-
  Read on where a value has to come, or the end of an array.
-/
def stepValue
    (r : Reader) : Token → Option Reader
  | .blank _ => some r
  | .comment | .lineEnd =>
      if r.isInArray then some r else none
  | .closeBracket =>
      if r.isInArray then some r.close else none
  | .openBracket =>
      some { r with brackets := .array :: r.brackets }
  | .openBrace =>
      some
        { r with
          brackets := .table .empty :: r.brackets,
          stage := .tableStart }
  | .quoted _ | .multiline => some (r.complete .other)
  | .plus =>
      some { r with stage := .scalar (.number ['+']) }
  | .bare text =>
      (Scalar.ofBare? text).map fun s =>
        { r with stage := .scalar s }
  | _ => none

/-
  Read on behind a value in brackets. Lines may end in
  arrays, and no table ends behind a comma.
-/
def stepSeparator
    (r : Reader)
    (token : Token) : Option Reader :=
  match r.brackets.head?, token with
  | some .array, .blank _ | some .array, .comment
  | some .array, .lineEnd =>
      some r
  | some .array, .comma => some { r with stage := .value }
  | some .array, .closeBracket => some r.close
  | some (.table _), .blank _ => some r
  | some (.table _), .comma =>
      some { r with stage := .pair .start }
  | some (.table _), .closeBrace => some r.close
  | _, _ => none

/- Read on behind a value. -/
def stepCompleted
    (r : Reader)
    (token : Token) : Option Reader :=
  match r.brackets with
  | [] => r.stepLineEnd token
  | _ :: _ => r.stepSeparator token

/-
  Read on in a scalar, which ends in front of the first
  token it cannot contain.
-/
def stepScalar
    (r : Reader)
    (s : Scalar)
    (token : Token) : Option Reader :=
  match s.next? token with
  | some s' => some { r with stage := .scalar s' }
  | none =>
      s.value?.bind fun value =>
        (r.complete value).stepCompleted token

/- Read one token. -/
def step
    (r : Reader)
    (x : Lexeme) : Option Reader :=
  match r.stage with
  | .line => r.stepLine x
  | .lineEnd => r.stepLineEnd x.token
  | .headerStart =>
      if x.token = .openBracket then
        some { r with stage := .header true .start }
      else r.stepHeader false .start x.token
  | .header isDouble key =>
      r.stepHeader isDouble key x.token
  | .headerEnd path =>
      if x.token = .closeBracket then
        some (r.completeHeader path)
      else none
  | .tableStart =>
      match x.token with
      | .blank _ => some r
      | .closeBrace => some r.close
      | token => r.stepPair .start token
  | .pair key => r.stepPair key x.token
  | .value => r.stepValue x.token
  | .scalar s => r.stepScalar s x.token
  | .separator => r.stepSeparator x.token

/- Read all tokens. -/
def run
    (r : Reader) : List Lexeme → Option Reader
  | [] => some r
  | x :: rest =>
      match r.step x with
      | some r' => r'.run rest
      | none => none

end Reader

------------------------------------------------------------
-- Reading
------------------------------------------------------------

namespace Document

/- The text behind an optional byte order mark. -/
def dropByteOrderMark : List Char → List Char
  | '\uFEFF' :: rest => rest
  | text => text

/-
  The document that a text describes. The last line need not
  have an end.
-/
def read?
    (source : String) : Option Document :=
  let text := foldLineEnds source.toList
  match lexemes? (dropByteOrderMark text) with
  | none => none
  | some lexemes =>
      match Reader.start.run
          (lexemes ++ [⟨.lineEnd, []⟩]) with
      | none => none
      | some r =>
          if r.stage ≠ .line then none
          else
            let header := r.header.getD text
            some
              { entries := r.entries.reverse
                place :=
                  Place.behind
                    (text.take
                      (text.length - header.length)) }

end Document

end Toml

end Dimacs
