import Dimacs.Toml.Character

/-
  The tokens of a TOML document: punctuation, runs of bare
  characters, strings, and the white space and comments
  between them.

  Key definitions include:
    * `Toml.Token`
    * `Toml.quoted?`
    * `Toml.multiline?`
    * `Toml.token?`
    * `Toml.lexemes?`
-/

namespace Dimacs

namespace Toml

------------------------------------------------------------
-- Tokens
------------------------------------------------------------

/-
  A token. The text of a comment is dropped, and so is that
  of a string over several lines, which can be no key.
-/
inductive Token where
  | lineEnd
  | blank (text : List Char)
  | comment
  | equals
  | point
  | comma
  | colon
  | plus
  | openBrace
  | closeBrace
  | openBracket
  | closeBracket
  | bare (text : List Char)
  | quoted (text : List Char)
  | multiline
deriving DecidableEq

/-
  A token together with the text from its
  first character on.
-/
structure Lexeme where
  token : Token
  source : List Char
deriving DecidableEq

/- The token that a single character makes up. -/
def punctuation?
    (c : Char) : Option Token :=
  if c = '\n' then some .lineEnd
  else if c = '=' then some .equals
  else if c = '.' then some .point
  else if c = ',' then some .comma
  else if c = ':' then some .colon
  else if c = '+' then some .plus
  else if c = '\x7b' then some .openBrace
  else if c = '\x7d' then some .closeBrace
  else if c = '[' then some .openBracket
  else if c = ']' then some .closeBracket
  else none

------------------------------------------------------------
-- Escapes
------------------------------------------------------------

/-
  The character with a given code, unless it is a surrogate
  or out of range.
-/
def character?
    (code : Nat) : Option Char :=
  if h : code.isValidChar then some (Char.ofNatAux code h)
  else none

/-
  The character whose code is given by hexadecimal digits.
-/
def coded?
    (digits : List Char) : Option Char :=
  (digits.foldlM
      (fun code c => (digit? 16 c).map (code * 16 + ·))
      0).bind character?

/-
  The character whose code takes up a number of digits, and
  what follows them.
-/
def codeEscape?
    (count : Nat)
    (text : List Char) : Option (Char × List Char) :=
  if (text.take count).length = count then
    (coded? (text.take count)).map fun found =>
      (found, text.drop count)
  else none

/-
  The character that a letter or a mark stands for
  behind a backslash.
-/
def shortEscape?
    (c : Char) : Option Char :=
  if c = 'b' then some '\x08'
  else if c = 't' then some '\t'
  else if c = 'n' then some '\n'
  else if c = 'f' then some '\x0c'
  else if c = 'r' then some '\r'
  else if c = '"' ∨ c = '\\' then some c
  else none

/-
  The character that is escaped behind a backslash, and
  what follows it.
-/
def escape? : List Char → Option (Char × List Char)
  | [] => none
  | c :: rest =>
      if c = 'u' then codeEscape? 4 rest
      else if c = 'U' then codeEscape? 8 rest
      else
        (shortEscape? c).map fun escaped => (escaped, rest)

theorem length_le_of_codeEscape?
    {count : Nat}
    {text rest : List Char}
    {c : Char}
    (h : codeEscape? count text = some (c, rest)) :
    rest.length ≤ text.length := by
  unfold codeEscape? at h
  split at h
  · simp only [Option.map_eq_some_iff, Prod.mk.injEq] at h
    rcases h with ⟨_, _, _, hRest⟩
    rw [← hRest, List.length_drop]
    exact Nat.sub_le _ _
  · cases h

theorem length_lt_of_escape?
    {text rest : List Char}
    {c : Char}
    (h : escape? text = some (c, rest)) :
    rest.length < text.length := by
  unfold escape? at h
  split at h
  · cases h
  · next c' rest' =>
      rw [List.length_cons, Nat.lt_succ_iff]
      split at h
      · exact length_le_of_codeEscape? h
      split at h
      · exact length_le_of_codeEscape? h
      · simp only [Option.map_eq_some_iff, Prod.mk.injEq]
          at h
        rcases h with ⟨_, _, _, hRest⟩
        exact Nat.le_of_eq (congrArg List.length hRest.symm)

/-
  What follows a line end that is escaped behind a
  backslash, together with the gap in front of the text
  that continues. Blanks may precede the line end.
-/
def continuation?
    (text : List Char) : Option (List Char) :=
  match text.dropWhile (fun c => decide (IsBlank c)) with
  | '\n' :: rest =>
      some (rest.dropWhile fun c => decide (IsGap c))
  | _ => none

theorem length_dropWhile_le
    {α : Type}
    (p : α → Bool)
    (l : List α) :
    (l.dropWhile p).length ≤ l.length :=
  (List.dropWhile_sublist p).length_le

theorem length_lt_of_continuation?
    {text rest : List Char}
    (h : continuation? text = some rest) :
    rest.length < text.length := by
  unfold continuation? at h
  split at h
  · next rest' hLine =>
      have hBlank := length_dropWhile_le
        (fun c => decide (IsBlank c)) text
      have hGap := length_dropWhile_le
        (fun c => decide (IsGap c)) rest'
      rw [hLine] at hBlank
      simp only [Option.some.injEq, List.length_cons]
        at h hBlank
      rw [← h]
      omega
  · cases h

------------------------------------------------------------
-- Strings
------------------------------------------------------------

/-
  A kind of string: in double quotes a backslash escapes, in
  single quotes not.
-/
inductive Quote where
  | double
  | single
deriving DecidableEq

/- The character that opens and closes a string. -/
def Quote.mark : Quote → Char
  | double => '"'
  | single => '\x27'

/- Whether a character starts an escape. -/
def Quote.Escapes
    (quote : Quote)
    (c : Char) : Prop :=
  quote = .double ∧ c = '\\'

instance (quote : Quote) (c : Char) :
    Decidable (quote.Escapes c) :=
  inferInstanceAs (Decidable (_ ∧ _))

/-
  The text of a string on one line and what follows the
  string. The text read so far is given in reverse.
-/
def quoted?
    (quote : Quote)
    (read : List Char) :
      List Char → Option (List Char × List Char)
  | [] => none
  | c :: rest =>
      if c = quote.mark then some (read.reverse, rest)
      else if quote.Escapes c then
        match _h : escape? rest with
        | some (escaped, after) =>
            quoted? quote (escaped :: read) after
        | none => none
      else if IsText c then quoted? quote (c :: read) rest
      else none
termination_by text => text.length
decreasing_by
  · have := length_lt_of_escape? _h
    simp only [List.length_cons]
    omega
  · simp

/-
  Drop at most a number of characters, and only such as are
  equal to a given one.
-/
def dropMarks
    (mark : Char) : Nat → List Char → List Char
  | count + 1, c :: rest =>
      if c = mark then dropMarks mark count rest
      else c :: rest
  | _, text => text

/-
  What follows a string over several lines. Three marks
  close it, and up to two in front of them belong to the
  text.
-/
def multiline?
    (quote : Quote) : List Char → Option (List Char)
  | [] => none
  | c :: rest =>
      if c = quote.mark then
        if rest.take 2 = [quote.mark, quote.mark] then
          some (dropMarks quote.mark 2 (rest.drop 2))
        else multiline? quote rest
      else if quote.Escapes c then
        match _hEscape : escape? rest with
        | some (_, after) => multiline? quote after
        | none =>
            match _hLine : continuation? rest with
            | some after => multiline? quote after
            | none => none
      else if c = '\n' ∨ IsText c then multiline? quote rest
      else none
termination_by text => text.length
decreasing_by
  · simp
  · have := length_lt_of_escape? _hEscape
    simp only [List.length_cons]
    omega
  · have := length_lt_of_continuation? _hLine
    simp only [List.length_cons]
    omega
  · simp

/-
  The string behind an opening mark, and what follows it.
-/
def string?
    (quote : Quote)
    (text : List Char) : Option (Token × List Char) :=
  if text.take 2 = [quote.mark, quote.mark] then
    (multiline? quote (text.drop 2)).map fun rest =>
      (.multiline, rest)
  else
    (quoted? quote [] text).map fun (content, rest) =>
      (.quoted content, rest)

theorem length_le_of_quoted?
    {quote : Quote}
    {read text content rest : List Char}
    (h : quoted? quote read text = some (content, rest)) :
    rest.length ≤ text.length := by
  fun_induction quoted? quote read text with
  | case1 => cases h
  | case2 read rest' =>
      simp only [Option.some.injEq, Prod.mk.injEq] at h
      rw [← h.2]
      simp
  | case3 read c rest' hMark hEscapes escaped after hEscape
        ih =>
      have hAfter := length_lt_of_escape? hEscape
      have := ih h
      simp only [List.length_cons]
      omega
  | case4 => cases h
  | case5 read c rest' hMark hEscapes hText ih =>
      have := ih h
      simp only [List.length_cons]
      omega
  | case6 => cases h

theorem length_dropMarks_le
    (mark : Char)
    (count : Nat)
    (text : List Char) :
    (dropMarks mark count text).length ≤ text.length := by
  fun_induction dropMarks mark count text with
  | case1 count rest ih =>
      simp only [List.length_cons]
      omega
  | case2 => exact Nat.le_refl _
  | case3 => exact Nat.le_refl _

theorem length_le_of_multiline?
    {quote : Quote}
    {text rest : List Char}
    (h : multiline? quote text = some rest) :
    rest.length ≤ text.length := by
  fun_induction multiline? quote text with
  | case1 => cases h
  | case2 rest' hMarks =>
      have hDrop :=
        length_dropMarks_le quote.mark 2 (rest'.drop 2)
      simp only [Option.some.injEq] at h
      rw [← h]
      simp only [List.length_drop, List.length_cons]
        at hDrop ⊢
      omega
  | case3 rest' hMarks ih =>
      have := ih h
      simp only [List.length_cons]
      omega
  | case4 c rest' hMark hEscapes escaped after hEscape ih =>
      have hAfter := length_lt_of_escape? hEscape
      have := ih h
      simp only [List.length_cons]
      omega
  | case5 c rest' hMark hEscapes hEscape after hLine ih =>
      have hAfter := length_lt_of_continuation? hLine
      have := ih h
      simp only [List.length_cons]
      omega
  | case6 => cases h
  | case7 c rest' hMark hEscapes hText ih =>
      have := ih h
      simp only [List.length_cons]
      omega
  | case8 => cases h

theorem length_le_of_string?
    {quote : Quote}
    {text rest : List Char}
    {token : Token}
    (h : string? quote text = some (token, rest)) :
    rest.length ≤ text.length := by
  unfold string? at h
  split at h
  · simp only [Option.map_eq_some_iff, Prod.mk.injEq] at h
    rcases h with ⟨after, hAfter, _, hRest⟩
    have := length_le_of_multiline? hAfter
    rw [← hRest]
    simp only [List.length_drop] at this
    omega
  · simp only [Option.map_eq_some_iff, Prod.mk.injEq] at h
    rcases h with ⟨⟨content, after⟩, hAfter, _, hRest⟩
    rw [← hRest]
    exact length_le_of_quoted? hAfter

------------------------------------------------------------
-- Lexemes
------------------------------------------------------------

/-
  The first token of a text that begins with a given
  character, and what follows it.
-/
def token?
    (c : Char)
    (rest : List Char) : Option (Token × List Char) :=
  if IsBlank c then
    let isBlank := fun c => decide (IsBlank c)
    some
      (.blank (c :: rest.takeWhile isBlank),
        rest.dropWhile isBlank)
  else if c = '#' then
    some
      (.comment,
        rest.dropWhile fun c => decide (IsComment c))
  else if IsBare c then
    let isBare := fun c => decide (IsBare c)
    some
      (.bare (c :: rest.takeWhile isBare),
        rest.dropWhile isBare)
  else if c = Quote.double.mark then string? .double rest
  else if c = Quote.single.mark then string? .single rest
  else (punctuation? c).map fun token => (token, rest)

theorem length_le_of_token?
    {c : Char}
    {text rest : List Char}
    {token : Token}
    (h : token? c text = some (token, rest)) :
    rest.length ≤ text.length := by
  unfold token? at h
  split at h
  · simp only [Option.some.injEq, Prod.mk.injEq] at h
    rw [← h.2]
    exact length_dropWhile_le _ text
  split at h
  · simp only [Option.some.injEq, Prod.mk.injEq] at h
    rw [← h.2]
    exact length_dropWhile_le _ text
  split at h
  · simp only [Option.some.injEq, Prod.mk.injEq] at h
    rw [← h.2]
    exact length_dropWhile_le _ text
  split at h
  · exact length_le_of_string? h
  split at h
  · exact length_le_of_string? h
  · simp only [Option.map_eq_some_iff, Prod.mk.injEq] at h
    rcases h with ⟨_, _, _, hRest⟩
    exact Nat.le_of_eq (congrArg List.length hRest.symm)

/-
  The lexemes of a text, unless some character starts no
  token. Those found so far are given in reverse.
-/
def lexemesFrom?
    (found : List Lexeme) : List Char → Option (List Lexeme)
  | [] => some found.reverse
  | c :: rest =>
      match _h : token? c rest with
      | some (token, after) =>
          lexemesFrom? (⟨token, c :: rest⟩ :: found) after
      | none => none
termination_by text => text.length
decreasing_by
  have := length_le_of_token? _h
  simp only [List.length_cons]
  omega

/- The lexemes of a text. -/
def lexemes?
    (text : List Char) : Option (List Lexeme) :=
  lexemesFrom? [] text

end Toml

end Dimacs
