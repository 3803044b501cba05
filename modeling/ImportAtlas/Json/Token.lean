import ImportAtlas.Text.Numeral

/-! # Tokens of JSON texts

A JSON text is read one character at a time. The lexer completes a token as soon as its last
character is certain: a word or a numeral ends with the first character that cannot go on with it,
and that character is then read again by itself. Strings are kept as they are written between their
quotes; the lexer only checks that their escapes are well-formed and that no control character
stands in them unescaped.
-/

namespace ImportAtlas.Json

/-- The smallest meaningful pieces of a JSON text. -/
inductive Token where
  | openBrace
  | closeBrace
  | openBracket
  | closeBracket
  | comma
  | colon
  /-- A word outside quotes, such as `true`. -/
  | word (text : List Char)
  /-- A numeral as it is written; whether it is a number is checked later. -/
  | numeral (text : List Char)
  /-- What stands between the quotes of a string. -/
  | string (raw : List Char)
deriving DecidableEq, Repr

/-- The blanks between tokens. -/
def isSpace (c : Char) : Bool :=
  c == ' ' || c == '\t' || c == '\n' || c == '\r'

/-- The characters of words outside quotes. -/
def isWordChar (c : Char) : Bool :=
  'a' ≤ c && c ≤ 'z'

/-- The characters of numerals. -/
def isNumeralChar (c : Char) : Bool :=
  c.isDigit || c == '-' || c == '+' || c == '.' || c == 'e' || c == 'E'

/-- What the lexer is in the middle of. The characters of an open token are kept last first. -/
inductive Lexer where
  | between
  | word (seen : List Char)
  | numeral (seen : List Char)
  | string (seen : List Char)
  /-- After a backslash in a string. -/
  | escape (seen : List Char)
  /-- In the four digits of an escape, of which `left + 1` are missing. -/
  | digits (left : Nat) (seen : List Char)
deriving DecidableEq, Repr

namespace Lexer

/-- Reads a character outside of any token. -/
def begin (c : Char) : Option (Lexer × List Token) :=
  if isSpace c then some (.between, [])
  else if c = '\x7b' then some (.between, [.openBrace])
  else if c = '\x7d' then some (.between, [.closeBrace])
  else if c = '[' then some (.between, [.openBracket])
  else if c = ']' then some (.between, [.closeBracket])
  else if c = ',' then some (.between, [.comma])
  else if c = ':' then some (.between, [.colon])
  else if c = '"' then some (.string [], [])
  else if c = '-' || c.isDigit then some (.numeral [c], [])
  else if isWordChar c then some (.word [c], [])
  else none

/-- Reads a character, and tells which tokens it completes. -/
def step : Lexer → Char → Option (Lexer × List Token)
  | .between, c => begin c
  | .word seen, c =>
    if isWordChar c then some (.word (c :: seen), [])
    else (begin c).map fun next => (next.1, .word seen.reverse :: next.2)
  | .numeral seen, c =>
    if isNumeralChar c then some (.numeral (c :: seen), [])
    else (begin c).map fun next => (next.1, .numeral seen.reverse :: next.2)
  | .string seen, c =>
    if c = '"' then some (.between, [.string seen.reverse])
    else if c = '\\' then some (.escape (c :: seen), [])
    else if c.toNat < 0x20 then none
    else some (.string (c :: seen), [])
  | .escape seen, c =>
    if c = 'u' then some (.digits 3 (c :: seen), [])
    else if c ∈ ['"', '\\', '/', 'b', 'f', 'n', 'r', 't'] then some (.string (c :: seen), [])
    else none
  | .digits left seen, c =>
    if (Numeral.hexValue? c).isNone then none
    else
      match left with
      | 0 => some (.string (c :: seen), [])
      | left + 1 => some (.digits left (c :: seen), [])

/-- The tokens that the end of the text completes. -/
def finish? : Lexer → Option (List Token)
  | .between => some []
  | .word seen => some [.word seen.reverse]
  | .numeral seen => some [.numeral seen.reverse]
  | _ => none

end Lexer

end ImportAtlas.Json
