import ImportAtlas.Text.Numeral

/-! # Tokens of TOML texts

A TOML text is read one character at a time, and a token is complete as soon as its last character
is certain. Comments are not tokens, since the end of a line follows them anyway. Blanks are tokens,
because some forms allow none.

Texts stand between double quotes, where a backslash begins an escape, or between single quotes,
where it does not. Three quotes open a text that may run over several lines; a line break right
after them does not belong to it, and up to two quotes right before the closing three do. In such a
text a backslash at the end of a line joins the next words to it.
-/

namespace ImportAtlas.Toml

/-- The smallest meaningful pieces of a TOML text. -/
inductive Token where
  /-- Spaces and tabs. -/
  | blanks (run : List Char)
  | newline
  | equals
  | period
  | comma
  | colon
  | plus
  | openBrace
  | closeBrace
  | openBracket
  | closeBracket
  /-- Letters, digits, hyphens and underscores outside quotes. -/
  | bare (word : List Char)
  /-- A text, and whether three quotes opened it. -/
  | text (chars : List Char) (multiline : Bool)
deriving DecidableEq, Repr

/-- Spaces and tabs. -/
def isSpace (c : Char) : Bool :=
  c == ' ' || c == '\t'

/-- The characters of words outside quotes. -/
def isBareChar (c : Char) : Bool :=
  c.isAlphanum || c == '-' || c == '_'

/-- The characters that comments may hold. -/
def isCommentChar (c : Char) : Bool :=
  c == '\t' || 0x20 ≤ c.toNat

/-- The characters that texts may hold as they are, line breaks apart. -/
def isTextChar (c : Char) : Bool :=
  isCommentChar c && c != '\x7f'

/-- The character that a letter after a backslash stands for. -/
def escaped? (c : Char) : Option Char :=
  match c with
  | '"' => some '"'
  | '\\' => some '\\'
  | 'b' => some '\x08'
  | 'f' => some '\x0c'
  | 'n' => some '\n'
  | 'r' => some '\r'
  | 't' => some '\t'
  | _ => none

/-- How many hexadecimal digits an escape letter calls for. -/
def escapeLength? (c : Char) : Option Nat :=
  if c = 'u' then some 4 else if c = 'U' then some 8 else none

/-- What the lexer is in the middle of. The characters of an open token are kept last first. -/
inductive Lexer where
  | between
  | blanks (seen : List Char)
  | bare (seen : List Char)
  | comment
  /-- After the first quote of a text. -/
  | opened (quote : Char)
  /-- After two quotes at the start of a text. -/
  | doubled (quote : Char)
  /-- After the three quotes that open a text. -/
  | tripled (quote : Char)
  | inside (quote : Char) (multiline : Bool) (seen : List Char)
  /-- After some quotes, which may be the closing ones, in a text that three quotes opened. -/
  | closing (quote : Char) (count : Nat) (seen : List Char)
  /-- After a backslash. -/
  | escape (multiline : Bool) (seen : List Char)
  /-- In an escape that lacks some more hexadecimal digits. -/
  | digits (multiline : Bool) (left value : Nat) (seen : List Char)
  /-- On the rest of a line that ends in a backslash. -/
  | lineEnd (seen : List Char)
  /-- Before the next words after such a line. -/
  | joining (seen : List Char)
deriving DecidableEq, Repr

namespace Lexer

/-- Reads a character outside of any token. -/
def begin (c : Char) : Option (Lexer × List Token) :=
  if isSpace c then some (.blanks [c], [])
  else if c = '\n' then some (.between, [.newline])
  else if c = '#' then some (.comment, [])
  else if c = '=' then some (.between, [.equals])
  else if c = '.' then some (.between, [.period])
  else if c = ',' then some (.between, [.comma])
  else if c = ':' then some (.between, [.colon])
  else if c = '+' then some (.between, [.plus])
  else if c = '\x7b' then some (.between, [.openBrace])
  else if c = '\x7d' then some (.between, [.closeBrace])
  else if c = '[' then some (.between, [.openBracket])
  else if c = ']' then some (.between, [.closeBracket])
  else if c = '"' || c = '\'' then some (.opened c, [])
  else if isBareChar c then some (.bare [c], [])
  else none

/-- Reads a character after a token has ended. -/
def beginAfter (token : Token) (c : Char) : Option (Lexer × List Token) :=
  (begin c).map fun next => (next.1, token :: next.2)

/-- Reads a character of a text. -/
def readText (quote : Char) (multiline : Bool) (seen : List Char) (c : Char) :
    Option (Lexer × List Token) :=
  if c = '\n' then if multiline then some (.inside quote multiline (c :: seen), []) else none
  else if c = quote then
    if multiline then some (.closing quote 1 seen, [])
    else some (.between, [.text seen.reverse false])
  else if c = '\\' && quote = '"' then some (.escape multiline seen, [])
  else if isTextChar c then some (.inside quote multiline (c :: seen), [])
  else none

/-- The text after its closing quotes, where those beyond three belong to it. -/
def closed (quote : Char) (count : Nat) (seen : List Char) : Token :=
  .text (List.replicate (count - 3) quote ++ seen).reverse true

/-- Reads a character that follows a backslash. -/
def readEscape (multiline : Bool) (seen : List Char) (c : Char) : Option Lexer :=
  match escaped? c, escapeLength? c with
  | some c, _ => some (.inside '"' multiline (c :: seen))
  | none, some length => some (.digits multiline length 0 seen)
  | none, none =>
    if multiline && isSpace c then some (.lineEnd seen)
    else if multiline && c = '\n' then some (.joining seen)
    else none

/-- Reads a hexadecimal digit of an escape. The last one completes a character, which must be no
half of a surrogate pair. -/
def readDigit (multiline : Bool) (left value : Nat) (seen : List Char) (c : Char) : Option Lexer :=
  match Numeral.hexValue? c with
  | none => none
  | some digit =>
    let value := value * 16 + digit
    if left > 1 then some (.digits multiline (left - 1) value seen)
    else if value.isValidChar then some (.inside '"' multiline (Char.ofNat value :: seen))
    else none

/-- Reads a character, and tells which tokens it completes. -/
def step : Lexer → Char → Option (Lexer × List Token)
  | .between, c => begin c
  | .blanks seen, c =>
    if isSpace c then some (.blanks (c :: seen), []) else beginAfter (.blanks seen.reverse) c
  | .bare seen, c =>
    if isBareChar c then some (.bare (c :: seen), []) else beginAfter (.bare seen.reverse) c
  | .comment, c =>
    if isCommentChar c then some (.comment, [])
    else if c = '\n' then some (.between, [.newline])
    else none
  | .opened quote, c => if c = quote then some (.doubled quote, []) else readText quote false [] c
  | .doubled quote, c =>
    if c = quote then some (.tripled quote, []) else beginAfter (.text [] false) c
  | .tripled quote, c =>
    if c = '\n' then some (.inside quote true [], []) else readText quote true [] c
  | .inside quote multiline seen, c => readText quote multiline seen c
  | .closing quote count seen, c =>
    if c = quote then
      if count < 4 then some (.closing quote (count + 1) seen, [])
      else some (.between, [closed quote (count + 1) seen])
    else if count < 3 then readText quote true (List.replicate count quote ++ seen) c
    else beginAfter (closed quote count seen) c
  | .escape multiline seen, c => (readEscape multiline seen c).map (·, [])
  | .digits multiline left value seen, c => (readDigit multiline left value seen c).map (·, [])
  | .lineEnd seen, c =>
    if isSpace c then some (.lineEnd seen, [])
    else if c = '\n' then some (.joining seen, [])
    else none
  | .joining seen, c =>
    if isSpace c || c = '\n' then some (.joining seen, []) else readText '"' true seen c

/-- The tokens that the end of the text completes. -/
def finish? : Lexer → Option (List Token)
  | .between => some []
  | .blanks seen => some [.blanks seen.reverse]
  | .bare seen => some [.bare seen.reverse]
  | .comment => some []
  | .doubled _ => some [.text [] false]
  | .closing quote count seen => if count < 3 then none else some [closed quote count seen]
  | _ => none

/-- The tokens of a text that begins in the middle of some token. -/
def tokens? : Lexer → List Char → Option (List Token)
  | lexer, [] => lexer.finish?
  | lexer, c :: text =>
    match lexer.step c with
    | none => none
    | some (next, tokens) => (next.tokens? text).map (tokens ++ ·)

end Lexer

/-- The text with a plain line break for each carriage return that a line break follows. -/
def foldBreaks : List Char → List Char
  | '\r' :: '\n' :: text => '\n' :: foldBreaks text
  | c :: text => c :: foldBreaks text
  | [] => []

/-- The text without a byte order mark at its start. -/
def dropMark : List Char → List Char
  | '\uFEFF' :: text => text
  | text => text

/-- The tokens of a TOML text. -/
def tokens? (text : List Char) : Option (List Token) :=
  Lexer.between.tokens? (foldBreaks (dropMark text))

end ImportAtlas.Toml
