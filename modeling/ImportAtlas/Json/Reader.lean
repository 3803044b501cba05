import ImportAtlas.Json.Value

/-! # Reading JSON

The reader takes the tokens of a text one after the other. It keeps the arrays and objects that are
open, the innermost first, and what may come next. A text denotes a value exactly if the reader is
done with one value when the text ends.
-/

namespace ImportAtlas.Json

/-- An array or object that is not closed yet; its parts are kept last first. -/
inductive Open where
  | array (items : List Json)
  | object (members : List (List Char × Json))
  /-- An object in which a name waits for its value. -/
  | member (members : List (List Char × Json)) (name : List Char)

/-- What the reader takes next. -/
inductive Expects where
  | value
  /-- The first item of an array or its end. -/
  | itemOrEnd
  /-- The first name of an object or its end. -/
  | nameOrEnd
  | name
  | colon
  /-- A comma or the end of the innermost array or object. -/
  | separator
  /-- Nothing: the text has denoted this value. -/
  | nothing (value : Json)

/-- The reader between two tokens. -/
structure Reader where
  opened : List Open
  expects : Expects

namespace Reader

/-- The reader before the first token. -/
def start : Reader :=
  ⟨[], .value⟩

/-- The reader after a complete value. -/
def complete (value : Json) : List Open → Option Reader
  | [] => some ⟨[], .nothing value⟩
  | .array items :: outer => some ⟨.array (value :: items) :: outer, .separator⟩
  | .member members name :: outer => some ⟨.object ((name, value) :: members) :: outer, .separator⟩
  | .object _ :: _ => none

/-- Closes the innermost array. -/
def closeArray : List Open → Option Reader
  | .array items :: outer => complete (.array items.reverse) outer
  | _ => none

/-- Closes the innermost object. -/
def closeObject : List Open → Option Reader
  | .object members :: outer => complete (.object members.reverse) outer
  | _ => none

/-- Takes a token that begins a value. -/
def beginValue (opened : List Open) : Token → Option Reader
  | .openBrace => some ⟨.object [] :: opened, .nameOrEnd⟩
  | .openBracket => some ⟨.array [] :: opened, .itemOrEnd⟩
  | .string raw => complete (.string raw) opened
  | .numeral text => if isNumeral text then complete (.number text) opened else none
  | .word text =>
    if text = ['t', 'r', 'u', 'e'] then complete (.bool true) opened
    else if text = ['f', 'a', 'l', 's', 'e'] then complete (.bool false) opened
    else if text = ['n', 'u', 'l', 'l'] then complete .null opened
    else none
  | _ => none

/-- Takes a token that names a member of the innermost object. -/
def beginMember : List Open → Token → Option Reader
  | .object members :: outer, .string raw => some ⟨.member members raw :: outer, .colon⟩
  | _, _ => none

/-- Takes one token. -/
def take (reader : Reader) (token : Token) : Option Reader :=
  match reader.expects with
  | .value => beginValue reader.opened token
  | .itemOrEnd =>
    if token = .closeBracket then closeArray reader.opened else beginValue reader.opened token
  | .nameOrEnd =>
    if token = .closeBrace then closeObject reader.opened else beginMember reader.opened token
  | .name => beginMember reader.opened token
  | .colon => if token = .colon then some ⟨reader.opened, .value⟩ else none
  | .separator =>
    match token, reader.opened with
    | .comma, .array _ :: _ => some ⟨reader.opened, .value⟩
    | .comma, .object _ :: _ => some ⟨reader.opened, .name⟩
    | .closeBracket, opened => closeArray opened
    | .closeBrace, opened => closeObject opened
    | _, _ => none
  | .nothing _ => none

/-- Takes some tokens. -/
def takeAll (reader : Reader) (tokens : List Token) : Option Reader :=
  tokens.foldlM take reader

end Reader

/-- The lexer and the reader between two characters. -/
abbrev Scan := Lexer × Reader

namespace Scan

/-- Before the first character. -/
def start : Scan :=
  (.between, .start)

/-- Reads one character. -/
def step (scan : Scan) (c : Char) : Option Scan := do
  let (lexer, tokens) ← scan.1.step c
  let reader ← scan.2.takeAll tokens
  return (lexer, reader)

/-- Reads some characters. -/
def run (scan : Scan) (text : List Char) : Option Scan :=
  text.foldlM step scan

/-- The value that the text denoted, if the text ends here. -/
def finish? (scan : Scan) : Option Json := do
  let tokens ← scan.1.finish?
  let reader ← scan.2.takeAll tokens
  match reader.expects with
  | .nothing value => some value
  | _ => none

end Scan

/-- The value that a JSON text denotes. -/
def parse? (text : List Char) : Option Json :=
  (Scan.start.run text).bind Scan.finish?

end ImportAtlas.Json
