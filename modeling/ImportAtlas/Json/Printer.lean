import ImportAtlas.Json.Value

/-! # Writing JSON

A value is written over several lines, two blanks further in for each array or object around it;
empty arrays and objects are closed on the same line. In strings, quotes, backslashes and control
characters below `U+0020` are escaped, and everything else is written as it is.
-/

namespace ImportAtlas.Json

/-- The lower-case hexadecimal digit of a number below sixteen. -/
def hexDigit (n : Nat) : Char :=
  Nat.digitChar n

/-- The escaped form of a character. -/
def escapeChar (c : Char) : List Char :=
  if c = '"' then ['\\', '"']
  else if c = '\\' then ['\\', '\\']
  else if c = '\x08' then ['\\', 'b']
  else if c = '\x0c' then ['\\', 'f']
  else if c = '\n' then ['\\', 'n']
  else if c = '\r' then ['\\', 'r']
  else if c = '\t' then ['\\', 't']
  else if c.toNat < 0x20 then
    ['\\', 'u', '0', '0', hexDigit (c.toNat / 16), hexDigit (c.toNat % 16)]
  else [c]

/-- The escaped form of a text. -/
def escape (text : List Char) : List Char :=
  text.flatMap escapeChar

/-- The string that stands for a text. -/
def ofText (text : String) : Json :=
  .string (escape text.toList)

/-- The numeral of a number. -/
def ofNat (n : Nat) : Json :=
  .number (Numeral.write n)

/-- A line break and the blanks before what stands `depth` levels deep. -/
def newline (depth : Nat) : List Char :=
  '\n' :: List.replicate (2 * depth) ' '

/-- A string in its quotes. -/
def quote (raw : List Char) : List Char :=
  '"' :: (raw ++ ['"'])

mutual

/-- A value, written `depth` levels deep. -/
def print (depth : Nat) : Json → List Char
  | .null => ['n', 'u', 'l', 'l']
  | .bool true => ['t', 'r', 'u', 'e']
  | .bool false => ['f', 'a', 'l', 's', 'e']
  | .number text => text
  | .string raw => quote raw
  | .array [] => ['[', ']']
  | .array (item :: items) =>
    '[' :: newline (depth + 1) ++ print (depth + 1) item ++ printItems (depth + 1) items ++
      newline depth ++ [']']
  | .object [] => ['\x7b', '\x7d']
  | .object ((name, value) :: members) =>
    '\x7b' :: newline (depth + 1) ++ quote name ++ [':', ' '] ++ print (depth + 1) value ++
      printMembers (depth + 1) members ++ newline depth ++ ['\x7d']

/-- The items of an array after the first. -/
def printItems (depth : Nat) : List Json → List Char
  | [] => []
  | item :: items => ',' :: newline depth ++ print depth item ++ printItems depth items

/-- The members of an object after the first. -/
def printMembers (depth : Nat) : List (List Char × Json) → List Char
  | [] => []
  | (name, value) :: members =>
    ',' :: newline depth ++ quote name ++ [':', ' '] ++ print depth value ++
      printMembers depth members

end

/-- A value over several lines. -/
def pretty (value : Json) : List Char :=
  print 0 value

end ImportAtlas.Json
