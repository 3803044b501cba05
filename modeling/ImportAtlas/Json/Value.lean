import ImportAtlas.Json.Token

/-! # JSON values

The values that JSON texts denote. Numerals and strings are kept as they are written, and the
members of an object in the order they are written, repeated names included: what they mean is for
the reader of the value to say. `text?` reads a string, and `natural?` reads a numeral that is
written without sign, fraction and exponent.
-/

namespace ImportAtlas

/-- A JSON value. -/
inductive Json where
  | null
  | bool (value : Bool)
  | number (text : List Char)
  | string (raw : List Char)
  | array (items : List Json)
  | object (members : List (List Char × Json))

namespace Json

/-- Whether a text is one or more digits. -/
def areDigits (text : List Char) : Bool :=
  text.all Char.isDigit && !text.isEmpty

/-- Whether what follows the digits before the point of a numeral is well-formed: nothing, or an
exponent with at least one digit. -/
def isExponent : List Char → Bool
  | [] => true
  | e :: text =>
    (e == 'e' || e == 'E') &&
      match text with
      | '+' :: digits => areDigits digits
      | '-' :: digits => areDigits digits
      | digits => areDigits digits

/-- Whether what follows the whole part of a numeral is well-formed: an optional fraction and an
optional exponent. -/
def isFraction : List Char → Bool
  | '.' :: text =>
    areDigits (text.takeWhile Char.isDigit) && isExponent (text.dropWhile Char.isDigit)
  | text => isExponent text

/-- Whether a text is a numeral without sign. -/
def isUnsigned (text : List Char) : Bool :=
  Numeral.isCanonical (text.takeWhile Char.isDigit) && isFraction (text.dropWhile Char.isDigit)

/-- Whether a text is a numeral: an optional minus, a whole part without leading zeros, an optional
fraction and an optional exponent. -/
def isNumeral : List Char → Bool
  | '-' :: text => isUnsigned text
  | text => isUnsigned text

/-- The number that four hexadecimal digits stand for. -/
def codeUnit? (a b c d : Char) : Option Nat := do
  let a ← Numeral.hexValue? a
  let b ← Numeral.hexValue? b
  let c ← Numeral.hexValue? c
  let d ← Numeral.hexValue? d
  return ((a * 16 + b) * 16 + c) * 16 + d

/-- The character that a letter after a backslash stands for. -/
def escaped? (c : Char) : Option Char :=
  match c with
  | '"' => some '"'
  | '\\' => some '\\'
  | '/' => some '/'
  | 'b' => some '\x08'
  | 'f' => some '\x0c'
  | 'n' => some '\n'
  | 'r' => some '\r'
  | 't' => some '\t'
  | _ => none

/-- The text that a string stands for: none if an escape is malformed or stands for half of a
surrogate pair without its other half. -/
def unescape? : List Char → Option (List Char)
  | '\\' :: 'u' :: a :: b :: c :: d :: rest =>
    match codeUnit? a b c d with
    | none => none
    | some unit =>
      if unit < 0xD800 ∨ 0xDFFF < unit then (unescape? rest).map (Char.ofNat unit :: ·)
      else if 0xDC00 ≤ unit then none
      else
        match rest with
        | '\\' :: 'u' :: a :: b :: c :: d :: rest =>
          match codeUnit? a b c d with
          | none => none
          | some low =>
            if 0xDC00 ≤ low ∧ low ≤ 0xDFFF then
              (unescape? rest).map
                (Char.ofNat (0x10000 + (unit - 0xD800) * 0x400 + (low - 0xDC00)) :: ·)
            else none
        | _ => none
  | '\\' :: c :: rest =>
    match escaped? c with
    | some c => (unescape? rest).map (c :: ·)
    | none => none
  | ['\\'] => none
  | c :: rest => (unescape? rest).map (c :: ·)
  | [] => some []

/-- The text of a string. -/
def text? : Json → Option (List Char)
  | .string raw => unescape? raw
  | _ => none

/-- The number that a numeral without sign, fraction and exponent stands for, below a limit. -/
def natural? (limit : Nat) : Json → Option Nat
  | .number text => Numeral.readBelow? limit text
  | _ => none

/-- The truth value of a word. -/
def bool? : Json → Option Bool
  | .bool value => some value
  | _ => none

/-- The items of an array. -/
def items? : Json → Option (List Json)
  | .array items => some items
  | _ => none

/-- The members of an object, their names as they are written. -/
def members? : Json → Option (List (List Char × Json))
  | .object members => some members
  | _ => none

end Json

end ImportAtlas
