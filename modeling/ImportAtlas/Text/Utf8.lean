/-! # Text as bytes

Text is stored as UTF-8. Decoding reads one byte at a time and remembers only what it still expects
of the character it is inside of. It answers with *pieces*: a piece is a character, or `none` for a
malformed stretch of bytes. A malformed stretch is as long as possible: it is a proper beginning of
some well-formed character, or a single byte that begins none. The lenient reading shows each
malformed stretch as one replacement character, and the strict reading refuses the bytes.
-/

namespace ImportAtlas

/-- Contents of a file. -/
abbrev Bytes := List UInt8

namespace Utf8

/-- The UTF-8 form of a text. -/
def encode (text : List Char) : Bytes :=
  text.flatMap String.utf8EncodeChar

/-- What the bytes since the end of the last piece call for. -/
inductive Pending where
  /-- The next byte begins a character. -/
  | boundary
  /-- The next byte must lie between `low` and `high`, and `left` more continuation bytes follow it;
  the bytes so far spell `value`. -/
  | inside (left : Nat) (low high : UInt8) (value : Nat)
deriving DecidableEq, Repr

/-- The pieces that a byte completes, and what is expected next, when no character is open.
The bounds on the second byte rule out overlong forms, surrogates and values beyond `U+10FFFF`. -/
def begin (byte : UInt8) : List (Option Char) × Pending :=
  if byte < 0x80 then ([some (Char.ofNat byte.toNat)], .boundary)
  else if byte < 0xC2 then ([none], .boundary)
  else if byte < 0xE0 then ([], .inside 0 0x80 0xBF (byte.toNat - 0xC0))
  else if byte < 0xF0 then
    ([], .inside 1 (if byte = 0xE0 then 0xA0 else 0x80) (if byte = 0xED then 0x9F else 0xBF)
      (byte.toNat - 0xE0))
  else if byte < 0xF5 then
    ([], .inside 2 (if byte = 0xF0 then 0x90 else 0x80) (if byte = 0xF4 then 0x8F else 0xBF)
      (byte.toNat - 0xF0))
  else ([none], .boundary)

/-- The pieces that a byte completes, and what is expected next. A byte that does not fit the open
character ends it as a malformed stretch and begins the next piece. -/
def step : Pending → UInt8 → List (Option Char) × Pending
  | .boundary, byte => begin byte
  | .inside left low high value, byte =>
    if low ≤ byte ∧ byte ≤ high then
      let value := value * 64 + (byte.toNat - 0x80)
      match left with
      | 0 => ([some (Char.ofNat value)], .boundary)
      | left + 1 => ([], .inside left 0x80 0xBF value)
    else
      let next := begin byte
      (none :: next.1, next.2)

/-- The pieces that the end of the bytes completes. -/
def finish : Pending → List (Option Char)
  | .boundary => []
  | .inside .. => [none]

/-- The pieces of a run of bytes (newest first, before those already found) and what is expected
after it. -/
def run (found : List (Option Char) × Pending) (bytes : Bytes) : List (Option Char) × Pending :=
  bytes.foldl (fun found byte =>
    let next := step found.2 byte
    (next.1.reverse ++ found.1, next.2)) found

/-- The pieces of a file's bytes, in order. -/
def pieces (bytes : Bytes) : List (Option Char) :=
  let found := run ([], .boundary) bytes
  (finish found.2 ++ found.1).reverse

/-- The text of some bytes, with `U+FFFD` for each malformed stretch. -/
def decodeLossy (bytes : Bytes) : List Char :=
  (pieces bytes).map (·.getD '\uFFFD')

/-- The text of some bytes, provided that they are well-formed. -/
def decode? (bytes : Bytes) : Option (List Char) :=
  (pieces bytes).mapM id

end Utf8

end ImportAtlas
