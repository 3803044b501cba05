import ImportAtlas.Toml.Token

/-! # Numbers, dates and truth values

A scalar is a value without quotes and brackets. Numbers are checked in full: digits may be grouped
by single underscores, a decimal number has no leading zeros and a sign at most, an integer has to
fit into 64 bits, and a number with a fraction or an exponent must not be too large for double
precision. Of dates and times only the outer form is checked.
-/

namespace ImportAtlas.Toml

/-- The digits of a run that single underscores may divide into groups. -/
def ungroup? (run : List Char) : Option (List Char) :=
  if (run.splitOn '_').any (·.isEmpty) then none else some (run.filter (· != '_'))

/-- Whether digits begin with a zero that they do not need. -/
def hasIdleZero (digits : List Char) : Bool :=
  digits.head? == some '0' && digits.length > 1

/-- The digits of some base at the start of a word, and the rest of the word. -/
def digits? (base : Nat) (word : List Char) : Option (List Char × List Char) :=
  let isRun (c : Char) := (Numeral.digitValue? base c).isSome || c == '_'
  (ungroup? (word.takeWhile isRun)).map (·, word.dropWhile isRun)

/-- A sign at the start of a word, and the rest of the word. -/
def sign : List Char → Bool × List Char
  | '-' :: word => (true, word)
  | word => (false, word)

/-- Whether a word is an integer that fits into 64 bits, in some base. -/
def isInteger (base : Nat) (negative : Bool) (word : List Char) : Bool :=
  match digits? base word with
  | some (digits, []) =>
    match Numeral.ofDigits? base digits with
    | some n => n < Nat.pow 2 63 || (negative && n == Nat.pow 2 63)
    | none => false
  | _ => false

/-- Whether a word is a decimal integer. -/
def isDecimal (word : List Char) : Bool :=
  let (negative, word) := sign word
  isInteger 10 negative word && !hasIdleZero word

/-- The least number that rounds to no double-precision number. -/
def doubleLimit : Nat := Nat.pow 2 1024 - Nat.pow 2 970

/-- Whether `n * 10 ^ (up - down)` is small enough for double precision. A number of more than 309
digits is too large, and one of fewer is not, so that no greater powers have to be computed. -/
def fitsDouble (n up down : Nat) : Bool :=
  let length := (Numeral.write n).length + up
  n == 0 || length < 309 + down ||
    (length == 309 + down && n * Nat.pow 10 (up - down) < doubleLimit * Nat.pow 10 (down - up))

/-- Whether the digits before and after the point and the exponent make a number that is small
enough. -/
def isMagnitude (whole fraction : List Char) (negative : Bool) (exponent : List Char) : Bool :=
  let n := Nat.ofDigitChars 10 (whole ++ fraction) 0
  let e := Nat.ofDigitChars 10 exponent 0
  if negative then fitsDouble n 0 (fraction.length + e) else fitsDouble n e fraction.length

/-- Whether the tokens after the mark of an exponent are its digits; `word` is what follows the
mark in its own word. -/
def isExponent (whole fraction word : List Char) (rest : List Token) : Bool :=
  let check (negative : Bool) (word : List Char) :=
    match digits? 10 word with
    | some (exponent, []) => isMagnitude whole fraction negative exponent
    | _ => false
  match word, rest with
  | [], [.bare word] => check false word
  | [], [.plus, .bare word] => check false word
  | [], _ => false
  | word, [] => check (sign word).1 (sign word).2
  | _, _ => false

/-- Whether a word, the word after a point and the tokens after it make a number with a fraction or
an exponent. -/
def isFloat (word : List Char) (after : Option (List Char)) (rest : List Token) : Bool :=
  match digits? 10 (sign word).2 with
  | none => false
  | some (whole, ending) =>
    if hasIdleZero whole then false
    else
      let tail (fraction ending : List Char) :=
        match ending with
        | [] => rest.isEmpty && isMagnitude whole fraction false []
        | e :: ending => (e == 'e' || e == 'E') && isExponent whole fraction ending rest
      match after with
      | none => tail [] ending
      | some after =>
        match digits? 10 after with
        | some (fraction, rest) => ending.isEmpty && tail fraction rest
        | none => false

/-- Whether a word and the tokens after it make a number. -/
def isNumber (word : List Char) (rest : List Token) : Bool :=
  match word with
  | '0' :: 'x' :: word => rest.isEmpty && isInteger 16 false word
  | '0' :: 'o' :: word => rest.isEmpty && isInteger 8 false word
  | '0' :: 'b' :: word => rest.isEmpty && isInteger 2 false word
  | word =>
    if word.contains 'e' || word.contains 'E' then isFloat word none rest
    else
      match rest with
      | .period :: .bare after :: rest => isFloat word (some after) rest
      | [] => (sign word).2 ∈ ["inf".toList, "nan".toList] || isDecimal word
      | _ => false

/-- The tokens without a mark and a word after it at their start. -/
def dropMarked (mark : Token) : List Token → List Token
  | token :: .bare word :: rest => if token = mark then rest else token :: .bare word :: rest
  | tokens => tokens

/-- Whether tokens are the rest of a time, after its hour and a colon. -/
def isMinutes : List Token → Bool
  | .bare _ :: .colon :: .bare _ :: rest =>
    (dropMarked .colon (dropMarked .plus (dropMarked .period rest))).isEmpty
  | _ => false

/-- Whether tokens are the rest of a date and time, after its hour. -/
def isAfterHour : List Token → Bool
  | [] => true
  | .colon :: rest => isMinutes rest
  | _ => false

/-- Whether tokens are the rest of a date and time, after the word that holds the date. -/
def isAfterDate : List Token → Bool
  | .blanks [' '] :: .bare _ :: rest => isAfterHour rest
  | rest => isAfterHour rest

/-- Whether a word has two letters next to each other. -/
def hasPair (first second : Char) : List Char → Bool
  | a :: b :: rest => (a == first && b == second) || hasPair first second (b :: rest)
  | _ => false

/-- Whether a word holds a date: it has the letter between date and time, or a hyphen that is
neither a sign nor in an exponent. -/
def looksLikeDate (word : List Char) : Bool :=
  word.contains 'T' || word.contains 't' ||
    (word.tail.contains '-' && !hasPair 'e' '-' word && !hasPair 'E' '-' word)

/-- Whether a word and the tokens after it make a number, a date or a time. -/
def isNumberOrDate (word : List Char) (rest : List Token) : Bool :=
  if looksLikeDate word then isAfterDate rest
  else
    match rest with
    | .colon :: rest => isMinutes rest
    | rest => isNumber word rest

/-- Whether a word begins as a number or a date does. -/
def beginsNumber (word : List Char) : Bool :=
  word ∈ ["inf".toList, "nan".toList] || word.head? == some '-' || word.head?.any Char.isDigit

/-- Whether tokens make one scalar. -/
def isScalar : List Token → Bool
  | .bare word :: rest =>
    (rest.isEmpty && word ∈ ["true".toList, "false".toList]) ||
      (beginsNumber word && isNumberOrDate word rest)
  | .plus :: .bare word :: rest => isNumber word rest
  | _ => false

end ImportAtlas.Toml
