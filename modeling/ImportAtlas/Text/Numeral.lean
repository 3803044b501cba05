/-! # Numerals

Natural numbers are written in decimal without leading zeros, and only such numerals are read.
Single digits are also read in hexadecimal.
-/

namespace ImportAtlas.Numeral

/-- The decimal numeral of a number. -/
def write (n : Nat) : List Char :=
  Nat.toDigits 10 n

/-- A numeral without leading zeros. -/
def isCanonical (text : List Char) : Bool :=
  text.all Char.isDigit && !text.isEmpty && (text.head? != some '0' || text == ['0'])

/-- The number that a numeral without leading zeros stands for. -/
def read? (text : List Char) : Option Nat :=
  if isCanonical text then some (Nat.ofDigitChars 10 text 0) else none

/-- The number that a numeral stands for, provided that it lies below `limit`. -/
def readBelow? (limit : Nat) (text : List Char) : Option Nat :=
  (read? text).filter (· < limit)

/-- The value of a hexadecimal digit. -/
def hexValue? (c : Char) : Option Nat :=
  if '0' ≤ c && c ≤ '9' then some (c.toNat - '0'.toNat)
  else if 'a' ≤ c && c ≤ 'f' then some (c.toNat - 'a'.toNat + 10)
  else if 'A' ≤ c && c ≤ 'F' then some (c.toNat - 'A'.toNat + 10)
  else none

/-- The value of a digit in some base up to sixteen. -/
def digitValue? (base : Nat) (c : Char) : Option Nat :=
  (hexValue? c).filter (· < base)

/-- The number that digits in some base up to sixteen stand for. -/
def ofDigits? (base : Nat) (digits : List Char) : Option Nat :=
  (digits.mapM (digitValue? base)).map fun values => values.foldl (fun n d => n * base + d) 0

end ImportAtlas.Numeral
