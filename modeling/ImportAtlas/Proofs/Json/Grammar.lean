import ImportAtlas.Json.Token
import ImportAtlas.Json.Value
import ImportAtlas.Proofs.Json.Text
import ImportAtlas.Proofs.List.Starts

/-! # Which JSON values are well-formed

A value keeps numerals and strings as they are written, so it is well-formed if these are: a numeral has a whole
part, maybe a sign before it, and maybe a fraction and an exponent after it; in a string, quotes, backslashes and
control characters stand behind a backslash or as the number of four digits behind one. Whatever the program
writes is well-formed.
-/

namespace ImportAtlas.Json

/-! ## Strings -/

/-- What can stand between the quotes of a string. -/
inductive IsRaw : List Char → Prop
  | nil : IsRaw []
  /-- A character that stands for itself. -/
  | plain {c : Char} {rest : List Char} (noQuote : c ≠ '"') (noBackslash : c ≠ '\\') (visible : 0x20 ≤ c.toNat)
      (more : IsRaw rest) : IsRaw (c :: rest)
  /-- A backslash and a letter. -/
  | letter {c : Char} {rest : List Char} (known : c ∈ ['"', '\\', '/', 'b', 'f', 'n', 'r', 't'])
      (more : IsRaw rest) : IsRaw ('\\' :: c :: rest)
  /-- A backslash and a number of four hexadecimal digits; whether there is such a character does not matter. -/
  | number {a b c d : Char} {rest : List Char} (hex : ∀ digit ∈ [a, b, c, d], (Numeral.hexValue? digit).isSome)
      (more : IsRaw rest) : IsRaw ('\\' :: 'u' :: a :: b :: c :: d :: rest)

private theorem mem_letters {letter c : Char} (meaning : escaped? letter = some c) :
    letter ∈ ['"', '\\', '/', 'b', 'f', 'n', 'r', 't'] := by
  unfold escaped? at meaning
  split at meaning <;> first | decide | cases meaning

private theorem isSome_hexValue?_hexDigit : ∀ n < 16, (Numeral.hexValue? (hexDigit n)).isSome := by
  decide

theorem isRaw_escapeChar_append (c : Char) {rest : List Char} (more : IsRaw rest) :
    IsRaw (escapeChar c ++ rest) := by
  rcases escapeChar_cases c with
    ⟨letter, meaning, form⟩ | ⟨control, form⟩ | ⟨noQuote, noBackslash, visible, form⟩
  · rw [form]
    exact .letter (mem_letters meaning) more
  · have hex : ∀ digit ∈ ['0', '0', hexDigit (c.toNat / 16), hexDigit (c.toNat % 16)],
        (Numeral.hexValue? digit).isSome := by
      simp only [List.forall_mem_cons]
      exact ⟨rfl, rfl, isSome_hexValue?_hexDigit _ (by omega), isSome_hexValue?_hexDigit _ (by omega),
        List.forall_mem_nil _⟩
    rw [form]
    exact .number hex more
  · rw [form]
    exact .plain noQuote noBackslash visible more

theorem isRaw_escape (text : List Char) : IsRaw (escape text) := by
  induction text with
  | nil => exact .nil
  | cons c text ih =>
    have split : escape (c :: text) = escapeChar c ++ escape text := List.flatMap_cons
    rw [split]
    exact isRaw_escapeChar_append c ih

/-! ## Numerals -/

/-- One or more digits. -/
structure AreDigits (digits : List Char) : Prop where
  nonempty : digits ≠ []
  digit : ∀ c ∈ digits, c.isDigit = true

/-- A fraction, or nothing. -/
inductive IsFractionPart : List Char → Prop
  | nil : IsFractionPart []
  | point {digits : List Char} (are : AreDigits digits) : IsFractionPart ('.' :: digits)

/-- An exponent, or nothing. -/
inductive IsExponentPart : List Char → Prop
  | nil : IsExponentPart []
  | letter {e : Char} {sign digits : List Char} (letter : e = 'e' ∨ e = 'E')
      (signed : sign = [] ∨ sign = ['+'] ∨ sign = ['-']) (are : AreDigits digits) :
      IsExponentPart (e :: (sign ++ digits))

/-- A numeral: maybe a minus, a whole part without leading zeros, maybe a fraction, maybe an exponent. -/
inductive IsNumber : List Char → Prop
  | parts {sign whole fraction exponent : List Char} (signed : sign = [] ∨ sign = ['-']) (are : AreDigits whole)
      (noZero : whole.head? = some '0' → whole = ['0']) (fractional : IsFractionPart fraction)
      (exponential : IsExponentPart exponent) : IsNumber (sign ++ (whole ++ (fraction ++ exponent)))

theorem AreDigits.areDigits {digits : List Char} (are : AreDigits digits) : areDigits digits = true := by
  simp [Json.areDigits, are.nonempty, List.all_eq_true.mpr are.digit]

/-- Digits begin with a digit. -/
theorem AreDigits.exists_cons {digits : List Char} (are : AreDigits digits) :
    ∃ first rest, digits = first :: rest ∧ first.isDigit = true := by
  obtain ⟨first, rest, rfl⟩ := List.exists_cons_of_ne_nil are.nonempty
  exact ⟨first, rest, rfl, are.digit first List.mem_cons_self⟩

theorem ne_of_isDigit {c : Char} (digit : c.isDigit = true) (other : Char) (noDigit : other.isDigit = false) :
    c ≠ other := by
  rintro rfl
  cases digit.symm.trans noDigit

theorem IsExponentPart.isExponent {exponent : List Char} (exponential : IsExponentPart exponent) :
    isExponent exponent = true := by
  cases exponential with
  | nil => rfl
  | @letter e sign digits letter signed are =>
    have isLetter : (e == 'e' || e == 'E') = true := by simpa using letter
    rcases signed with rfl | rfl | rfl
    · obtain ⟨first, rest, rfl, digit⟩ := are.exists_cons
      have noPlus := ne_of_isDigit digit '+' (by decide)
      have noMinus := ne_of_isDigit digit '-' (by decide)
      simp [Json.isExponent, isLetter, noPlus, noMinus, are.areDigits]
    · simp [Json.isExponent, isLetter, are.areDigits]
    · simp [Json.isExponent, isLetter, are.areDigits]

/-- An exponent does not go on with digits before it. -/
theorem IsExponentPart.stops {exponent : List Char} (exponential : IsExponentPart exponent) :
    ∀ c ∈ exponent.head?, c.isDigit = false ∧ c ≠ '.' := by
  cases exponential with
  | nil => exact fun c member => nomatch member
  | letter letter _ _ =>
    intro c member
    obtain rfl := Option.some.inj member
    rcases letter with rfl | rfl <;> decide

theorem IsFractionPart.isFraction {fraction exponent : List Char} (fractional : IsFractionPart fraction)
    (exponential : IsExponentPart exponent) : isFraction (fraction ++ exponent) = true := by
  cases fractional with
  | nil =>
    rw [List.nil_append]
    unfold Json.isFraction
    split
    case h_1 rest => exact absurd rfl (exponential.stops '.' rfl).2
    case h_2 => exact exponential.isExponent
  | point are =>
    have stops : ∀ c ∈ exponent.head?, c.isDigit = false := fun c member => (exponential.stops c member).1
    rw [List.cons_append, Json.isFraction, takeWhile_append_stop are.digit stops,
      dropWhile_append_stop are.digit stops, are.areDigits, exponential.isExponent]
    rfl

theorem IsFractionPart.stops {fraction exponent : List Char} (fractional : IsFractionPart fraction)
    (exponential : IsExponentPart exponent) : ∀ c ∈ (fraction ++ exponent).head?, c.isDigit = false := by
  cases fractional with
  | nil => exact fun c member => (exponential.stops c member).1
  | point are =>
    intro c member
    obtain rfl := Option.some.inj member
    rfl

/-- What consists of the parts of a numeral is a numeral. -/
theorem IsNumber.isNumeral {text : List Char} (number : IsNumber text) : isNumeral text = true := by
  obtain ⟨signed, are, noZero, fractional, exponential⟩ := number
  rename_i sign whole fraction exponent
  have stops := fractional.stops exponential
  have canonical : Numeral.isCanonical whole = true := by
    have first : (whole.head? != some '0' || whole == ['0']) = true := by
      by_cases zero : whole.head? = some '0'
      · simp [noZero zero]
      · simp [zero]
    simp [Numeral.isCanonical, List.all_eq_true.mpr are.digit, are.nonempty, first]
  have unsigned : isUnsigned (whole ++ (fraction ++ exponent)) = true := by
    rw [isUnsigned, takeWhile_append_stop are.digit stops, dropWhile_append_stop are.digit stops, canonical,
      fractional.isFraction exponential]
    rfl
  rcases signed with rfl | rfl
  · obtain ⟨first, rest, rfl, digit⟩ := are.exists_cons
    have noMinus := ne_of_isDigit digit '-' (by decide)
    rw [List.nil_append]
    unfold Json.isNumeral
    split
    case h_1 rest begins => exact absurd (List.cons.inj begins).1 noMinus
    case h_2 => exact unsigned
  · exact unsigned

/-- A numeral begins with a minus or a digit and goes on with characters of numerals. -/
theorem IsNumber.exists_cons {text : List Char} (number : IsNumber text) :
    ∃ first rest, text = first :: rest ∧ (first = '-' ∨ first.isDigit = true) ∧
      ∀ c ∈ rest, isNumeralChar c = true := by
  obtain ⟨signed, are, noZero, fractional, exponential⟩ := number
  rename_i sign whole fraction exponent
  have ofDigit {c : Char} (digit : c.isDigit = true) : isNumeralChar c = true := by simp [isNumeralChar, digit]
  have inFraction : ∀ c ∈ fraction, isNumeralChar c = true := by
    cases fractional with
    | nil => exact List.forall_mem_nil _
    | point are => exact List.forall_mem_cons.mpr ⟨rfl, fun c member => ofDigit (are.digit c member)⟩
  have inExponent : ∀ c ∈ exponent, isNumeralChar c = true := by
    cases exponential with
    | nil => exact List.forall_mem_nil _
    | letter letter signed are =>
      rw [List.forall_mem_cons, List.forall_mem_append]
      refine ⟨by rcases letter with rfl | rfl <;> rfl, ?_, fun c member => ofDigit (are.digit c member)⟩
      rcases signed with rfl | rfl | rfl
      · exact List.forall_mem_nil _
      · exact List.forall_mem_singleton.mpr rfl
      · exact List.forall_mem_singleton.mpr rfl
  have behind : ∀ c ∈ whole ++ (fraction ++ exponent), isNumeralChar c = true := by
    rw [List.forall_mem_append, List.forall_mem_append]
    exact ⟨fun c member => ofDigit (are.digit c member), inFraction, inExponent⟩
  rcases signed with rfl | rfl
  · obtain ⟨first, rest, rfl, digit⟩ := are.exists_cons
    exact ⟨first, _, rfl, .inr digit, fun c member => behind c (List.mem_cons_of_mem _ member)⟩
  · exact ⟨'-', _, rfl, .inl rfl, behind⟩

theorem isNumber_write (n : Nat) : IsNumber (Numeral.write n) := by
  obtain ⟨-, canonical⟩ := (Bool.and_eq_true _ _).mp (Numeral.isCanonical_write n)
  have are : AreDigits (Numeral.write n) := ⟨Numeral.write_ne_nil n, fun _ => Numeral.isDigit_of_mem_write⟩
  have noZero : (Numeral.write n).head? = some '0' → Numeral.write n = ['0'] := by
    intro zero
    simpa [zero] using canonical
  have whole : Numeral.write n = [] ++ (Numeral.write n ++ ([] ++ [])) := by simp
  rw [whole]
  exact .parts (.inl rfl) are noZero .nil .nil

/-! ## Values -/

/-- A value that can be written in JSON. -/
inductive IsWellFormed : Json → Prop
  | null : IsWellFormed .null
  | bool (value : Bool) : IsWellFormed (.bool value)
  | number {text : List Char} (number : IsNumber text) : IsWellFormed (.number text)
  | string {raw : List Char} (isRaw : IsRaw raw) : IsWellFormed (.string raw)
  | array {items : List Json} (formed : ∀ item ∈ items, IsWellFormed item) : IsWellFormed (.array items)
  | object {members : List (List Char × Json)} (named : ∀ member ∈ members, IsRaw member.1)
      (formed : ∀ member ∈ members, IsWellFormed member.2) : IsWellFormed (.object members)

theorem isWellFormed_ofNat (n : Nat) : IsWellFormed (ofNat n) :=
  .number (isNumber_write n)

theorem isWellFormed_ofText (text : String) : IsWellFormed (ofText text) :=
  .string (isRaw_escape text.toList)

end ImportAtlas.Json
