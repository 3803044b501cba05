import ImportAtlas.Json.Printer
import ImportAtlas.Proofs.Text.Numeral
import Mathlib.Tactic.SplitIfs

/-! # Texts survive as JSON strings

Every character has one escaped form, which is read back as that character whatever follows it. The
digits of a numeral are escaped as themselves, so that numerals can serve as names of members.
-/

namespace ImportAtlas.Json

/-- A character is escaped by a letter or as a number, or stands for itself. -/
theorem escapeChar_cases (c : Char) :
    (∃ letter, escaped? letter = some c ∧ escapeChar c = ['\\', letter]) ∨
      (c.toNat < 0x20 ∧
        escapeChar c = ['\\', 'u', '0', '0', hexDigit (c.toNat / 16), hexDigit (c.toNat % 16)]) ∨
      (c ≠ '"' ∧ c ≠ '\\' ∧ 0x20 ≤ c.toNat ∧ escapeChar c = [c]) := by
  unfold escapeChar
  split_ifs with quote backslash back form line turn tab control
  · exact .inl ⟨'"', by rw [quote]; rfl, rfl⟩
  · exact .inl ⟨'\\', by rw [backslash]; rfl, rfl⟩
  · exact .inl ⟨'b', by rw [back]; rfl, rfl⟩
  · exact .inl ⟨'f', by rw [form]; rfl, rfl⟩
  · exact .inl ⟨'n', by rw [line]; rfl, rfl⟩
  · exact .inl ⟨'r', by rw [turn]; rfl, rfl⟩
  · exact .inl ⟨'t', by rw [tab]; rfl, rfl⟩
  · exact .inr (.inl ⟨control, rfl⟩)
  · exact .inr (.inr ⟨quote, backslash, Nat.le_of_not_lt control, rfl⟩)

private theorem codeUnit?_hexDigit :
    ∀ n < 0x20, codeUnit? '0' '0' (hexDigit (n / 16)) (hexDigit (n % 16)) = some n := by
  decide

private theorem unescape?_number {n : Nat} (control : n < 0x20) (rest : List Char) :
    unescape? (['\\', 'u', '0', '0', hexDigit (n / 16), hexDigit (n % 16)] ++ rest) =
      (unescape? rest).map (Char.ofNat n :: ·) := by
  simp only [List.cons_append, List.nil_append, unescape?, codeUnit?_hexDigit n control]
  rw [if_pos (Or.inl (by omega))]

private theorem unescape?_letter {letter c : Char} (meaning : escaped? letter = some c)
    (rest : List Char) : unescape? (['\\', letter] ++ rest) = (unescape? rest).map (c :: ·) := by
  have noNumber : letter ≠ 'u' := by
    rintro rfl
    cases meaning
  simp [unescape?, meaning, noNumber]

private theorem unescape?_plain {c : Char} (plain : c ≠ '\\') (rest : List Char) :
    unescape? ([c] ++ rest) = (unescape? rest).map (c :: ·) := by
  simp [unescape?, plain]

/-- The escaped form of a character is read back whatever follows it. -/
theorem unescape?_escapeChar (c : Char) (rest : List Char) :
    unescape? (escapeChar c ++ rest) = (unescape? rest).map (c :: ·) := by
  rcases escapeChar_cases c with ⟨letter, meaning, form⟩ | ⟨control, form⟩ | ⟨-, plain, -, form⟩
  · rw [form, unescape?_letter meaning]
  · rw [form, unescape?_number control, Char.ofNat_toNat]
  · rw [form, unescape?_plain plain]

/-- A text is recovered from its escaped form. -/
theorem unescape?_escape (text : List Char) : unescape? (escape text) = some text := by
  induction text with
  | nil => rfl
  | cons c text ih =>
    have split : escape (c :: text) = escapeChar c ++ escape text := List.flatMap_cons
    rw [split, unescape?_escapeChar, ih]
    rfl

private theorem escapeChar_of_isDigit {c : Char} (digit : c.isDigit) : escapeChar c = [c] := by
  have bounds : 48 ≤ c.toNat ∧ c.toNat ≤ 57 := Char.isDigit_iff_toNat.mp digit
  rcases escapeChar_cases c with ⟨letter, meaning, -⟩ | ⟨control, -⟩ | ⟨-, -, -, form⟩
  · -- No character that a letter stands for is a digit.
    unfold escaped? at meaning
    split at meaning <;> cases meaning <;> simp at bounds
  · omega
  · exact form

/-- Numerals need no escapes. -/
theorem escape_write (n : Nat) : escape (Numeral.write n) = Numeral.write n := by
  have digits : ∀ c ∈ Numeral.write n, escapeChar c = [c] := fun _ member =>
    escapeChar_of_isDigit (Numeral.isDigit_of_mem_write member)
  rw [escape, List.flatMap_def, List.map_congr_left digits, ← List.flatMap_def, List.flatMap_singleton']

end ImportAtlas.Json
