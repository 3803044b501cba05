import ImportAtlas.Text.Numeral

/-! # Numbers survive as numerals

The numeral that is written for a number has no leading zeros, so it is one of those that are read.
-/

namespace ImportAtlas.Numeral

theorem write_ne_nil (n : Nat) : write n ≠ [] :=
  Nat.toDigits_ne_nil

theorem isDigit_of_mem_write {n : Nat} {c : Char} (member : c ∈ write n) : c.isDigit :=
  Nat.isDigit_of_mem_toDigits (by decide) (by decide) member

private theorem digitChar_ne_zero : ∀ n < 10, 0 < n → Nat.digitChar n ≠ '0' := by
  decide

private theorem head?_write_ne_zero {n : Nat} (positive : 0 < n) : (write n).head? ≠ some '0' := by
  induction n using Nat.strongRecOn with
  | ind n ih =>
    rw [write, Nat.toDigits_eq_if (by decide)]
    split
    case isTrue small => simpa using digitChar_ne_zero n small positive
    case isFalse large =>
      -- The first digit is that of the number without its last digit.
      have smaller := ih (n / 10) (by omega) (by omega)
      obtain ⟨first, rest, digits⟩ := List.exists_cons_of_ne_nil (write_ne_nil (n / 10))
      rw [digits] at smaller
      rw [← write, digits]
      simpa using smaller

/-- A number is written without leading zeros. -/
theorem isCanonical_write (n : Nat) : isCanonical (write n) := by
  have digits : (write n).all Char.isDigit := List.all_eq_true.mpr fun _ => isDigit_of_mem_write
  have inhabited : (write n).isEmpty = false := by simp [write_ne_nil]
  have noZero : ((write n).head? != some '0' || write n == ['0']) = true := by
    cases n with
    | zero => decide
    | succ n => simp [head?_write_ne_zero (Nat.succ_pos n)]
  simp [isCanonical, digits, inhabited, noZero]

/-- A number is recovered from its numeral. -/
theorem read?_write (n : Nat) : read? (write n) = some n := by
  rw [read?, if_pos (isCanonical_write n), write, Nat.ofDigitChars_ten_toDigits]

theorem readBelow?_write {n limit : Nat} (small : n < limit) : readBelow? limit (write n) = some n := by
  simp [readBelow?, read?_write, small]

theorem digitValue?_of_isDigit {c : Char} (digit : c.isDigit) : digitValue? 10 c = some (c.toNat - '0'.toNat) := by
  have least : '0' ≤ c := by
    simpa [Char.le_def] using (Bool.and_eq_true_iff.mp digit).1
  have greatest : c ≤ '9' := by
    simpa [Char.le_def] using (Bool.and_eq_true_iff.mp digit).2
  have small : c.toNat - '0'.toNat < 10 := by
    have bound : c.toNat ≤ '9'.toNat := greatest
    have nine : '9'.toNat = 57 := rfl
    have zero : '0'.toNat = 48 := rfl
    omega
  rw [digitValue?, hexValue?, if_pos (by simp [least, greatest]), Option.filter_some, if_pos (by simpa using small)]

/-- Digits are read in their order, as in every decimal numeral. -/
theorem ofDigits?_of_isDigit {digits : List Char} (areDigits : ∀ c ∈ digits, c.isDigit) :
    ofDigits? 10 digits = some (Nat.ofDigitChars 10 digits 0) := by
  have values : digits.mapM (digitValue? 10) = some (digits.map fun c => c.toNat - '0'.toNat) := by
    induction digits with
    | nil => rfl
    | cons c digits ih =>
      obtain ⟨here, later⟩ := List.forall_mem_cons.mp areDigits
      rw [List.mapM_cons, digitValue?_of_isDigit here, ih later]
      rfl
  rw [ofDigits?, values, Option.map_some, List.foldl_map, Nat.ofDigitChars]
  simp only [Nat.mul_comm]

theorem ofDigits?_write (n : Nat) : ofDigits? 10 (write n) = some n := by
  rw [ofDigits?_of_isDigit fun _ => isDigit_of_mem_write, write, Nat.ofDigitChars_ten_toDigits]

end ImportAtlas.Numeral
