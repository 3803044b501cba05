import ImportAtlas.Toml.Scalar
import ImportAtlas.Proofs.Text.Numeral

/-! # Scalars that are plain to see

Truth values are scalars, and so are the decimal numerals of all numbers that fit into 63 bits.
-/

namespace ImportAtlas.Toml

variable {n : Nat} {c : Char}

theorem isScalar_of_truth {word : List Char} (known : word = "true".toList ∨ word = "false".toList) :
    isScalar [.bare word] = true := by
  rcases known with rfl | rfl <;> decide

private theorem notMem_write (noDigit : c.isDigit = false) : c ∉ Numeral.write n := by
  intro member
  cases noDigit.symm.trans (Numeral.isDigit_of_mem_write member)

theorem digits?_write (n : Nat) : digits? 10 (Numeral.write n) = some (Numeral.write n, []) := by
  have digit (c : Char) (member : c ∈ Numeral.write n) :
      ((Numeral.digitValue? 10 c).isSome || c == '_') = true := by
    rw [Numeral.digitValue?_of_isDigit (Numeral.isDigit_of_mem_write member)]
    rfl
  have taken := @List.takeWhile_append_of_pos Char _ _ [] digit
  have dropped := @List.dropWhile_append_of_pos Char _ _ [] digit
  rw [List.append_nil, List.takeWhile_nil, List.append_nil] at taken
  rw [List.append_nil, List.dropWhile_nil] at dropped
  have noGroups : ∀ c ∈ Numeral.write n, (c == '_') = false := by
    intro c member
    have other : c ≠ '_' := fun same => notMem_write (by decide) (same ▸ member)
    simpa using other
  have ungrouped : ungroup? (Numeral.write n) = some (Numeral.write n) := by
    have inhabited : (Numeral.write n).isEmpty = false := by simp [Numeral.write_ne_nil]
    have kept : (Numeral.write n).filter (· != '_') = Numeral.write n :=
      List.filter_eq_self.mpr fun c member => by rw [bne, noGroups c member]; rfl
    rw [ungroup?, List.splitOn, List.splitOnP_eq_singleton noGroups, List.any_cons, inhabited, kept]
    rfl
  simp only [digits?, taken, dropped, ungrouped]
  rfl

theorem isDecimal_write (fits : n < Nat.pow 2 63) : isDecimal (Numeral.write n) = true := by
  have unsigned : sign (Numeral.write n) = (false, Numeral.write n) := by
    rw [sign.eq_2]
    intro word same
    exact notMem_write (c := '-') (n := n) (by decide) (same ▸ List.mem_cons_self)
  have noIdleZero : hasIdleZero (Numeral.write n) = false := by
    have canonical := Numeral.isCanonical_write n
    rw [Numeral.isCanonical, Bool.and_eq_true_iff, Bool.or_eq_true_iff] at canonical
    rw [hasIdleZero, Bool.and_eq_false_iff]
    rcases canonical.2 with noZero | isZero
    · left
      simpa using noZero
    · right
      rw [eq_of_beq isZero]
      rfl
  have isInteger : isInteger 10 false (Numeral.write n) = true := by
    rw [Toml.isInteger, digits?_write]
    dsimp only
    rw [Numeral.ofDigits?_write]
    simpa using fits
  rw [isDecimal, unsigned]
  dsimp only
  rw [isInteger, noIdleZero]
  rfl

/-- The numeral of a number that is not too large is a scalar. -/
theorem isScalar_write (fits : n < Nat.pow 2 63) : isScalar [.bare (Numeral.write n)] = true := by
  have noMark (mark : Char) (noDigit : mark.isDigit = false) (word : List Char) :
      Numeral.write n = '0' :: mark :: word → False := by
    intro same
    exact notMem_write (n := n) noDigit (same ▸ List.mem_cons_of_mem _ List.mem_cons_self)
  have absent (c : Char) (noDigit : c.isDigit = false) : (Numeral.write n).contains c = false := by
    simpa using notMem_write noDigit
  have begins : beginsNumber (Numeral.write n) = true := by
    obtain ⟨first, rest, digits⟩ := List.exists_cons_of_ne_nil (Numeral.write_ne_nil n)
    have isDigit : first.isDigit := Numeral.isDigit_of_mem_write (n := n) (digits ▸ List.mem_cons_self)
    simp [beginsNumber, digits, isDigit]
  have noDate : looksLikeDate (Numeral.write n) = false := by
    have noHyphen : (Numeral.write n).tail.contains '-' = false := by
      simpa using fun member => notMem_write (n := n) (by decide) (List.mem_of_mem_tail member)
    rw [looksLikeDate, absent 'T' (by decide), absent 't' (by decide), noHyphen]
    rfl
  have isNumber : isNumber (Numeral.write n) [] = true := by
    rw [Toml.isNumber.eq_5 _ (noMark 'x' (by decide)) (noMark 'o' (by decide)) (noMark 'b' (by decide)),
      absent 'e' (by decide), absent 'E' (by decide), isDecimal_write fits]
    simp
  rw [isScalar, begins, isNumberOrDate, noDate]
  · simp [isNumber]
  · exact nofun

end ImportAtlas.Toml
