import ImportAtlas.Proofs.List.Traversal
import ImportAtlas.Text.Utf8
import Mathlib.Tactic.SplitIfs

/-! # Text survives as bytes

The first byte of a character tells how many continuation bytes follow it. The decoder lets through
every second byte that a character can have, so it completes the character with its last byte and
stands between characters again.
-/

namespace ImportAtlas.Utf8

private theorem begin_of_ascii :
    ∀ n < 0x80, begin (.ofNat n) = ([some (Char.ofNat n)], .boundary) := by
  decide

private theorem begin_of_two :
    ∀ n < 0x20, 2 ≤ n → begin (.ofNat (n + 0xC0)) = ([], .inside 0 0x80 0xBF n) := by
  decide

private theorem begin_of_three :
    ∀ n < 0x10, begin (.ofNat (n + 0xE0)) =
      ([], .inside 1 (if n = 0 then 0xA0 else 0x80) (if n = 0xD then 0x9F else 0xBF) n) := by
  decide

private theorem begin_of_four :
    ∀ n < 5, begin (.ofNat (n + 0xF0)) =
      ([], .inside 2 (if n = 0 then 0x90 else 0x80) (if n = 4 then 0x8F else 0xBF) n) := by
  decide

variable {left n value : Nat} {low high : UInt8}

private theorem continuation_between (small : n < 0x40) (above : low.toNat ≤ n + 0x80)
    (below : n + 0x80 ≤ high.toNat) :
    low ≤ UInt8.ofNat (n + 0x80) ∧ UInt8.ofNat (n + 0x80) ≤ high := by
  simp only [UInt8.le_iff_toNat_le, UInt8.toNat_ofNat']
  omega

private theorem continuation_digit (small : n < 0x40) : (UInt8.ofNat (n + 0x80)).toNat - 0x80 = n := by
  rw [UInt8.toNat_ofNat']
  omega

/-- The last continuation byte completes its character. -/
private theorem run_last (found : List (Option Char)) (small : n < 0x40) (above : low.toNat ≤ n + 0x80)
    (below : n + 0x80 ≤ high.toNat) :
    run (found, .inside 0 low high value) [.ofNat (n + 0x80)] =
      (some (Char.ofNat (value * 64 + n)) :: found, .boundary) := by
  simp only [run, List.foldl_cons, List.foldl_nil, step, continuation_digit small,
    if_pos (continuation_between small above below)]
  rfl

/-- Any other continuation byte adds its six bits to the value. -/
private theorem run_more (found : List (Option Char)) (rest : Bytes) (small : n < 0x40)
    (above : low.toNat ≤ n + 0x80) (below : n + 0x80 ≤ high.toNat) :
    run (found, .inside (left + 1) low high value) (.ofNat (n + 0x80) :: rest) =
      run (found, .inside left 0x80 0xBF (value * 64 + n)) rest := by
  simp only [run, List.foldl_cons, step, continuation_digit small,
    if_pos (continuation_between small above below)]
  rfl

private theorem run_first {byte : UInt8} {pending : Pending} (found : List (Option Char)) (rest : Bytes)
    (first : begin byte = ([], pending)) :
    run (found, .boundary) (byte :: rest) = run (found, pending) rest := by
  simp only [run, List.foldl_cons, step, first]
  rfl

/-- The bytes of a character make up that one piece. -/
theorem run_utf8EncodeChar (found : List (Option Char)) (c : Char) :
    run (found, .boundary) (String.utf8EncodeChar c) = (some c :: found, .boundary) := by
  have valid : c.val.toNat < 0xD800 ∨ 0xDFFF < c.val.toNat ∧ c.val.toNat < 0x110000 := c.valid
  have spelled : Char.ofNat c.val.toNat = c := Char.ofNat_toNat c
  unfold String.utf8EncodeChar
  generalize c.val.toNat = v at valid spelled
  dsimp only
  split_ifs with one two three
  · simp only [run, List.foldl_cons, List.foldl_nil, step, begin_of_ascii v (by omega), spelled]
    rfl
  · have whole : v / 64 % 0x20 * 64 + v % 64 = v := by omega
    rw [run_first _ _ (begin_of_two _ (by omega) (by omega)),
      run_last _ (by omega) (by simp) (by simp; omega), whole, spelled]
  · -- The bounds on the second byte are what excludes overlong forms and surrogates.
    have whole : (v / 4096 % 0x10 * 64 + v / 64 % 64) * 64 + v % 64 = v := by omega
    rw [run_first _ _ (begin_of_three _ (by omega)),
      run_more _ _ (by omega) (by split_ifs <;> simp; omega) (by split_ifs <;> simp <;> omega),
      run_last _ (by omega) (by simp) (by simp; omega), whole, spelled]
  · have whole : ((v / 262144 % 8 * 64 + v / 4096 % 64) * 64 + v / 64 % 64) * 64 + v % 64 = v := by omega
    rw [run_first _ _ (begin_of_four _ (by omega)),
      run_more _ _ (by omega) (by split_ifs <;> simp; omega) (by split_ifs <;> simp <;> omega),
      run_more _ _ (by omega) (by simp) (by simp; omega),
      run_last _ (by omega) (by simp) (by simp; omega), whole, spelled]

theorem run_encode (found : List (Option Char)) (text : List Char) :
    run (found, .boundary) (encode text) = ((text.map some).reverse ++ found, .boundary) := by
  induction text generalizing found with
  | nil => rfl
  | cons c text ih =>
    have split : encode (c :: text) = String.utf8EncodeChar c ++ encode text := List.flatMap_cons
    rw [split, run, List.foldl_append, ← run, ← run, run_utf8EncodeChar, ih]
    simp

/-- A text is recovered from its bytes. -/
theorem decode?_encode (text : List Char) : decode? (encode text) = some text := by
  have found : pieces (encode text) = text.map some := by simp [pieces, run_encode, finish]
  rw [decode?, found]
  exact mapM_of_inverse fun _ _ => rfl

/-! ## Cuts -/

/-- Some bytes begin the bytes of a text and end inside of one of its characters. -/
def EndsInside (bytes : Bytes) (text : List Char) : Prop :=
  ∃ before c after part, text = before ++ c :: after ∧ bytes = encode before ++ part ∧
    part <+: String.utf8EncodeChar c ∧ part ≠ [] ∧ part ≠ String.utf8EncodeChar c

/-- The bytes of a text are cut between two characters or inside of one. -/
theorem exists_encode_or_endsInside {bytes : Bytes} {text : List Char} (cut : bytes <+: encode text) :
    (∃ chars, chars <+: text ∧ bytes = encode chars) ∨ EndsInside bytes text := by
  induction text generalizing bytes with
  | nil => exact .inl ⟨[], List.prefix_refl _, List.prefix_nil.mp cut⟩
  | cons c text ih =>
    have split : encode (c :: text) = String.utf8EncodeChar c ++ encode text := List.flatMap_cons
    rw [split] at cut
    rcases List.prefix_or_prefix_of_prefix cut (List.prefix_append _ _) with short | long
    · by_cases nothing : bytes = []
      · exact .inl ⟨[], List.nil_prefix, nothing⟩
      by_cases whole : bytes = String.utf8EncodeChar c
      · exact .inl ⟨[c], List.prefix_append [c] text, by simp [encode, whole]⟩
      · exact .inr ⟨[], c, text, bytes, rfl, rfl, short, nothing, whole⟩
    · obtain ⟨more, rfl⟩ := long
      rcases ih ((List.prefix_append_right_inj _).mp cut) with
        ⟨chars, begins, rfl⟩ | ⟨before, other, after, part, rfl, rfl, inside⟩
      · exact .inl ⟨c :: chars, (List.prefix_cons_inj c).mpr begins, List.flatMap_cons.symm⟩
      · refine .inr ⟨c :: before, other, after, part, rfl, ?_, inside⟩
        rw [← List.append_assoc]
        rfl

/-- The first bytes of a character leave the decoder waiting for the others. -/
private theorem run_part (found : List (Option Char)) {c : Char} {part : Bytes}
    (begins : part <+: String.utf8EncodeChar c) (nonempty : part ≠ []) (proper : part ≠ String.utf8EncodeChar c) :
    ∃ left low high value, run (found, .boundary) part = (found, .inside left low high value) := by
  have valid : c.val.toNat < 0xD800 ∨ 0xDFFF < c.val.toNat ∧ c.val.toNat < 0x110000 := c.valid
  unfold String.utf8EncodeChar at begins proper
  generalize c.val.toNat = v at valid begins proper
  dsimp only at begins proper
  split_ifs at begins proper with one two three
  all_goals
    simp only [List.prefix_cons_iff, List.prefix_nil, nonempty, false_or] at begins
  · obtain ⟨_, rfl, rfl⟩ := begins
    exact absurd rfl proper
  · obtain ⟨_, rfl, rfl | ⟨_, rfl, rfl⟩⟩ := begins
    · exact ⟨_, _, _, _, run_first _ _ (begin_of_two _ (by omega) (by omega))⟩
    · exact absurd rfl proper
  · obtain ⟨_, rfl, rfl | ⟨_, rfl, rfl | ⟨_, rfl, rfl⟩⟩⟩ := begins
    · exact ⟨_, _, _, _, run_first _ _ (begin_of_three _ (by omega))⟩
    · rw [run_first _ _ (begin_of_three _ (by omega)),
        run_more _ _ (by omega) (by split_ifs <;> simp; omega) (by split_ifs <;> simp <;> omega)]
      exact ⟨_, _, _, _, rfl⟩
    · exact absurd rfl proper
  · obtain ⟨_, rfl, rfl | ⟨_, rfl, rfl | ⟨_, rfl, rfl | ⟨_, rfl, rfl⟩⟩⟩⟩ := begins
    · exact ⟨_, _, _, _, run_first _ _ (begin_of_four _ (by omega))⟩
    · rw [run_first _ _ (begin_of_four _ (by omega)),
        run_more _ _ (by omega) (by split_ifs <;> simp; omega) (by split_ifs <;> simp <;> omega)]
      exact ⟨_, _, _, _, rfl⟩
    · rw [run_first _ _ (begin_of_four _ (by omega)),
        run_more _ _ (by omega) (by split_ifs <;> simp; omega) (by split_ifs <;> simp <;> omega),
        run_more _ _ (by omega) (by simp) (by simp; omega)]
      exact ⟨_, _, _, _, rfl⟩
    · exact absurd rfl proper

/-- Bytes that end inside of a character are no text. -/
theorem decode?_of_endsInside {bytes : Bytes} {text : List Char} (ends : EndsInside bytes text) :
    decode? bytes = none := by
  obtain ⟨before, c, after, part, -, rfl, begins, nonempty, proper⟩ := ends
  obtain ⟨left, low, high, value, waiting⟩ := run_part ((before.map some).reverse ++ []) begins nonempty proper
  have found : pieces (encode before ++ part) = before.map some ++ [none] := by
    rw [pieces, run, List.foldl_append, ← run, ← run, run_encode, waiting]
    simp [finish]
  rw [decode?, found]
  simp

end ImportAtlas.Utf8
