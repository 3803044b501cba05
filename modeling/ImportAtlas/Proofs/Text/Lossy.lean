import ImportAtlas.Proofs.Text.Utf8

/-! # What a lenient reading keeps

A malformed stretch of bytes is shown as one replacement character, and where it ends depends on the bytes
around it. Characters of one byte are not affected: their bytes occur in no other character, so they end
whatever is open and stand for themselves. Hence a word of such characters is read exactly where its bytes are,
and malformed bytes on one side of a line end change nothing on the other side.
-/

namespace ImportAtlas.Utf8

/-- The characters that pieces are shown as. -/
def shown (pieces : List (Option Char)) : List Char :=
  pieces.map (·.getD '\uFFFD')

/-- The lenient reading of some bytes, of which those before them expect something. -/
def lossyFrom : Pending → Bytes → List Char
  | pending, [] => shown (finish pending)
  | pending, byte :: bytes => shown (step pending byte).1 ++ lossyFrom (step pending byte).2 bytes

theorem shown_append (first second : List (Option Char)) : shown (first ++ second) = shown first ++ shown second :=
  List.map_append

theorem lossyFrom_append (found : List (Option Char)) (pending : Pending) (first rest : Bytes) :
    shown found.reverse ++ lossyFrom pending (first ++ rest) =
      shown (run (found, pending) first).1.reverse ++ lossyFrom (run (found, pending) first).2 rest := by
  induction first generalizing found pending with
  | nil => rfl
  | cons byte first ih =>
    have next := ih ((step pending byte).1.reverse ++ found) (step pending byte).2
    rw [List.reverse_append, List.reverse_reverse, shown_append, List.append_assoc] at next
    exact next

theorem decodeLossy_eq (bytes : Bytes) : decodeLossy bytes = lossyFrom .boundary bytes := by
  have whole := lossyFrom_append [] .boundary bytes []
  have last : ∀ pending, (finish pending).reverse = finish pending := by
    intro pending
    cases pending <;> rfl
  rw [List.append_nil] at whole
  rw [decodeLossy, pieces, List.reverse_append, last]
  exact (List.map_append.trans whole.symm)

/-- A text at the start of some bytes is read as it is. -/
theorem decodeLossy_encode_append (text : List Char) (rest : Bytes) :
    decodeLossy (encode text ++ rest) = text ++ decodeLossy rest := by
  have split := lossyFrom_append [] .boundary (encode text) rest
  rw [run_encode, List.append_nil, List.reverse_reverse] at split
  rw [decodeLossy_eq, decodeLossy_eq]
  have same : shown (text.map some) = text := by
    rw [shown, List.map_map]
    exact List.map_id text
  rw [same] at split
  exact split

/-! ## Characters of one byte -/

/-- A character of one byte other than the null character. -/
def IsOneByte (c : Char) : Prop :=
  0 < c.toNat ∧ c.toNat < 0x80

instance : DecidablePred IsOneByte := fun c =>
  inferInstanceAs (Decidable (0 < c.toNat ∧ c.toNat < 0x80))

/-- What can be expected while bytes are read: the next byte continues the character, and the character that
comes of it has more than one byte. -/
def Pending.IsSound : Pending → Prop
  | .boundary => True
  | .inside left low _ value => 0x80 ≤ low.toNat ∧ (2 ≤ value ∨ left ≠ 0 ∧ 2 ≤ value * 64 + (low.toNat - 0x80))

theorem isSound_boundary : Pending.boundary.IsSound :=
  trivial

theorem isSound_begin (byte : UInt8) : (begin byte).2.IsSound := by
  unfold begin
  split_ifs <;> simp only [Pending.IsSound, UInt8.lt_iff_toNat_lt, UInt8.reduceToNat, ← UInt8.toNat_inj] at * <;> omega

theorem step_inside (left : Nat) (low high : UInt8) (value : Nat) (byte : UInt8) :
    step (.inside left low high value) byte =
      if low ≤ byte ∧ byte ≤ high then
        match left with
        | 0 => ([some (Char.ofNat (value * 64 + (byte.toNat - 0x80)))], .boundary)
        | left + 1 => ([], .inside left 0x80 0xBF (value * 64 + (byte.toNat - 0x80)))
      else (none :: (begin byte).1, (begin byte).2) :=
  rfl

variable {pending : Pending} {byte : UInt8}

theorem Pending.IsSound.step (sound : pending.IsSound) (byte : UInt8) : (step pending byte).2.IsSound := by
  cases pending with
  | boundary => exact isSound_begin byte
  | inside left low high value =>
    rw [step_inside]
    split
    case isTrue fits =>
      obtain ⟨large, long⟩ := sound
      have above := UInt8.le_iff_toNat_le.mp fits.1
      cases left with
      | zero => trivial
      | succ left => exact ⟨by decide, .inl (by omega)⟩
    case isFalse => exact isSound_begin byte

/-- A byte of its own ends whatever is open and stands for its character. -/
theorem step_of_small (sound : pending.IsSound) (small : byte < 0x80) :
    step pending byte = (finish pending ++ [some (Char.ofNat byte.toNat)], .boundary) := by
  have begins : begin byte = ([some (Char.ofNat byte.toNat)], .boundary) := by rw [begin, if_pos small]
  cases pending with
  | boundary => exact begins
  | inside left low high value =>
    have below : byte.toNat < 0x80 := small
    have tooSmall : ¬(low ≤ byte ∧ byte ≤ high) := by
      intro fits
      exact absurd (Nat.le_trans sound.1 (UInt8.le_iff_toNat_le.mp fits.1)) (Nat.not_le_of_lt below)
    rw [step_inside, if_neg tooSmall, begins]
    rfl

theorem lossyFrom_cons_of_small (sound : pending.IsSound) (small : byte < 0x80) (bytes : Bytes) :
    lossyFrom pending (byte :: bytes) =
      shown (finish pending) ++ Char.ofNat byte.toNat :: lossyFrom .boundary bytes := by
  rw [lossyFrom, step_of_small sound small, shown_append, List.append_assoc]
  rfl

theorem not_isOneByte_ofNat {n : Nat} (large : 0x80 ≤ n) : ¬IsOneByte (Char.ofNat n) := by
  by_cases valid : n.isValidChar
  · have same : (Char.ofNat n).toNat = n := by
      rw [Char.ofNat, dif_pos valid]
      rfl
    rw [IsOneByte, same]
    omega
  · have none : Char.ofNat n = '\x00' := by
      rw [Char.ofNat, dif_neg valid]
      rfl
    rw [none]
    decide

theorem not_isOneByte_replacement : ¬IsOneByte '\uFFFD' := by
  rw [IsOneByte]
  decide

theorem not_isOneByte_of_mem_finish {c : Char} (member : c ∈ shown (finish pending)) : ¬IsOneByte c := by
  cases pending with
  | boundary => cases member
  | inside left low high value =>
    obtain rfl := List.mem_singleton.mp member
    exact not_isOneByte_replacement

/-- No other byte completes a character of one byte. -/
theorem not_isOneByte_of_mem_step (sound : pending.IsSound) (large : ¬byte < 0x80) {c : Char}
    (member : c ∈ shown (step pending byte).1) : ¬IsOneByte c := by
  have atBegin : ∀ c ∈ shown (begin byte).1, ¬IsOneByte c := by
    intro c member
    rw [begin, if_neg large] at member
    split_ifs at member <;>
      simp only [shown, List.map_nil, List.map_cons, List.not_mem_nil, List.mem_singleton] at member
    all_goals
      subst member
      exact not_isOneByte_replacement
  cases pending with
  | boundary => exact atBegin c member
  | inside left low high value =>
    rw [step_inside] at member
    split at member
    case isTrue fits =>
      obtain ⟨_, long⟩ := sound
      have above := UInt8.le_iff_toNat_le.mp fits.1
      cases left with
      | zero =>
        have longer : 0x80 ≤ value * 64 + (byte.toNat - 0x80) := by omega
        have same : c = Char.ofNat (value * 64 + (byte.toNat - 0x80)) := by simpa [shown] using member
        exact same ▸ not_isOneByte_ofNat longer
      | succ left => cases member
    case isFalse =>
      rcases List.mem_cons.mp member with rfl | later
      · exact not_isOneByte_replacement
      · exact atBegin c later

/-- A byte that completes nothing leaves a character open. -/
theorem ne_boundary_of_step (silent : (step pending byte).1 = []) : (step pending byte).2 ≠ .boundary := by
  have atBegin : (begin byte).1 = [] → (begin byte).2 ≠ .boundary := by
    rw [begin]
    split_ifs <;> rintro silent ⟨⟩ <;> cases silent
  cases pending with
  | boundary => exact atBegin silent
  | inside left low high value =>
    rw [step_inside] at silent ⊢
    split at silent
    case isTrue fits =>
      rw [if_pos fits]
      cases left with
      | zero => cases silent
      | succ left => simp
    case isFalse => cases silent

/-! ## Words -/

/-- What is open is not shown as a character of one byte, and neither is a longer character. -/
theorem not_isOneByte_of_head? (sound : pending.IsSound) {bytes : Bytes}
    (long : pending ≠ .boundary ∨ ∀ byte ∈ bytes.head?, ¬byte < 0x80) {c : Char}
    (first : c ∈ (lossyFrom pending bytes).head?) : ¬IsOneByte c := by
  induction bytes generalizing pending with
  | nil =>
    cases pending with
    | boundary => cases first
    | inside left low high value =>
      cases first
      exact not_isOneByte_replacement
  | cons byte bytes ih =>
    by_cases small : byte < 0x80
    · cases pending with
      | boundary => exact absurd small (long.resolve_left (fun isOpen => isOpen rfl) byte rfl)
      | inside left low high value =>
        rw [lossyFrom_cons_of_small sound small] at first
        cases first
        exact not_isOneByte_replacement
    · rw [lossyFrom] at first
      cases completed : (step pending byte).1 with
      | nil =>
        rw [completed] at first
        exact ih (sound.step byte) (.inl (ne_boundary_of_step completed)) first
      | cons piece pieces =>
        apply not_isOneByte_of_mem_step sound small
        rw [completed] at first ⊢
        cases first
        exact List.mem_cons_self

private theorem utf8EncodeChar_of_small : ∀ n < 0x80, String.utf8EncodeChar (Char.ofNat n) = [.ofNat n] := by
  decide

theorem encode_cons_of_small {byte : UInt8} (small : byte < 0x80) (word : List Char) :
    encode (Char.ofNat byte.toNat :: word) = byte :: encode word := by
  have here := utf8EncodeChar_of_small byte.toNat small
  rw [UInt8.ofNat_toNat] at here
  rw [encode, List.flatMap_cons, here]
  rfl

section Words

variable {word : List Char} (single : ∀ c ∈ word, IsOneByte c)

include single

/-- A word at the start of what is read stands at the start of the bytes. -/
theorem encode_begins {bytes : Bytes} (begins : word <+: lossyFrom .boundary bytes) : encode word <+: bytes := by
  induction word generalizing bytes with
  | nil => exact List.nil_prefix
  | cons c word ih =>
    obtain ⟨isSingle, others⟩ := List.forall_mem_cons.mp single
    cases bytes with
    | nil =>
      rw [lossyFrom] at begins
      cases List.prefix_nil.mp begins
    | cons byte bytes =>
      by_cases small : byte < 0x80
      · rw [lossyFrom_cons_of_small isSound_boundary small] at begins
        obtain ⟨rfl, later⟩ := List.cons_prefix_cons.mp begins
        rw [encode_cons_of_small small]
        exact (List.prefix_cons_inj byte).mpr (ih others later)
      · obtain ⟨rest, parts⟩ := begins
        have first : c ∈ (lossyFrom .boundary (byte :: bytes)).head? := by rw [← parts]; rfl
        have large : ∀ other ∈ (byte :: bytes).head?, ¬other < 0x80 := by
          rintro other ⟨⟩
          exact small
        exact absurd isSingle (not_isOneByte_of_head? isSound_boundary (.inr large) first)

omit single in
/-- A word that begins with a character of one byte is not read among other characters. -/
theorem isInfix_of_append {c : Char} (isSingle : IsOneByte c) {others rest : List Char}
    (noSingle : ∀ other ∈ others, ¬IsOneByte other) (inside : c :: word <:+: others ++ rest) : c :: word <:+: rest := by
  induction others with
  | nil => exact inside
  | cons other others ih =>
    obtain ⟨notHere, notLater⟩ := List.forall_mem_cons.mp noSingle
    rcases List.infix_cons_iff.mp inside with begins | later
    · obtain ⟨rfl, -⟩ := List.cons_prefix_cons.mp begins
      exact absurd isSingle notHere
    · exact ih notLater later

/-- A word is read only where its bytes are. -/
theorem encode_isInfix (sound : pending.IsSound) {bytes : Bytes} (inside : word <:+: lossyFrom pending bytes) :
    encode word <:+: bytes := by
  cases word with
  | nil => exact List.nil_infix
  | cons c word =>
    have isSingle := single c List.mem_cons_self
    induction bytes generalizing pending with
    | nil =>
      have notOpen := not_isOneByte_of_mem_finish (inside.subset List.mem_cons_self)
      exact absurd isSingle notOpen
    | cons byte bytes ih =>
      by_cases small : byte < 0x80
      · rw [lossyFrom_cons_of_small sound small] at inside
        have here := isInfix_of_append isSingle (fun _ => not_isOneByte_of_mem_finish) inside
        rcases List.infix_cons_iff.mp here with begins | later
        · have start : lossyFrom .boundary (byte :: bytes) = Char.ofNat byte.toNat :: lossyFrom .boundary bytes :=
            lossyFrom_cons_of_small isSound_boundary small bytes
          rw [← start] at begins
          exact (encode_begins single begins).isInfix
        · exact (ih isSound_boundary later).trans (List.infix_cons (List.infix_refl bytes))
      · rw [lossyFrom] at inside
        have later := isInfix_of_append isSingle (fun _ => not_isOneByte_of_mem_step sound small) inside
        exact (ih (sound.step byte) later).trans (List.infix_cons (List.infix_refl bytes))

/-- A word of characters of one byte that is read in some bytes is spelled there. -/
theorem encode_isInfix_of_decodeLossy {bytes : Bytes} (inside : word <:+: decodeLossy bytes) :
    encode word <:+: bytes := by
  rw [decodeLossy_eq] at inside
  exact encode_isInfix single isSound_boundary inside

end Words

/-! ## Line ends -/

/-- A byte of its own parts what is read before it from what is read after it. -/
theorem lossyFrom_append_small (sound : pending.IsSound) (small : byte < 0x80) (bytes rest : Bytes) :
    lossyFrom pending (bytes ++ byte :: rest) =
      lossyFrom pending bytes ++ Char.ofNat byte.toNat :: lossyFrom .boundary rest := by
  induction bytes generalizing pending with
  | nil => exact lossyFrom_cons_of_small sound small rest
  | cons first bytes ih => rw [List.cons_append, lossyFrom, ih (sound.step first), lossyFrom, List.append_assoc]

theorem decodeLossy_append_lineEnd (bytes rest : Bytes) :
    decodeLossy (bytes ++ 0x0A :: rest) = decodeLossy bytes ++ '\n' :: decodeLossy rest := by
  rw [decodeLossy_eq, decodeLossy_eq, decodeLossy_eq, lossyFrom_append_small isSound_boundary (by decide)]
  rfl

end ImportAtlas.Utf8
