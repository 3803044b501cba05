import ImportAtlas.Text.Utf8
import Mathlib.Data.Char
import Mathlib.Data.List.Lex
import Mathlib.Tactic.SplitIfs

/-! # Texts are ordered as their bytes are

Of two characters the one with the smaller number has the smaller byte where their encodings first
differ, since longer encodings begin with greater bytes and the parts of a number come from the most
significant one on. So comparing texts by characters and by bytes comes to the same.
-/

namespace ImportAtlas.Utf8

/-- Where the bytes first differ, the first ones have the smaller byte. -/
inductive DiffersUp : Bytes → Bytes → Prop
  | here {low high : UInt8} (less : low < high) (first second : Bytes) :
    DiffersUp (low :: first) (high :: second)
  | there {first second : Bytes} (byte : UInt8) (differs : DiffersUp first second) :
    DiffersUp (byte :: first) (byte :: second)

theorem DiffersUp.append_lt {first second : Bytes} (differs : DiffersUp first second)
    (afterFirst afterSecond : Bytes) : first ++ afterFirst < second ++ afterSecond := by
  induction differs with
  | here less first second => exact List.Lex.rel less
  | there byte _ ih => exact List.Lex.cons ih

private theorem differsUp_of_lt {low high : Nat} (less : low < high) (small : high < 256)
    (first second : Bytes) : DiffersUp (.ofNat low :: first) (.ofNat high :: second) := by
  refine .here ?_ first second
  rw [UInt8.lt_iff_toNat_lt, UInt8.toNat_ofNat', UInt8.toNat_ofNat']
  omega

/-- The first bytes decide, or they agree and the rest decides. -/
private theorem differsUp_of_le {low high : Nat} (least : low ≤ high) (small : high < 256)
    {first second : Bytes} (rest : low = high → DiffersUp first second) :
    DiffersUp (.ofNat low :: first) (.ofNat high :: second) := by
  rcases Nat.lt_or_eq_of_le least with less | same
  · exact differsUp_of_lt less small first second
  · exact same ▸ .there _ (rest same)

/-- A smaller character has a smaller encoding, whatever follows. -/
theorem differsUp_utf8EncodeChar {c d : Char} (less : c < d) :
    DiffersUp (String.utf8EncodeChar c) (String.utf8EncodeChar d) := by
  have numbers : c.val.toNat < d.val.toNat := UInt32.lt_iff_toNat_lt.mp less
  have last : d.val.toNat < 0x110000 := by
    have valid : d.val.toNat < 0xD800 ∨ 0xDFFF < d.val.toNat ∧ d.val.toNat < 0x110000 := d.valid
    omega
  unfold String.utf8EncodeChar
  generalize c.val.toNat = v at numbers
  generalize d.val.toNat = w at numbers last
  dsimp only
  -- Characters of different sizes differ in their first bytes, others in one of at most four.
  split_ifs
  all_goals first
    | exact differsUp_of_lt (by omega) (by omega) _ _
    | exact differsUp_of_le (by omega) (by omega) fun _ => differsUp_of_lt (by omega) (by omega) _ _
    | exact differsUp_of_le (by omega) (by omega) fun _ =>
        differsUp_of_le (by omega) (by omega) fun _ => differsUp_of_lt (by omega) (by omega) _ _
    | exact differsUp_of_le (by omega) (by omega) fun _ =>
        differsUp_of_le (by omega) (by omega) fun _ =>
          differsUp_of_le (by omega) (by omega) fun _ => differsUp_of_lt (by omega) (by omega) _ _

theorem encode_lt_of_lt {first second : List Char} (less : first < second) :
    encode first < encode second := by
  induction less with
  | nil =>
    obtain ⟨byte, rest, bytes⟩ := List.exists_cons_of_ne_nil String.utf8EncodeChar_ne_nil
    rw [encode, encode, List.flatMap_cons, bytes]
    exact List.Lex.nil
  | cons _ ih =>
    rw [encode, encode, List.flatMap_cons, List.flatMap_cons]
    exact List.append_left_lt ih
  | rel less =>
    rw [encode, encode, List.flatMap_cons, List.flatMap_cons]
    exact (differsUp_utf8EncodeChar less).append_lt _ _

/-- Texts and lists of texts compare as their bytes do. -/
theorem map_encode_lt_iff {first second : List (List Char)} :
    first.map encode < second.map encode ↔ first < second := by
  have increasing {before after : List (List Char)} (less : before < after) :
      before.map encode < after.map encode := List.map_lt (fun _ _ => encode_lt_of_lt) less
  constructor
  · intro less
    rcases lt_trichotomy first second with before | rfl | after
    · exact before
    · exact absurd less (List.lt_irrefl _)
    · have behind : second.map encode < first.map encode := increasing after
      exact absurd less (List.lt_asymm behind)
  · exact increasing

end ImportAtlas.Utf8
