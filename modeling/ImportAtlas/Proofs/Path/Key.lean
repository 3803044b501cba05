import ImportAtlas.Path.Key

/-! # Keys and names

A key is cut at its slashes into the names it was made of. Every key is made of some names, and names
without slashes are recovered from their key.
-/

namespace ImportAtlas

/-- The names that a key is made of. -/
def namesOf (key : String) : List Name :=
  Path.segments key.toList

namespace Path

theorem segments_ne_nil (chars : List Char) : segments chars ≠ [] :=
  List.splitOn_ne_nil _ _

theorem ofSegments_segments (chars : List Char) : ofSegments (segments chars) = chars :=
  List.intercalate_splitOn _

theorem ofSegments_cons (name : Name) {names : List Name} (nonempty : names ≠ []) :
    ofSegments (name :: names) = name ++ '/' :: ofSegments names := by
  rw [ofSegments, List.intercalate_cons_of_ne_nil nonempty, List.append_assoc]
  rfl

@[simp] theorem ofSegments_singleton (segment : List Char) : ofSegments [segment] = segment :=
  List.intercalate_singleton

theorem ofSegments_append {first second : List (List Char)} (someFirst : first ≠ []) (someSecond : second ≠ []) :
    ofSegments (first ++ second) = ofSegments first ++ '/' :: ofSegments second := by
  induction first with
  | nil => exact absurd rfl someFirst
  | cons segment rest ih =>
    cases rest with
    | nil => rw [List.singleton_append, ofSegments_cons _ someSecond, ofSegments_singleton]
    | cons next rest =>
      have some : next :: rest ≠ [] := List.cons_ne_nil _ _
      calc ofSegments (segment :: next :: rest ++ second)
        _ = segment ++ '/' :: ofSegments (next :: rest ++ second) := ofSegments_cons _ (by simp)
        _ = segment ++ '/' :: (ofSegments (next :: rest) ++ '/' :: ofSegments second) := by rw [ih some]
        _ = ofSegments (segment :: next :: rest) ++ '/' :: ofSegments second := by
          rw [ofSegments_cons _ some, List.append_assoc, List.cons_append]

/-- What stands before the last segment does not depend on it. -/
theorem exists_ofSegments_concat (segments : List (List Char)) :
    ∃ before, ∀ last, ofSegments (segments ++ [last]) = before ++ last := by
  by_cases none : segments = []
  · subst none
    exact ⟨[], ofSegments_singleton⟩
  · refine ⟨ofSegments segments ++ ['/'], ?_⟩
    intro last
    rw [ofSegments_append none (by simp), ofSegments_singleton, List.append_assoc, List.singleton_append]

/-- Between slashes there are only characters of segments. -/
theorem mem_ofSegments {c : Char} {segments : List (List Char)} (member : c ∈ ofSegments segments) :
    c = '/' ∨ ∃ segment ∈ segments, c ∈ segment := by
  induction segments with
  | nil => cases member
  | cons segment rest ih =>
    cases rest with
    | nil =>
      rw [ofSegments, List.intercalate_singleton] at member
      exact .inr ⟨segment, List.mem_cons_self, member⟩
    | cons next rest =>
      rw [ofSegments_cons _ (by simp), List.mem_append, List.mem_cons] at member
      rcases member with here | slash | later
      · exact .inr ⟨segment, List.mem_cons_self, here⟩
      · exact .inl slash
      · apply (ih later).imp_right
        rintro ⟨other, inside, here⟩
        exact ⟨other, List.mem_cons_of_mem _ inside, here⟩

theorem segments_append_slash (first second : List Char) :
    segments (first ++ '/' :: second) = segments first ++ segments second :=
  List.splitOn_append_cons_self _ _

theorem segments_of_noSlash {chars : List Char} (noSlash : '/' ∉ chars) : segments chars = [chars] :=
  List.splitOn_eq_singleton noSlash

/-- Every slash begins one segment more. -/
theorem count_slash_add_one (chars : List Char) : chars.count '/' + 1 = (segments chars).length := by
  induction chars with
  | nil => rfl
  | cons c rest ih =>
    rw [segments, List.splitOn_cons_eq_if_modifyHead]
    split
    case isTrue slash =>
      rw [List.count_cons, if_pos slash, List.length_cons, ← segments, ← ih]
    case isFalse other =>
      rw [List.count_cons, if_neg other, List.length_modifyHead, ← segments, ← ih, Nat.add_zero]

theorem noSlash_of_mem_segments {chars segment : List Char} (member : segment ∈ segments chars) :
    '/' ∉ segment := by
  induction chars generalizing segment with
  | nil =>
    obtain rfl : segment = [] := by simpa [segments] using member
    simp
  | cons c rest ih =>
    rw [segments, List.splitOn_cons_eq_if_modifyHead, ← segments] at member
    split at member
    · rcases List.mem_cons.mp member with rfl | member
      · simp
      · exact ih member
    · rename_i other
      obtain ⟨first, later, parts⟩ := List.exists_cons_of_ne_nil (segments_ne_nil rest)
      rw [parts, List.modifyHead_cons] at member
      rw [parts] at ih
      rcases List.mem_cons.mp member with rfl | member
      · have absent := ih List.mem_cons_self
        rw [List.mem_cons, not_or]
        exact ⟨fun same => other (beq_iff_eq.mpr same.symm), absent⟩
      · exact ih (List.mem_cons_of_mem _ member)

theorem segments_ofSegments {names : List Name} (nonempty : names ≠ [])
    (noSlash : ∀ name ∈ names, '/' ∉ name) : segments (ofSegments names) = names :=
  List.splitOn_intercalate _ noSlash nonempty

end Path

theorem namesOf_ne_nil (key : String) : namesOf key ≠ [] :=
  Path.segments_ne_nil _

theorem keyOf_namesOf (key : String) : keyOf (namesOf key) = key := by
  rw [keyOf, namesOf, Path.ofSegments_segments, String.ofList_toList]

theorem namesOf_keyOf {names : List Name} (nonempty : names ≠ [])
    (noSlash : ∀ name ∈ names, '/' ∉ name) : namesOf (keyOf names) = names := by
  rw [keyOf, namesOf, String.toList_ofList, Path.segments_ofSegments nonempty noSlash]

end ImportAtlas
