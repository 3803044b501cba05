import ImportAtlas.Proofs.Path.Key
import Mathlib.Data.List.Basic
import Mathlib.Tactic.SplitIfs

/-! # Paths of names

An absolute path that is spelled with the fewest slashes consists of its segments. Joining it with a
relative path, extending it and taking its parent change these segments only at the end, and so do the
components and the key that are read off it.
-/

namespace ImportAtlas.Path

/-- A segment that stands for itself wherever it stands. -/
structure IsPlain (segment : List Char) : Prop where
  nonempty : segment ≠ []
  noSlash : '/' ∉ segment
  noDot : segment ≠ ['.']
  noDots : segment ≠ ['.', '.']

theorem IsPlain.append {name ending : List Char} (plain : IsPlain name) (noSlash : '/' ∉ ending) :
    IsPlain (name ++ ending) where
  nonempty := by simp [plain.nonempty]
  noSlash := by simp [plain.noSlash, noSlash]
  noDot := by
    intro dot
    rcases List.append_eq_singleton_iff.mp dot with ⟨empty, -⟩ | ⟨dot, -⟩
    · exact plain.nonempty empty
    · exact plain.noDot dot
  noDots := by
    intro dots
    rcases List.append_eq_cons_iff.mp dots with ⟨empty, -⟩ | ⟨rest, start, dot⟩
    · exact plain.nonempty empty
    · rcases List.singleton_eq_append_iff.mp dot with ⟨rfl, -⟩ | ⟨rfl, -⟩
      · exact plain.noDot start
      · exact plain.noDots start

theorem component?_of_isPlain {segment : List Char} (plain : IsPlain segment) :
    component? segment = some (.name segment) := by
  rw [component?, if_neg (not_or.mpr ⟨plain.nonempty, plain.noDot⟩), if_neg plain.noDots]

theorem filterMap_component?_of_isPlain {names : List Name} (plain : ∀ name ∈ names, IsPlain name) :
    names.filterMap component? = names.map Component.name := by
  apply List.filterMap_eq_map_iff_forall_eq_some.mpr
  intro name member
  exact component?_of_isPlain (plain name member)

/-- A segment is idle, or two dots, or stands for itself. -/
theorem component?_cases (segment : List Char) :
    component? segment = none ∨ component? segment = some .up ∨ component? segment = some (.name segment) := by
  rw [component?]
  split_ifs
  · exact .inl rfl
  · exact .inr (.inl rfl)
  · exact .inr (.inr rfl)

theorem eq_dots_of_component? {segment : List Char} (special : component? segment ≠ some (.name segment)) :
    segment = [] ∨ segment = ['.'] ∨ segment = ['.', '.'] := by
  rw [component?] at special
  split_ifs at special with idle dots
  · exact idle.imp_right .inl
  · exact .inr (.inr dots)
  · exact absurd rfl special

theorem isPlain_of_component? {segment : List Char} (noSlash : '/' ∉ segment)
    (stands : component? segment = some (.name segment)) : IsPlain segment := by
  rw [component?] at stands
  split_ifs at stands with idle dots
  · cases stands
  · rw [not_or] at idle
    exact ⟨idle.1, noSlash, idle.2, dots⟩

theorem isAbsolute_of_noSlash {chars : List Char} (noSlash : '/' ∉ chars) : (Path.mk chars).isAbsolute = false := by
  cases chars with
  | nil => rfl
  | cons c rest => simpa [isAbsolute] using fun same : c = '/' => noSlash (same ▸ List.mem_cons_self)

variable {names : List Name}

theorem isPlain_dropLast (plain : ∀ name ∈ names, IsPlain name) : ∀ name ∈ names.dropLast, IsPlain name :=
  fun name member => plain name ((List.dropLast_sublist names).subset member)

theorem noSlash_of_isPlain (plain : ∀ name ∈ names, IsPlain name) : ∀ name ∈ names, '/' ∉ name :=
  fun name member => (plain name member).noSlash

theorem noSlash_append (plain : ∀ name ∈ names, IsPlain name) {segments : List (List Char)}
    (noSlash : ∀ segment ∈ segments, '/' ∉ segment) : ∀ segment ∈ names ++ segments, '/' ∉ segment :=
  List.forall_mem_append.mpr ⟨noSlash_of_isPlain plain, noSlash⟩

/-! ## Spelling -/

theorem segments_ofNames (nonempty : names ≠ []) (noSlash : ∀ name ∈ names, '/' ∉ name) :
    segments (ofNames names).chars = [] :: names := by
  have spelled : (ofNames names).chars = ofSegments ([] :: names) := (ofSegments_cons [] nonempty).symm
  rw [spelled]
  apply segments_ofSegments (by simp)
  intro name member
  rcases List.mem_cons.mp member with rfl | member
  · simp
  · exact noSlash name member

theorem ofNames_append {first second : List Name} (someFirst : first ≠ []) (someSecond : second ≠ []) :
    (ofNames (first ++ second)).chars = (ofNames first).chars ++ '/' :: ofSegments second := by
  rw [ofNames, ofNames, ofSegments_append someFirst someSecond, List.cons_append]

/-- A text that ends in a segment other than the empty one does not end in a slash. -/
theorem getLast?_ne_slash {last : List Char} (nonempty : last ≠ []) (noSlash : '/' ∉ last) (before : List Char) :
    (before ++ last).getLast? ≠ some '/' := by
  rw [List.getLast?_append, List.getLast?_eq_some_getLast nonempty, Option.some_or]
  intro slash
  exact noSlash (Option.some.inj slash ▸ List.getLast_mem nonempty)

theorem getLast?_ofNames_ne_slash {last : List Char} (nonempty : last ≠ []) (noSlash : '/' ∉ last) :
    (ofNames (names ++ [last])).chars.getLast? ≠ some '/' := by
  obtain ⟨before, spelled⟩ := exists_ofSegments_concat names
  rw [ofNames, spelled, ← List.cons_append]
  exact getLast?_ne_slash nonempty noSlash _

/-- A path whose last segment is empty ends in a slash. -/
theorem getLast?_ofNames_eq_slash (names : List Name) :
    (ofNames (names ++ [[]])).chars.getLast? = some '/' := by
  by_cases none : names = []
  · subst none
    rfl
  · rw [ofNames_append none (by simp), ofSegments_singleton, List.getLast?_concat]

/-- Joining a relative path adds its segments. -/
theorem join_ofNames (plain : ∀ name ∈ names, IsPlain name) {path : Path} (relative : path.isAbsolute = false) :
    (ofNames names).join path = ofNames (names ++ segments path.chars) := by
  rw [join, if_neg (by simp [relative])]
  rcases List.eq_nil_or_concat names with rfl | ⟨before, last, rfl⟩
  · rw [if_pos (.inr rfl), List.nil_append, ofNames, ofNames, ofSegments_segments]
    rfl
  · rw [List.concat_eq_append] at plain ⊢
    have here := plain last (by simp)
    have someChars : (ofNames (before ++ [last])).chars ≠ [] := List.cons_ne_nil _ _
    rw [if_neg (not_or.mpr ⟨someChars, getLast?_ofNames_ne_slash here.nonempty here.noSlash⟩)]
    have some : before ++ [last] ≠ [] := by simp
    have spelled := ofNames_append some (segments_ne_nil path.chars)
    rw [ofSegments_segments] at spelled
    exact (congrArg Path.mk spelled).symm

theorem extend_ofNames_concat (names : List Name) (last ending : List Char) :
    (ofNames (names ++ [last])).extend ending = ofNames (names ++ [last ++ ending]) := by
  obtain ⟨before, spelled⟩ := exists_ofSegments_concat names
  rw [extend, ofNames, ofNames, spelled, spelled, List.cons_append, List.append_assoc]

theorem dropIdle_of_isPlain {absolute : Bool} {segments : List (List Char)}
    (plain : ∀ segment ∈ segments, IsPlain segment) : dropIdle absolute segments = segments := by
  cases segments with
  | nil => rfl
  | cons segment earlier =>
    have here := plain segment List.mem_cons_self
    rw [dropIdle, if_neg]
    rintro (empty | ⟨dot, -⟩)
    · exact here.nonempty empty
    · exact here.noDot dot

/-- The parent of a path is that of all names but the last. -/
theorem parent?_ofNames_concat {last : Name} (plain : ∀ name ∈ names ++ [last], IsPlain name) :
    (ofNames (names ++ [last])).parent? = some (ofNames names) := by
  have backwards : (ofNames (names ++ [last])).backwards = last :: names.reverse := by
    have body : (ofNames (names ++ [last])).chars.tail = ofSegments (names ++ [last]) := rfl
    have absolute : (ofNames (names ++ [last])).isAbsolute = true := rfl
    rw [Path.backwards, absolute, if_pos rfl, body, segments_ofSegments (by simp) (noSlash_of_isPlain plain),
      dropIdle_of_isPlain, List.reverse_concat]
    intro segment member
    exact plain segment (List.mem_reverse.mp member)
  have outer : dropIdle (ofNames (names ++ [last])).isAbsolute names.reverse = names.reverse := by
    apply dropIdle_of_isPlain
    intro segment member
    exact plain segment (List.mem_append_left _ (List.mem_reverse.mp member))
  rw [parent?, backwards]
  dsimp only
  rw [outer, ofBackwards, List.reverse_reverse]
  rfl

/-! ## Components and keys -/

theorem components_ofNames (noSlash : ∀ name ∈ names, '/' ∉ name) :
    (ofNames names).components = .root :: names.filterMap component? := by
  rw [components]
  by_cases none : names = []
  · subst none
    rfl
  · rw [segments_ofNames none noSlash]
    rfl

theorem filter_map_name (names : List Name) :
    (names.map Component.name).filter (· != .here) = names.map .name := by
  rw [List.filter_eq_self]
  intro component member
  obtain ⟨name, -, rfl⟩ := List.mem_map.mp member
  rfl

theorem namesOnly?_eq_some_iff {list : List Component} :
    namesOnly? list = some names ↔ list.filter (· != .here) = names.map .name := by
  induction list generalizing names with
  | nil => simp [namesOnly?, eq_comm]
  | cons component list ih =>
    cases component with
    | root => cases names <;> simp [namesOnly?]
    | up => cases names <;> simp [namesOnly?]
    | here => simpa [namesOnly?] using ih
    | name name =>
      cases names with
      | nil => simp [namesOnly?]
      | cons other names => simp [namesOnly?, ih, and_comm]

theorem namesOnly?_map_name (names : List Name) : namesOnly? (names.map .name) = some names :=
  namesOnly?_eq_some_iff.mpr (filter_map_name names)

theorem afterComponents?_eq_some_iff {stem list rest : List Component} :
    afterComponents? stem list = some rest ↔ list = stem ++ rest := by
  induction stem generalizing list with
  | nil => simp [afterComponents?, eq_comm]
  | cons c stem ih =>
    cases list with
    | nil => simp [afterComponents?]
    | cons d list =>
      rw [afterComponents?]
      split
      case isTrue same => simp [ih, same]
      case isFalse differs => simp [Ne.symm differs]

theorem keyBelow?_eq_some_iff_components {root path : Path} {key : String} : root.keyBelow? path = some key ↔
    ∃ rest names, path.components = root.components ++ rest ∧ rest.filter (· != .here) = names.map .name ∧
      names ≠ [] ∧ key = keyOf names := by
  simp only [keyBelow?, Option.bind_eq_bind, Option.bind_eq_some_iff, afterComponents?_eq_some_iff,
    namesOnly?_eq_some_iff]
  constructor
  · rintro ⟨rest, after, names, only, found⟩
    split at found
    case isTrue => cases found
    case isFalse nonempty => exact ⟨rest, names, after, only, nonempty, (Option.some.inj found).symm⟩
  · rintro ⟨rest, names, after, only, nonempty, rfl⟩
    exact ⟨rest, after, names, only, if_neg nonempty⟩

/-- The key of a path below a root is made of the names that the segments after the root consist of. -/
theorem keyBelow?_ofNames_append {root segments : List (List Char)} (plain : ∀ name ∈ root, IsPlain name)
    (noSlash : ∀ segment ∈ segments, '/' ∉ segment) :
    (ofNames root).keyBelow? (ofNames (root ++ segments)) =
      (namesOnly? (segments.filterMap component?)).bind fun names =>
        if names = [] then none else some (keyOf names) := by
  have rest : afterComponents? (ofNames root).components (ofNames (root ++ segments)).components =
      some (segments.filterMap component?) := by
    rw [afterComponents?_eq_some_iff, components_ofNames (noSlash_of_isPlain plain),
      components_ofNames (noSlash_append plain noSlash), List.filterMap_append, List.cons_append]
  rw [keyBelow?, rest]
  rfl

/-- A path of names has a key below a root if they are names of the root and more, and the key is made of
these. -/
theorem keyBelow?_ofNames_eq_some_iff {root : List Name} (plainRoot : ∀ name ∈ root, IsPlain name)
    (plain : ∀ name ∈ names, IsPlain name) {key : String} :
    (ofNames root).keyBelow? (ofNames names) = some key ↔
      ∃ more, more ≠ [] ∧ names = root ++ more ∧ key = keyOf more := by
  constructor
  · rw [keyBelow?_eq_some_iff_components]
    rintro ⟨rest, more, after, only, nonempty, rfl⟩
    rw [components_ofNames (noSlash_of_isPlain plainRoot), components_ofNames (noSlash_of_isPlain plain),
      filterMap_component?_of_isPlain plainRoot, filterMap_component?_of_isPlain plain, List.cons_append,
      List.cons.injEq] at after
    obtain ⟨first, second, rfl, roots, rfl⟩ := List.map_eq_append_iff.mp after.2
    have injective : Function.Injective (List.map Component.name) :=
      List.map_injective_iff.mpr fun _ _ same => Component.name.inj same
    obtain rfl : first = root := injective roots
    rw [filter_map_name] at only
    obtain rfl : second = more := injective only
    exact ⟨second, nonempty, rfl, rfl⟩
  · rintro ⟨more, some, rfl, rfl⟩
    have plainMore : ∀ name ∈ more, IsPlain name := fun name member => plain name (List.mem_append_right _ member)
    rw [keyBelow?_ofNames_append plainRoot (noSlash_of_isPlain plainMore),
      filterMap_component?_of_isPlain plainMore, namesOnly?_map_name, Option.bind_some, if_neg some]

end ImportAtlas.Path
