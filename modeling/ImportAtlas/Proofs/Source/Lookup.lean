import ImportAtlas.Proofs.FileSystem.Reading
import ImportAtlas.Source.Lookup

/-! # What a lookup comes to

A local specifier in a file of a directory is looked up at the place where its segments settle. What a
lookup comes to is what the path that it finds means to whoever asks. Lookups of two paths come to the same
if the paths that are tried agree one by one, in whether they are there and in what they mean. Where none of
them means anything, it does not matter which of them are there.
-/

namespace ImportAtlas.Source.Lookup

variable {lookup : Lookup} {fs other : FileSystem} {path otherPath : Path} {α : Type}
  {meaning otherMeaning : Path → Option α}

theorem isAbsolute_of_isLocal {specifier : List Char} (isLocal : isLocal specifier = true) :
    (Path.mk specifier).isAbsolute = false := by
  have first : specifier.head? = some '.' := by simpa [Source.isLocal] using isLocal
  rw [Path.isAbsolute, first]
  rfl

/-- A local specifier is looked up where its segments settle. -/
theorem find?_ofNames {directory : List Name} (plain : ∀ name ∈ directory, Path.IsPlain name)
    {specifier : List Char} (isLocal : isLocal specifier = true) :
    lookup.find? fs (Path.ofNames directory) specifier =
      lookup.atPath? fs (Path.ofNames (Path.settle directory (Path.segments specifier))) := by
  rw [find?, if_pos isLocal, Path.clean_join_ofNames plain (isAbsolute_of_isLocal isLocal)]

/-! ## Paths that are tried -/

theorem extend_ofNames (names : List Name) (ending : List Char) :
    (Path.ofNames names).extend ending =
      Path.ofNames (names.dropLast ++ [names.getLast?.getD [] ++ ending]) := by
  rcases List.eq_nil_or_concat names with rfl | ⟨before, last, rfl⟩
  · simp [Path.ofNames, Path.extend, Path.ofSegments]
  · rw [List.concat_eq_append, List.dropLast_concat, List.getLast?_concat, Option.getD_some,
      Path.extend_ofNames_concat]

theorem ofNames_eq_concat (names : List Name) :
    Path.ofNames names = Path.ofNames (names.dropLast ++ [names.getLast?.getD []]) := by
  have same := extend_ofNames names []
  rwa [List.append_nil, Path.extend, List.append_nil] at same

theorem extend_index {names : List Name} (plain : ∀ name ∈ names, Path.IsPlain name) {index : List Char}
    (noSlash : '/' ∉ index) (ending : List Char) :
    ((Path.ofNames names).join ⟨index⟩).extend ending = Path.ofNames (names ++ [index ++ ending]) := by
  rw [Path.join_ofNames plain (Path.isAbsolute_of_noSlash noSlash), Path.segments_of_noSlash noSlash,
    Path.extend_ofNames_concat]

/-- What is found depends on nothing but what is seen. -/
theorem find?_eq_of_seen (same : ∀ manner path, fs.seen manner path = other.seen manner path) (directory : Path)
    (specifier : List Char) : lookup.find? fs directory specifier = lookup.find? other directory specifier := by
  have exist : fs.pathExists = other.pathExists :=
    funext fun path => by rw [FileSystem.pathExists_eq, FileSystem.pathExists_eq, same]
  have files : fs.isPlainFile = other.isPlainFile :=
    funext fun path => by rw [FileSystem.isPlainFile_eq, FileSystem.isPlainFile_eq, same]
  have directories : fs.isPlainDirectory = other.isPlainDirectory :=
    funext fun path => by rw [FileSystem.isPlainDirectory_eq, FileSystem.isPlainDirectory_eq, same]
  simp only [find?, atPath?, withExtension?, exist, files, directories]

/-! ## Lookups of two paths -/

theorem map_find?_congr {paths : List (Path × Path)}
    (agree : ∀ pair ∈ paths, fs.pathExists pair.1 = other.pathExists pair.2 ∧ meaning pair.1 = otherMeaning pair.2) :
    ((paths.map (·.1)).find? fs.pathExists).map meaning =
      ((paths.map (·.2)).find? other.pathExists).map otherMeaning := by
  induction paths with
  | nil => rfl
  | cons pair rest ih =>
    obtain ⟨⟨exist, same⟩, later⟩ := List.forall_mem_cons.mp agree
    rw [List.map_cons, List.map_cons, List.find?_cons, List.find?_cons, ← exist]
    split
    · rw [Option.map_some, Option.map_some, same]
    · exact ih later

/-- Paths with an extension added that agree one by one come to the same. -/
theorem map_withExtension?_congr
    (agree : ∀ ending ∈ lookup.extensions,
      fs.pathExists (path.extend ending.toList) = other.pathExists (otherPath.extend ending.toList) ∧
        meaning (path.extend ending.toList) = otherMeaning (otherPath.extend ending.toList)) :
    (lookup.withExtension? fs path).map meaning = (lookup.withExtension? other otherPath).map otherMeaning := by
  let paths := lookup.extensions.map fun ending => (path.extend ending.toList, otherPath.extend ending.toList)
  have pairs : ∀ pair ∈ paths, fs.pathExists pair.1 = other.pathExists pair.2 ∧
      meaning pair.1 = otherMeaning pair.2 := by
    rintro _ member
    obtain ⟨ending, inside, rfl⟩ := List.mem_map.mp member
    exact agree ending inside
  have same := map_find?_congr pairs
  rw [List.map_map, List.map_map] at same
  exact same

theorem bind_withExtension?_congr
    (agree : ∀ ending ∈ lookup.extensions,
      fs.pathExists (path.extend ending.toList) = other.pathExists (otherPath.extend ending.toList) ∧
        meaning (path.extend ending.toList) = otherMeaning (otherPath.extend ending.toList)) :
    (lookup.withExtension? fs path).bind meaning = (lookup.withExtension? other otherPath).bind otherMeaning := by
  have joined := congrArg (Option.bind · id) (map_withExtension?_congr agree)
  simpa only [Option.bind_map, Function.id_comp] using joined

theorem bind_withExtension?_eq_none
    (nothing : ∀ ending ∈ lookup.extensions, meaning (path.extend ending.toList) = none) :
    (lookup.withExtension? fs path).bind meaning = none := by
  rw [Option.bind_eq_none_iff]
  intro found success
  obtain ⟨ending, member, rfl⟩ := List.mem_map.mp (List.mem_of_find?_eq_some success)
  exact nothing ending member

/-- Two lookups come to the same if all that is tried for them does. -/
theorem bind_atPath?_congr (file : fs.isPlainFile path = other.isPlainFile otherPath)
    (here : meaning path = otherMeaning otherPath)
    (added : (lookup.withExtension? fs path).map meaning =
      (lookup.withExtension? other otherPath).map otherMeaning)
    (directory : fs.isPlainDirectory path = other.isPlainDirectory otherPath)
    (index : fs.isPlainDirectory path = true →
      (lookup.withExtension? fs (path.join ⟨lookup.indexName.toList⟩)).bind meaning =
        (lookup.withExtension? other (otherPath.join ⟨lookup.indexName.toList⟩)).bind otherMeaning) :
    (lookup.atPath? fs path).bind meaning = (lookup.atPath? other otherPath).bind otherMeaning := by
  rw [atPath?, atPath?, ← file, ← directory]
  split
  · exact here
  · cases found : lookup.withExtension? fs path with
    | some extended =>
      rw [found] at added
      obtain ⟨otherExtended, otherFound, same⟩ := Option.map_eq_some_iff.mp added.symm
      rw [otherFound]
      exact same.symm
    | none =>
      rw [found] at added
      rw [Option.map_eq_none_iff.mp added.symm]
      dsimp only
      split
      case isTrue isDirectory => exact index isDirectory
      case isFalse => rfl

/-- A lookup comes to nothing if nothing that is tried means anything. -/
theorem bind_atPath?_eq_none (here : meaning path = none)
    (added : ∀ ending ∈ lookup.extensions, meaning (path.extend ending.toList) = none)
    (index : ∀ ending ∈ lookup.extensions,
      meaning ((path.join ⟨lookup.indexName.toList⟩).extend ending.toList) = none) :
    (lookup.atPath? fs path).bind meaning = none := by
  rw [atPath?]
  split
  · exact here
  · cases found : lookup.withExtension? fs path with
    | some extended =>
      have nothing := @bind_withExtension?_eq_none lookup fs path α meaning added
      rw [found] at nothing
      exact nothing
    | none =>
      dsimp only
      split
      · exact bind_withExtension?_eq_none index
      · rfl

/-! ## Lookups of paths of names -/

/-- What is added to a path for a lookup stays in one directory. -/
structure HasPlainEndings (lookup : Lookup) : Prop where
  endings : ∀ ending ∈ lookup.extensions, '/' ∉ ending.toList
  index : '/' ∉ lookup.indexName.toList

section Names

variable {names otherNames : List Name} (plain : ∀ name ∈ names, Path.IsPlain name)
  (plainEndings : lookup.HasPlainEndings)

include plainEndings in
theorem HasPlainEndings.noSlash_append {stem : List Char} (noSlash : '/' ∉ stem) {ending : String}
    (member : ending ∈ lookup.extensions) : '/' ∉ stem ++ ending.toList := by
  rw [List.mem_append, not_or]
  exact ⟨noSlash, plainEndings.endings ending member⟩

include plain in
theorem noSlash_getLast? : '/' ∉ names.getLast?.getD [] := by
  cases last : names.getLast? with
  | none => exact List.not_mem_nil
  | some name => exact (plain name (List.mem_of_getLast? last)).noSlash

include plain plainEndings

/-- The paths that are tried for a path of names have their last segment in the directory of the path or in
the path itself. If none of either means anything, a lookup comes to nothing. -/
theorem bind_atPath?_ofNames_eq_none
    (outer : ∀ segment, '/' ∉ segment → meaning (Path.ofNames (names.dropLast ++ [segment])) = none)
    (inner : ∀ segment, '/' ∉ segment → meaning (Path.ofNames (names ++ [segment])) = none) :
    (lookup.atPath? fs (Path.ofNames names)).bind meaning = none := by
  have noSlash := noSlash_getLast? plain
  apply bind_atPath?_eq_none
  · rw [ofNames_eq_concat]
    exact outer _ noSlash
  · intro ending member
    rw [extend_ofNames]
    exact outer _ (plainEndings.noSlash_append noSlash member)
  · intro ending member
    rw [extend_index plain plainEndings.index]
    exact inner _ (plainEndings.noSlash_append plainEndings.index member)

/-- Lookups of two paths of names with the same last name come to the same if they do so in the directories
of the paths, and if either they do so in the paths themselves or nothing there means anything. -/
theorem bind_atPath?_ofNames_congr (otherPlain : ∀ name ∈ otherNames, Path.IsPlain name)
    (sameLast : names.getLast? = otherNames.getLast?)
    (outer : ∀ ending, '/' ∉ ending →
      let segment := names.getLast?.getD [] ++ ending
      (∀ manner : Manner, manner.Looks → fs.seen manner (Path.ofNames (names.dropLast ++ [segment])) =
        other.seen manner (Path.ofNames (otherNames.dropLast ++ [segment]))) ∧
      meaning (Path.ofNames (names.dropLast ++ [segment])) =
        otherMeaning (Path.ofNames (otherNames.dropLast ++ [segment])))
    (inner : (∀ segment, '/' ∉ segment → fs.seen .follow (Path.ofNames (names ++ [segment])) =
          other.seen .follow (Path.ofNames (otherNames ++ [segment])) ∧
        meaning (Path.ofNames (names ++ [segment])) = otherMeaning (Path.ofNames (otherNames ++ [segment]))) ∨
      ∀ segment, '/' ∉ segment → meaning (Path.ofNames (names ++ [segment])) = none ∧
        otherMeaning (Path.ofNames (otherNames ++ [segment])) = none) :
    (lookup.atPath? fs (Path.ofNames names)).bind meaning =
      (lookup.atPath? other (Path.ofNames otherNames)).bind otherMeaning := by
  obtain ⟨seen, means⟩ := outer [] List.not_mem_nil
  rw [List.append_nil, ← ofNames_eq_concat] at seen means
  rw [sameLast, ← ofNames_eq_concat] at seen means
  apply bind_atPath?_congr
  · rw [FileSystem.isPlainFile_eq, FileSystem.isPlainFile_eq, seen _ (.inr rfl)]
  · exact means
  · apply map_withExtension?_congr
    intro ending member
    obtain ⟨seen, means⟩ := outer ending.toList (plainEndings.endings ending member)
    rw [extend_ofNames, extend_ofNames, ← sameLast, FileSystem.pathExists_eq, FileSystem.pathExists_eq,
      seen _ (.inl rfl)]
    exact ⟨rfl, means⟩
  · rw [FileSystem.isPlainDirectory_eq, FileSystem.isPlainDirectory_eq, seen _ (.inr rfl)]
  · intro _
    rcases inner with same | nothing
    · apply bind_withExtension?_congr
      intro ending member
      obtain ⟨seen, means⟩ := same _ (plainEndings.noSlash_append plainEndings.index member)
      rw [extend_index plain plainEndings.index, extend_index otherPlain plainEndings.index,
        FileSystem.pathExists_eq, FileSystem.pathExists_eq, seen]
      exact ⟨rfl, means⟩
    · rw [bind_withExtension?_eq_none, bind_withExtension?_eq_none]
      · intro ending member
        rw [extend_index otherPlain plainEndings.index]
        exact (nothing _ (plainEndings.noSlash_append plainEndings.index member)).2
      · intro ending member
        rw [extend_index plain plainEndings.index]
        exact (nothing _ (plainEndings.noSlash_append plainEndings.index member)).1

end Names

end ImportAtlas.Source.Lookup
