import ImportAtlas.Graph.Connect
import ImportAtlas.Proofs.Path.Additions
import ImportAtlas.Proofs.Source.Lookup

/-! # What a lookup gives is clean

A lookup cleans the path before it tries anything, and what it adds to a clean path leaves it clean. Only the
index file of the directory that a dot stands for is given behind that dot, where cleaning would drop the dot.
-/

namespace ImportAtlas.Source.Lookup

variable {lookup : Lookup} {fs : FileSystem} {path found : Path} {directory : Path} {specifier : List Char}

/-- Nothing that a lookup adds to a path is cleaned away, or leads out of a directory. -/
structure AddsNames (lookup : Lookup) : Prop where
  endings : ∀ ending ∈ lookup.extensions, Path.IsPlain ending.toList
  indexFiles : ∀ ending ∈ lookup.extensions, Path.IsPlain (lookup.indexName.toList ++ ending.toList)
  index : '/' ∉ lookup.indexName.toList

/-- Whether a lookup comes to look for an index file in the directory that a dot stands for. -/
def ReachesIndexHere (lookup : Lookup) (fs : FileSystem) (path : Path) : Prop :=
  path = ⟨['.']⟩ ∧ fs.isPlainFile path = false ∧ lookup.withExtension? fs path = none

theorem exists_extend_of_withExtension? (first : lookup.withExtension? fs path = some found) :
    ∃ ending ∈ lookup.extensions, found = path.extend ending.toList := by
  obtain ⟨ending, member, same⟩ := List.mem_map.mp (List.mem_of_find?_eq_some first)
  exact ⟨ending, member, same.symm⟩

/-- The index files of a directory are names behind it. -/
theorem AddsNames.exists_join_of_withExtension? (adds : lookup.AddsNames)
    (first : lookup.withExtension? fs (path.join ⟨lookup.indexName.toList⟩) = some found) :
    ∃ name, Path.IsPlain name ∧ found = path.join ⟨name⟩ := by
  obtain ⟨ending, member, rfl⟩ := exists_extend_of_withExtension? first
  have plain := adds.indexFiles ending member
  refine ⟨_, plain, ?_⟩
  exact Path.extend_join path (Path.isAbsolute_of_noSlash adds.index) (Path.isAbsolute_of_noSlash plain.noSlash)

/-- What a clean path means is clean, or is an index file behind the dot. -/
theorem AddsNames.clean_of_atPath? (adds : lookup.AddsNames) (given : lookup.atPath? fs path.clean = some found) :
    ¬lookup.ReachesIndexHere fs path.clean ∧ found.clean = found ∨
      lookup.ReachesIndexHere fs path.clean ∧ ∃ name, Path.IsPlain name ∧ found = (Path.mk ['.']).join ⟨name⟩ := by
  unfold atPath? at given
  split at given
  case isTrue plain =>
    cases given
    refine .inl ⟨?_, Path.clean_clean path⟩
    rintro ⟨-, notPlain, -⟩
    cases plain.symm.trans notPlain
  case isFalse notPlain =>
    split at given
    case h_1 extended first =>
      cases given
      obtain ⟨ending, member, rfl⟩ := exists_extend_of_withExtension? first
      refine .inl ⟨?_, Path.clean_extend path (adds.endings ending member)⟩
      rintro ⟨-, -, none⟩
      cases first.symm.trans none
    case h_2 none =>
      split at given
      case isTrue =>
        obtain ⟨name, plain, rfl⟩ := adds.exists_join_of_withExtension? given
        by_cases dot : path.clean = ⟨['.']⟩
        · exact .inr ⟨⟨dot, Bool.not_eq_true _ ▸ notPlain, none⟩, name, plain, by rw [dot]⟩
        · exact .inl ⟨fun reaches => dot reaches.1, Path.clean_join_name dot plain⟩
      case isFalse => cases given

theorem addsNames_standard : Settings.standard.lookup.AddsNames :=
  ⟨by decide, by decide, by decide⟩

/-- With the standard settings, what a lookup gives is clean unless it comes to look for an index file in the
directory that a dot stands for. Then what it gives is its own clean form behind a dot and a slash. -/
theorem standard_find?_clean_iff
    (given : Settings.standard.lookup.find? fs directory specifier = some found) :
    (found.clean = found ↔
      ¬Settings.standard.lookup.ReachesIndexHere fs (directory.join ⟨specifier⟩).clean) ∧
    (Settings.standard.lookup.ReachesIndexHere fs (directory.join ⟨specifier⟩).clean →
      found = ⟨'.' :: '/' :: found.clean.chars⟩) := by
  rw [find?] at given
  split at given
  case isFalse => cases given
  case isTrue =>
    rcases addsNames_standard.clean_of_atPath? given with ⟨notHere, clean⟩ | ⟨here, name, plain, rfl⟩
    · exact ⟨iff_of_true clean notHere, fun here => absurd here notHere⟩
    · have clean := Path.clean_dot_join plain
      have spelled : (Path.mk ['.']).join ⟨name⟩ = ⟨'.' :: '/' :: name⟩ := by
        simp [Path.join, Path.isAbsolute_of_noSlash plain.noSlash]
      have longer : (Path.mk name) ≠ ⟨'.' :: '/' :: name⟩ := by
        intro same
        have lengths := congrArg (fun path : Path => path.chars.length) same
        simp only [List.length_cons] at lengths
        omega
      rw [clean, spelled]
      exact ⟨iff_of_false longer (not_not_intro here), fun _ => rfl⟩

/-- A directory that holds an index file, seen from inside. -/
def indexFiles : FileSystem :=
  .holding ["index.js".toList] []

/-- The dot of the directory is left in front of the index file. -/
theorem find?_gives_unclean :
    Settings.standard.lookup.find? indexFiles (.ofString "") ".".toList = some (.ofString "./index.js") ∧
    (Path.ofString "./index.js").clean = .ofString "index.js" ∧
    Path.ofString "./index.js" ≠ .ofString "index.js" := by
  refine ⟨?_, ?_, ?_⟩ <;> decide +kernel

/-- A directory beside a file, seen from inside. -/
def nestedFiles : FileSystem where
  tree := .directory [("a".toList, .directory []), ("b.tsx".toList, .file [])]
  workingDirectory := ["a".toList]

/-- A file that is found above the directory is given as it is cleaned, and the index file of the directory
behind a dot. -/
theorem standard_find?_clean_iff_of_relative_directories :
    (Settings.standard.lookup.find? nestedFiles (.ofString "./.") ".././b".toList = some (.ofString "../b.tsx") ∧
      (Path.ofString "../b.tsx").clean = .ofString "../b.tsx" ∧
      ¬Settings.standard.lookup.ReachesIndexHere nestedFiles
        ((Path.ofString "./.").join ⟨".././b".toList⟩).clean) ∧
    Settings.standard.lookup.find? indexFiles (.ofString "") "./c/..".toList = some (.ofString "./index.js") ∧
      Settings.standard.lookup.ReachesIndexHere indexFiles ((Path.ofString "").join ⟨"./c/..".toList⟩).clean ∧
      Path.ofString "./index.js" = ⟨'.' :: '/' :: (Path.ofString "./index.js").clean.chars⟩ := by
  have above : Settings.standard.lookup.find? nestedFiles (.ofString "./.") ".././b".toList =
      some (.ofString "../b.tsx") := by decide +kernel
  have clean : (Path.ofString "../b.tsx").clean = .ofString "../b.tsx" := by decide +kernel
  have index : Settings.standard.lookup.find? indexFiles (.ofString "") "./c/..".toList =
      some (.ofString "./index.js") := by decide +kernel
  have here : Settings.standard.lookup.ReachesIndexHere indexFiles
      ((Path.ofString "").join ⟨"./c/..".toList⟩).clean :=
    ⟨by decide +kernel, by decide +kernel, by decide +kernel⟩
  exact ⟨⟨above, clean, (standard_find?_clean_iff above).1.mp clean⟩, index, here,
    (standard_find?_clean_iff index).2 here⟩

end ImportAtlas.Source.Lookup
