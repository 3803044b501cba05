import ImportAtlas.Proofs.Path.NormalForm
import ImportAtlas.Proofs.Source.Lookup

/-! # Lookups do not depend on spelling

A lookup sees its directory and its specifier only through the clean form of the two joined, and that one
depends on their own clean forms only. So no slash too many, no dot and no way into a directory and out of it
again changes what is found, whatever the extensions are and wherever the paths lead.
-/

namespace ImportAtlas.Source.Lookup

variable {specifier otherSpecifier : List Char}

/-- Directories with the same clean form and local specifiers with the same clean form give the same result,
and so do those that become one another when segments that lead nowhere are added and dropped. -/
theorem find?_respects_cleaning (lookup : Lookup) (fs : FileSystem) {directory other : Path}
    (isLocal : isLocal specifier = true) (otherIsLocal : Source.isLocal otherSpecifier = true) :
    (directory.clean = other.clean → (Path.mk specifier).clean = (Path.mk otherSpecifier).clean →
      lookup.find? fs directory specifier = lookup.find? fs other otherSpecifier) ∧
    (directory.Respells other → (Path.mk specifier).Respells ⟨otherSpecifier⟩ →
      lookup.find? fs directory specifier = lookup.find? fs other otherSpecifier) := by
  have agree (sameDirectory : directory.clean = other.clean)
      (sameSpecifier : (Path.mk specifier).clean = (Path.mk otherSpecifier).clean) :
      lookup.find? fs directory specifier = lookup.find? fs other otherSpecifier := by
    have joined := Path.clean_join_congr (isAbsolute_of_isLocal isLocal) (isAbsolute_of_isLocal otherIsLocal)
      sameDirectory sameSpecifier
    rw [find?, find?, if_pos isLocal, if_pos otherIsLocal, joined]
  refine ⟨agree, ?_⟩
  intro respelled respelledSpecifier
  exact agree respelled.clean_eq respelledSpecifier.clean_eq

/-- A relative directory `src/lib` with one file, seen from the root. -/
def libraryFiles : FileSystem where
  tree := .directory [("src".toList, .directory [("lib".toList, .directory [("b.js".toList, .file [])])])]
  workingDirectory := []

/-- The specifier goes through directories that are not there. -/
theorem find?_respects_cleaning_of_libraryFiles :
    isLocal "./q/..//b".toList = true ∧ isLocal "./b".toList = true ∧
    (Path.ofString "src/./lib/").Respells (.ofString "src/lib") ∧
    (Path.ofString "./q/..//b").Respells (.ofString "./b") ∧
    Lookup.find? ⟨[".ts", ".js"], "index"⟩ libraryFiles (.ofString "src/./lib/") "./q/..//b".toList =
      some (.ofString "src/lib/b.js") := by
  have plain : Path.IsPlain "q".toList := ⟨by decide, by decide, by decide, by decide⟩
  have withoutDot : (Path.ofString "src/lib/").Abridges (.ofString "src/./lib/") :=
    ⟨by decide, ["src".toList], _, ["lib".toList, []], .dot, by decide, by decide⟩
  have withoutSlash : (Path.ofString "src/lib").Abridges (.ofString "src/lib/") :=
    ⟨by decide, ["src".toList, "lib".toList], _, [], .slash, by decide, by decide⟩
  have withoutBack : (Path.ofString ".//b").Abridges (.ofString "./q/..//b") :=
    ⟨by decide, [".".toList], _, [[], "b".toList], .back plain, by decide, by decide⟩
  have withoutSlashes : (Path.ofString "./b").Abridges (.ofString ".//b") :=
    ⟨by decide, [".".toList], _, ["b".toList], .slash, by decide, by decide⟩
  have directory : (Path.ofString "src/./lib/").Respells (.ofString "src/lib") :=
    .symm _ _ (.trans _ _ _ (.rel _ _ withoutSlash) (.rel _ _ withoutDot))
  have specifier : (Path.ofString "./q/..//b").Respells (.ofString "./b") :=
    .symm _ _ (.trans _ _ _ (.rel _ _ withoutSlashes) (.rel _ _ withoutBack))
  have isLocal : isLocal "./q/..//b".toList = true := by decide
  have shortIsLocal : Source.isLocal "./b".toList = true := by decide
  refine ⟨isLocal, shortIsLocal, directory, specifier, ?_⟩
  rw [(find?_respects_cleaning _ libraryFiles isLocal shortIsLocal).2 directory specifier]
  decide +kernel

end ImportAtlas.Source.Lookup
