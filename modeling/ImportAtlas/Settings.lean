/-! # Settings

What a project can settle about the scan of its source tree. Every setting has a default, which is
the usual layout of a JavaScript or TypeScript project.
-/

namespace ImportAtlas

/-- The settings of a project. -/
structure Settings where
  /-- Entries that are left out of the scan, with everything in them. -/
  ignoredNames : List String
  /-- The endings, without a dot, of the files that are source files. -/
  sourceEndings : List String
  /-- The endings, with their dot, that are added to a specifier, in the order they are tried. -/
  lookupEndings : List String
  /-- The name, without its ending, of the file that stands for a directory. -/
  indexName : String
  /-- The name of the directories that hold modules. -/
  moduleMarker : String
  /-- The path of the snapshot, from the root of the source tree. -/
  snapshotName : String
deriving DecidableEq, Repr

namespace Settings

/-- The settings that hold where a project settles nothing. -/
def standard : Settings where
  ignoredNames := ["node_modules"]
  sourceEndings := ["js", "jsx", "ts", "tsx"]
  lookupEndings := [".js", ".jsx", ".ts", ".tsx"]
  indexName := "index"
  moduleMarker := "modules"
  snapshotName := "dependencyGraph.json"

instance : Inhabited Settings := ⟨standard⟩

/-- Whether entries of a name are left out. -/
def isIgnored (settings : Settings) (name : List Char) : Bool :=
  settings.ignoredNames.contains (String.ofList name)

/-- What follows the last dot of a name. -/
def ending? (name : List Char) : Option (List Char) :=
  if name.contains '.' then some (name.reverse.takeWhile (· != '.')).reverse else none

/-- Whether files of a name are source files. -/
def isSource (settings : Settings) (name : List Char) : Bool :=
  match ending? name with
  | some ending => settings.sourceEndings.contains (String.ofList ending)
  | none => false

end Settings

end ImportAtlas
