import ImportAtlas.FileSystem.Operations
import ImportAtlas.Path.Clean
import ImportAtlas.Source.Statement

/-! # Finding the file that a specifier means

A specifier that starts with a dot is joined to the directory of the importing file and cleaned.
The first of these wins: the path itself, if it is a plain file; the path with one of the extensions
added, in their order, if anything is there; and, if the path is a plain directory, the index file
in it, again with one of the extensions added. Only the added forms follow links.
-/

namespace ImportAtlas.Source

/-- What is tried to find the file that a specifier means. -/
structure Lookup where
  /-- The endings that are tried, in order. -/
  extensions : List String
  /-- The name, without its ending, of the file that stands for a directory. -/
  indexName : String
deriving DecidableEq, Repr

namespace Lookup

/-- The first path that exists among a path with one of the extensions added. -/
def withExtension? (lookup : Lookup) (fs : FileSystem) (path : Path) : Option Path :=
  (lookup.extensions.map fun extension => path.extend extension.toList).find? fs.pathExists

/-- The file that a path without an ending means. -/
def atPath? (lookup : Lookup) (fs : FileSystem) (path : Path) : Option Path :=
  if fs.isPlainFile path then some path
  else
    match lookup.withExtension? fs path with
    | some found => some found
    | none =>
      if fs.isPlainDirectory path then
        lookup.withExtension? fs (path.join ⟨lookup.indexName.toList⟩)
      else none

/-- The file that a specifier means in a source file of a directory. -/
def find? (lookup : Lookup) (fs : FileSystem) (directory : Path) (specifier : List Char) :
    Option Path :=
  if isLocal specifier then lookup.atPath? fs (directory.join ⟨specifier⟩).clean else none

end Lookup

end ImportAtlas.Source
