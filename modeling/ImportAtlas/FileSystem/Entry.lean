import ImportAtlas.Path
import ImportAtlas.Text.Utf8

/-! # Trees of files

A file system is a tree of entries. A directory lists its entries in no particular order, each name
once. A *location* is the list of names on the way from the root to an entry; unlike a path it
passes through directories only, so it is not affected by symbolic links.
-/

namespace ImportAtlas

/-- What a name in a directory stands for. -/
inductive Entry where
  | file (content : Bytes)
  /-- A symbolic link. -/
  | link (target : Path)
  | directory (children : List (Name × Entry))

/-- The names on the way from the root of the file system to an entry. -/
abbrev Location := List Name

namespace Entry

/-- The entry that a list of children has under a name. -/
def child? (name : Name) : List (Name × Entry) → Option Entry
  | [] => none
  | (other, entry) :: children => if other = name then some entry else child? name children

/-- The children with an entry put under a name: in the place of the old one, or at the end. -/
def setChild (name : Name) (entry : Entry) : List (Name × Entry) → List (Name × Entry)
  | [] => [(name, entry)]
  | (other, old) :: children =>
    if other = name then (name, entry) :: children else (other, old) :: setChild name entry children

/-- The children without those of a name. -/
def dropChild (name : Name) (children : List (Name × Entry)) : List (Name × Entry) :=
  children.filter fun child => child.1 != name

/-- The entry at a location below this one. -/
def get? : Entry → Location → Option Entry
  | entry, [] => some entry
  | .directory children, name :: rest => (child? name children).bind (·.get? rest)
  | _, _ :: _ => none

/-- The tree with an entry put at a location. Nothing changes unless the location lies in a
directory of the tree. -/
def put : Entry → Location → Entry → Entry
  | _, [], entry => entry
  | .directory children, name :: rest, entry =>
    match child? name children with
    | some old => .directory (setChild name (old.put rest entry) children)
    | none => if rest = [] then .directory (setChild name entry children) else .directory children
  | tree, _ :: _, _ => tree

/-- The tree without what lies at a location. -/
def remove : Entry → Location → Entry
  | tree, [] => tree
  | .directory children, [name] => .directory (dropChild name children)
  | .directory children, name :: rest =>
    match child? name children with
    | some old => .directory (setChild name (old.remove rest) children)
    | none => .directory children
  | tree, _ :: _ => tree

/-- Whether an entry is a directory itself, and not a link to one. -/
def isDirectory : Entry → Bool
  | .directory _ => true
  | _ => false

/-- Whether an entry is a file itself, and not a link to one. -/
def isFile : Entry → Bool
  | .file _ => true
  | _ => false

end Entry

/-- A tree of entries and the directory that relative paths start from. -/
structure FileSystem where
  tree : Entry
  workingDirectory : Location

namespace FileSystem

/-- The entry at a location. -/
def get? (fs : FileSystem) (location : Location) : Option Entry :=
  fs.tree.get? location

/-- The file system with an entry put at a location. -/
def put (fs : FileSystem) (location : Location) (entry : Entry) : FileSystem :=
  { fs with tree := fs.tree.put location entry }

/-- The absolute path of the working directory. -/
def workingPath (fs : FileSystem) : Path :=
  Path.ofNames fs.workingDirectory

end FileSystem

end ImportAtlas
