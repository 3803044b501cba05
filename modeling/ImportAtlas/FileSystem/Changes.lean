import ImportAtlas.FileSystem.Entry

/-! # What has changed between two trees

The program only makes directories and writes files. The changes that lead from one tree to another
are listed so that a directory comes before what lies in it.
-/

namespace ImportAtlas

/-- A change to a tree. -/
inductive Change where
  | newDirectory (location : Location)
  | writtenFile (location : Location) (content : Bytes)
deriving DecidableEq, Repr

namespace Entry

mutual

/-- The changes that make an entry at a location out of what was there before. -/
def changesFrom (before : Option Entry) (location : Location) : Entry → List Change
  | .link _ => []
  | .file content =>
    match before with
    | some (.file old) => if old = content then [] else [.writtenFile location content]
    | _ => [.writtenFile location content]
  | .directory children =>
    match before with
    | some (.directory old) => childChangesFrom old location children
    | _ => .newDirectory location :: childChangesFrom [] location children

/-- The changes that make the children of a directory out of those that it had before. -/
def childChangesFrom (before : List (Name × Entry)) (location : Location) :
    List (Name × Entry) → List Change
  | [] => []
  | (name, entry) :: children =>
    changesFrom (child? name before) (location ++ [name]) entry ++
      childChangesFrom before location children

end

end Entry

/-- The changes that lead from one file system to another. -/
def FileSystem.changes (before after : FileSystem) : List Change :=
  after.tree.changesFrom (some before.tree) []

end ImportAtlas
