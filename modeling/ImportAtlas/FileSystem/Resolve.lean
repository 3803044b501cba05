import ImportAtlas.FileSystem.Cause
import ImportAtlas.FileSystem.Entry

/-! # What a path leads to

A path is followed step by step. Every step but the last must lead to a directory, a dot stays, two
dots go to the directory that really holds the current one, and a symbolic link is replaced by the
steps of its target. At most forty links are replaced on the way. Paths and names have a greatest
length, in bytes. A slash at the end asks for a directory, just as a dot at the end does, but the
two differ where the path is to be created.

A path is normally handed over as a whole, so its own length counts. To find out where a path really
leads, it is followed one entry at a time instead, and then the length of the path of every such
entry counts.
-/

namespace ImportAtlas

/-- What the segments of a path ask for, one after the other. -/
inductive Step where
  | name (name : Name)
  | here
  | up
  /-- A slash at the end of the path. -/
  | slash
deriving DecidableEq, Repr

namespace Path

/-- The step that a segment asks for. -/
def step? (segment : List Char) : Option Step :=
  if segment = [] then none
  else if segment = ['.'] then some .here
  else if segment = ['.', '.'] then some .up
  else some (.name segment)

/-- The steps of a path. -/
def steps (path : Path) : List Step :=
  (segments path.chars).filterMap step? ++ if path.chars.getLast? = some '/' then [.slash] else []

end Path

/-- How a path is followed. -/
inductive Manner where
  /-- A link at the end is replaced by its target. -/
  | follow
  /-- A link at the end is left alone. -/
  | keep
  /-- As in `follow`, and the path must name a file to be written. -/
  | create
  /-- As in `follow`, but one entry at a time. -/
  | locate
deriving DecidableEq, Repr

/-- Where a path leads. -/
inductive Place where
  /-- To an entry. -/
  | found (location : Location) (entry : Entry)
  /-- To a name that an existing directory does not have. -/
  | vacant (parent : Location) (name : Name)

namespace FileSystem

/-- Greatest number of bytes in a name. -/
def nameLimit : Nat := 255

/-- Least number of bytes that a path cannot have. -/
def pathLimit : Nat := 4096

/-- Greatest number of links that are replaced while one path is followed. -/
def linkLimit : Nat := 40

/-- Number of bytes of a text. -/
def byteLength (text : List Char) : Nat :=
  (Utf8.encode text).length

/-- Where the steps of a link's target begin: at the root, or in the directory that holds the
link. -/
def linkStart (holder : Location) (target : Path) : Location :=
  if target.isAbsolute then [] else holder

/-- Whether an entry has too long a name, or too long a path where its path counts. -/
def isTooLong (manner : Manner) (holder : Location) (name : Name) : Bool :=
  byteLength name > nameLimit ||
    (manner == .locate && byteLength (Path.ofNames (holder ++ [name])).chars ≥ pathLimit)

/-- Follows steps from a location. `jump` tells where the steps after a link lead. -/
def followWith (fs : FileSystem) (manner : Manner)
    (jump : Location → List Step → Except Cause Place) :
    Location → List Step → Except Cause Place
  | location, [] =>
    match fs.get? location with
    | some entry => .ok (.found location entry)
    | none => .error .notFound
  | location, step :: rest =>
    match fs.get? location with
    | some (.directory children) =>
      match step with
      | .here => followWith fs manner jump location rest
      | .slash => followWith fs manner jump location rest
      | .up => followWith fs manner jump location.dropLast rest
      | .name name =>
        if manner = .create ∧ rest = [.slash] then .error .isDirectory
        else if isTooLong manner location name then .error .nameTooLong
        else
          match Entry.child? name children with
          | none =>
            if rest = [] ∨ manner = .keep ∧ rest = [.slash] then .ok (.vacant location name)
            else .error .notFound
          | some (.link target) =>
            if rest = [] ∧ manner = .keep then .ok (.found (location ++ [name]) (.link target))
            else jump (linkStart location target) (target.steps ++ rest)
          | some _ => followWith fs manner jump (location ++ [name]) rest
    | some _ => .error .notDirectory
    | none => .error .notFound

/-- Follows steps from a location and replaces at most `links` links. -/
def follow (fs : FileSystem) (manner : Manner) : Nat → Location → List Step → Except Cause Place
  | 0 => fs.followWith manner fun _ _ => .error .tooManyLinks
  | links + 1 => fs.followWith manner (fs.follow manner links)

/-- The directory that the steps of a path begin in. -/
def startOf (fs : FileSystem) (path : Path) : Location :=
  if path.isAbsolute then [] else fs.workingDirectory

/-- Where a path leads. -/
def resolve (fs : FileSystem) (manner : Manner) (path : Path) : Except Cause Place :=
  if '\x00' ∈ path.chars then .error .nullInPath
  else if path.chars = [] then .error .notFound
  else if manner ≠ .locate ∧ byteLength path.chars ≥ pathLimit then .error .nameTooLong
  else fs.follow manner linkLimit (fs.startOf path) path.steps

end FileSystem

end ImportAtlas
