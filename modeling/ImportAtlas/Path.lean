/-! # Paths

A path is kept as it is spelled, because messages and answers show the spelling. Its *components*
are what the spelling stands for: repeated slashes, slashes at the end and dots that are not at the
very start of a relative path are not components. Two paths with the same components name the same
place, except where a slash at the end matters to the file system.

Joining, cutting and extending work on the spelling; comparing and cleaning work on the components.
-/

namespace ImportAtlas

/-- The name of an entry in a directory. -/
abbrev Name := List Char

/-- A path as it is spelled. -/
structure Path where
  chars : List Char
deriving DecidableEq, Repr, Inhabited

/-- One step of a path. -/
inductive Component where
  /-- The slash at the start of an absolute path. -/
  | root
  /-- A dot at the start of a relative path. -/
  | here
  /-- Two dots. -/
  | up
  /-- Any other name. -/
  | name (name : Name)
deriving DecidableEq, Repr

namespace Path

/-- The path with a given spelling. -/
def ofString (text : String) : Path :=
  ⟨text.toList⟩

instance : ToString Path where
  toString path := String.ofList path.chars

/-- Whether a path starts at the root of the file system. -/
def isAbsolute (path : Path) : Bool :=
  path.chars.head? == some '/'

/-- The stretches between slashes, empty ones included. -/
def segments (chars : List Char) : List (List Char) :=
  chars.splitOn '/'

/-- Segments put back together. -/
def ofSegments (segments : List (List Char)) : List Char :=
  ['/'].intercalate segments

/-- The component that a segment stands for, if it is one wherever it stands. -/
def component? (segment : List Char) : Option Component :=
  if segment = [] ∨ segment = ['.'] then none
  else if segment = ['.', '.'] then some .up
  else some (.name segment)

/-- The components of a path. -/
def components (path : Path) : List Component :=
  let parts := segments path.chars
  let inner := parts.filterMap component?
  if path.isAbsolute then .root :: inner
  else if parts.head? = some ['.'] then .here :: inner
  else inner

/-- The spelling of a component. -/
def Component.spell : Component → List Char
  | .root => []
  | .here => ['.']
  | .up => ['.', '.']
  | .name name => name

/-- The plainest path with the given components, a dot if there are none. -/
def ofComponents : List Component → Path
  | [] => ⟨['.']⟩
  | [.root] => ⟨['/']⟩
  | components => ⟨ofSegments (components.map Component.spell)⟩

/-- `base` extended by `path`. An absolute `path` replaces `base`, and an empty one leaves a slash
at the end of `base`. -/
def join (base path : Path) : Path :=
  if path.isAbsolute then path
  else if base.chars = [] ∨ base.chars.getLast? = some '/' then ⟨base.chars ++ path.chars⟩
  else ⟨base.chars ++ '/' :: path.chars⟩

/-- The path with some characters added to its spelling. -/
def extend (path : Path) (ending : List Char) : Path :=
  ⟨path.chars ++ ending⟩

/-- The absolute path with the given names. -/
def ofNames (names : List Name) : Path :=
  ⟨'/' :: ofSegments names⟩

/-- Segments, last first, without those at the end that are no components. The segment at the very
start of a relative path is kept if it is a dot. -/
def dropIdle (absolute : Bool) : List (List Char) → List (List Char)
  | [] => []
  | segment :: earlier =>
    if segment = [] ∨ segment = ['.'] ∧ ¬(earlier = [] ∧ absolute = false) then
      dropIdle absolute earlier
    else segment :: earlier

/-- The segments of a path after the slash of the root, last first, from the last component on. -/
def backwards (path : Path) : List (List Char) :=
  dropIdle path.isAbsolute
    (segments (if path.isAbsolute then path.chars.tail else path.chars)).reverse

/-- The path whose segments, last first, are given. -/
def ofBackwards (absolute : Bool) (segments : List (List Char)) : Path :=
  let body := ofSegments segments.reverse
  ⟨if absolute then '/' :: body else body⟩

/-- The spelling up to and without the last component; none if there is no component to drop. -/
def parent? (path : Path) : Option Path :=
  match path.backwards with
  | [] => none
  | _ :: earlier => some (ofBackwards path.isAbsolute (dropIdle path.isAbsolute earlier))

/-- The last component, if it is a name. -/
def fileName? (path : Path) : Option Name :=
  match path.backwards with
  | [] => none
  | last :: _ =>
    match component? last with
    | some (.name name) => some name
    | _ => none

/-- The path with its last name replaced; with the name added if the path ends in none. -/
def withFileName (path : Path) (name : Name) : Path :=
  match path.fileName?, path.parent? with
  | some _, some parent => parent.join ⟨name⟩
  | _, _ => path.join ⟨name⟩

/-- A name cut at its last dot, unless that dot is its first character: stem and extension. -/
def splitExtension (name : Name) : Name × Option Name :=
  let ending := name.reverse.takeWhile (· != '.')
  let stem := (name.reverse.dropWhile (· != '.')).drop 1
  if stem.isEmpty then (name, none) else (stem.reverse, some ending.reverse)

/-- The name with its extension replaced. A lone dot as stem leaves two dots, since these cannot
take an extension. -/
def renameExtension (name extension : Name) : Name :=
  match splitExtension name with
  | (_, none) => name ++ '.' :: extension
  | (stem, some _) => if stem = ['.'] then ['.', '.'] else stem ++ '.' :: extension

/-- The path with the extension of its last name replaced; unchanged if it ends in no name. -/
def withExtension (path : Path) (extension : Name) : Path :=
  match path.fileName?, path.backwards with
  | some name, _ :: earlier =>
    ofBackwards path.isAbsolute (renameExtension name extension :: earlier)
  | _, _ => path

/-- The path itself, its parent, the parent of that and so on, without the empty path. -/
def ancestors (path : Path) : List Path :=
  go path.chars.length path
where
  /-- The first `bound + 1` ancestors; each is shorter than the one before. -/
  go : Nat → Path → List Path
    | 0, path => if path.chars = [] then [] else [path]
    | bound + 1, path =>
      if path.chars = [] then []
      else
        match path.parent? with
        | some parent => path :: go bound parent
        | none => [path]

end Path

end ImportAtlas
