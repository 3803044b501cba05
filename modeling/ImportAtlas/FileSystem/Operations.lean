import ImportAtlas.FileSystem.Resolve

/-! # Reading and changing files

The operations that the program asks of a file system. Those that change it answer with the changed
file system; a refused operation changes nothing, except that making a whole chain of directories
keeps those that were made before the refusal.
-/

namespace ImportAtlas.FileSystem

/-- The entry that a path leads to, followed as told. -/
def entryAt (fs : FileSystem) (manner : Manner) (path : Path) : Except Cause Entry :=
  match fs.resolve manner path with
  | .ok (.found _ entry) => .ok entry
  | .ok (.vacant ..) => .error .notFound
  | .error cause => .error cause

/-- Whether a path leads to anything, links followed. -/
def pathExists (fs : FileSystem) (path : Path) : Bool :=
  match fs.entryAt .follow path with
  | .ok _ => true
  | .error _ => false

/-- Whether a path leads to a directory, links followed. -/
def leadsToDirectory (fs : FileSystem) (path : Path) : Bool :=
  match fs.entryAt .follow path with
  | .ok entry => entry.isDirectory
  | .error _ => false

/-- Whether a path names a file itself: a link to a file is none. -/
def isPlainFile (fs : FileSystem) (path : Path) : Bool :=
  match fs.entryAt .keep path with
  | .ok entry => entry.isFile
  | .error _ => false

/-- Whether a path names a directory itself: a link to a directory is none. -/
def isPlainDirectory (fs : FileSystem) (path : Path) : Bool :=
  match fs.entryAt .keep path with
  | .ok entry => entry.isDirectory
  | .error _ => false

/-- The location of the entry that a path leads to, links followed. -/
def locate (fs : FileSystem) (path : Path) : Except Cause Location :=
  match fs.resolve .locate path with
  | .ok (.found location _) => .ok location
  | .ok (.vacant ..) => .error .notFound
  | .error cause => .error cause

/-- The content of the file that a path leads to. -/
def readBytes (fs : FileSystem) (path : Path) : Except Cause Bytes :=
  match fs.entryAt .follow path with
  | .ok (.file content) => .ok content
  | .ok (.directory _) => .error .isDirectory
  | .ok (.link _) => .error .tooManyLinks
  | .error cause => .error cause

/-- The text of the file that a path leads to. -/
def readText (fs : FileSystem) (path : Path) : Except Cause (List Char) :=
  match fs.readBytes path with
  | .ok content =>
    match Utf8.decode? content with
    | some text => .ok text
    | none => .error .notText
  | .error cause => .error cause

/-- Writes a file: replaces the content of the file that the path leads to, or makes the file. -/
def writeFile (fs : FileSystem) (path : Path) (content : Bytes) : Except Cause FileSystem :=
  match fs.resolve .create path with
  | .ok (.found location (.file _)) => .ok (fs.put location (.file content))
  | .ok (.found _ (.directory _)) => .error .isDirectory
  | .ok (.found _ (.link _)) => .error .tooManyLinks
  | .ok (.vacant parent name) => .ok (fs.put (parent ++ [name]) (.file content))
  | .error cause => .error cause

/-- Makes one directory. -/
def makeDirectory (fs : FileSystem) (path : Path) : Except Cause FileSystem :=
  match fs.resolve .keep path with
  | .ok (.found ..) => .error .alreadyExists
  | .ok (.vacant parent name) => .ok (fs.put (parent ++ [name]) (.directory []))
  | .error cause => .error cause

/-- Makes the first of some directories, each of which lies in the next one, and beforehand those
of the others that are missing. -/
def makeChain (fs : FileSystem) : List Path → Except Cause Unit × FileSystem
  | [] => (.ok (), fs)
  | path :: outer =>
    match fs.makeDirectory path with
    | .ok made => (.ok (), made)
    | .error .notFound =>
      match makeChain fs outer with
      | (.error cause, made) => (.error cause, made)
      | (.ok (), made) =>
        match made.makeDirectory path with
        | .ok made => (.ok (), made)
        | .error cause => (if made.leadsToDirectory path then .ok () else .error cause, made)
    | .error cause => (if fs.leadsToDirectory path then .ok () else .error cause, fs)

/-- Makes a directory and all directories above it, as far as they are missing. -/
def makeDirectories (fs : FileSystem) (path : Path) : Except Cause Unit × FileSystem :=
  fs.makeChain path.ancestors

/-- The file system without what a path names; a link is removed itself. -/
def remove (fs : FileSystem) (path : Path) : Except Cause FileSystem :=
  match fs.resolve .keep path with
  | .ok (.found location _) => .ok { fs with tree := fs.tree.remove location }
  | .ok (.vacant ..) => .error .notFound
  | .error cause => .error cause

/-- Puts an entry under a name that its parent directory does not have yet. -/
def place (fs : FileSystem) (path : Path) (entry : Entry) : Except Cause FileSystem :=
  match fs.resolve .keep path with
  | .ok (.found ..) => .error .alreadyExists
  | .ok (.vacant parent name) => .ok (fs.put (parent ++ [name]) entry)
  | .error cause => .error cause

end ImportAtlas.FileSystem
