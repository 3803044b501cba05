import ImportAtlas.Command.Needs
import ImportAtlas.FileSystem.Changes

/-! # The program

Takes a picture of the files that a command has to know, runs the command on the picture, and makes
the changes that the command made. The picture is taken name by name: files are empty in it until
their content is asked for, and a link leads straight to where it ends. Images are drawn by a
separate tool, which this program has no way to start.
-/

namespace ImportAtlas.Program

/-- The names on the way to an absolute path without dots and links. -/
def locationOf (path : String) : Location :=
  (Path.ofString path).components.filterMap fun
    | .name name => some name
    | _ => none

/-- The path at a location. -/
def pathAt (location : Location) : String :=
  toString (Path.ofNames location)

/-- What a link leads to that leads nowhere: a name that nothing has. -/
def nowhere : Path :=
  ⟨['/', '\x00']⟩

/-- Where a path leads, if anything is there. -/
def realPath? (path : String) : IO (Option String) := do
  try
    return some (toString (← IO.FS.realPath path))
  catch _ =>
    return none

/-- The picture, and the directories that it has listed. -/
structure Picture where
  fs : FileSystem
  listed : List Location

mutual

/-- Lists a directory, and everything below it if `deep` is set. -/
partial def list (deep : Bool) (picture : Picture) (location : Location) : IO Picture := do
  if !deep && picture.listed.contains location then return picture
  let entries ←
    try (← IO.FS.realPath (pathAt location)).readDir
    catch _ => pure #[]
  let first := !picture.listed.contains location
  let mut picture := { picture with listed := location :: picture.listed }
  for entry in entries do
    picture ← note deep first picture (location ++ [entry.fileName.toList]) entry
  return picture

/-- Puts one entry of a directory into the picture. -/
partial def note (deep first : Bool) (picture : Picture) (location : Location)
    (entry : IO.FS.DirEntry) : IO Picture := do
  let put (entry : Entry) : Picture :=
    if first then { picture with fs := picture.fs.put location entry } else picture
  let kind : Option IO.FS.FileType ←
    try pure (some (← entry.path.symlinkMetadata).type)
    catch _ => pure none
  match kind with
  | some .dir =>
    let picture := put (.directory [])
    if deep then list true picture location else return picture
  | some .symlink =>
    match ← realPath? (pathAt location) with
    | some target => above (put (.link (.ofString target))) (locationOf target)
    | none => return put (.link nowhere)
  | some _ => return put (.file [])
  | none => return picture

/-- Lists the directories on the way to a location, and the location itself. -/
partial def above (picture : Picture) (location : Location) : IO Picture := do
  let mut picture := picture
  for depth in [0:location.length + 1] do
    picture ← list false picture (location.take depth)
  return picture

end

/-- Lists the directories on the way to a path, links on the way followed. -/
def around (picture : Picture) (path : Path) : IO Picture := do
  let mut picture := picture
  for ancestor in (picture.fs.workingPath.join path).ancestors do
    if let some real ← realPath? (toString ancestor) then
      picture ← above picture (locationOf real)
  return picture

/-- Puts the content of a file into the picture. -/
def fill (fs : FileSystem) (path : Path) : IO FileSystem := do
  let path := fs.workingPath.join path
  try
    let content ← IO.FS.readBinFile (toString path)
    return (fs.writeFile path content.toList).toOption.getD fs
  catch _ =>
    return fs

/-- The picture that a command needs. -/
def takePicture (workingDirectory : String) (command : Command) : IO FileSystem := do
  let empty : FileSystem := ⟨.directory [], locationOf workingDirectory⟩
  let mut picture ← above ⟨empty, []⟩ empty.workingDirectory
  picture ← around picture (command.firstFile empty)
  if let some root := command.treeRoot? empty then
    picture ← around picture root
    if let some real ← realPath? (toString (empty.workingPath.join root)) then
      picture ← list true picture (locationOf real)
  let fs ← fill picture.fs (command.firstFile empty)
  let mut filled := { picture with fs := fs }
  if let some target := command.target? fs then
    filled ← around filled target
  (command.sourceFiles filled.fs).foldlM fill filled.fs

/-- Makes one change. -/
def apply : Change → IO Unit
  | .newDirectory location => IO.FS.createDir (pathAt location)
  | .writtenFile location content =>
    IO.FS.writeBinFile (pathAt location) ⟨content.toArray⟩

/-- Runs the program on the files of the machine. -/
def run (arguments : List String) : IO UInt32 := do
  let workingDirectory := toString (← IO.currentDir)
  let arguments := arguments.map String.toList
  let fs ←
    match Invocation.ofArguments arguments with
    | .ok invocation => takePicture workingDirectory invocation.command
    | .error _ => pure ⟨.directory [], locationOf workingDirectory⟩
  let outcome := runProgram fs none arguments
  for line in outcome.log do
    IO.eprintln line.render
  (fs.changes outcome.files).forM apply
  IO.print outcome.output
  IO.eprint outcome.complaint
  return UInt32.ofNat outcome.exitCode

end ImportAtlas.Program

/-- Runs the program with the arguments that it was started with. -/
def main (arguments : List String) : IO UInt32 :=
  ImportAtlas.Program.run arguments
