import ImportAtlas.Failure
import ImportAtlas.FileSystem.Operations
import ImportAtlas.Log
import ImportAtlas.Settings
import ImportAtlas.Toml.Document

/-! # Settings files

Settings are kept in a TOML file in the root of a source tree. The file settles any of the six
fields; a field that is missing keeps its default, and everything that is no field is passed over. A
file that cannot be read in full settles nothing at all.
-/

namespace ImportAtlas

namespace Settings

/-- The name of the settings file in the root of a source tree. -/
def fileName : String :=
  ".depgraph.toml"

/-- The path of the settings file of a source tree. -/
def pathBelow (root : Path) : Path :=
  root.join (.ofString fileName)

/-- The names of the fields. -/
def fieldNames : List String :=
  ["ignored_dirs", "source_extensions", "resolve_extensions", "index_file", "root_module_segment",
    "output_file"]

/-- The text that a value is. -/
def text? : Toml.Value → Option String
  | .text chars => some (String.ofList chars)
  | _ => none

/-- The texts that a value is an array of. -/
def texts? : Toml.Value → Option (List String)
  | .array items => items.mapM text?
  | _ => none

/-- The value of a field, read as told, or its default: none if the field is repeated or cannot be
read. -/
def field? {α : Type} (members : Toml.Members) (name : String) (read? : Toml.Value → Option α)
    (default : α) : Option α :=
  match members.filter fun member => member.1 == name.toList with
  | [] => some default
  | [member] => read? member.2
  | _ => none

/-- Whether a header opens a table in the place of a field. -/
def isMisplaced (header : Toml.Header) : Bool :=
  match header.key with
  | name :: _ => fieldNames.contains (String.ofList name)
  | [] => false

/-- The settings that a document makes. -/
def ofDocument? (document : Toml.Document) : Option Settings :=
  if document.headers.any isMisplaced then none
  else do
    let members := document.members
    let ignoredNames ← field? members "ignored_dirs" texts? standard.ignoredNames
    let sourceEndings ← field? members "source_extensions" texts? standard.sourceEndings
    let lookupEndings ← field? members "resolve_extensions" texts? standard.lookupEndings
    let indexName ← field? members "index_file" text? standard.indexName
    let moduleMarker ← field? members "root_module_segment" text? standard.moduleMarker
    let snapshotName ← field? members "output_file" text? standard.snapshotName
    return { ignoredNames, sourceEndings, lookupEndings, indexName, moduleMarker, snapshotName }

/-- The settings that a text makes. -/
def read? (text : List Char) : Option Settings :=
  (Toml.Document.parse? text).bind ofDocument?

/-- Reads the settings file at a path. -/
def load (fs : FileSystem) (path : Path) : Except Failure Settings :=
  match fs.readText path with
  | .error cause => .error (.file path cause)
  | .ok text =>
    match read? text with
    | some settings => .ok settings
    | none => .error (.settings path)

/-- Reads the settings file at a path, or falls back to the defaults and reports why. -/
def loadOrStandard (fs : FileSystem) (path : Path) : Settings × List LogLine :=
  if fs.pathExists path then
    match load fs path with
    | .ok settings => (settings, [])
    | .error failure =>
      (standard, [⟨.warning, "ignoring config file", [("error", failure.message)]⟩])
  else (standard, [⟨.debug, "no config file, using defaults", [("path", toString path)]⟩])

end Settings

end ImportAtlas
