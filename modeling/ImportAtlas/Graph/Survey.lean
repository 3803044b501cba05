import ImportAtlas.FileSystem.Operations
import ImportAtlas.FileSystem.Walk
import ImportAtlas.Failure
import ImportAtlas.Graph.Basic
import ImportAtlas.Graph.Table
import ImportAtlas.Log
import ImportAtlas.Path.Key
import ImportAtlas.Settings
import ImportAtlas.Source.Owner

/-! # Surveying a source tree

A survey walks the whole tree below a root, numbers every entry and makes a node for every source
file. Its numbers are final: connecting the files afterwards adds none.
-/

namespace ImportAtlas

/-- A source tree that can be surveyed: its root, free of links, and its settings. -/
structure Workspace where
  root : Path
  settings : Settings
deriving DecidableEq, Repr

/-- The numbered entries of a source tree and the nodes of its source files. -/
structure Survey where
  root : Path
  settings : Settings
  numbering : Numbering
  nodes : List (Id × Node)
deriving DecidableEq, Repr

namespace Survey

/-- The survey before its first visit. -/
def start (workspace : Workspace) : Survey where
  root := workspace.root
  settings := workspace.settings
  numbering := .empty
  nodes := []

/-- The survey after one visit more. The directory that holds the visited entry was visited before
it, so it has a number already. -/
def visit (survey : Survey) (visit : Visit) : Survey :=
  let key := keyOf visit.names
  let level := visit.names.length - 1
  let (id, numbering) := survey.numbering.number key level
  if visit.isDirectory || !survey.settings.isSource (visit.names.getLast?.getD []) then
    { survey with numbering := numbering }
  else
    let parent := if level = 0 then none else numbering.id? (keyOf visit.names.dropLast)
    let node := Node.fresh id key level parent (Source.owner? key survey.settings.moduleMarker)
    { survey with numbering := numbering, nodes := Table.putInOrder survey.nodes id node }

/-- The path of the source file with a key. -/
def filePath (survey : Survey) (key : String) : Path :=
  survey.root.join ⟨key.toList⟩

/-- What a survey reports: each number with its entry, and the counts. -/
def log (survey : Survey) : List LogLine :=
  (survey.numbering.ids.zip survey.numbering.levels).map (fun entry =>
    ⟨.debug, "assigned id", [("id", toString entry.1.2), ("level", toString entry.2.2),
      ("path", entry.1.1)]⟩) ++
  [⟨.info, "discovery complete", [("root", toString survey.root),
    ("entries", toString survey.numbering.size), ("files", toString survey.nodes.length)]⟩]

end Survey

namespace Workspace

/-- The workspace whose root a path leads to. -/
def ofPath (fs : FileSystem) (path : Path) (settings : Settings) : Except Failure Workspace :=
  match fs.locate path with
  | .error _ => .error (.rootNotFound path)
  | .ok location =>
    let root := Path.ofNames location
    if fs.leadsToDirectory root then .ok ⟨root, settings⟩ else .error (.rootNotFound root)

/-- Whether a visited directory has too long a path to be listed. -/
def cannotList (workspace : Workspace) (visit : Visit) : Bool :=
  visit.isDirectory &&
    FileSystem.byteLength (workspace.root.join ⟨Path.ofSegments visit.names⟩).chars ≥
      FileSystem.pathLimit

/-- The survey of the tree below the root as it is now. It is empty if the root has become a
file. -/
def survey (workspace : Workspace) (fs : FileSystem) : Except Failure Survey :=
  match fs.entryAt .follow workspace.root with
  | .error _ => .error (.walk workspace.root)
  | .ok entry =>
    let visits := entry.walk workspace.settings.isIgnored
    if visits.any workspace.cannotList then .error (.walk workspace.root)
    else .ok (visits.foldl Survey.visit (.start workspace))

end Workspace

end ImportAtlas
