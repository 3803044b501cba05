import ImportAtlas.Command.Run

/-! # What a command has to know of the files

A command is run on a picture of the files, so the picture has to hold what the command looks at:
the places that it names, the whole tree that it scans, one file of settings or one snapshot, and
the source files of the tree. Which files those are depends on the settings.
-/

namespace ImportAtlas.Command

/-- The root of the tree that a command scans. -/
def treeRoot? (fs : FileSystem) : Command → Option Path
  | .build root _ _ => some (root.getD fs.workingPath)
  | .stats root _ => some (root.getD fs.workingPath)
  | .render .. => none

/-- The settings file that a command names. -/
def namedSettings? : Command → Option Path
  | .build _ _ named => named
  | .stats _ named => named
  | .render .. => none

/-- The settings file or snapshot that a command reads before anything else. -/
def firstFile (fs : FileSystem) (command : Command) : Path :=
  match command with
  | .build root _ named => named.getD (Settings.pathBelow (root.getD fs.workingPath))
  | .stats root named => named.getD (Settings.pathBelow (root.getD fs.workingPath))
  | .render snapshot _ _ => snapshot

/-- The path that a command writes to. -/
def target? (fs : FileSystem) (command : Command) : Option Path :=
  match command with
  | .build root output named =>
    let root := root.getD fs.workingPath
    match output, settingsFor fs root named with
    | some output, _ => some output
    | none, .ok (settings, _) => some (root.join (.ofString settings.snapshotName))
    | none, .error _ => none
  | .render snapshot output _ => some (output.getD (snapshot.withFileName drawingName.toList))
  | .stats .. => none

/-- The source files that a command reads. -/
def sourceFiles (fs : FileSystem) (command : Command) : List Path :=
  match command.treeRoot? fs with
  | none => []
  | some root =>
    match settingsFor fs root command.namedSettings? with
    | .error _ => []
    | .ok (settings, _) =>
      match (Workspace.ofPath fs root settings).bind (·.survey fs) with
      | .error _ => []
      | .ok survey => survey.nodes.map fun entry => survey.filePath entry.2.key

end ImportAtlas.Command
