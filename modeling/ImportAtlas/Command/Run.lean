import ImportAtlas.Command.Arguments
import ImportAtlas.Graph.Connect
import ImportAtlas.Graph.Dot
import ImportAtlas.Graph.Image
import ImportAtlas.Graph.Snapshot
import ImportAtlas.Graph.Summary
import ImportAtlas.Settings.File

/-! # Running commands

A command reads and changes files, prints lines and reports its progress. It stops at the first
failure; what it printed, reported and changed until then stays. The words of a failure are followed
by those of its causes.
-/

namespace ImportAtlas

/-- What a command has done so far. -/
structure Progress where
  files : FileSystem
  /-- The printed lines, last first. -/
  printed : List String
  log : List LogLine

namespace Progress

/-- Nothing done yet. -/
def start (files : FileSystem) : Progress :=
  ⟨files, [], []⟩

/-- One more line printed. -/
def print (progress : Progress) (line : String) : Progress :=
  { progress with printed := line :: progress.printed }

/-- Some more log lines reported. -/
def report (progress : Progress) (lines : List LogLine) : Progress :=
  { progress with log := progress.log ++ lines }

/-- The files changed. -/
def withFiles (progress : Progress) (files : FileSystem) : Progress :=
  { progress with files := files }

end Progress

/-- How a command ended: the words for its failure and their causes, if it failed. -/
structure Ending where
  failure : Option (List String)
  progress : Progress

namespace Command

/-- A command that did all it was asked to. -/
def done (progress : Progress) : Ending :=
  ⟨none, progress⟩

/-- A command that failed. -/
def failed (progress : Progress) (failure : Failure) : Ending :=
  ⟨some failure.chain, progress⟩

/-- A command that failed while it did what `context` says. -/
def failedTo (context : String) (progress : Progress) (causes : List String) : Ending :=
  ⟨some (context :: causes), progress⟩

/-- Reads the settings that hold for a source tree. A settings file that is named must be sound. -/
def settingsFor (fs : FileSystem) (root : Path) (named : Option Path) :
    Except Failure (Settings × List LogLine) :=
  match named with
  | some path => (Settings.load fs path).map (·, [])
  | none => .ok (Settings.loadOrStandard fs (Settings.pathBelow root))

/-- Scans a source tree, and goes on with the graph and the settings. -/
def scanning (fs : FileSystem) (root : Path) (named : Option Path)
    (next : Progress → Settings → Graph → Ending) : Ending :=
  let progress := Progress.start fs
  match settingsFor fs root named with
  | .error failure => failed progress failure
  | .ok (settings, lines) =>
    let (result, more) := buildWithLog fs root settings
    let progress := (progress.report lines).report more
    match result with
    | .error failure => failed progress failure
    | .ok connected => next progress settings connected.graph

/-- Builds a graph and keeps it. -/
def runBuild (fs : FileSystem) (root output named : Option Path) : Ending :=
  let root := root.getD fs.workingPath
  scanning fs root named fun progress settings graph =>
    let output := output.getD (root.join (.ofString settings.snapshotName))
    match Snapshot.save progress.files output graph with
    | (.error failure, files) => failed (progress.withFiles files) failure
    | (.ok (), files) =>
      let summary := graph.summary
      let progress := (progress.withFiles files).report [Snapshot.savedLine output graph]
      done
        ((((progress.print ("✓ Dependency graph generated at " ++ toString output)).print
          ("  Files:       " ++ toString summary.files)).print
          ("  Other:       " ++ toString summary.others)).print
          ("  Edges:       " ++ toString summary.edges))

/-- Draws an image beside a drawing, if asked to. -/
def runImage (tool : Option DrawingTool) (progress : Progress) (graph : Graph) (drawing : Path) :
    Ending :=
  let path := drawing.withExtension "png".toList
  match drawImage tool progress.files graph.dot path with
  | (.error failure, files) => failed (progress.withFiles files) failure
  | (.ok (), files) =>
    done ((progress.withFiles files).print ("✓ Graph generated at " ++ toString path))

/-- The name of a drawing that lies beside its snapshot. -/
def drawingName : String :=
  "dependencyGraph.dot"

/-- Draws a snapshot. -/
def runRender (fs : FileSystem) (tool : Option DrawingTool) (snapshot : Path)
    (output : Option Path) (image : Bool) : Ending :=
  let progress := Progress.start fs
  match Snapshot.load fs snapshot with
  | .error failure => failedTo ("cannot load snapshot " ++ toString snapshot) progress failure.chain
  | .ok graph =>
    let path := output.getD (snapshot.withFileName drawingName.toList)
    let progress := progress.report graph.dotLog
    match fs.writeFile path (Utf8.encode graph.dot) with
    | .error cause => failedTo ("cannot write " ++ toString path) progress [cause.message]
    | .ok files =>
      let progress := ((progress.withFiles files).report
        [⟨.info, "DOT written", [("path", toString path)]⟩]).print
          ("✓ Graph written to " ++ toString path)
      if image then runImage tool progress graph path else done progress

/-- Counts what a source tree holds. -/
def runStats (fs : FileSystem) (root named : Option Path) : Ending :=
  scanning fs (root.getD fs.workingPath) named fun progress _ graph =>
    done (progress.print (String.ofList graph.summary.json.pretty))

/-- Runs a command. -/
def run (fs : FileSystem) (tool : Option DrawingTool) : Command → Ending
  | .build root output settings => runBuild fs root output settings
  | .render snapshot output image => runRender fs tool snapshot output image
  | .stats root settings => runStats fs root settings

end Command

/-- What a run of the program shows and leaves behind. -/
structure Outcome where
  exitCode : Nat
  output : String
  /-- The message that ends a failed run. -/
  complaint : String
  log : List LogLine
  files : FileSystem

namespace Outcome

/-- The text of some lines. -/
def ofLines (lines : List String) : String :=
  lines.foldl (fun text line => text ++ line ++ "\n") ""

/-- What the program says about itself. -/
def versionLine : String :=
  "depgraph 0.1.0"

/-- How the program is used. -/
def helpLines : List String :=
  ["Usage: depgraph [-v] COMMAND", "",
    "  build [ROOT] [-o FILE] [-c FILE]        keep the import graph of a source tree",
    "  render [SNAPSHOT] [-o FILE] [--png]     draw a snapshot",
    "  stats [ROOT] [-c FILE]                  count what a source tree holds"]

/-- The outcome of a command. -/
def ofEnding (verbose : Bool) (ending : Ending) : Outcome where
  exitCode := if ending.failure.isSome then 1 else 0
  output := ofLines ending.progress.printed.reverse
  complaint :=
    match ending.failure with
    | some words => "Error: " ++ ": ".intercalate words ++ "\n"
    | none => ""
  log := ending.progress.log.filter (·.isShown verbose)
  files := ending.progress.files

/-- The outcome of arguments that make no command. -/
def ofRefusal (fs : FileSystem) (refusal : Refusal) : Outcome :=
  match refusal with
  | .help => ⟨0, ofLines helpLines, "", [], fs⟩
  | .version => ⟨0, ofLines [versionLine], "", [], fs⟩
  | .usage => ⟨2, "", ofLines ("error: the arguments are not understood" :: helpLines), [], fs⟩

end Outcome

/-- Runs the program with some arguments. -/
def runProgram (fs : FileSystem) (tool : Option DrawingTool) (arguments : List Command.Argument) :
    Outcome :=
  match Invocation.ofArguments arguments with
  | .ok invocation => .ofEnding invocation.verbose (invocation.command.run fs tool)
  | .error refusal => .ofRefusal fs refusal

end ImportAtlas
