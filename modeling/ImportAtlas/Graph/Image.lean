import ImportAtlas.Failure
import ImportAtlas.FileSystem.Operations
import ImportAtlas.Text.Blank
import ImportAtlas.Text.Utf8

/-! # Images

An image is drawn by a separate tool, which is given its arguments and a drawing in the DOT language
on its input. The tool may change files. It may also end without reading its input, and then the
drawing cannot be handed over.
-/

namespace ImportAtlas

/-- How a run of the drawing tool ended. -/
structure ToolRun where
  /-- Whether it read all of its input. -/
  readInput : Bool
  exitCode : Nat
  /-- What it wrote about the run. -/
  messages : Bytes
  /-- The files after the run. -/
  files : FileSystem

/-- A drawing tool: what a run with some arguments and an input does to some files. -/
abbrev DrawingTool := List String → Bytes → FileSystem → ToolRun

/-- The failure to start the drawing tool. -/
def cannotRun (cause : Cause) : Failure :=
  .image ("failed to run 'dot' (is Graphviz installed?): " ++ cause.message)

/-- The failure to hand the drawing over to the tool. -/
def cannotFeed : Failure :=
  .image ("failed to feed 'dot': " ++ Cause.brokenPipe.message)

/-- The failure of the tool itself, which its messages give the reason for. -/
def toolFailed (messages : Bytes) : Failure :=
  .image (String.ofList (Text.trim (Utf8.decodeLossy messages)))

/-- Draws an image of a drawing, and keeps it at a path. The tool has failed if it ends with another
code than zero. -/
def drawImage (tool : Option DrawingTool) (fs : FileSystem) (drawing : List Char) (path : Path) :
    Except Failure Unit × FileSystem :=
  if '\x00' ∈ path.chars then (.error (cannotRun .nullInArgument), fs)
  else
    match tool with
    | none => (.error (cannotRun .notFound), fs)
    | some tool =>
      let run := tool ["-Tpng", "-o", toString path] (Utf8.encode drawing) fs
      if !run.readInput then (.error cannotFeed, run.files)
      else if run.exitCode = 0 then (.ok (), run.files)
      else (.error (toolFailed run.messages), run.files)

end ImportAtlas
