import ImportAtlas.FileSystem.Cause
import ImportAtlas.Path

/-! # Failures

Everything that can end a scan, the reading of a snapshot or settings, or the drawing of an image.
A specifier that means no file is not among them: it only adds no import.
-/

namespace ImportAtlas

/-- The reasons for which an operation of the program fails. -/
inductive Failure where
  /-- The root of the source tree is missing or no directory. -/
  | rootNotFound (path : Path)
  /-- A file or directory could not be read, written or made. -/
  | file (path : Path) (cause : Cause)
  /-- The source tree below the root could not be listed. -/
  | walk (root : Path)
  /-- A snapshot does not hold a graph. -/
  | snapshot
  /-- A settings file is malformed. -/
  | settings (path : Path)
  /-- The drawing tool failed. -/
  | image (reason : String)
deriving DecidableEq, Repr

namespace Failure

/-- The words for a failure. -/
def message : Failure → String
  | .rootNotFound path =>
    "traversal root not found or not a directory: " ++ toString path
  | .file path cause => "failed to read " ++ toString path ++ ": " ++ cause.message
  | .walk root => "directory walk failed: " ++ toString root
  | .snapshot => "invalid graph snapshot"
  | .settings path => "invalid config " ++ toString path
  | .image reason => "render failed: " ++ reason

/-- The words for a failure, followed by those for what caused it. -/
def chain (failure : Failure) : List String :=
  match failure with
  | .file _ cause => [failure.message, cause.message]
  | _ => [failure.message]

end Failure

end ImportAtlas
