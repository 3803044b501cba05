import ImportAtlas.Proofs.Command.Run
import ImportAtlas.Proofs.FileSystem.SameFile

/-! # What a drawn graph is found as

A run that draws a snapshot writes the drawing first and has an image of it made afterwards. If the drawing tool
writes nothing but its image, the drawing is left as it was written, unless the path of the image leads to the same
file. Without links it does so just if the drawing has the extension of images itself, and then the image is all
that is left.
-/

namespace ImportAtlas

/-- The tool changes nothing, or writes a file at the path that it is given for the image. -/
def DrawingTool.WritesItsImage (tool : DrawingTool) : Prop :=
  ∀ (path : Path) (input : Bytes) (fs : FileSystem),
    let run := tool ["-Tpng", "-o", toString path] input fs
    run.files = fs ∨ ∃ image, fs.writeFile path image = .ok run.files

/-- Whatever comes of it, drawing an image leaves all files or writes the image. -/
theorem files_of_drawImage {tool : Option DrawingTool} (writes : ∀ drawingTool ∈ tool, drawingTool.WritesItsImage)
    (fs : FileSystem) (drawing : List Char) (path : Path) :
    (drawImage tool fs drawing path).2 = fs ∨
      ∃ image, fs.writeFile path image = .ok (drawImage tool fs drawing path).2 := by
  unfold drawImage
  split
  · exact .inl rfl
  cases tool with
  | none => exact .inl rfl
  | some tool =>
    have either := writes tool rfl path (Utf8.encode drawing) fs
    dsimp only
    split
    · exact either
    · split <;> exact either

namespace Command

/-- The extension of images. -/
def imageExtension : Name :=
  "png".toList

/-- The path of the drawing that a snapshot is drawn to. -/
def drawingPath (snapshot : Path) (output : Option Path) : Path :=
  output.getD (snapshot.withFileName drawingName.toList)

/-- The path of the image of a drawing. -/
def imagePath (drawing : Path) : Path :=
  drawing.withExtension imageExtension

/-- What a run that draws a graph prints. -/
def drawnLines (drawing : Path) (image : Bool) : List String :=
  ("✓ Graph written to " ++ toString drawing) ::
    if image then ["✓ Graph generated at " ++ toString (imagePath drawing)] else []

/-- The stages of a run that draws a snapshot and succeeds. -/
structure Renders (fs : FileSystem) (tool : Option DrawingTool) (snapshot drawing : Path) (image : Bool)
    (graph : Graph) (drawn after : FileSystem) : Prop where
  loaded : Snapshot.load fs snapshot = .ok graph
  written : fs.writeFile drawing (Utf8.encode graph.dot) = .ok drawn
  finished : if image then drawImage tool drawn graph.dot (imagePath drawing) = (.ok (), after) else after = drawn

/-- An image that was asked for is drawn from the files as they are then. -/
theorem exists_drawImage_of_runImage {tool : Option DrawingTool} {progress : Progress} {graph : Graph}
    {drawing : Path} (success : (runImage tool progress graph drawing).failure = none) :
    ∃ after, drawImage tool progress.files graph.dot (imagePath drawing) = (.ok (), after) ∧
      runImage tool progress graph drawing =
        done ((progress.withFiles after).print ("✓ Graph generated at " ++ toString (imagePath drawing))) := by
  rw [runImage, ← imageExtension, ← imagePath] at success ⊢
  split at success
  case h_1 => cases success
  case h_2 after made =>
    rw [made]
    exact ⟨after, rfl, rfl⟩

end Command

open Command

variable {fs after : FileSystem} {tool : Option DrawingTool} {arguments : List Argument} {verbose image : Bool}
  {snapshot : Path} {output : Option Path}

/-- A run that draws a snapshot and ends with zero has gone through all of its stages. -/
theorem exists_renders_of_exitCode
    (asked : Invocation.ofArguments arguments = .ok ⟨verbose, .render snapshot output image⟩)
    (success : (runProgram fs tool arguments).exitCode = 0) :
    ∃ graph drawn, Renders fs tool snapshot (drawingPath snapshot output) image graph drawn
        (runProgram fs tool arguments).files ∧
      (runProgram fs tool arguments).output = Outcome.ofLines (drawnLines (drawingPath snapshot output) image) := by
  rw [runProgram_of_asked asked] at success ⊢
  have ended := Outcome.exitCode_ofEnding.mp success
  clear success
  rw [Command.run, runRender] at ended ⊢
  dsimp only at ended ⊢
  rw [← drawingPath] at ended ⊢
  cases loaded : Snapshot.load fs snapshot with
  | error failure =>
    rw [loaded] at ended
    cases ended
  | ok graph =>
    rw [loaded] at ended
    dsimp only at ended ⊢
    cases written : fs.writeFile (drawingPath snapshot output) (Utf8.encode graph.dot) with
    | error cause =>
      rw [written] at ended
      cases ended
    | ok drawn =>
      rw [written] at ended
      dsimp only at ended ⊢
      cases image with
      | false => exact ⟨graph, drawn, ⟨loaded, written, rfl⟩, rfl⟩
      | true =>
        rw [if_pos rfl] at ended ⊢
        obtain ⟨after, made, ending⟩ := exists_drawImage_of_runImage ended
        rw [ending]
        exact ⟨graph, drawn, ⟨loaded, written, made⟩, rfl⟩

/-- A run that draws a snapshot and ends with zero leaves the drawing of its graph at the path that it prints. If an
image was drawn as well, the drawing may be gone, and then the path leads to the file of the image. Where neither
path ends in a link, this is so just if they are the same path: if the drawing is called as an image is. -/
theorem render_leaves_drawing (writes : ∀ drawingTool ∈ tool, drawingTool.WritesItsImage)
    (asked : Invocation.ofArguments arguments = .ok ⟨verbose, .render snapshot output image⟩)
    (success : (runProgram fs tool arguments).exitCode = 0) :
    let path := drawingPath snapshot output
    let after := (runProgram fs tool arguments).files
    ∃ graph, Snapshot.load fs snapshot = .ok graph ∧
      (runProgram fs tool arguments).output = Outcome.ofLines (drawnLines path image) ∧
      (after.readBytes path = .ok (Utf8.encode graph.dot) ∨
        image = true ∧ after.SameFile path (imagePath path) ∧
          ∃ drawn bytes, fs.writeFile path (Utf8.encode graph.dot) = .ok drawn ∧
            drawn.writeFile (imagePath path) bytes = .ok after ∧ after.readBytes path = .ok bytes) ∧
      (after.isPlainFile path = true → after.isPlainFile (imagePath path) = true →
        (after.SameFile path (imagePath path) ↔ imagePath path = path)) ∧
      (imagePath path = path ↔
        ∃ stem, stem ≠ [] ∧ stem ≠ ['.'] ∧ path.fileName? = some (stem ++ '.' :: imageExtension)) := by
  obtain ⟨graph, drawn, renders, printed⟩ := exists_renders_of_exitCode asked success
  dsimp only
  generalize (runProgram fs tool arguments).files = after at renders ⊢
  generalize drawingPath snapshot output = path at renders printed ⊢
  obtain ⟨place, target, resolved, there, isWritten⟩ := FileSystem.isWritten_of_writeFile renders.written
  have leads := isWritten.resolve resolved there
  obtain ⟨steps, name, asks⟩ := FileSystem.exists_steps_of_file leads
  refine ⟨graph, renders.loaded, printed, ?drawing, FileSystem.sameFile_withExtension_iff (by decide),
    Path.withExtension_eq_self_iff asks (by decide)⟩
  have finished := renders.finished
  cases image with
  | false =>
    obtain rfl : after = drawn := finished
    exact .inl (FileSystem.readBytes_of_writeFile renders.written)
  | true =>
    have made : drawImage tool drawn graph.dot (imagePath path) = (.ok (), after) := finished
    have either := files_of_drawImage writes drawn graph.dot (imagePath path)
    rw [made] at either
    rcases either with rfl | ⟨bytes, overwritten⟩
    · exact .inl (FileSystem.readBytes_of_writeFile renders.written)
    · refine (FileSystem.readBytes_of_other_write leads overwritten).imp_right ?_
      rintro ⟨same, read⟩
      exact ⟨rfl, same, drawn, bytes, renders.written, overwritten, read⟩

/-- A tool that keeps its arguments and its input, one after another, as the image. -/
def copyingTool : DrawingTool := fun arguments input fs =>
  match arguments with
  | [_, _, path] =>
    let lines := Utf8.encode (arguments.flatMap fun argument => argument.toList ++ ['\n'])
    match fs.writeFile (.ofString path) (lines ++ input) with
    | .ok files => ⟨true, 0, [], files⟩
    | .error _ => ⟨true, 0, [], fs⟩
  | _ => ⟨true, 0, [], fs⟩

theorem writesItsImage_copyingTool : copyingTool.WritesItsImage := by
  intro path input fs
  have spelled : Path.ofString (toString path) = path := congrArg Path.mk (String.toList_ofList)
  rw [copyingTool]
  dsimp only
  rw [spelled]
  split
  case h_1 files written => exact .inr ⟨_, written⟩
  case h_2 => exact .inl rfl

/-- A file system that holds the snapshot of an empty tree. -/
def emptySnapshot : FileSystem :=
  .holding [['g']] (Utf8.encode (Snapshot.text Graph.empty))

/-- A run that draws the snapshot, and an image as well. -/
def imageRun (drawing : String) : Outcome :=
  runProgram emptySnapshot (some copyingTool) (["render", "g", "-o", drawing, "--png"].map String.toList)

/-- The image is drawn beside the drawing. -/
theorem render_leaves_drawing_of_emptySnapshot :
    (imageRun "x.dot").exitCode = 0 ∧
    (imageRun "x.dot").files.isPlainFile (.ofString "x.dot") = true ∧
    (imageRun "x.dot").files.isPlainFile (.ofString "x.png") = true ∧
    (imageRun "x.dot").files.readBytes (.ofString "x.dot") = .ok (Utf8.encode Graph.empty.dot) := by
  have writes : ∀ drawingTool ∈ some copyingTool, drawingTool.WritesItsImage := by
    rintro _ ⟨rfl⟩
    exact writesItsImage_copyingTool
  have asked : Invocation.ofArguments (["render", "g", "-o", "x.dot", "--png"].map String.toList) =
      .ok ⟨false, .render (.ofString "g") (some (.ofString "x.dot")) true⟩ := by decide
  have success : (imageRun "x.dot").exitCode = 0 := by decide +kernel
  have plain : (imageRun "x.dot").files.isPlainFile (.ofString "x.dot") = true := by decide +kernel
  have imagePlain : (imageRun "x.dot").files.isPlainFile (.ofString "x.png") = true := by decide +kernel
  have loaded : Snapshot.load emptySnapshot (.ofString "g") = .ok Graph.empty := by decide +kernel
  refine ⟨success, plain, imagePlain, ?_⟩
  obtain ⟨graph, loadedGraph, -, drawing, sameFile, -⟩ := render_leaves_drawing writes asked success
  cases loaded.symm.trans loadedGraph
  rcases drawing with kept | ⟨-, same, -⟩
  · exact kept
  · have samePath := (sameFile plain imagePlain).mp same
    revert samePath
    decide

/-- A drawing with the extension of images is gone after a run that ends with zero. -/
theorem render_loses_drawing :
    (imageRun "x.png").exitCode = 0 ∧
    (imageRun "x.png").output = Outcome.ofLines ["✓ Graph written to x.png", "✓ Graph generated at x.png"] ∧
    Snapshot.load emptySnapshot (.ofString "g") = .ok Graph.empty ∧
    (imageRun "x.png").files.readBytes (.ofString "x.png") ≠ .ok (Utf8.encode Graph.empty.dot) := by
  refine ⟨?_, ?_, ?_, ?_⟩ <;> decide +kernel

end ImportAtlas
