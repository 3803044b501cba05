import ImportAtlas.Command.Run

/-! # What a successful run has done

A run succeeds just if each of its stages does: the settings are read, the graph is built, the snapshot is
saved. What it prints and what it leaves behind can be told from the results of these stages. Counting goes
through the first two of them only and changes no file.
-/

namespace ImportAtlas

variable {fs : FileSystem} {tool : Option DrawingTool} {arguments : List Command.Argument} {verbose : Bool}

theorem runProgram_of_asked {invocation : Invocation} (asked : Invocation.ofArguments arguments = .ok invocation) :
    runProgram fs tool arguments = .ofEnding invocation.verbose (invocation.command.run fs tool) := by
  rw [runProgram, asked]

/-- A command that did not fail ends the program with zero. -/
theorem Outcome.exitCode_ofEnding {ending : Ending} :
    (Outcome.ofEnding verbose ending).exitCode = 0 ↔ ending.failure = none := by
  rw [Outcome.ofEnding]
  cases ending.failure <;> simp

namespace Command

/-- The path of the snapshot that a build writes. -/
def snapshotPath (root : Path) (output : Option Path) (settings : Settings) : Path :=
  output.getD (root.join (.ofString settings.snapshotName))

/-- What a build prints about its graph. -/
def builtLines (snapshot : Path) (summary : Summary) : List String :=
  ["✓ Dependency graph generated at " ++ toString snapshot, "  Files:       " ++ toString summary.files,
    "  Other:       " ++ toString summary.others, "  Edges:       " ++ toString summary.edges]

/-- The stages of a scan that succeeds. -/
structure Scans (fs : FileSystem) (root : Path) (named : Option Path) (settings : Settings)
    (connected : Connected) : Prop where
  settled : ∃ lines, settingsFor fs root named = .ok (settings, lines)
  built : buildGraph fs root settings = .ok connected

/-- The stages of a build that succeeds: a scan, and a snapshot of its graph that is saved. -/
structure Builds (fs : FileSystem) (root : Path) (output named : Option Path) (settings : Settings)
    (connected : Connected) (after : FileSystem) : Prop extends Scans fs root named settings connected where
  saved : Snapshot.save fs (snapshotPath root output settings) connected.graph = (.ok (), after)

variable {root : Path} {output named : Option Path} {settings : Settings} {connected : Connected}
  {after : FileSystem} {next : Progress → Settings → Graph → Ending}

/-- After a scan that succeeds, only log lines have been reported. -/
theorem Scans.scanning_eq (scans : Scans fs root named settings connected)
    (next : Progress → Settings → Graph → Ending) :
    ∃ log, scanning fs root named next = next ⟨fs, [], log⟩ settings connected.graph := by
  obtain ⟨⟨lines, settled⟩, built⟩ := scans
  refine ⟨lines ++ (buildWithLog fs root settings).2, ?_⟩
  rw [buildGraph] at built
  rw [scanning, settled]
  dsimp only
  rw [built]
  rfl

theorem exists_scans_of_scanning (success : (scanning fs root named next).failure = none) :
    ∃ settings connected, Scans fs root named settings connected := by
  rw [scanning] at success
  dsimp only at success
  split at success
  case h_1 => cases success
  case h_2 settings lines settled =>
    split at success
    case h_1 => cases success
    case h_2 connected built => exact ⟨settings, connected, ⟨lines, settled⟩, built⟩

end Command

open Command

variable {root output named : Option Path} {settings : Settings} {connected : Connected} {after : FileSystem}

/-- A build whose stages succeed ends with zero, prints the counts of its graph and leaves the snapshot. -/
theorem runProgram_of_builds (tool : Option DrawingTool)
    (asked : Invocation.ofArguments arguments = .ok ⟨verbose, .build root output named⟩)
    (builds : Builds fs (root.getD fs.workingPath) output named settings connected after) :
    (runProgram fs tool arguments).exitCode = 0 ∧
      (runProgram fs tool arguments).output = Outcome.ofLines
        (builtLines (snapshotPath (root.getD fs.workingPath) output settings) connected.graph.summary) ∧
      (runProgram fs tool arguments).files = after := by
  have saved := builds.saved
  rw [snapshotPath] at saved
  rw [runProgram_of_asked asked, Command.run, runBuild]
  obtain ⟨log, scanned⟩ := builds.scanning_eq _
  rw [scanned]
  dsimp only
  rw [saved]
  exact ⟨rfl, rfl, rfl⟩

/-- A build that ends with zero has gone through all of its stages. -/
theorem exists_builds_of_exitCode
    (asked : Invocation.ofArguments arguments = .ok ⟨verbose, .build root output named⟩)
    (success : (runProgram fs tool arguments).exitCode = 0) :
    ∃ settings connected after,
      Builds fs (root.getD fs.workingPath) output named settings connected after := by
  rw [runProgram_of_asked asked, Outcome.exitCode_ofEnding, Command.run, runBuild] at success
  obtain ⟨settings, connected, scans⟩ := exists_scans_of_scanning success
  obtain ⟨log, scanned⟩ := scans.scanning_eq _
  rw [scanned] at success
  dsimp only at success
  split at success
  case h_1 => cases success
  case h_2 after saved => exact ⟨settings, connected, after, scans, saved⟩

/-- A count whose scan succeeds ends with zero, prints the counts of the graph and leaves all files. -/
theorem runProgram_of_scans (tool : Option DrawingTool)
    (asked : Invocation.ofArguments arguments = .ok ⟨verbose, .stats root named⟩)
    (scans : Scans fs (root.getD fs.workingPath) named settings connected) :
    (runProgram fs tool arguments).exitCode = 0 ∧
      (runProgram fs tool arguments).output =
        Outcome.ofLines [String.ofList connected.graph.summary.json.pretty] ∧
      (runProgram fs tool arguments).files = fs := by
  rw [runProgram_of_asked asked, Command.run, runStats]
  obtain ⟨log, scanned⟩ := scans.scanning_eq _
  rw [scanned]
  exact ⟨rfl, rfl, rfl⟩

/-- A snapshot that is loaded is drawn to a path that can be written. -/
theorem runProgram_of_load (tool : Option DrawingTool) {snapshot : Path} {graph : Graph}
    (asked : Invocation.ofArguments arguments = .ok ⟨verbose, .render snapshot output false⟩)
    (loaded : Snapshot.load fs snapshot = .ok graph)
    (written : fs.writeFile (output.getD (snapshot.withFileName drawingName.toList)) (Utf8.encode graph.dot) =
      .ok after) :
    (runProgram fs tool arguments).exitCode = 0 ∧ (runProgram fs tool arguments).files = after := by
  have drawn : (runRender fs tool snapshot output false).failure = none ∧
      (runRender fs tool snapshot output false).progress.files = after := by
    rw [runRender]
    dsimp only
    rw [loaded]
    dsimp only
    rw [written]
    exact ⟨rfl, rfl⟩
  rw [runProgram_of_asked asked, Command.run]
  exact ⟨Outcome.exitCode_ofEnding.mpr drawn.1, drawn.2⟩

end ImportAtlas
