import ImportAtlas.Proofs.Command.Run
import ImportAtlas.Proofs.Graph.Build
import ImportAtlas.Proofs.Graph.Findings
import ImportAtlas.Proofs.Graph.Snapshot

/-! # What a run leaves alone

A scan only reads. So counting changes nothing, and neither does a build before it saves: an old snapshot stays
as it is until there is a graph to take its place. Saving writes one file, and makes directories for it. Drawing
writes one file once a snapshot is loaded, unless it has an image made as well.
-/

namespace ImportAtlas

namespace Command

/-- The reasons for which a scan of the tree below a root fails: settings are named that cannot be read or are
malformed, the root is missing or is no directory, or the tree cannot be walked or one of its source files cannot be
read. -/
inductive FailsEarly (fs : FileSystem) (root : Path) (named : Option Path) : Prop
  | unreadableSettings {path : Path} {cause : Cause} (isNamed : named = some path)
      (unreadable : fs.readText path = .error cause)
  | malformedSettings {path : Path} {text : List Char} (isNamed : named = some path)
      (read : fs.readText path = .ok text) (malformed : Settings.read? text = none)
  | missingRoot {cause : Cause} (missing : fs.locate root = .error cause)
  | noDirectory {location : Location} (located : fs.locate root = .ok location)
      (noDirectory : fs.leadsToDirectory (Path.ofNames location) = false)
  | unwalkable {settings : Settings} {lines : List LogLine} {location : Location} {failure : Failure}
      (settled : settingsFor fs root named = .ok (settings, lines)) (located : fs.locate root = .ok location)
      (failed : Workspace.survey ⟨Path.ofNames location, settings⟩ fs = .error failure)
  | unreadableSource {settings : Settings} {lines : List LogLine} {location : Location} {survey : Survey}
      {entry : Id × Node} {cause : Cause} (settled : settingsFor fs root named = .ok (settings, lines))
      (located : fs.locate root = .ok location)
      (surveyed : Workspace.survey ⟨Path.ofNames location, settings⟩ fs = .ok survey) (member : entry ∈ survey.nodes)
      (unreadable : fs.readBytes (survey.filePath entry.2.key) = .error cause)

variable {fs : FileSystem} {root : Path} {named : Option Path}

theorem settingsFor_eq_error_iff {failure : Failure} : settingsFor fs root named = .error failure ↔
    ∃ path, named = some path ∧ Settings.load fs path = .error failure := by
  cases named with
  | none => simp [settingsFor]
  | some path => cases loaded : Settings.load fs path <;> simp [settingsFor, loaded, Except.map]

/-- A settings file cannot be loaded if it cannot be read or what is read makes no settings. -/
theorem exists_load_eq_error_iff {path : Path} : (∃ failure, Settings.load fs path = .error failure) ↔
    (∃ cause, fs.readText path = .error cause) ∨ ∃ text, fs.readText path = .ok text ∧ Settings.read? text = none := by
  rw [Settings.load]
  cases fs.readText path with
  | error cause => simp
  | ok text => cases read : Settings.read? text <;> simp [read]

/-- A scan succeeds unless it fails for one of the reasons. -/
theorem failsEarly_iff :
    FailsEarly fs root named ↔ ∀ settings connected, ¬Scans fs root named settings connected := by
  constructor
  · rintro fails settings connected ⟨⟨lines, settled⟩, built⟩
    obtain ⟨location, survey, located, leads, surveyed, connects⟩ := exists_survey_of_buildGraph built
    cases fails with
    | unreadableSettings isNamed unreadable =>
      obtain ⟨failure, failed⟩ := exists_load_eq_error_iff.mpr (.inl ⟨_, unreadable⟩)
      cases settled.symm.trans (settingsFor_eq_error_iff.mpr ⟨_, isNamed, failed⟩)
    | malformedSettings isNamed read malformed =>
      obtain ⟨failure, failed⟩ := exists_load_eq_error_iff.mpr (.inr ⟨_, read, malformed⟩)
      cases settled.symm.trans (settingsFor_eq_error_iff.mpr ⟨_, isNamed, failed⟩)
    | missingRoot missing => cases located.symm.trans missing
    | noDirectory otherLocated noDirectory =>
      cases located.symm.trans otherLocated
      cases leads.symm.trans noDirectory
    | unwalkable otherSettled otherLocated failed =>
      cases settled.symm.trans otherSettled
      cases located.symm.trans otherLocated
      cases surveyed.symm.trans failed
    | unreadableSource otherSettled otherLocated otherSurveyed member unreadable =>
      cases settled.symm.trans otherSettled
      cases located.symm.trans otherLocated
      cases surveyed.symm.trans otherSurveyed
      obtain ⟨bytes, read⟩ := Survey.exists_connect_eq_ok_iff.mp ⟨_, connects⟩ _ member
      cases read.symm.trans unreadable
  · intro fails
    cases settled : settingsFor fs root named with
    | error failure =>
      obtain ⟨path, isNamed, failed⟩ := settingsFor_eq_error_iff.mp settled
      rcases exists_load_eq_error_iff.mp ⟨failure, failed⟩ with ⟨cause, unreadable⟩ | ⟨text, read, malformed⟩
      · exact .unreadableSettings isNamed unreadable
      · exact .malformedSettings isNamed read malformed
    | ok result =>
      obtain ⟨settings, lines⟩ := result
      cases located : fs.locate root with
      | error cause => exact .missingRoot located
      | ok location =>
        cases leads : fs.leadsToDirectory (Path.ofNames location) with
        | false => exact .noDirectory located leads
        | true =>
          cases surveyed : Workspace.survey ⟨Path.ofNames location, settings⟩ fs with
          | error failure => exact .unwalkable settled located surveyed
          | ok survey =>
            by_contra noReason
            have readable : ∀ entry ∈ survey.nodes,
                ∃ bytes, fs.readBytes (survey.filePath entry.2.key) = .ok bytes := by
              intro entry member
              cases read : fs.readBytes (survey.filePath entry.2.key) with
              | ok bytes => exact ⟨bytes, rfl⟩
              | error cause => exact absurd (.unreadableSource settled located surveyed member read) noReason
            obtain ⟨connected, connects⟩ := Survey.exists_connect_eq_ok_iff.mpr readable
            apply fails settings connected ⟨⟨lines, settled⟩, _⟩
            rw [buildGraph_of_locate located, if_pos leads, surveyed]
            exact connects

/-- A scan that fails has only reported log lines. -/
theorem scanning_of_failsEarly (fails : FailsEarly fs root named) (next : Progress → Settings → Graph → Ending) :
    ∃ words log, scanning fs root named next = ⟨some words, ⟨fs, [], log⟩⟩ := by
  have noScan := failsEarly_iff.mp fails
  rw [scanning]
  cases settled : settingsFor fs root named with
  | error failure => exact ⟨_, _, rfl⟩
  | ok result =>
    obtain ⟨settings, lines⟩ := result
    dsimp only
    cases built : (buildWithLog fs root settings).1 with
    | error failure => exact ⟨_, _, rfl⟩
    | ok connected => exact absurd ⟨⟨lines, settled⟩, built⟩ (noScan settings connected)

/-- What a command leaves alone in a run with some outcome. -/
def LeavesAlone (fs : FileSystem) (outcome : Outcome) : Command → Prop
  | .stats _ _ => outcome.files = fs
  | .build root output named =>
    (FailsEarly fs (root.getD fs.workingPath) named → outcome.exitCode = 1 ∧ outcome.files = fs) ∧
    (outcome.exitCode = 0 → ∃ settings connected target,
      Scans fs (root.getD fs.workingPath) named settings connected ∧
        fs.WritesOnly outcome.files (snapshotPath (root.getD fs.workingPath) output settings)
          (snapshotPath (root.getD fs.workingPath) output settings).parents target)
  | .render snapshot output image =>
    (∀ failure, Snapshot.load fs snapshot = .error failure → outcome.exitCode = 1 ∧ outcome.files = fs) ∧
    (image = false → outcome.files = fs ∨ ∃ target,
      fs.WritesOnly outcome.files (output.getD (snapshot.withFileName drawingName.toList)) [] target)

end Command

open Command

variable {fs : FileSystem} {tool : Option DrawingTool} {arguments : List Argument} {verbose : Bool}
  {output named : Option Path}

/-- A command that scans first ends with one if the scan fails, and leaves all files. -/
theorem outcome_of_failsEarly {root : Path} (fails : FailsEarly fs root named)
    (next : Progress → Settings → Graph → Ending) :
    (Outcome.ofEnding verbose (scanning fs root named next)).exitCode = 1 ∧
      (Outcome.ofEnding verbose (scanning fs root named next)).files = fs := by
  obtain ⟨words, log, failed⟩ := scanning_of_failsEarly fails next
  rw [failed]
  exact ⟨rfl, rfl⟩

theorem runProgram_stats_leavesAlone {root : Option Path}
    (asked : Invocation.ofArguments arguments = .ok ⟨verbose, .stats root named⟩) :
    (runProgram fs tool arguments).files = fs := by
  by_cases fails : FailsEarly fs (root.getD fs.workingPath) named
  · rw [runProgram_of_asked asked]
    exact (outcome_of_failsEarly fails _).2
  · simp only [failsEarly_iff, not_forall, not_not] at fails
    obtain ⟨settings, connected, scans⟩ := fails
    exact (runProgram_of_scans tool asked scans).2.2

theorem runProgram_build_leavesAlone {root : Option Path}
    (asked : Invocation.ofArguments arguments = .ok ⟨verbose, .build root output named⟩) :
    LeavesAlone fs (runProgram fs tool arguments) (.build root output named) := by
  constructor
  · intro fails
    rw [runProgram_of_asked asked]
    exact outcome_of_failsEarly fails _
  · intro success
    obtain ⟨settings, connected, after, builds⟩ := exists_builds_of_exitCode asked success
    obtain ⟨made, makes, written⟩ := Snapshot.exists_makes_of_save builds.saved
    obtain ⟨target, writes⟩ := makes.exists_writesOnly written
    rw [(runProgram_of_builds tool asked builds).2.2]
    exact ⟨settings, connected, target, builds.toScans, writes⟩

theorem runProgram_render_leavesAlone {snapshot : Path} {image : Bool}
    (asked : Invocation.ofArguments arguments = .ok ⟨verbose, .render snapshot output image⟩) :
    LeavesAlone fs (runProgram fs tool arguments) (.render snapshot output image) := by
  cases loaded : Snapshot.load fs snapshot with
  | error failure =>
    have ends : (runProgram fs tool arguments).exitCode = 1 ∧ (runProgram fs tool arguments).files = fs := by
      rw [runProgram_of_asked asked, Command.run, runRender]
      dsimp only
      rw [loaded]
      exact ⟨rfl, rfl⟩
    exact ⟨fun _ _ => ends, fun _ => .inl ends.2⟩
  | ok graph =>
    constructor
    · intro failure failed
      cases loaded.symm.trans failed
    · rintro rfl
      cases written : fs.writeFile (output.getD (snapshot.withFileName drawingName.toList)) (Utf8.encode graph.dot) with
      | error cause =>
        have unchanged : (runProgram fs tool arguments).files = fs := by
          rw [runProgram_of_asked asked, Command.run, runRender]
          dsimp only
          rw [loaded]
          dsimp only
          rw [written]
          rfl
        exact .inl unchanged
      | ok after =>
        obtain ⟨target, writes⟩ := (FileSystem.Makes.refl fs []).exists_writesOnly written
        rw [(runProgram_of_load tool asked loaded written).2]
        exact .inr ⟨target, writes⟩

/-- Whatever arguments the program understands, it leaves alone what their command does not ask it to change. -/
theorem runProgram_leavesAlone (fs : FileSystem) (tool : Option DrawingTool) {arguments : List Command.Argument}
    {invocation : Invocation} (asked : Invocation.ofArguments arguments = .ok invocation) :
    LeavesAlone fs (runProgram fs tool arguments) invocation.command := by
  obtain ⟨verbose, command⟩ := invocation
  cases command with
  | stats root named => exact runProgram_stats_leavesAlone asked
  | build root output named => exact runProgram_build_leavesAlone asked
  | render snapshot output image => exact runProgram_render_leavesAlone asked

/-- A source tree beside a link to a directory elsewhere that holds an old snapshot. -/
def linkedFiles : FileSystem where
  tree := .directory
    [(['w'], .directory [(['p'], .directory [(['a', '.', 'j', 's'], .file [])]), (['o'], .link ⟨['/', 's']⟩)]),
      (['s'], .directory [(['g'], .file [0x7B])])]
  workingDirectory := [['w']]

/-- A build whose snapshot lies beyond the link, in a directory that is missing, writes there; and one whose root is a
file leaves the old snapshot. -/
theorem runProgram_leavesAlone_linkedFiles :
    linkedFiles.WritesOnly (runProgram linkedFiles none (["build", "p", "-o", "o/d/g"].map String.toList)).files
      (.ofString "o/d/g") [.ofString "o/d", .ofString "o"] [['s'], ['d'], ['g']] ∧
    (runProgram linkedFiles none (["build", "p/a.js", "-o", "o/g"].map String.toList)).exitCode = 1 ∧
    (runProgram linkedFiles none (["build", "p/a.js", "-o", "o/g"].map String.toList)).files = linkedFiles := by
  have asked : Invocation.ofArguments (["build", "p", "-o", "o/d/g"].map String.toList) =
      .ok ⟨false, .build (some (.ofString "p")) (some (.ofString "o/d/g")) none⟩ := by decide
  have askedFile : Invocation.ofArguments (["build", "p/a.js", "-o", "o/g"].map String.toList) =
      .ok ⟨false, .build (some (.ofString "p/a.js")) (some (.ofString "o/g")) none⟩ := by decide
  have success : (runProgram linkedFiles none (["build", "p", "-o", "o/d/g"].map String.toList)).exitCode = 0 := by
    decide +kernel
  have located : linkedFiles.locate (.ofString "p/a.js") = .ok [['w'], ['p'], ['a', '.', 'j', 's']] := by
    decide +kernel
  have noDirectory : linkedFiles.leadsToDirectory (Path.ofNames [['w'], ['p'], ['a', '.', 'j', 's']]) = false := by
    decide +kernel
  have leads : ((runProgram linkedFiles none (["build", "p", "-o", "o/d/g"].map String.toList)).files.resolve .follow
      (.ofString "o/d/g")).map Place.location = .ok [['s'], ['d'], ['g']] := by decide +kernel
  obtain ⟨_, _, target, _, writes⟩ := (runProgram_leavesAlone linkedFiles none asked).2 success
  obtain ⟨content, resolved⟩ := writes.denotes
  have same := (congrArg (Except.map Place.location) resolved).symm.trans leads
  obtain rfl : target = [['s'], ['d'], ['g']] := Except.ok.inj same
  exact ⟨writes, (runProgram_leavesAlone linkedFiles none askedFile).1 (.noDirectory located noDirectory)⟩

end ImportAtlas
