import ImportAtlas.Proofs.Command.Run
import ImportAtlas.Proofs.FileSystem.Joining
import ImportAtlas.Proofs.Graph.Rewriting
import ImportAtlas.Proofs.Graph.Snapshot

/-! # Repeated builds settle

A build writes into the tree that it scans. Its first run can add the snapshot to the tree, so that the second
one numbers it and can find it under a specifier. But the settings are the same in every run, the snapshot is no
source file, and from then on it is only written over. So the second run makes the graph of all later runs, and
what it leaves is left by each of them.
-/

namespace ImportAtlas

/-- The snapshot has a file of its own in the root of the source tree. -/
structure Settings.KeepsSnapshotApart (settings : Settings) : Prop where
  single : Path.IsPlain settings.snapshotName.toList
  noSettings : settings.snapshotName ≠ fileName
  noSource : settings.isSource settings.snapshotName.toList = false

/-- The settings that are read depend on what shows of their file. -/
theorem Settings.loadOrStandard_congr {fs other : FileSystem} {path : Path}
    (same : (fs.entryAt .follow path).map Entry.surface = (other.entryAt .follow path).map Entry.surface) :
    loadOrStandard fs path = loadOrStandard other path := by
  rw [loadOrStandard, loadOrStandard, load, load, FileSystem.readText, FileSystem.readText,
    FileSystem.pathExists_of_surface same, FileSystem.readBytes_of_surface same]

/-- Saving a snapshot in a directory that is there is writing its file. -/
theorem Snapshot.save_join_eq_ok_iff {fs after : FileSystem} {root : Path} {holder : Location} {name : Name}
    (passes : fs.Passes .locate (fs.startOf root) root.innerSteps holder) (plain : Path.IsPlain name)
    {graph : Graph} : save fs (root.join ⟨name⟩) graph = (.ok (), after) ↔
      fs.writeFile (root.join ⟨name⟩) (Utf8.encode (text graph)) = .ok after := by
  have writes (accepted : Manner.create.Accepts (root.join ⟨name⟩)) :
      save fs (root.join ⟨name⟩) graph = (.ok (), after) ↔
        fs.writeFile (root.join ⟨name⟩) (Utf8.encode (text graph)) = .ok after := by
    obtain ⟨parent, found, made⟩ := passes.makeDirectories_parent plain accepted
    by_cases empty : parent.chars = []
    · have none : (Option.some parent).filter (fun parent => !parent.chars.isEmpty) = none := by simp [empty]
      cases written : fs.writeFile (root.join ⟨name⟩) (Utf8.encode (text graph)) <;>
        simp [save, found, none, written]
    · have some : (Option.some parent).filter (fun parent => !parent.chars.isEmpty) = some parent := by
        simp [empty]
      cases written : fs.writeFile (root.join ⟨name⟩) (Utf8.encode (text graph)) <;>
        simp [save, found, some, made empty, Except.mapError, written]
  constructor
  · intro saved
    obtain ⟨made, written⟩ := Snapshot.exists_writeFile_of_save saved
    obtain ⟨place, target, resolved, -⟩ := FileSystem.isWritten_of_writeFile written
    exact (writes (FileSystem.accepts_of_resolve resolved)).mp saved
  · intro success
    obtain ⟨place, target, resolved, -⟩ := FileSystem.isWritten_of_writeFile success
    exact (writes (FileSystem.accepts_of_resolve resolved)).mpr success

namespace Command

variable {fs after : FileSystem} {root : Path} {settings : Settings} {connected : Connected} {holder : Location}

/-- A build of a tree without links that keeps its snapshot in a file of its own, in the directory that the root
leads to. -/
structure Rebuilds (fs : FileSystem) (root : Path) (settings : Settings) (connected : Connected)
    (after : FileSystem) (holder : Location) : Prop extends Builds fs root none none settings connected after where
  sound : fs.tree.IsSound
  free : fs.tree.IsLinkFree
  apart : settings.KeepsSnapshotApart
  located : fs.locate root = .ok holder
  here : fs.HasDirectory holder

/-- The text of a graph as the content of a file. -/
def snapshotOf (connected : Connected) : Bytes :=
  Utf8.encode (Snapshot.text connected.graph)

theorem Builds.exists_rebuilds (builds : Builds fs root none none settings connected after)
    (sound : fs.tree.IsSound) (free : fs.tree.IsLinkFree) (apart : settings.KeepsSnapshotApart) :
    ∃ holder, Rebuilds fs root settings connected after holder := by
  obtain ⟨holder, -, located, leads, -⟩ := exists_survey_of_buildGraph builds.built
  obtain ⟨children, here, -⟩ := exists_directory_of_leads sound located leads
  exact ⟨holder, builds, sound, free, apart, located, children, here⟩

namespace Rebuilds

section Step

variable (rebuilds : Rebuilds fs root settings connected after holder)

include rebuilds

theorem passes : fs.Passes .locate (fs.startOf root) root.innerSteps holder :=
  FileSystem.passes_of_locate rebuilds.free rebuilds.located rebuilds.here

/-- The file of the snapshot is written, unless a directory stands in its place. -/
theorem written : Manner.create.Accepts (root.join ⟨settings.snapshotName.toList⟩) ∧
    FileSystem.isTooLong .create holder settings.snapshotName.toList = false ∧
    ¬fs.HasDirectory (holder ++ [settings.snapshotName.toList]) ∧
    fs.put (holder ++ [settings.snapshotName.toList]) (.file (snapshotOf connected)) = after := by
  have plain := rebuilds.apart.single
  have success := (Snapshot.save_join_eq_ok_iff rebuilds.passes plain).mp rebuilds.saved
  exact (rebuilds.passes.writeFile_join_eq_ok_iff plain rebuilds.free).mp success

theorem writes :
    WritesBeside settings fs after holder settings.snapshotName.toList (snapshotOf connected) := by
  obtain ⟨accepted, -, noDirectory, put⟩ := rebuilds.written
  obtain ⟨children, here⟩ := rebuilds.here
  subst put
  have before : fs.get? (holder ++ [settings.snapshotName.toList]) = none ∨
      ∃ old, fs.get? (holder ++ [settings.snapshotName.toList]) = some (.file old) := by
    cases there : fs.get? (holder ++ [settings.snapshotName.toList]) with
    | none => exact .inl rfl
    | some entry =>
      cases entry with
      | file old => exact .inr ⟨old, rfl⟩
      | directory below => exact absurd ⟨below, there⟩ noDirectory
      | link target => exact absurd rfl ((rebuilds.free.of_get? there).ne_link target)
  have names : ∀ name ∈ holder ++ [settings.snapshotName.toList], Entry.IsName name := by
    rw [List.forall_mem_append, List.forall_mem_singleton]
    refine ⟨(rebuilds.sound.of_get? here).2, ?_⟩
    have plain := rebuilds.apart.single
    obtain ⟨glue, joined, -⟩ := Path.exists_chars_join (Path.isAbsolute_of_noSlash plain.noSlash) root
    have noNull := accepted.noNull
    rw [joined, List.mem_append, List.mem_append, not_or, not_or] at noNull
    exact ⟨plain.nonempty, plain.noSlash, noNull.2.2, plain.noDot, plain.noDots⟩
  have written := FileSystem.isWritten_put before
    (Entry.get?_put_in_directory here _ (.file (snapshotOf connected)))
  exact ⟨written, rebuilds.apart.noSource, rebuilds.sound, rebuilds.sound.put (.file _) names, rebuilds.free,
    rebuilds.free.put (.file _) _⟩

/-- What shows of the settings file is not changed. -/
theorem settled_again : ∃ lines, settingsFor after root none = .ok (settings, lines) := by
  obtain ⟨lines, settled⟩ := rebuilds.settled
  refine ⟨lines, ?_⟩
  have writes := rebuilds.writes
  have plain : Path.IsPlain Settings.fileName.toList := ⟨by decide, by decide, by decide, by decide⟩
  have differs : holder ++ [Settings.fileName.toList] ≠ holder ++ [settings.snapshotName.toList] := by
    intro same
    have sameName := (List.cons.inj (List.append_cancel_left same)).1
    exact rebuilds.apart.noSettings (String.toList_injective sameName.symm)
  have passesAfter := rebuilds.passes.mono fun _ => (writes.hasDirectory_iff _).mpr
  rw [← writes.startOf_eq] at passesAfter
  have same : (fs.entryAt .follow (Settings.pathBelow root)).map Entry.surface =
      (after.entryAt .follow (Settings.pathBelow root)).map Entry.surface :=
    rebuilds.passes.entryAt_join_congr plain passesAfter rebuilds.free writes.freeAfter
      (writes.elsewhere _ differs).symm
  rw [← settled, settingsFor, settingsFor, Settings.loadOrStandard_congr same]

/-- After a build, the same command builds again. -/
theorem again_of_built {later : Connected} (built : buildGraph after root settings = .ok later) :
    ∃ afterLater, Rebuilds after root settings later afterLater holder := by
  have writes := rebuilds.writes
  have located := writes.locate_directory rebuilds.free rebuilds.located rebuilds.here
  have here := (writes.hasDirectory_iff _).mpr rebuilds.here
  have passesAfter := FileSystem.passes_of_locate writes.freeAfter located here
  obtain ⟨accepted, short, -⟩ := rebuilds.written
  have noDirectory : ¬after.HasDirectory (holder ++ [settings.snapshotName.toList]) := by
    rintro ⟨children, directory⟩
    cases directory.symm.trans writes.here
  have plain := rebuilds.apart.single
  have saved : Snapshot.save after (root.join ⟨settings.snapshotName.toList⟩) later.graph =
      (.ok (), after.put (holder ++ [settings.snapshotName.toList]) (.file (snapshotOf later))) := by
    rw [Snapshot.save_join_eq_ok_iff passesAfter plain,
      passesAfter.writeFile_join_eq_ok_iff plain writes.freeAfter]
    exact ⟨accepted, short, noDirectory, rfl⟩
  exact ⟨_, ⟨⟨rebuilds.settled_again, built⟩, saved⟩, writes.soundAfter, writes.freeAfter, rebuilds.apart, located,
    here⟩

theorem exists_again : ∃ later afterLater, Rebuilds after root settings later afterLater holder := by
  obtain ⟨later, built⟩ := rebuilds.writes.exists_buildGraph rebuilds.built
  exact ⟨later, rebuilds.again_of_built built⟩

/-- A build that wrote over its snapshot leaves what the next build leaves. -/
theorem again_of_file {old : Bytes}
    (there : fs.get? (holder ++ [settings.snapshotName.toList]) = some (.file old)) :
    Rebuilds after root settings connected after holder := by
  obtain ⟨afterLater, again⟩ := rebuilds.again_of_built (rebuilds.writes.buildGraph_eq there rebuilds.built)
  obtain ⟨-, -, -, put⟩ := again.written
  have unchanged : after.put (holder ++ [settings.snapshotName.toList]) (.file (snapshotOf connected)) = after :=
    congrArg (fun tree => { after with tree := tree }) (Entry.put_of_get? rebuilds.writes.here)
  rwa [← put, unchanged] at again

end Step

variable {tool : Option DrawingTool} {arguments : List Argument} {verbose : Bool} {given : Option Path}

/-- What a run does that builds below the root it is given, or below the working directory. -/
theorem run (rebuilds : Rebuilds fs root settings connected after holder)
    (asked : Invocation.ofArguments arguments = .ok ⟨verbose, .build given none none⟩)
    (below : given.getD fs.workingPath = root) :
    (runProgram fs tool arguments).exitCode = 0 ∧
      (runProgram fs tool arguments).output =
        Outcome.ofLines (builtLines (snapshotPath root none settings) connected.graph.summary) ∧
      (runProgram fs tool arguments).files = after := by
  have builds := rebuilds.toBuilds
  rw [← below] at builds ⊢
  exact runProgram_of_builds tool asked builds

theorem below_again (rebuilds : Rebuilds fs root settings connected after holder)
    (below : given.getD fs.workingPath = root) : given.getD after.workingPath = root := by
  rwa [FileSystem.workingPath, rebuilds.writes.workingDirectory]

end Rebuilds

section Runs

variable {tool : Option DrawingTool} {arguments : List Argument}

/-- The files after some runs of the program with the same arguments. -/
def filesAfter (fs : FileSystem) (tool : Option DrawingTool) (arguments : List Argument) : Nat → FileSystem
  | 0 => fs
  | runs + 1 => (runProgram (filesAfter fs tool arguments runs) tool arguments).files

theorem filesAfter_of_fixed {first second : FileSystem} (once : (runProgram fs tool arguments).files = first)
    (twice : (runProgram first tool arguments).files = second)
    (fixed : (runProgram second tool arguments).files = second) (runs : Nat) :
    filesAfter fs tool arguments (runs + 2) = second := by
  induction runs with
  | zero => rw [filesAfter, filesAfter, filesAfter, once, twice]
  | succ runs ih => rw [filesAfter, ih, fixed]

end Runs

end Command

open Command

/-- If a build of a tree without links ends with zero once, and its snapshot has a file of its own in the root,
then every later run of the same command ends with zero. From the second run on, all runs print the same and
leave the same files, among them the same snapshot. -/
theorem repeated_builds_settle {fs : FileSystem} (sound : fs.tree.IsSound) (free : fs.tree.IsLinkFree)
    {tool : Option DrawingTool} {arguments : List Argument} {verbose : Bool} {root : Option Path}
    (asked : Invocation.ofArguments arguments = .ok ⟨verbose, .build root none none⟩) {settings : Settings}
    (inForce : (Settings.loadOrStandard fs (Settings.pathBelow (root.getD fs.workingPath))).1 = settings)
    (apart : settings.KeepsSnapshotApart) (success : (runProgram fs tool arguments).exitCode = 0) :
    (∀ runs, (runProgram (filesAfter fs tool arguments runs) tool arguments).exitCode = 0) ∧
      ∃ output settled content,
        settled.readBytes (snapshotPath (root.getD fs.workingPath) none settings) = .ok content ∧
        ∀ runs, (runProgram (filesAfter fs tool arguments (runs + 1)) tool arguments).output = output ∧
          filesAfter fs tool arguments (runs + 2) = settled := by
  obtain ⟨others, connected, first, builds⟩ := exists_builds_of_exitCode asked success
  obtain ⟨lines, read⟩ := builds.settled
  obtain rfl : others = settings := (congrArg Prod.fst (Except.ok.inj read)).symm.trans inForce
  obtain ⟨holder, rebuilds⟩ := builds.exists_rebuilds sound free apart
  -- The second run makes a graph of its own, and finds the snapshot of the first one.
  obtain ⟨later, second, again⟩ := rebuilds.exists_again
  have settled := again.again_of_file rebuilds.writes.here
  have belowFirst := rebuilds.below_again rfl
  obtain ⟨-, -, once⟩ := rebuilds.run asked rfl
  obtain ⟨succeeds, prints, twice⟩ := again.run asked belowFirst
  obtain ⟨succeedsLater, printsLater, fixed⟩ := settled.run asked (again.below_again belowFirst)
  have afterFirst : filesAfter fs tool arguments 1 = first := once
  have afterSecond := filesAfter_of_fixed once twice fixed
  refine ⟨?_, (runProgram first tool arguments).output, second, snapshotOf later,
    Snapshot.readBytes_of_save again.saved, ?_⟩
  · intro runs
    rcases runs with _ | _ | runs
    · exact success
    · rwa [Nat.zero_add, afterFirst]
    · rwa [afterSecond]
  · intro runs
    refine ⟨?_, afterSecond runs⟩
    cases runs with
    | zero => rw [Nat.zero_add, afterFirst]
    | succ runs => rw [afterSecond, printsLater, prints]

/-! A file with an import that a second file answers, until the snapshot stands under a name that is tried before
that of this file. -/

def shadowedFiles : FileSystem where
  tree := .directory [("p".toList, .directory
    [(".depgraph.toml".toList, .file (Utf8.encode "resolve_extensions = ['.json', '.js']".toList)),
      ("a.js".toList, .file (Utf8.encode "import d from './dependencyGraph';".toList)),
      ("dependencyGraph.js".toList, .file [])])]
  workingDirectory := []

def shadowedSettings : Settings :=
  { Settings.standard with lookupEndings := [".json", ".js"] }

theorem repeated_builds_settle_of_shadowedFiles :
    (runProgram shadowedFiles none ["build".toList, "p".toList]).exitCode = 0 ∧
      (runProgram shadowedFiles none ["build".toList, "p".toList]).output ≠
        (runProgram (filesAfter shadowedFiles none ["build".toList, "p".toList] 1) none
          ["build".toList, "p".toList]).output ∧
      ∀ runs, (runProgram (filesAfter shadowedFiles none ["build".toList, "p".toList] runs) none
        ["build".toList, "p".toList]).exitCode = 0 := by
  have sound : shadowedFiles.tree.IsSound := by decide +kernel
  have free : shadowedFiles.tree.IsLinkFree := by decide +kernel
  have asked : Invocation.ofArguments ["build".toList, "p".toList] =
      .ok ⟨false, .build (some (.ofString "p")) none none⟩ := by decide +kernel
  have inForce : (Settings.loadOrStandard shadowedFiles (Settings.pathBelow (.ofString "p"))).1 =
      shadowedSettings := by
    decide +kernel
  have apart : shadowedSettings.KeepsSnapshotApart :=
    ⟨⟨by decide, by decide, by decide, by decide⟩, by decide, by decide +kernel⟩
  have success : (runProgram shadowedFiles none ["build".toList, "p".toList]).exitCode = 0 := by decide +kernel
  have differs : (runProgram shadowedFiles none ["build".toList, "p".toList]).output ≠
      (runProgram (filesAfter shadowedFiles none ["build".toList, "p".toList] 1) none
        ["build".toList, "p".toList]).output := by
    decide +kernel
  exact ⟨success, differs, (repeated_builds_settle sound free asked inForce apart success).1⟩

end ImportAtlas
