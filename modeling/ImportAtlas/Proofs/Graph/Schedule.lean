import ImportAtlas.Proofs.Graph.Findings
import ImportAtlas.Proofs.Graph.Survey
import Mathlib.Logic.Relation

/-! # Reading the files of a survey in any order

Several files can be read at the same time, and their results come in whatever order the readings
end. A `Scanning` is such a scan between two readings: any waiting file may be the next, the first
file that cannot be read ends the scan, and the results may be recorded in yet another order. No
order changes the graph, because each result changes one node and no two of them the same.

`connect_under_every_schedule` compares every way in which such a scan can end with the scan that
reads the files by number, and says what that one comes to.
-/

namespace ImportAtlas

/-- A scan of some files between two readings. -/
structure Scanning where
  /-- The files that have not been read yet. -/
  waiting : List (Id × Node)
  /-- What the other files came to, in the order in which they were read. -/
  results : List (Id × Findings)

namespace Survey

/-- One of the waiting files is read. -/
inductive Reads (survey : Survey) (fs : FileSystem) : Scanning → Scanning → Prop
  | file {before after : List (Id × Node)} {entry : Id × Node} {results : List (Id × Findings)}
      {result : Id × Findings} (scanned : survey.scanEntry fs entry = .ok result) :
      Reads survey fs ⟨before ++ entry :: after, results⟩ ⟨before ++ after, results ++ [result]⟩

/-- Some of the waiting files are read, one after the other. -/
abbrev Runs (survey : Survey) (fs : FileSystem) : Scanning → Scanning → Prop :=
  Relation.ReflTransGen (survey.Reads fs)

/-- The ways in which a scan of all files can end: with all results, recorded in any order, or with
the failure of a file that could not be read. -/
inductive Ends (survey : Survey) (fs : FileSystem) : Except Failure Connected → Prop
  | complete {results recorded : List (Id × Findings)} (run : survey.Runs fs ⟨survey.nodes, []⟩ ⟨[], results⟩)
      (order : recorded.Perm results) : Ends survey fs (.ok (survey.assemble recorded))
  | failed {state : Scanning} {entry : Id × Node} {failure : Failure}
      (run : survey.Runs fs ⟨survey.nodes, []⟩ state) (waits : entry ∈ state.waiting)
      (unreadable : survey.scanEntry fs entry = .error failure) : Ends survey fs (.error failure)

variable {survey : Survey} {fs : FileSystem}

/-- Between two readings, the files that were read and those that wait are the files of the survey, and
the results are those of the files that were read. -/
def Accounts (survey : Survey) (fs : FileSystem) (state : Scanning) : Prop :=
  ∃ read : List (Id × Node), (read ++ state.waiting).Perm survey.nodes ∧
    survey.Scanned fs read state.results

theorem Reads.accounts {state next : Scanning} (reads : survey.Reads fs state next)
    (accounts : survey.Accounts fs state) : survey.Accounts fs next := by
  obtain ⟨read, same, scanned⟩ := accounts
  cases reads with
  | @file before after entry results result scannedNow =>
    refine ⟨read ++ [entry], ?_, List.rel_append scanned (.cons scannedNow .nil)⟩
    rw [List.append_assoc, List.singleton_append]
    exact (List.perm_middle.symm.append_left read).trans same

theorem Runs.accounts {state : Scanning} (run : survey.Runs fs ⟨survey.nodes, []⟩ state) :
    survey.Accounts fs state := by
  induction run with
  | refl => exact ⟨[], .refl _, .nil⟩
  | tail _ reads ih => exact reads.accounts ih

/-- A scan that reads the waiting files in some order comes to an end: with all results if every one of
them can be read, and with the first failure in that order otherwise. -/
theorem ends_in_order {state : Scanning} (run : survey.Runs fs ⟨survey.nodes, []⟩ state)
    {order : List (Id × Node)} (same : order.Perm state.waiting) :
    survey.Ends fs ((order.mapM (survey.scanEntry fs)).map fun results =>
      survey.assemble (state.results ++ results)) := by
  induction order generalizing state with
  | nil =>
    obtain ⟨waiting, results⟩ := state
    cases List.nil_perm.mp same
    exact .complete run (by simp)
  | cons entry rest ih =>
    obtain ⟨waiting, results⟩ := state
    have waits : entry ∈ waiting := same.mem_iff.mp List.mem_cons_self
    rw [List.mapM_cons]
    cases scanned : survey.scanEntry fs entry with
    | error failure => exact .failed run waits scanned
    | ok result =>
      obtain ⟨before, after, rfl⟩ := List.append_of_mem waits
      have others : rest.Perm (before ++ after) := (same.trans List.perm_middle).cons_inv
      have ended := ih (run.tail (.file scanned)) others
      cases later : rest.mapM (survey.scanEntry fs) with
      | error failure => simpa [later, Except.map, bind, Except.bind] using ended
      | ok found => simpa [later, Except.map, bind, Except.bind, pure, Except.pure] using ended

theorem ends_ok {connected : Connected} (unique : Table.HasUniqueKeys survey.nodes)
    (ends : survey.Ends fs (.ok connected)) : survey.connect fs = .ok connected := by
  cases ends with
  | @complete results recorded run order =>
    obtain ⟨read, same, scanned⟩ := run.accounts
    rw [List.append_nil] at same
    obtain ⟨found, byNumber, arranged⟩ := List.perm_comp_forall₂ same.symm scanned
    have uniqueFound := hasUniqueKeys_of_scanned unique byNumber
    have all : survey.scanAll fs = .ok found := mapM_eq_ok_iff.mpr byNumber
    rw [connect, all]
    exact congrArg Except.ok (survey.assemble_perm (arranged.trans order.symm) uniqueFound)

theorem ends_error_iff {failure : Failure} :
    survey.Ends fs (.error failure) ↔ ∃ entry ∈ survey.nodes, survey.scanEntry fs entry = .error failure := by
  constructor
  · intro ends
    cases ends with
    | @failed state entry failure run waits unreadable =>
      obtain ⟨read, same, _⟩ := run.accounts
      exact ⟨entry, same.mem_iff.mp (List.mem_append_right read waits), unreadable⟩
  · rintro ⟨entry, member, unreadable⟩
    exact .failed .refl member unreadable

/-- A scan that reads several files at once ends as the scan by number does. Every order of the files is
a way in which it can end; however it ends, it has a graph exactly if the scan by number has, and the same
one. There is a graph exactly if every file can be read, and then it describes the files; otherwise the
scan ends with a failure that names a file that cannot be read. -/
theorem connect_under_every_schedule {workspace : Workspace} {earlier : FileSystem} {survey : Survey}
    (surveyed : workspace.survey earlier = .ok survey) (fs : FileSystem) :
    (∀ order : List (Id × Node), order.Perm survey.nodes →
      survey.Ends fs ((order.mapM (survey.scanEntry fs)).map survey.assemble)) ∧
    (∀ outcome, survey.Ends fs outcome →
      ∀ connected, outcome = .ok connected ↔ survey.connect fs = .ok connected) ∧
    ((∃ connected, survey.connect fs = .ok connected) ↔
      ∀ entry ∈ survey.nodes, ∃ bytes, fs.readBytes (survey.filePath entry.2.key) = .ok bytes) ∧
    (∀ connected, survey.connect fs = .ok connected → survey.Describes fs connected) ∧
    (∀ failure, survey.Ends fs (.error failure) → ∃ entry ∈ survey.nodes, ∃ cause,
      fs.readBytes (survey.filePath entry.2.key) = .error cause ∧
        failure = .file (survey.filePath entry.2.key) cause) := by
  have unique := (Workspace.survey_nodes_sorted surveyed).hasUniqueKeys
  refine ⟨?every, ?same, exists_connect_eq_ok_iff, ?describes, ?names⟩
  case every =>
    intro order same
    have unread : survey.Runs fs ⟨survey.nodes, []⟩ ⟨survey.nodes, []⟩ := .refl
    exact ends_in_order unread same
  case same =>
    intro outcome ends connected
    constructor
    · rintro rfl
      exact ends_ok unique ends
    · intro success
      cases outcome with
      | ok other => rw [← success, ends_ok unique ends]
      | error failure =>
        obtain ⟨entry, member, unreadable⟩ := ends_error_iff.mp ends
        obtain ⟨cause, unreadable, _⟩ := scanEntry_eq_error_iff.mp unreadable
        obtain ⟨bytes, read⟩ := exists_connect_eq_ok_iff.mp ⟨connected, success⟩ entry member
        rw [read] at unreadable
        cases unreadable
  case describes =>
    intro connected success
    obtain ⟨results, rfl, scanned⟩ := connect_eq_ok_iff.mp success
    exact describes_of_scanned unique scanned
  case names =>
    intro failure ends
    obtain ⟨entry, member, unreadable⟩ := ends_error_iff.mp ends
    exact ⟨entry, member, scanEntry_eq_error_iff.mp unreadable⟩

/-- The graph of the small tree whose two files import each other. -/
def pairConnected : Connected where
  graph :=
    { ids := [("a.js", 1), ("b.js", 2)]
      levels := [(1, 0), (2, 0)]
      nodes :=
        [(1, { Node.fresh 1 "a.js" 0 none none with imports := [2, 1], reach := [1, 2] }),
          (2, { Node.fresh 2 "b.js" 0 none none with imports := [1], reach := [2, 1] })] }
  unresolved := 1

/-- However the two files are read, they make one graph; and if one of them has become a link that leads
nowhere, every scan fails and names it. -/
theorem connect_under_every_schedule_of_pair :
    pairWorkspace.survey (pairFiles (.file [])) = .ok pairSurvey ∧
    (∀ outcome, pairSurvey.Ends (pairFiles backImport) outcome → outcome = .ok pairConnected) ∧
    (∀ outcome, pairSurvey.Ends (pairFiles (.link (.ofString "gone"))) outcome →
      outcome = .error (.file (.ofString "/p/b.js") .notFound)) := by
  have surveyed : pairWorkspace.survey (pairFiles (.file [])) = .ok pairSurvey := by decide +kernel
  refine ⟨surveyed, ?_, ?_⟩
  · intro outcome ends
    obtain ⟨_, same, _⟩ := connect_under_every_schedule surveyed (pairFiles backImport)
    apply (same outcome ends _).mpr
    decide +kernel
  · intro outcome ends
    obtain ⟨_, same, _, _, named⟩ := connect_under_every_schedule surveyed
      (pairFiles (.link (.ofString "gone")))
    cases outcome with
    | ok connected =>
      have impossible : pairSurvey.connect (pairFiles (.link (.ofString "gone"))) =
          .error (.file (.ofString "/p/b.js") .notFound) := by decide +kernel
      have success := (same _ ends connected).mp rfl
      rw [impossible] at success
      cases success
    | error failure =>
      obtain ⟨entry, member, cause, unreadable, rfl⟩ := named failure ends
      have readable : (pairFiles (.link (.ofString "gone"))).readBytes (pairSurvey.filePath "a.js") =
          .ok frontImports := by decide +kernel
      have gone : (pairFiles (.link (.ofString "gone"))).readBytes (pairSurvey.filePath "b.js") =
          .error .notFound := by decide +kernel
      rcases List.mem_cons.mp member with rfl | member
      · cases readable.symm.trans unreadable
      · obtain rfl := List.mem_singleton.mp member
        cases gone.symm.trans unreadable
        rfl

end Survey

end ImportAtlas
