import ImportAtlas.Graph.Survey
import ImportAtlas.Proofs.Graph.Table

/-! # What surveys keep

Every visit keeps the settings of a survey and the order of its nodes. A survey that
succeeds has visited the entries below the place that the root led to when the survey was made.
-/

namespace ImportAtlas

namespace Survey

@[simp] theorem visit_settings (survey : Survey) (visit : Visit) :
    (survey.visit visit).settings = survey.settings := by
  simp only [Survey.visit]
  split <;> rfl

theorem foldl_visit_settings (survey : Survey) (visits : List Visit) :
    (visits.foldl Survey.visit survey).settings = survey.settings := by
  induction visits generalizing survey with
  | nil => rfl
  | cons visit rest ih => rw [List.foldl_cons, ih, visit_settings]

@[simp] theorem visit_root (survey : Survey) (visit : Visit) : (survey.visit visit).root = survey.root := by
  simp only [Survey.visit]
  split <;> rfl

theorem foldl_visit_root (survey : Survey) (visits : List Visit) :
    (visits.foldl Survey.visit survey).root = survey.root := by
  induction visits generalizing survey with
  | nil => rfl
  | cons visit rest ih => rw [List.foldl_cons, ih, visit_root]

/-- The root of a survey has no part in its visits. -/
theorem visit_of_root (survey : Survey) (root : Path) (visit : Visit) :
    Survey.visit { survey with root := root } visit = { survey.visit visit with root := root } := by
  simp only [Survey.visit]
  split <;> rfl

theorem foldl_visit_of_root (survey : Survey) (root : Path) (visits : List Visit) :
    visits.foldl Survey.visit { survey with root := root } =
      { visits.foldl Survey.visit survey with root := root } := by
  induction visits generalizing survey with
  | nil => rfl
  | cons visit rest ih => rw [List.foldl_cons, List.foldl_cons, visit_of_root, ih]

theorem visit_nodes_sorted {survey : Survey} (sorted : Table.IsSorted survey.nodes) (visit : Visit) :
    Table.IsSorted (survey.visit visit).nodes := by
  simp only [Survey.visit]
  split
  · exact sorted
  · exact sorted.putInOrder _ _

theorem foldl_visit_nodes_sorted {survey : Survey} (sorted : Table.IsSorted survey.nodes)
    (visits : List Visit) : Table.IsSorted (visits.foldl Survey.visit survey).nodes := by
  induction visits generalizing survey with
  | nil => exact sorted
  | cons visit rest ih => exact ih (visit_nodes_sorted sorted visit)

end Survey

namespace Workspace

/-- A survey that succeeds has visited the entries below the place that the root leads to. -/
theorem visits_of_survey {workspace : Workspace} {fs : FileSystem} {survey : Survey}
    (surveyed : workspace.survey fs = .ok survey) :
    ∃ entry, fs.entryAt .follow workspace.root = .ok entry ∧
      survey = (entry.walk workspace.settings.isIgnored).foldl Survey.visit (.start workspace) := by
  unfold Workspace.survey at surveyed
  split at surveyed
  · cases surveyed
  · rename_i entry leads
    dsimp only at surveyed
    split at surveyed
    · cases surveyed
    · exact ⟨entry, leads, (Except.ok.inj surveyed).symm⟩

/-- The nodes of a survey come by number, each number once. -/
theorem survey_nodes_sorted {workspace : Workspace} {fs : FileSystem} {survey : Survey}
    (surveyed : workspace.survey fs = .ok survey) : Table.IsSorted survey.nodes := by
  obtain ⟨entry, _, rfl⟩ := visits_of_survey surveyed
  have sorted : Table.IsSorted (Survey.start workspace).nodes := .nil
  exact Survey.foldl_visit_nodes_sorted sorted _

end Workspace

section Pair

/-! A small tree for the statements about surveys: the file `a.js` imports its neighbour `b.js`, itself and
a file that is missing, and the neighbour may be any entry. -/

/-- The content of `a.js`. -/
def frontImports : Bytes :=
  Utf8.encode "import b from './b'; import a from './a'; import c from './c';".toList

/-- The files of the small tree. -/
def pairFiles (neighbour : Entry) : FileSystem where
  tree := .directory [("p".toList, .directory
    [("b.js".toList, neighbour), ("a.js".toList, .file frontImports)])]
  workingDirectory := []

/-- A file that imports `a.js`. -/
def backImport : Entry :=
  .file (Utf8.encode "import a from './a';".toList)

def pairWorkspace : Workspace where
  root := .ofString "/p"
  settings := .standard

def pairSurvey : Survey where
  root := .ofString "/p"
  settings := .standard
  numbering := ⟨3, [("a.js", 1), ("b.js", 2)], [(1, 0), (2, 0)]⟩
  nodes := [(1, .fresh 1 "a.js" 0 none none), (2, .fresh 2 "b.js" 0 none none)]

end Pair

end ImportAtlas
