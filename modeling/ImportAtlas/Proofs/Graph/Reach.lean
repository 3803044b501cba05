import ImportAtlas.Proofs.Graph.Schedule
import ImportAtlas.Proofs.List.FirstPlaces

/-! # The graph of a survey

Connecting fills in two fields of the nodes of a survey and changes nothing else. What it fills in
stays among these nodes, however much the files have changed since the survey. The reach of a node is
taken from the imports of all nodes as they were before any reach was recorded, so it does not matter
whether nodes import each other or themselves.
-/

namespace ImportAtlas

theorem mem_importsOf_iff {nodes : List (Id × Node)} {id target : Id} :
    id ∈ importsOf nodes target ↔ ∃ node, nodes.lookup target = some node ∧ id ∈ node.imports := by
  unfold importsOf
  cases nodes.lookup target <;> simp

/-- Recording what the nodes reach keeps what they import. -/
theorem importsOf_recordReach (nodes : List (Id × Node)) (id : Id) :
    importsOf (recordReach nodes) id = importsOf nodes id := by
  unfold importsOf
  rw [recordReach_eq_map, Table.lookup_map_value]
  cases nodes.lookup id <;> rfl

/-- Every node reaches what its imports import, each number at its first place. -/
theorem firstPlaces_recordReach {nodes : List (Id × Node)} {entry : Id × Node}
    (member : entry ∈ recordReach nodes) :
    FirstPlaces (entry.2.imports.flatMap (importsOf (recordReach nodes))) entry.2.reach := by
  obtain ⟨before, _, rfl⟩ := List.mem_map.mp member
  rw [funext (importsOf_recordReach nodes)]
  exact firstPlaces_eraseDups _

/-- The node is that of the survey with its imports and its reach filled in. -/
def IsFilledIn (surveyed connected : Id × Node) : Prop :=
  connected.1 = surveyed.1 ∧
    connected.2 = { surveyed.2 with imports := connected.2.imports, reach := connected.2.reach }

namespace Survey

variable {survey : Survey} {fs : FileSystem} {connected : Connected}

private theorem isFilledIn_of_scanned {nodes direct : List (Id × Node)} {results : List (Id × Findings)}
    (scanned : survey.Scanned fs nodes results) :
    List.Forall₂ IsFilledIn nodes ((List.zipWith withImports nodes results).map fun entry =>
      (entry.1, withReach direct entry.2)) := by
  induction scanned with
  | nil => exact .nil
  | cons _ _ ih => exact .cons ⟨rfl, rfl⟩ ih

/-- The graph has the tables of the survey, and its nodes are those of the survey, filled in. -/
theorem connect_fills_in (unique : Table.HasUniqueKeys survey.nodes)
    (success : survey.connect fs = .ok connected) :
    connected.graph.ids = survey.numbering.ids ∧ connected.graph.levels = survey.numbering.levels ∧
      List.Forall₂ IsFilledIn survey.nodes connected.graph.nodes := by
  obtain ⟨results, rfl, scanned⟩ := connect_eq_ok_iff.mp success
  refine ⟨rfl, rfl, ?_⟩
  rw [assemble_nodes unique scanned, recordReach_eq_map]
  exact isFilledIn_of_scanned scanned

theorem connect_describes (unique : Table.HasUniqueKeys survey.nodes)
    (success : survey.connect fs = .ok connected) : survey.Describes fs connected := by
  obtain ⟨results, rfl, scanned⟩ := connect_eq_ok_iff.mp success
  exact describes_of_scanned unique scanned

/-- A graph of a survey has the node numbers of the survey. -/
theorem Describes.nodeKeys (described : survey.Describes fs connected) :
    connected.graph.nodes.map (·.1) = survey.nodes.map (·.1) := by
  have same := described.imports
  generalize connected.graph.nodes = filled at same
  generalize survey.nodes = nodes at same
  induction same with
  | nil => rfl
  | cons here _ ih => rw [List.map_cons, List.map_cons, here.1, ih]

theorem Describes.hasUniqueKeys (described : survey.Describes fs connected)
    (unique : Table.HasUniqueKeys survey.nodes) : Table.HasUniqueKeys connected.graph.nodes := by
  rwa [Table.HasUniqueKeys, described.nodeKeys]

/-- Every import of a node of the graph is a node of the graph. -/
theorem Describes.imports_are_nodes (described : survey.Describes fs connected) {entry : Id × Node}
    (member : entry ∈ connected.graph.nodes) :
    ∀ id ∈ entry.2.imports, ∃ node, connected.graph.node? id = some node := by
  intro id imported
  obtain ⟨surveyed, _, _, text, missing, _, imports⟩ := exists_mem_of_forall₂ described.imports.flip member
  have isNode := imports.isNode id imported
  rw [Table.exists_lookup_iff, ← described.nodeKeys] at isNode
  exact Table.exists_lookup_iff.mpr isNode

/-- Whatever has become of the files since the survey, a graph of it has the tables and the nodes of the
survey, only imports and reach filled in. All imports and all that is reached are nodes of the graph. A node
reaches exactly the imports of its imports, each once, in the order in which they first come up. -/
theorem connect_keeps_survey {workspace : Workspace} {earlier : FileSystem} {survey : Survey}
    (surveyed : workspace.survey earlier = .ok survey) {fs : FileSystem} {connected : Connected}
    (success : survey.connect fs = .ok connected) :
    connected.graph.ids = survey.numbering.ids ∧ connected.graph.levels = survey.numbering.levels ∧
    List.Forall₂ IsFilledIn survey.nodes connected.graph.nodes ∧
    (∀ entry ∈ connected.graph.nodes, ∀ id ∈ entry.2.imports ++ entry.2.reach,
      ∃ node, connected.graph.node? id = some node) ∧
    (∀ entry ∈ connected.graph.nodes,
      (∀ id, id ∈ entry.2.reach ↔ ∃ target ∈ entry.2.imports, ∃ node,
        connected.graph.node? target = some node ∧ id ∈ node.imports) ∧
      FirstPlaces (entry.2.imports.flatMap (importsOf connected.graph.nodes)) entry.2.reach) := by
  have unique := (Workspace.survey_nodes_sorted surveyed).hasUniqueKeys
  obtain ⟨sameIds, sameLevels, filled⟩ := connect_fills_in unique success
  have described := connect_describes unique success
  have places : ∀ entry ∈ connected.graph.nodes,
      FirstPlaces (entry.2.imports.flatMap (importsOf connected.graph.nodes)) entry.2.reach := by
    obtain ⟨results, rfl, scanned⟩ := connect_eq_ok_iff.mp success
    rw [assemble_nodes unique scanned]
    intro entry member
    exact firstPlaces_recordReach member
  have reached : ∀ entry ∈ connected.graph.nodes, ∀ id, id ∈ entry.2.reach ↔
      ∃ target ∈ entry.2.imports, ∃ node, connected.graph.node? target = some node ∧ id ∈ node.imports := by
    intro entry member id
    simp only [(places entry member).mem_iff, List.mem_flatMap, mem_importsOf_iff, Graph.node?]
  refine ⟨sameIds, sameLevels, filled, ?_, fun entry member => ⟨reached entry member, places entry member⟩⟩
  intro entry member id listed
  rcases List.mem_append.mp listed with imported | isReached
  · exact described.imports_are_nodes member id imported
  · obtain ⟨target, _, node, atTarget, imported⟩ := (reached entry member id).mp isReached
    have inGraph := (Table.lookup_eq_some_iff (described.hasUniqueKeys unique)).mp atTarget
    exact described.imports_are_nodes inGraph id imported

/-- The second file is empty when the survey is made, and imports the first one when its files are read. -/
theorem connect_keeps_survey_of_pair :
    pairWorkspace.survey (pairFiles (.file [])) = .ok pairSurvey ∧
    pairSurvey.connect (pairFiles backImport) = .ok pairConnected ∧
    FirstPlaces ([2, 1].flatMap (importsOf pairConnected.graph.nodes)) [1, 2] := by
  have surveyed : pairWorkspace.survey (pairFiles (.file [])) = .ok pairSurvey := by decide +kernel
  have success : pairSurvey.connect (pairFiles backImport) = .ok pairConnected := by decide +kernel
  obtain ⟨_, _, _, _, reached⟩ := connect_keeps_survey surveyed success
  exact ⟨surveyed, success, (reached _ List.mem_cons_self).2⟩

end Survey

end ImportAtlas
