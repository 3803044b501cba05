import ImportAtlas.Proofs.Graph.Build
import ImportAtlas.Proofs.Graph.Drawing
import ImportAtlas.Proofs.Graph.Reach
import ImportAtlas.Proofs.Graph.Records
import ImportAtlas.Proofs.Graph.Snapshot

/-! # The ends of drawn edges

A drawing declares a vertex for the number that each node holds, and it draws an import whose target is a number
that some node is kept under. Where a node is kept under another number than it holds, which no graph of a
source tree does but a snapshot may, an edge can end at a number for which no vertex is declared. Every edge
starts at a vertex that is declared.
-/

namespace ImportAtlas

/-- Whether a drawing has a vertex with a number. -/
def Dot.Drawing.Declares (drawing : Dot.Drawing) (id : Id) : Prop :=
  id ∈ drawing.vertices.map Dot.Vertex.id

namespace Graph

/-- The numbers that the nodes are kept under. -/
def keys (graph : Graph) : List Id :=
  graph.nodes.map (·.1)

/-- The numbers that the nodes hold. -/
def heldIds (graph : Graph) : List Id :=
  graph.nodes.map (·.2.id)

/-- Whether a graph is that of a source tree. -/
def IsBuilt (graph : Graph) : Prop :=
  ∃ fs root settings connected, fs.tree.IsSound ∧ buildGraph fs root settings = .ok connected ∧
    connected.graph = graph

theorem hasNode_iff (graph : Graph) (id : Id) : graph.hasNode id = true ↔ id ∈ graph.keys := by
  rw [hasNode, Option.isSome_iff_exists]
  exact Table.exists_lookup_iff

theorem mem_edges_iff (graph : Graph) (source target : Id) :
    (source, target) ∈ graph.edges ↔ ∃ entry ∈ graph.nodes, entry.2.id = source ∧ target ∈ entry.2.imports := by
  simp only [edges, List.mem_flatMap, List.mem_map, Prod.mk.injEq]
  constructor
  · rintro ⟨entry, member, _, imported, same, rfl⟩
    exact ⟨entry, member, same, imported⟩
  · rintro ⟨entry, member, same, imported⟩
    exact ⟨entry, member, target, imported, same, rfl⟩

theorem mem_drawnEdges_iff (graph : Graph) (source target : Id) :
    (source, target) ∈ graph.drawnEdges ↔
      (∃ entry ∈ graph.nodes, entry.2.id = source ∧ target ∈ entry.2.imports) ∧ target ∈ graph.keys := by
  rw [drawnEdges, List.mem_filter, mem_edges_iff, hasNode_iff]

theorem declares_drawing_iff (graph : Graph) (id : Id) : graph.drawing.Declares id ↔ id ∈ graph.heldIds := by
  rw [Dot.Drawing.Declares, drawing, List.map_map]
  rfl

/-- The nodes of the graph of a source tree are kept under the numbers that they hold. -/
theorem IsBuilt.heldIds_eq {graph : Graph} (built : graph.IsBuilt) : graph.heldIds = graph.keys := by
  obtain ⟨fs, root, settings, connected, sound, success, rfl⟩ := built
  obtain ⟨_, survey, -, -, surveyed, connects⟩ := exists_survey_of_buildGraph success
  have coherent := Workspace.survey_is_coherent sound surveyed
  have unique := (Workspace.survey_nodes_sorted surveyed).hasUniqueKeys
  obtain ⟨-, -, filled⟩ := Survey.connect_fills_in unique connects
  apply List.map_congr_left
  intro entry member
  obtain ⟨recorded, inSurvey, sameKey, sameNode⟩ := exists_mem_of_forall₂ filled.flip member
  rw [sameNode, sameKey]
  exact (coherent.nodes inSurvey).sameId

/-- An edge is drawn for each import of a number that a node is kept under. It starts at a vertex that is
declared. All edges end at one as well just if every such number is held by a node, which is so in the graph of a
source tree. -/
theorem edges_are_declared_iff (graph : Graph) :
    ∃ drawing, Dot.read? graph.dot = some drawing ∧
      (∀ source target, (source, target) ∈ drawing.edges ↔
        (∃ entry ∈ graph.nodes, entry.2.id = source ∧ target ∈ entry.2.imports) ∧ target ∈ graph.keys) ∧
      (∀ edge ∈ drawing.edges, drawing.Declares edge.1) ∧
      ((∀ edge ∈ drawing.edges, drawing.Declares edge.2) ↔
        ∀ entry ∈ graph.nodes, ∀ target ∈ entry.2.imports, target ∈ graph.keys → target ∈ graph.heldIds) ∧
      (graph.IsBuilt → ∀ edge ∈ drawing.edges, drawing.Declares edge.2) := by
  have drawn := graph.mem_drawnEdges_iff
  refine ⟨graph.drawing, read?_dot graph, drawn, ?source, ?target, ?built⟩
  case source =>
    rintro ⟨source, target⟩ member
    obtain ⟨⟨entry, inside, rfl, -⟩, -⟩ := (drawn source target).mp member
    exact (graph.declares_drawing_iff _).mpr (List.mem_map_of_mem inside)
  case target =>
    constructor
    · intro declared entry inside target imported isKey
      have edge := (drawn entry.2.id target).mpr ⟨⟨entry, inside, rfl, imported⟩, isKey⟩
      exact (graph.declares_drawing_iff target).mp (declared _ edge)
    · rintro held ⟨source, target⟩ member
      obtain ⟨⟨entry, inside, -, imported⟩, isKey⟩ := (drawn source target).mp member
      exact (graph.declares_drawing_iff target).mpr (held entry inside target imported isKey)
  case built =>
    rintro built ⟨source, target⟩ member
    rw [declares_drawing_iff, built.heldIds_eq]
    exact ((drawn source target).mp member).2

/-- A snapshot with one node, which holds another number than it is kept under and imports the latter. -/
def renumberedSnapshot : String :=
  "\x7b\"nodeToIdMap\": \x7b\x7d, \"nodeToLevelMap\": \x7b\x7d, \"nodes\": \x7b\"2\": \x7b\"id\": 3, " ++
  "\"isFile\": true, \"name\": \"a.js\", \"dependencies\": [2], \"levelWiseParents\": [], \"children\": [], " ++
  "\"level\": 0, \"nearestRootModule\": null, \"allDependencies\": []\x7d\x7d\x7d"

/-- A file system that holds `renumberedSnapshot`. -/
def renumberedFiles : FileSystem :=
  .holding [['g']] (Utf8.encode renumberedSnapshot.toList)

/-- An edge is drawn that ends at a number without a vertex. -/
theorem edge_without_vertex : ∃ graph drawing, Snapshot.load renumberedFiles (.ofString "g") = .ok graph ∧
    Dot.read? graph.dot = some drawing ∧ (3, 2) ∈ drawing.edges ∧ ¬drawing.Declares 2 := by
  let graph : Graph := ⟨[], [], [(2, ⟨3, true, "a.js", [2], [], [], 0, none, []⟩)]⟩
  have loaded : Snapshot.load renumberedFiles (.ofString "g") = .ok graph := by decide +kernel
  refine ⟨graph, graph.drawing, loaded, read?_dot graph, by decide, ?_⟩
  rw [declares_drawing_iff]
  decide

end Graph

end ImportAtlas
