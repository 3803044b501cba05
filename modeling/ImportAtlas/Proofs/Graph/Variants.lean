import ImportAtlas.Proofs.Graph.Listing

/-! # Other documents for a graph

The snapshot of a graph can be written in other ways. Its records may be arrays or have their fields in any order
among others, the owner of a node without one may be left out, and the blanks between tokens are free. All these
documents are loaded as the same graph, while a document with a record that repeats a field or lacks one is
refused.
-/

namespace ImportAtlas.Snapshot

open Json (ofNat ofText escape memberOf)

/-- The fields of a node with their values. -/
def nodeEntries (node : Node) : List (String × Json) :=
  nodeFields.zip [ofNat node.id, .bool node.isFile, ofText node.key, ofIds node.imports, ofIds node.parents,
    ofIds node.children, ofNat node.level, node.owner.elim .null ofText, ofIds node.reach]

/-- The fields of a node that may be left out. -/
def optionalFields : List String :=
  ["nearestRootModule"]

/-- The fields of a graph with their values, where the values of the last one are yet to be chosen. -/
def graphEntries (graph : Graph) (nodes : List (List Char × Json)) : List (String × Json) :=
  graphFields.zip [.object (graph.ids.map fun entry => (escape entry.1.toList, ofNat entry.2)),
    .object (graph.levels.map fun entry => (Numeral.write entry.1, ofNat entry.2)), .object nodes]

/-- Whether a JSON value is a form of the snapshot of a graph: a form of its record, in which every node is a form
of its own record. -/
inductive IsFormOf (graph : Graph) (json : Json) : Prop
  | records {nodes : List (List Char × Json)}
      (inside : List.Forall₂ (fun entry member => member.1 = Numeral.write entry.1 ∧
        Json.IsFormOf (nodeEntries entry.2) optionalFields member.2) graph.nodes nodes)
      (outside : Json.IsFormOf (graphEntries graph nodes) [] json)

/-- Whether a document, which may be an object or an array, has a JSON value among its nodes. -/
inductive HoldsNode : Json → Json → Prop
  | object {members nodes : List (List Char × Json)} {raw name : List Char} {nodeJson : Json}
      (table : (raw, .object nodes) ∈ members) (named : Json.unescape? raw = some "nodes".toList)
      (entry : (name, nodeJson) ∈ nodes) : HoldsNode (.object members) nodeJson
  | array {ids levels : Json} {nodes : List (List Char × Json)} {name : List Char} {nodeJson : Json}
      (entry : (name, nodeJson) ∈ nodes) : HoldsNode (.array [ids, levels, .object nodes]) nodeJson

/-- Whether a document is an object that repeats a field of a graph or lacks one, or has an object among its nodes
that repeats a field of a node or lacks one other than its owner. -/
inductive IsSpoilt : Json → Prop
  | graph {members : List (List Char × Json)} (spoilt : Json.AreSpoilt graphFields [] members) :
      IsSpoilt (.object members)
  | node {json : Json} {members : List (List Char × Json)} (held : HoldsNode json (.object members))
      (spoilt : Json.AreSpoilt nodeFields optionalFields members) : IsSpoilt json

variable {json nodeJson : Json} {node : Node} {graph listed : Graph} {fs : FileSystem} {path : Path}

/-! ## The snapshot itself -/

theorem ofNode_eq (node : Node) : ofNode node = .object ((nodeEntries node).map memberOf) :=
  rfl

/-- A snapshot is a form of itself. -/
theorem isFormOf_ofGraph (graph : Graph) : IsFormOf graph (ofGraph graph) := by
  have inside : List.Forall₂ (fun entry member => member.1 = Numeral.write entry.1 ∧
      Json.IsFormOf (nodeEntries entry.2) optionalFields member.2) graph.nodes
      (graph.nodes.map fun entry => (Numeral.write entry.1, ofNode entry.2)) := by
    rw [List.forall₂_map_right_iff, List.forall₂_same]
    exact fun entry _ => ⟨rfl, Json.isFormOf_map_memberOf⟩
  exact .records inside Json.isFormOf_map_memberOf

/-! ## Forms -/

private theorem owner?_of_isReadAs {owner : Option String} {read : Option Json}
    (readAs : Json.IsReadAs optionalFields ("nearestRootModule", owner.elim .null ofText) read) :
    owner? read = some owner := by
  rcases readAs with rfl | ⟨rfl, -, null⟩
  · exact owner?_elim owner
  · cases owner with
    | none => rfl
    | some owner => cases null

/-- Every form of a node lists the node. -/
theorem listsNode_of_form (storable : node.IsStorable) (form : Json.IsFormOf (nodeEntries node) optionalFields json) :
    ListsNode json node := by
  have unique : ((nodeEntries node).map (·.1)).Nodup := show nodeFields.Nodup by decide
  obtain ⟨values, record, read⟩ := form.exists_record? unique
  rcases read with _ | ⟨id, _ | ⟨isFile, _ | ⟨key, _ | ⟨imports, _ | ⟨parents, _ | ⟨children, _ | ⟨level,
    _ | ⟨owner, _ | ⟨reach, _ | _⟩⟩⟩⟩⟩⟩⟩⟩⟩
  obtain rfl := id.eq_some (by decide)
  obtain rfl := isFile.eq_some (by decide)
  obtain rfl := key.eq_some (by decide)
  obtain rfl := imports.eq_some (by decide)
  obtain rfl := parents.eq_some (by decide)
  obtain rfl := children.eq_some (by decide)
  obtain rfl := level.eq_some (by decide)
  obtain rfl := reach.eq_some (by decide)
  exact .fields record (natural?_ofNat storable.id) rfl (text?_ofText node.key) (ids?_ofIds storable.imports)
    (ids?_ofIds storable.parents) (ids?_ofIds storable.children) (natural?_ofNat storable.level)
    (owner?_of_isReadAs owner) (ids?_ofIds storable.reach)

/-- Every form of a snapshot lists the graph. -/
theorem IsFormOf.lists (form : IsFormOf graph json) (storable : graph.IsStorable) : Lists json graph := by
  obtain @⟨nodesJson, inside, outside⟩ := form
  have unique : ((graphEntries graph nodesJson).map (·.1)).Nodup := show graphFields.Nodup by decide
  obtain ⟨values, record, read⟩ := outside.exists_record? unique
  rcases read with _ | ⟨ids, _ | ⟨levels, _ | ⟨nodes, _ | _⟩⟩⟩
  obtain rfl := ids.eq_some List.not_mem_nil
  obtain rfl := levels.eq_some List.not_mem_nil
  obtain rfl := nodes.eq_some List.not_mem_nil
  refine .fields record (entries?_eq_some_iff_of_value.mp (entries?_ids storable))
    (entries?_eq_some_iff_of_value.mp (entries?_levels storable)) ⟨nodesJson, rfl, ?_⟩
  have storableForms := (List.forall₂_and_left _ _).mpr ⟨storable.nodeValues, inside⟩
  refine List.Forall₂.flip (storableForms.imp ?_)
  rintro entry member ⟨⟨small, storable⟩, named, form⟩
  exact ⟨named ▸ Numeral.readBelow?_write small, listsNode_of_form storable form⟩

/-- Every form of a snapshot stands for the graph. -/
theorem IsFormOf.graph?_eq (form : IsFormOf graph json) (storable : graph.IsStorable) : graph? json = some graph := by
  have nodes : graph.nodes.map (fun entry => (entry.1, entry.2.normalForm)) = graph.nodes := by
    refine List.map_congr_left (g := id) (fun entry member => ?_) |>.trans (List.map_id _)
    rw [Node.normalForm, eraseDups_of_nodup (storable.nodeValues entry member).2.once]
    rfl
  have normal : graph.normalForm = graph := by
    rw [Graph.normalForm, nodes, Table.ofList_of_unique storable.idKeys, Table.inOrder_of_sorted storable.levelKeys,
      Table.inOrder_of_sorted storable.nodeKeys]
  exact graph?_eq_some_iff.mpr ⟨graph, form.lists storable, normal.symm⟩

/-! ## Spoilt documents -/

/-- A graph lists all nodes that its document has. -/
theorem Lists.exists_listsNode (lists : Lists json listed) (held : HoldsNode json nodeJson) :
    ∃ node, ListsNode nodeJson node := by
  obtain @⟨idsJson, levelsJson, _, record, -, -, members, rfl, nodes⟩ := lists
  have table {others : List (List Char × Json)} {name : List Char} (same : Json.object members = .object others)
      (entry : (name, nodeJson) ∈ others) : ∃ node, ListsNode nodeJson node := by
    cases same
    obtain ⟨node, -, -, here⟩ := exists_mem_of_forall₂ nodes entry
    exact ⟨node.2, here⟩
  cases held with
  | object field named entry =>
    have beside : ("nodes", some (Json.object members)) ∈
        graphFields.zip [some idsJson, some levelsJson, some (.object members)] :=
      .tail _ (.tail _ (.head _))
    exact table (Option.some.inj (Json.eq_some_of_record? record field named beside)) entry
  | array entry =>
    cases record
    exact table rfl entry

/-- No graph stands in a spoilt document. -/
theorem IsSpoilt.graph?_eq_none (spoilt : IsSpoilt json) : graph? json = none := by
  rw [Option.eq_none_iff_forall_ne_some]
  intro graph read
  obtain ⟨listed, lists, -⟩ := graph?_eq_some_iff.mp read
  cases spoilt with
  | graph spoilt =>
    obtain ⟨record, -, -, -⟩ := lists
    obtain ⟨field, missing, -⟩ := spoilt.exists_missing record
    simp [graphFields] at missing
  | node held spoilt =>
    obtain ⟨node, record, -⟩ := lists.exists_listsNode held
    obtain ⟨field, missing, required⟩ := spoilt.exists_missing record
    have owner : field = "nearestRootModule" := by
      simp [nodeFields] at missing
      exact missing.1
    exact required (List.mem_singleton.mpr owner)

/-! ## Loading -/

/-- The snapshot of a graph may be written in many ways. Every text of every form of it is loaded as the graph, and
so is the snapshot itself, which is one of them. No text of a spoilt document is loaded. -/
theorem forms_are_loaded (storable : graph.IsStorable) :
    (IsFormOf graph (ofGraph graph) ∧ Json.IsTextOf (text graph) (ofGraph graph)) ∧
      (∀ json content, IsFormOf graph json → Json.IsTextOf content json →
        ∀ (fs : FileSystem) (path : Path), fs.readBytes path = .ok (Utf8.encode content) →
          load fs path = .ok graph) ∧
      ∀ json content, IsSpoilt json → Json.IsTextOf content json →
        ∀ (fs : FileSystem) (path : Path), fs.readBytes path = .ok (Utf8.encode content) →
          load fs path = .error .snapshot := by
  refine ⟨⟨isFormOf_ofGraph graph, Json.isTextOf_pretty (isWellFormed_ofGraph graph)⟩, ?_, ?_⟩
  · intro json content form isText fs path stored
    have read : read? content = some graph := by
      rw [read?, isText.parse?_eq, Option.bind_some, form.graph?_eq storable]
    rw [load_of_encoded stored, read]
    rfl
  · intro json content spoilt isText fs path stored
    have read : read? content = none := by
      rw [read?, isText.parse?_eq, Option.bind_some, spoilt.graph?_eq_none]
    rw [load_of_encoded stored, read]
    rfl

/-- A graph with one node, which has no owner. -/
def loneGraph : Graph where
  ids := [("a.js", 1)]
  levels := [(1, 0)]
  nodes := [(1, .fresh 1 "a.js" 0 none none)]

/-- A member that is no field of a node. -/
def unknownMember : List Char × Json :=
  ("size".toList, .array [.null, .object [("id".toList, .bool false)]])

/-- The members of the node of `loneGraph` in reverse, with one more and without the owner. -/
def loneNodeMembers : List (List Char × Json) :=
  (((nodeEntries (.fresh 1 "a.js" 0 none none)).eraseIdx 7).map memberOf ++ [unknownMember]).reverse

/-- A form of the snapshot of `loneGraph` that is an array. -/
def loneArray : Json :=
  .array [.object [(escape "a.js".toList, ofNat 1)], .object [(['1'], ofNat 0)],
    .object [(['1'], .object loneNodeMembers)]]

/-- The record of an empty graph, in which one field is repeated. -/
def repeatedField : Json :=
  .object ((graphEntries .empty []).map memberOf ++ [("nodes".toList, .object [])])

private theorem isFormOf_loneArray : IsFormOf loneGraph loneArray := by
  have node : Json.IsFormOf (nodeEntries (.fresh 1 "a.js" 0 none none)) optionalFields (.object loneNodeMembers) := by
    refine .object (List.eraseIdx_sublist _ 7) ?_ ?_ (List.reverse_perm _)
    · intro entry field dropped
      simp [nodeEntries, nodeFields] at field dropped
      obtain rfl : entry = ("nearestRootModule", .null) := by tauto
      exact ⟨by decide, rfl⟩
    · rw [List.forall_mem_singleton]
      exact ⟨"size".toList, by decide, by simp [nodeEntries, nodeFields]⟩
  exact .records (.cons ⟨rfl, node⟩ .nil) .array

private theorem isWellFormed_loneArray : Json.IsWellFormed loneArray := by
  have whole := isWellFormed_ofNode (.fresh 1 "a.js" 0 none none)
  rw [ofNode_eq] at whole
  cases whole with
  | object named formed =>
    have inside : ∀ member ∈ loneNodeMembers, Json.IsRaw member.1 ∧ Json.IsWellFormed member.2 := by
      intro member inside
      rcases List.mem_append.mp (List.mem_reverse.mp inside) with known | unknown
      · have written := ((List.eraseIdx_sublist _ 7).map memberOf).subset known
        exact ⟨named member written, formed member written⟩
      · obtain rfl := List.mem_singleton.mp unknown
        have value : Json.IsWellFormed (.object [("id".toList, .bool false)]) :=
          .object (List.forall_mem_singleton.mpr (Json.isRaw_escape "id".toList))
            (List.forall_mem_singleton.mpr (.bool _))
        exact ⟨Json.isRaw_escape "size".toList,
          .array (List.forall_mem_cons.mpr ⟨.null, List.forall_mem_singleton.mpr value⟩)⟩
    refine .array ?_
    simp only [List.forall_mem_cons]
    refine ⟨.object ?_ ?_, .object ?_ ?_, .object ?_ ?_, List.forall_mem_nil _⟩
    all_goals rw [List.forall_mem_singleton]
    · exact Json.isRaw_escape "a.js".toList
    · exact Json.isWellFormed_ofNat 1
    · exact Json.isRaw_escape ['1']
    · exact Json.isWellFormed_ofNat 0
    · exact Json.isRaw_escape ['1']
    · exact .object (fun member field => (inside member field).1) fun member field => (inside member field).2

private theorem isWellFormed_repeatedField : Json.IsWellFormed repeatedField := by
  have empty : Json.IsWellFormed (.object []) := .object (List.forall_mem_nil _) (List.forall_mem_nil _)
  have written : ∀ entry ∈ graphEntries .empty [], Json.IsWellFormed entry.2 := by
    simp only [graphEntries, graphFields, List.zip_cons_cons, List.zip_nil_right, List.forall_mem_cons]
    exact ⟨empty, empty, empty, List.forall_mem_nil _⟩
  refine .object ?_ ?_
  all_goals
    intro member inside
    rcases List.mem_append.mp inside with known | last
    on_goal 1 => obtain ⟨entry, field, rfl⟩ := List.mem_map.mp known
    on_goal 2 => obtain rfl := List.mem_singleton.mp last
  · exact Json.isRaw_escape entry.1.toList
  · exact Json.isRaw_escape "nodes".toList
  · exact written entry field
  · exact empty

theorem forms_are_loaded_of_loneGraph :
    loneGraph.IsStorable ∧
      (IsFormOf loneGraph loneArray ∧
        load (.holding [['g']] (Utf8.encode (' ' :: (Json.tokens loneArray).flatMap Json.Token.spell)))
          (.ofString "g") = .ok loneGraph) ∧
      IsSpoilt repeatedField ∧
        load (.holding [['g']] (Utf8.encode repeatedField.pretty)) (.ofString "g") = .error .snapshot := by
  have storable : loneGraph.IsStorable := by
    refine ⟨List.nodup_singleton _, by decide, List.pairwise_singleton _ _, by decide, List.pairwise_singleton _ _, ?_⟩
    rw [loneGraph, List.forall_mem_singleton]
    exact ⟨by decide, by decide, by decide, by decide, by decide, by decide, by decide, by decide⟩
  obtain ⟨-, loaded, refused⟩ := forms_are_loaded storable
  have spaced : Json.Spaced (Json.tokens loneArray) (' ' :: (Json.tokens loneArray).flatMap Json.Token.spell) := by
    have blank : ∀ c ∈ [' '], Json.isSpace c = true := List.forall_mem_singleton.mpr rfl
    exact (Json.Spaced.flatMap_spell _).blanks blank
  have spoilt : IsSpoilt repeatedField := .graph ⟨"nodes", by decide, .inl (by decide)⟩
  have read := loaded loneArray _ isFormOf_loneArray ⟨isWellFormed_loneArray, spaced⟩ (.holding [['g']] _)
    (.ofString "g") rfl
  have failed := refused repeatedField _ spoilt (Json.isTextOf_pretty isWellFormed_repeatedField)
    (.holding [['g']] _) (.ofString "g") rfl
  exact ⟨storable, ⟨isFormOf_loneArray, read⟩, spoilt, failed⟩

end ImportAtlas.Snapshot
