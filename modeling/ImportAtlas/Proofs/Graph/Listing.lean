import ImportAtlas.Proofs.Graph.Snapshot

/-! # What a document lists

A document lists the entries of the three tables of a graph. It may list them in any order and repeat their
keys, and the reach of a node may repeat its numbers. The graph that the document stands for is the normal form
of what it lists.
-/

namespace ImportAtlas

/-- The node that a listed node stands for: its reach holds each number once, in its first place. -/
structure Node.IsNormalFormOf (node listed : Node) : Prop where
  kept : node = { listed with reach := node.reach }
  reach : FirstPlaces listed.reach node.reach

/-- The graph that a listed graph stands for: a repeated key has its last value, levels and nodes come in the
order of their numbers, and the other entries in the order in which their keys are listed first. -/
structure Graph.IsNormalFormOf (graph listed : Graph) : Prop where
  idPlaces : FirstPlaces (listed.ids.map (·.1)) (graph.ids.map (·.1))
  ids : Table.HoldsLast listed.ids graph.ids
  levelKeys : Table.IsSorted graph.levels
  levels : Table.HoldsLast listed.levels graph.levels
  nodeKeys : Table.IsSorted graph.nodes
  nodes (id : Id) :
    Option.Rel (fun listed node => node.IsNormalFormOf listed) (listed.nodes.reverse.lookup id) (graph.nodes.lookup id)

/-- Erases the numbers that the reach of a listed node repeats. -/
def Node.normalForm (listed : Node) : Node :=
  { listed with reach := listed.reach.eraseDups }

/-- Makes tables of the entries of a listed graph. -/
def Graph.normalForm (listed : Graph) : Graph where
  ids := Table.ofList listed.ids
  levels := Table.inOrder listed.levels
  nodes := Table.inOrder (listed.nodes.map fun entry => (entry.1, entry.2.normalForm))

theorem Node.isNormalFormOf_normalForm (listed : Node) : listed.normalForm.IsNormalFormOf listed :=
  ⟨rfl, firstPlaces_eraseDups listed.reach⟩

theorem Graph.isNormalFormOf_normalForm (listed : Graph) : listed.normalForm.IsNormalFormOf listed := by
  obtain ⟨idPlaces, ids⟩ := Table.ofList_spec listed.ids
  obtain ⟨levelKeys, levels⟩ := Table.inOrder_spec listed.levels
  obtain ⟨nodeKeys, nodes⟩ := Table.inOrder_spec (listed.nodes.map fun entry => (entry.1, entry.2.normalForm))
  refine ⟨idPlaces, ids, levelKeys, levels, nodeKeys, fun id => ?_⟩
  rw [normalForm, nodes id, ← List.map_reverse, Table.lookup_map_value]
  cases listed.nodes.reverse.lookup id with
  | none => exact .none
  | some node => exact .some node.isNormalFormOf_normalForm

namespace Snapshot

open Json (ofNat ofText)

/-- Whether a JSON value lists a node. -/
inductive ListsNode (json : Json) (listed : Node) : Prop
  | fields {idJson isFileJson keyJson importsJson parentsJson childrenJson levelJson reachJson : Json}
      {ownerJson : Option Json}
      (record : json.record? nodeFields = some [some idJson, some isFileJson, some keyJson, some importsJson,
        some parentsJson, some childrenJson, some levelJson, ownerJson, some reachJson])
      (id : id? idJson = some listed.id) (isFile : isFileJson.bool? = some listed.isFile)
      (key : text? keyJson = some listed.key) (imports : ids? importsJson = some listed.imports)
      (parents : ids? parentsJson = some listed.parents) (children : ids? childrenJson = some listed.children)
      (level : levelJson.natural? levelLimit = some listed.level) (owner : owner? ownerJson = some listed.owner)
      (reach : ids? reachJson = some listed.reach)

/-- Whether the members of an object list entries, one after the other. -/
def ListsEntries {κ ν : Type} (key? : List Char → Option κ) (lists : Json → ν → Prop) (json : Json)
    (listed : List (κ × ν)) : Prop :=
  ∃ members, json = .object members ∧
    List.Forall₂ (fun member entry => key? member.1 = some entry.1 ∧ lists member.2 entry.2) members listed

/-- Whether a JSON value lists a graph. -/
inductive Lists (json : Json) (listed : Graph) : Prop
  | fields {idsJson levelsJson nodesJson : Json}
      (record : json.record? graphFields = some [some idsJson, some levelsJson, some nodesJson])
      (ids : ListsEntries (fun raw => (Json.unescape? raw).map String.ofList) (id? · = some ·) idsJson listed.ids)
      (levels : ListsEntries (Numeral.readBelow? idLimit) (Json.natural? levelLimit · = some ·) levelsJson
        listed.levels)
      (nodes : ListsEntries (Numeral.readBelow? idLimit) ListsNode nodesJson listed.nodes)

variable {json : Json} {node : Node} {graph listed : Graph} {fs : FileSystem} {path : Path}

/-- The node of a document is the normal form of what it lists. -/
theorem node?_eq_some_iff : node? json = some node ↔ ∃ listed, ListsNode json listed ∧ node = listed.normalForm := by
  constructor
  · intro read
    unfold node? at read
    split at read
    case h_1 record =>
      simp only [Option.bind_eq_bind, Option.bind_eq_some_iff, Option.pure_def, Option.some.injEq] at read
      obtain ⟨id, idRead, isFile, isFileRead, key, keyRead, imports, importsRead, parents, parentsRead, children,
        childrenRead, level, levelRead, owner, ownerRead, reach, reachRead, rfl⟩ := read
      exact ⟨⟨id, isFile, key, imports, parents, children, level, owner, reach⟩,
        .fields record idRead isFileRead keyRead importsRead parentsRead childrenRead levelRead ownerRead reachRead,
        rfl⟩
    case h_2 => cases read
  · rintro ⟨listed, ⟨record, id, isFile, key, imports, parents, children, level, owner, reach⟩, rfl⟩
    simp only [node?, record, id, isFile, key, imports, parents, children, level, owner, reach,
      Option.bind_eq_bind, Option.bind_some, Option.pure_def, Node.normalForm]

/-- Entries are read one by one, and their values in normal form. -/
theorem entries?_eq_some_iff {κ ν μ : Type} {key? : List Char → Option κ} {value? : Json → Option μ}
    {lists : Json → ν → Prop} {normalForm : ν → μ}
    (value : ∀ json read, value? json = some read ↔ ∃ listed, lists json listed ∧ read = normalForm listed)
    {entries : List (κ × μ)} :
    entries? key? value? json = some entries ↔
      ∃ listed, ListsEntries key? lists json listed ∧
        entries = listed.map fun entry => (entry.1, normalForm entry.2) := by
  have entry (member : List Char × Json) (read : κ × μ) :
      (do let key ← key? member.1; let value ← value? member.2; return (key, value)) = some read ↔
        ∃ listed : κ × ν, (key? member.1 = some listed.1 ∧ lists member.2 listed.2) ∧
          read = (listed.1, normalForm listed.2) := by
    simp only [Option.bind_eq_bind, Option.bind_eq_some_iff, Option.pure_def, Option.some.injEq, value]
    constructor
    · rintro ⟨key, keyRead, _, ⟨listed, here, rfl⟩, rfl⟩
      exact ⟨(key, listed), ⟨keyRead, here⟩, rfl⟩
    · rintro ⟨listed, ⟨keyRead, here⟩, rfl⟩
      exact ⟨listed.1, keyRead, normalForm listed.2, ⟨listed.2, here, rfl⟩, rfl⟩
  cases json with
  | object members =>
    rw [entries?, Json.members?, Option.bind_some, mapM_eq_some_iff, forall₂_iff_exists_map entry]
    constructor
    · rintro ⟨listed, related, rfl⟩
      exact ⟨listed, ⟨members, rfl, related⟩, rfl⟩
    · rintro ⟨listed, ⟨_, same, related⟩, rfl⟩
      cases same
      exact ⟨listed, related, rfl⟩
  | _ =>
    constructor
    · intro read
      cases read
    · rintro ⟨_, ⟨_, same, _⟩, _⟩
      cases same

/-- Entries whose values are read as they are. -/
theorem entries?_eq_some_iff_of_value {κ ν : Type} {key? : List Char → Option κ} {value? : Json → Option ν}
    {entries : List (κ × ν)} :
    entries? key? value? json = some entries ↔ ListsEntries key? (value? · = some ·) json entries := by
  have value (json : Json) (read : ν) :
      value? json = some read ↔ ∃ listed, value? json = some listed ∧ read = id listed := by
    simp
  rw [entries?_eq_some_iff value]
  simp

/-- The graph of a document is the normal form of what it lists. -/
theorem graph?_eq_some_iff : graph? json = some graph ↔ ∃ listed, Lists json listed ∧ graph = listed.normalForm := by
  constructor
  · intro read
    unfold graph? at read
    split at read
    case h_1 record =>
      simp only [Option.bind_eq_bind, Option.bind_eq_some_iff, Option.pure_def, Option.some.injEq] at read
      obtain ⟨ids, idsRead, levels, levelsRead, nodes, nodesRead, rfl⟩ := read
      obtain ⟨listed, nodesListed, rfl⟩ := (entries?_eq_some_iff fun _ _ => node?_eq_some_iff).mp nodesRead
      exact ⟨⟨ids, levels, listed⟩, .fields record (entries?_eq_some_iff_of_value.mp idsRead)
        (entries?_eq_some_iff_of_value.mp levelsRead) nodesListed, rfl⟩
    case h_2 => cases read
  · rintro ⟨listed, ⟨record, ids, levels, nodes⟩, rfl⟩
    have idsRead := entries?_eq_some_iff_of_value.mpr ids
    have levelsRead := entries?_eq_some_iff_of_value.mpr levels
    have nodesRead := (entries?_eq_some_iff fun _ _ => node?_eq_some_iff).mpr ⟨_, nodes, rfl⟩
    simp only [graph?, record, idsRead, levelsRead, nodesRead, Option.bind_eq_bind, Option.bind_some,
      Option.pure_def, Graph.normalForm]

/-! ## What is read can be stored -/

private theorem lt_of_natural? {limit n : Nat} (read : json.natural? limit = some n) : n < limit := by
  cases json with
  | number text => simpa using (Option.filter_eq_some_iff.mp read).2
  | _ => cases read

private theorem lt_of_ids? {ids : List Id} (read : ids? json = some ids) : ∀ id ∈ ids, id < idLimit := by
  obtain ⟨items, -, read⟩ := Option.bind_eq_some_iff.mp read
  intro id member
  obtain ⟨item, -, here⟩ := exists_mem_of_forall₂ (mapM_eq_some_iff.mp read).flip member
  exact lt_of_natural? here

theorem ListsNode.isStorable {listed : Node} (lists : ListsNode json listed) : listed.normalForm.IsStorable := by
  obtain ⟨record, id, isFile, key, imports, parents, children, level, owner, reach⟩ := lists
  have places := firstPlaces_eraseDups listed.reach
  have reachSmall (id : Id) (member : id ∈ listed.reach.eraseDups) : id < idLimit :=
    lt_of_ids? reach id ((places.mem_iff id).mp member)
  exact ⟨lt_of_natural? id, lt_of_ids? imports, lt_of_ids? parents, lt_of_ids? children, lt_of_natural? level,
    reachSmall, places.nodup⟩

private theorem ListsEntries.exists_member {κ ν : Type} {key? : List Char → Option κ} {lists : Json → ν → Prop}
    {entries : List (κ × ν)} (listed : ListsEntries key? lists json entries) {entry : κ × ν}
    (member : entry ∈ entries) : ∃ raw value, key? raw = some entry.1 ∧ lists value entry.2 := by
  obtain ⟨members, -, related⟩ := listed
  obtain ⟨⟨raw, value⟩, -, keyRead, here⟩ := exists_mem_of_forall₂ related.flip member
  exact ⟨raw, value, keyRead, here⟩

/-- Whatever a document lists, its normal form can be stored. -/
theorem Lists.isStorable (lists : Lists json listed) : listed.normalForm.IsStorable := by
  obtain ⟨record, ids, levels, nodes⟩ := lists
  obtain ⟨idPlaces, idsLast, levelKeys, levelsLast, nodeKeys, -⟩ := listed.isNormalFormOf_normalForm
  obtain ⟨-, nodesLast⟩ := Table.inOrder_spec (listed.nodes.map fun entry => (entry.1, entry.2.normalForm))
  have keySmall {raw : List Char} {id : Id} (read : Numeral.readBelow? idLimit raw = some id) : id < idLimit := by
    simpa using (Option.filter_eq_some_iff.mp read).2
  refine ⟨idPlaces.nodup, ?_, levelKeys, ?_, nodeKeys, ?_⟩
  · intro entry member
    obtain ⟨raw, value, -, read⟩ := ids.exists_member (idsLast.subset idPlaces.nodup member)
    exact lt_of_natural? read
  · intro entry member
    obtain ⟨raw, value, keyRead, read⟩ := levels.exists_member (levelsLast.subset levelKeys.hasUniqueKeys member)
    exact ⟨keySmall keyRead, lt_of_natural? read⟩
  · intro entry member
    obtain ⟨⟨id, node⟩, inList, rfl⟩ := List.mem_map.mp (nodesLast.subset nodeKeys.hasUniqueKeys member)
    obtain ⟨raw, value, keyRead, lists⟩ := nodes.exists_member inList
    exact ⟨keySmall keyRead, lists.isStorable⟩

/-! ## Loading and saving -/

theorem exists_of_load (loaded : load fs path = .ok graph) :
    ∃ text, fs.readText path = .ok text ∧ read? text = some graph := by
  unfold load at loaded
  split at loaded
  case h_1 => cases loaded
  case h_2 text content =>
    split at loaded
    case h_1 read =>
      cases loaded
      exact ⟨text, content, read⟩
    case h_2 => cases loaded

/-- Loading gives the normal form of what the document lists, whatever the document looks like. The normal form
can be stored, and storing it changes it no more: it is what is loaded again, and saving that writes the same
bytes. -/
theorem load_gives_normal_form (loaded : load fs path = .ok graph) :
    graph.IsStorable ∧
      (∃ content json listed, fs.readText path = .ok content ∧ Json.parse? content = some json ∧
        Lists json listed ∧ graph.IsNormalFormOf listed) ∧
      read? (text graph) = some graph ∧
      ∀ (before saved : FileSystem) (target : Path), save before target graph = (.ok (), saved) →
        load saved target = .ok graph ∧ saved.readBytes target = .ok (Utf8.encode (text graph)) ∧
          ∀ again, load saved target = .ok again → ∀ (before resaved : FileSystem) (other : Path),
            save before other again = (.ok (), resaved) → resaved.readBytes other = saved.readBytes target := by
  obtain ⟨content, there, read⟩ := exists_of_load loaded
  obtain ⟨json, parsed, stands⟩ := Option.bind_eq_some_iff.mp read
  obtain ⟨listed, lists, rfl⟩ := graph?_eq_some_iff.mp stands
  have storable := lists.isStorable
  refine ⟨storable, ⟨content, json, listed, there, parsed, lists, listed.isNormalFormOf_normalForm⟩,
    read?_text storable, ?_⟩
  intro before saved target success
  have reloaded := load_of_save storable success
  have bytes := readBytes_of_save success
  refine ⟨reloaded, bytes, ?_⟩
  intro again loadedAgain before resaved other successAgain
  obtain rfl : listed.normalForm = again := Except.ok.inj (reloaded.symm.trans loadedAgain)
  rw [bytes, readBytes_of_save successAgain]

/-- A document that repeats keys, lists numbers out of order, and repeats a number in the reach of a node. -/
def untidyDocument : Json :=
  let nodeJson (key : String) := Json.array [ofNat 7, .bool true, ofText key, ofIds [9, 9], ofIds [], ofIds [],
    ofNat 1, .null, ofIds [9, 4, 9, 2, 4]]
  .object [
    ("nodes".toList, .object [(['7'], nodeJson "old.js"), (['3'], nodeJson "c.js"), (['7'], nodeJson "new.js")]),
    ("nodeToIdMap".toList, .object [(['b'], ofNat 2), (['a'], ofNat 1), (['b'], ofNat 7)]),
    ("nodeToLevelMap".toList, .object [(['7'], ofNat 1), (['1'], ofNat 0), (['7'], ofNat 5)])]

/-- The normal form of what `untidyDocument` lists. -/
def tidyGraph : Graph :=
  let node (key : String) : Node := {
    id := 7, isFile := true, key, imports := [9, 9], parents := [], children := [], level := 1, owner := none
    reach := [9, 4, 2] }
  ⟨[("b", 7), ("a", 1)], [(1, 0), (7, 5)], [(3, node "c.js"), (7, node "new.js")]⟩

/-- A file system that holds `untidyDocument`. -/
def untidyFile : FileSystem :=
  .holding [['g']] (Utf8.encode untidyDocument.pretty)

theorem load_gives_normal_form_of_untidyFile :
    load untidyFile (.ofString "g") = .ok tidyGraph ∧ tidyGraph.IsStorable ∧
      ∃ after, save untidyFile (.ofString "g") tidyGraph = (.ok (), after) ∧
        load after (.ofString "g") = .ok tidyGraph ∧
        after.readBytes (.ofString "g") = .ok (Utf8.encode (text tidyGraph)) := by
  have loaded : load untidyFile (.ofString "g") = .ok tidyGraph := by decide +kernel
  obtain ⟨storable, -, -, settled⟩ := load_gives_normal_form loaded
  have saved : save untidyFile (.ofString "g") tidyGraph =
      (.ok (), (save untidyFile (.ofString "g") tidyGraph).2) := rfl
  obtain ⟨reloaded, bytes, -⟩ := settled _ _ _ saved
  exact ⟨loaded, storable, _, saved, reloaded, bytes⟩

end Snapshot

end ImportAtlas
