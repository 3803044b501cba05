import ImportAtlas.Graph.Snapshot
import ImportAtlas.Proofs.FileSystem.Making
import ImportAtlas.Proofs.Graph.Table
import ImportAtlas.Proofs.Json.Layout
import ImportAtlas.Proofs.Json.Record
import ImportAtlas.Proofs.List.FirstPlaces
import ImportAtlas.Proofs.Text.Utf8

/-! # A graph is recovered from its snapshot

Each part of a graph is written as a JSON value that is read back as that part: numbers within their
limits, texts, lists of numbers, records and tables. Tables keep their order because no key is
repeated and the keys of the ordered ones increase; reaches keep theirs because they hold no number
twice.
-/

namespace ImportAtlas

/-- A node that a snapshot can hold: its numbers keep to their limits, and its reach holds each
number once. Nothing ties its number and its key to the graph around it. -/
structure Node.IsStorable (node : Node) : Prop where
  id : node.id < idLimit
  imports : ∀ id ∈ node.imports, id < idLimit
  parents : ∀ id ∈ node.parents, id < idLimit
  children : ∀ id ∈ node.children, id < idLimit
  level : node.level < levelLimit
  reach : ∀ id ∈ node.reach, id < idLimit
  once : node.reach.Nodup

/-- A graph that a snapshot can hold: its tables have unique keys, and its numbers keep to their
limits. -/
structure Graph.IsStorable (graph : Graph) : Prop where
  idKeys : Table.HasUniqueKeys graph.ids
  idValues : ∀ entry ∈ graph.ids, entry.2 < idLimit
  levelKeys : Table.IsSorted graph.levels
  levelValues : ∀ entry ∈ graph.levels, entry.1 < idLimit ∧ entry.2 < levelLimit
  nodeKeys : Table.IsSorted graph.nodes
  nodeValues : ∀ entry ∈ graph.nodes, entry.1 < idLimit ∧ entry.2.IsStorable

namespace Snapshot

open Json (ofNat ofText escape IsWellFormed)

/-! ## Writing -/

private theorem isWellFormed_ofIds (ids : List Id) : IsWellFormed (ofIds ids) := by
  apply IsWellFormed.array
  intro item member
  obtain ⟨id, -, rfl⟩ := List.mem_map.mp member
  exact Json.isWellFormed_ofNat id

private theorem isWellFormed_ofRecord {fields : List String} {values : List Json}
    (formed : ∀ value ∈ values, IsWellFormed value) : IsWellFormed (ofRecord fields values) := by
  apply IsWellFormed.object
  · intro member inside
    obtain ⟨field, -, named⟩ := List.mem_map.mp (List.of_mem_zip inside).1
    exact named ▸ Json.isRaw_escape field.toList
  · intro member inside
    exact formed _ (List.of_mem_zip inside).2

theorem isWellFormed_ofNode (node : Node) : IsWellFormed (ofNode node) := by
  have owner : IsWellFormed (node.owner.elim .null ofText) := by
    cases node.owner with
    | none => exact .null
    | some owner => exact Json.isWellFormed_ofText owner
  refine isWellFormed_ofRecord ?_
  simp only [List.forall_mem_cons]
  exact ⟨Json.isWellFormed_ofNat _, .bool _, Json.isWellFormed_ofText _, isWellFormed_ofIds _,
    isWellFormed_ofIds _, isWellFormed_ofIds _, Json.isWellFormed_ofNat _, owner, isWellFormed_ofIds _,
    List.forall_mem_nil _⟩

private theorem isRaw_write (n : Nat) : Json.IsRaw (Numeral.write n) :=
  Json.escape_write n ▸ Json.isRaw_escape (Numeral.write n)

/-- A snapshot is well-formed JSON. -/
theorem isWellFormed_ofGraph (graph : Graph) : IsWellFormed (ofGraph graph) := by
  refine isWellFormed_ofRecord ?_
  simp only [List.forall_mem_cons]
  refine ⟨.object ?_ ?_, .object ?_ ?_, .object ?_ ?_, List.forall_mem_nil _⟩
  all_goals
    intro member inside
    obtain ⟨entry, -, rfl⟩ := List.mem_map.mp inside
  · exact Json.isRaw_escape entry.1.toList
  · exact Json.isWellFormed_ofNat entry.2
  · exact isRaw_write entry.1
  · exact Json.isWellFormed_ofNat entry.2
  · exact isRaw_write entry.1
  · exact isWellFormed_ofNode entry.2

/-! ## Reading -/

theorem natural?_ofNat {n limit : Nat} (small : n < limit) : (ofNat n).natural? limit = some n :=
  Numeral.readBelow?_write small

theorem ids?_ofIds {ids : List Id} (small : ∀ id ∈ ids, id < idLimit) :
    ids? (ofIds ids) = some ids :=
  mapM_of_inverse fun id member => natural?_ofNat (small id member)

theorem text?_ofText (text : String) : text? (ofText text) = some text := by
  have read : (ofText text).text? = some text.toList := Json.unescape?_escape text.toList
  rw [text?, read, Option.map_some, String.ofList_toList]

theorem owner?_elim (owner : Option String) : owner? (some (owner.elim .null ofText)) = some owner := by
  cases owner with
  | none => rfl
  | some owner =>
    change (text? (ofText owner)).map some = _
    rw [text?_ofText, Option.map_some]

private theorem record?_ofRecord {fields : List String} {values : List Json} (unique : fields.Nodup)
    (complete : fields.length = values.length) :
    (ofRecord fields values).record? fields = some (values.map some) := by
  have names : (fields.zip values).map (·.1) = fields := List.map_fst_zip (Nat.le_of_eq complete)
  have entries : (fields.zip values).map (·.2) = values := List.map_snd_zip (Nat.le_of_eq complete.symm)
  have object : ofRecord fields values =
      .object ((fields.zip values).map fun entry => (escape entry.1.toList, entry.2)) := by
    rw [ofRecord, List.zip_map_left]
    rfl
  have read := @Json.record?_object (fields.zip values) (by rwa [names])
  have parts := congrArg (List.map some) entries
  rw [List.map_map] at parts
  rw [names] at read
  rw [object, read]
  exact congrArg some parts

/-- A node is recovered from its record. -/
theorem node?_ofNode {node : Node} (storable : node.IsStorable) : node? (ofNode node) = some node := by
  rw [node?, ofNode, record?_ofRecord (by decide) rfl]
  simp only [List.map_cons, List.map_nil, id?, natural?_ofNat storable.id, natural?_ofNat storable.level,
    Json.bool?, text?_ofText, ids?_ofIds storable.imports, ids?_ofIds storable.parents,
    ids?_ofIds storable.children, ids?_ofIds storable.reach, owner?_elim, eraseDups_of_nodup storable.once,
    Option.bind_eq_bind, Option.bind_some, Option.pure_def]

private theorem entries?_object {κ ν : Type} {key? : List Char → Option κ} {value? : Json → Option ν}
    (name : κ → List Char) (json : ν → Json) {entries : List (κ × ν)}
    (keys : ∀ entry ∈ entries, key? (name entry.1) = some entry.1)
    (values : ∀ entry ∈ entries, value? (json entry.2) = some entry.2) :
    entries? key? value? (.object (entries.map fun entry => (name entry.1, json entry.2))) = some entries := by
  apply mapM_of_inverse
  intro entry member
  simp only [keys entry member, values entry member, Option.bind_eq_bind, Option.bind_some, Option.pure_def]

theorem entries?_ids {graph : Graph} (storable : graph.IsStorable) :
    entries? (fun raw => (Json.unescape? raw).map String.ofList) id?
      (.object (graph.ids.map fun entry => (escape entry.1.toList, ofNat entry.2))) = some graph.ids :=
  entries?_object (fun key => escape key.toList) ofNat (fun entry _ => by simp [Json.unescape?_escape])
    fun entry member => natural?_ofNat (storable.idValues entry member)

theorem entries?_levels {graph : Graph} (storable : graph.IsStorable) :
    entries? (Numeral.readBelow? idLimit) (·.natural? levelLimit)
      (.object (graph.levels.map fun entry => (Numeral.write entry.1, ofNat entry.2))) = some graph.levels :=
  entries?_object Numeral.write ofNat
    (fun entry member => Numeral.readBelow?_write (storable.levelValues entry member).1)
    fun entry member => natural?_ofNat (storable.levelValues entry member).2

/-- A graph is recovered from its record. -/
theorem graph?_ofGraph {graph : Graph} (storable : graph.IsStorable) :
    graph? (ofGraph graph) = some graph := by
  have nodes : entries? (Numeral.readBelow? idLimit) node?
      (.object (graph.nodes.map fun entry => (Numeral.write entry.1, ofNode entry.2))) =
        some graph.nodes :=
    entries?_object Numeral.write ofNode
      (fun entry member => Numeral.readBelow?_write (storable.nodeValues entry member).1)
      fun entry member => node?_ofNode (storable.nodeValues entry member).2
  rw [graph?, ofGraph, record?_ofRecord (by decide) rfl]
  simp only [List.map_cons, List.map_nil, entries?_ids storable, entries?_levels storable, nodes,
    Table.ofList_of_unique storable.idKeys, Table.inOrder_of_sorted storable.levelKeys,
    Table.inOrder_of_sorted storable.nodeKeys, Option.bind_eq_bind, Option.bind_some, Option.pure_def]

theorem read?_text {graph : Graph} (storable : graph.IsStorable) :
    read? (text graph) = some graph := by
  rw [read?, text, Json.parse?_pretty (isWellFormed_ofGraph graph), Option.bind_some, graph?_ofGraph storable]

/-! ## Saving and loading -/

/-- Saving makes only directories above the path, and then writes the file. -/
theorem exists_makes_of_save {fs after : FileSystem} {path : Path} {graph : Graph}
    (saved : save fs path graph = (.ok (), after)) :
    ∃ made : FileSystem, fs.Makes made path.parents ∧ made.writeFile path (Utf8.encode (text graph)) = .ok after := by
  unfold save at saved
  dsimp only at saved
  split at saved
  case h_1 => cases saved
  case h_2 made stages =>
    have makes : fs.Makes made path.parents := by
      cases above : path.parent? with
      | none =>
        rw [above] at stages
        cases stages
        exact .refl fs _
      | some parent =>
        rw [above] at stages
        by_cases empty : parent.chars = []
        · rw [Option.filter_some, if_neg (by simp [empty])] at stages
          cases stages
          exact .refl fs _
        · rw [Option.filter_some, if_pos (by simp [empty])] at stages
          obtain rfl := congrArg Prod.snd stages
          rw [Path.parents, above]
          exact FileSystem.makes_makeChain fs parent.ancestors
    split at saved
    case h_1 written success =>
      cases saved
      exact ⟨made, makes, success⟩
    case h_2 => cases saved

/-- Saving ends with writing the file, whatever directories were made before. -/
theorem exists_writeFile_of_save {fs after : FileSystem} {path : Path} {graph : Graph}
    (saved : save fs path graph = (.ok (), after)) :
    ∃ made : FileSystem, made.writeFile path (Utf8.encode (text graph)) = .ok after := by
  obtain ⟨made, -, success⟩ := exists_makes_of_save saved
  exact ⟨made, success⟩

theorem readBytes_of_save {fs after : FileSystem} {path : Path} {graph : Graph}
    (saved : save fs path graph = (.ok (), after)) : after.readBytes path = .ok (Utf8.encode (text graph)) := by
  obtain ⟨made, success⟩ := exists_writeFile_of_save saved
  exact FileSystem.readBytes_of_writeFile success

/-- Loading reads the text that a file holds. -/
theorem load_of_encoded {fs : FileSystem} {path : Path} {content : List Char}
    (stored : fs.readBytes path = .ok (Utf8.encode content)) :
    load fs path = (read? content).elim (.error .snapshot) .ok := by
  rw [load, FileSystem.readText_of_encoded stored]
  dsimp only
  cases read? content <;> rfl

theorem load_of_save {fs after : FileSystem} {path : Path} {graph : Graph} (storable : graph.IsStorable)
    (saved : save fs path graph = (.ok (), after)) : load after path = .ok graph := by
  rw [load_of_encoded (readBytes_of_save saved), read?_text storable]
  rfl

/-- The text of a snapshot stands for the graph it was made of, and a snapshot that was saved is
loaded as that graph. -/
theorem graph_recovered {graph : Graph} (storable : graph.IsStorable) :
    read? (text graph) = some graph ∧
      ∀ (fs after : FileSystem) (path : Path), save fs path graph = (.ok (), after) →
        load after path = .ok graph := by
  refine ⟨read?_text storable, ?_⟩
  intro fs after path saved
  exact load_of_save storable saved

/-- A graph that no scan makes: a node stands under another number than its own, and names hold
characters that JSON escapes. -/
def oddGraph : Graph where
  ids := [("src/\"a\\b\n.js", 7), ("src", 1)]
  levels := [(1, 0), (7, 18446744073709551615)]
  nodes := [(3, {
    id := 7, isFile := true, key := "src/\"a\\b\n.js", imports := [9, 7, 9], parents := [1]
    children := [], level := 1, owner := some "\x01é\t", reach := [9, 4294967295, 2] })]

/-- A file system with one empty directory, in which paths begin. -/
def emptyDirectory : FileSystem where
  tree := .directory [(['w'], .directory [])]
  workingDirectory := [['w']]

theorem graph_recovered_of_oddGraph :
    oddGraph.IsStorable ∧ read? (text oddGraph) = some oddGraph ∧
      ∃ after, save emptyDirectory (.ofString "out/graph.json") oddGraph = (.ok (), after) ∧
        load after (.ofString "out/graph.json") = .ok oddGraph := by
  have storable : oddGraph.IsStorable := by
    refine ⟨?_, by decide, ?_, by decide, ?_, ?_⟩
    · exact show (oddGraph.ids.map (·.1)).Nodup by decide
    · exact show (oddGraph.levels.map (·.1)).Pairwise (· < ·) by decide
    · exact show (oddGraph.nodes.map (·.1)).Pairwise (· < ·) by decide
    · rw [oddGraph, List.forall_mem_singleton]
      exact ⟨by decide, by decide, by decide, by decide, by decide, by decide, by decide, by decide⟩
  have recovered := graph_recovered storable
  have saved : save emptyDirectory (.ofString "out/graph.json") oddGraph =
      (.ok (), (save emptyDirectory (.ofString "out/graph.json") oddGraph).2) := rfl
  exact ⟨storable, recovered.1, _, saved, recovered.2 _ _ _ saved⟩

end Snapshot

end ImportAtlas
