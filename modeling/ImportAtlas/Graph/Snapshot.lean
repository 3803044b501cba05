import ImportAtlas.Failure
import ImportAtlas.FileSystem.Operations
import ImportAtlas.Graph.Basic
import ImportAtlas.Graph.Table
import ImportAtlas.Json.Printer
import ImportAtlas.Json.Reader
import ImportAtlas.Json.Record
import ImportAtlas.Log

/-! # Snapshots

A snapshot is a graph in JSON. The graph and its nodes are records; its three tables are objects,
with numbers as names where numbers are the keys. A repeated key keeps its first place and takes
the last value, levels and nodes come by number, and the reach of a node holds each number once.
Only the owner of a node may be left out.
-/

namespace ImportAtlas

/-- Numbers of entries lie below this limit in a snapshot. -/
def idLimit : Nat := Nat.pow 2 32

/-- Levels lie below this limit in a snapshot. -/
def levelLimit : Nat := Nat.pow 2 64

namespace Snapshot

open Json (ofNat ofText escape)

/-- The fields of a node. -/
def nodeFields : List String :=
  ["id", "isFile", "name", "dependencies", "levelWiseParents", "children", "level",
    "nearestRootModule", "allDependencies"]

/-- The fields of a graph. -/
def graphFields : List String :=
  ["nodeToIdMap", "nodeToLevelMap", "nodes"]

/-- A list of numbers in JSON. -/
def ofIds (ids : List Id) : Json :=
  .array (ids.map ofNat)

/-- A record in JSON. -/
def ofRecord (fields : List String) (values : List Json) : Json :=
  .object ((fields.map fun field => escape field.toList).zip values)

/-- A node in JSON. -/
def ofNode (node : Node) : Json :=
  ofRecord nodeFields
    [ofNat node.id, .bool node.isFile, ofText node.key, ofIds node.imports, ofIds node.parents,
      ofIds node.children, ofNat node.level, node.owner.elim .null ofText, ofIds node.reach]

/-- A graph in JSON. -/
def ofGraph (graph : Graph) : Json :=
  ofRecord graphFields
    [.object (graph.ids.map fun entry => (escape entry.1.toList, ofNat entry.2)),
      .object (graph.levels.map fun entry => (Numeral.write entry.1, ofNat entry.2)),
      .object (graph.nodes.map fun entry => (Numeral.write entry.1, ofNode entry.2))]

/-- The text of a snapshot. -/
def text (graph : Graph) : List Char :=
  (ofGraph graph).pretty

/-- The number of an entry. -/
def id? (json : Json) : Option Id :=
  json.natural? idLimit

/-- A list of numbers. -/
def ids? (json : Json) : Option (List Id) :=
  json.items?.bind (·.mapM id?)

/-- A text. -/
def text? (json : Json) : Option String :=
  json.text?.map String.ofList

/-- The owner of a node, which may be missing or null. -/
def owner? : Option Json → Option (Option String)
  | none => some none
  | some .null => some none
  | some json => (text? json).map some

/-- The entries of an object, with keys and values read as told. -/
def entries? {κ ν : Type} (key? : List Char → Option κ) (value? : Json → Option ν) (json : Json) :
    Option (List (κ × ν)) :=
  json.members?.bind (·.mapM fun member => do
    let key ← key? member.1
    let value ← value? member.2
    return (key, value))

/-- The node that a JSON value stands for. -/
def node? (json : Json) : Option Node :=
  match json.record? nodeFields with
  | some [some id, some isFile, some key, some imports, some parents, some children, some level,
      owner, some reach] => do
    let id ← id? id
    let isFile ← isFile.bool?
    let key ← text? key
    let imports ← ids? imports
    let parents ← ids? parents
    let children ← ids? children
    let level ← level.natural? levelLimit
    let owner ← owner? owner
    let reach ← ids? reach
    return {
      id, isFile, key, imports, parents, children, level, owner
      reach := reach.eraseDups }
  | _ => none

/-- The graph that a JSON value stands for. -/
def graph? (json : Json) : Option Graph :=
  match json.record? graphFields with
  | some [some ids, some levels, some nodes] => do
    let ids ← entries? (fun raw => (Json.unescape? raw).map String.ofList) id? ids
    let levels ← entries? (Numeral.readBelow? idLimit) (·.natural? levelLimit) levels
    let nodes ← entries? (Numeral.readBelow? idLimit) node? nodes
    return { ids := Table.ofList ids, levels := Table.inOrder levels, nodes := Table.inOrder nodes }
  | _ => none

/-- The graph that the text of a snapshot stands for. -/
def read? (text : List Char) : Option Graph :=
  (Json.parse? text).bind graph?

/-- Writes the snapshot of a graph, and makes the directories that its path needs. -/
def save (fs : FileSystem) (path : Path) (graph : Graph) : Except Failure Unit × FileSystem :=
  let parent := (path.parent?.filter fun parent => !parent.chars.isEmpty)
  let made :=
    match parent with
    | some parent =>
      let made := fs.makeDirectories parent
      (made.1.mapError (Failure.file parent), made.2)
    | none => (.ok (), fs)
  match made with
  | (.error failure, fs) => (.error failure, fs)
  | (.ok (), fs) =>
    match fs.writeFile path (Utf8.encode (text graph)) with
    | .ok written => (.ok (), written)
    | .error cause => (.error (.file path cause), fs)

/-- Reads the graph of the snapshot at a path. -/
def load (fs : FileSystem) (path : Path) : Except Failure Graph :=
  match fs.readText path with
  | .error cause => .error (.file path cause)
  | .ok text =>
    match read? text with
    | some graph => .ok graph
    | none => .error .snapshot

/-- What saving reports. -/
def savedLine (path : Path) (graph : Graph) : LogLine :=
  ⟨.info, "graph saved", [("path", toString path), ("nodes", toString graph.nodes.length)]⟩

end Snapshot

end ImportAtlas
