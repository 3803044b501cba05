import ImportAtlas.Graph.Numbering
import ImportAtlas.Path

/-! # Import graphs

An import graph holds the number and the level of every entry of a source tree, and a node for every
source file. The keys come in the order in which they were met; levels and nodes come by number.
-/

namespace ImportAtlas

/-- A source file in an import graph. -/
structure Node where
  id : Id
  /-- Always true for a node that a scan made: directories have no node. -/
  isFile : Bool
  /-- The key of the file. -/
  key : String
  /-- The files that it imports, in the order of its statements, repetitions included. -/
  imports : List Id
  /-- The directory that holds it, unless that is the root. -/
  parents : List Id
  /-- Kept for other programs; no scan fills it. -/
  children : List Id
  level : Nat
  /-- The key of the module that owns the file. -/
  owner : Option String
  /-- The files that its imports import, each once, in the order in which they are first met. -/
  reach : List Id
deriving DecidableEq, Repr

/-- The imports between the source files of a tree. -/
structure Graph where
  ids : List (String × Id)
  levels : List (Id × Nat)
  nodes : List (Id × Node)
deriving DecidableEq, Repr

namespace Node

/-- The node of a file whose imports are not known yet. -/
def fresh (id : Id) (key : String) (level : Nat) (parent : Option Id) (owner : Option String) :
    Node where
  id := id
  isFile := true
  key := key
  imports := []
  parents := parent.toList
  children := []
  level := level
  owner := owner
  reach := []

/-- The part of the key after its last slash. -/
def baseName (node : Node) : String :=
  String.ofList ((Path.segments node.key.toList).getLast?.getD [])

end Node

namespace Graph

/-- The graph of an empty tree. -/
def empty : Graph where
  ids := []
  levels := []
  nodes := []

instance : Inhabited Graph := ⟨empty⟩

/-- The number of the entry with a key. -/
def id? (graph : Graph) (key : String) : Option Id :=
  graph.ids.lookup key

/-- The node under a number. -/
def node? (graph : Graph) (id : Id) : Option Node :=
  graph.nodes.lookup id

/-- The node of the source file with a key. -/
def nodeOf? (graph : Graph) (key : String) : Option Node :=
  (graph.id? key).bind graph.node?

end Graph

end ImportAtlas
