import ImportAtlas.Graph.Basic
import ImportAtlas.Log
import ImportAtlas.Text.Numeral

/-! # Drawings in the DOT language

A drawing has one statement for every node and one for every import of a node. An import of a number
that is no key of the nodes is left out. Quotes and backslashes in labels are escaped, so a label
ends at its closing quote whatever the file is called.
-/

namespace ImportAtlas

namespace Dot

/-- The escaped form of a label. -/
def escape (label : List Char) : List Char :=
  label.flatMap fun c =>
    if c = '\\' then ['\\', '\\'] else if c = '"' then ['\\', '"'] else [c]

/-- A label in its quotes. -/
def quote (label : List Char) : List Char :=
  '"' :: (escape label ++ ['"'])

/-- The lines before the first node. -/
def header : List (List Char) :=
  ["digraph DependencyGraph \x7b".toList,
    "    rankdir=LR;".toList,
    "    node [shape=box, fontname=\"Helvetica\", fontsize=11];".toList,
    []]

/-- The statement for a node. -/
def nodeLine (node : Node) : List Char :=
  "    ".toList ++ quote (Numeral.write node.id) ++ " [label=".toList ++
    quote node.baseName.toList ++ ", tooltip=".toList ++ quote node.key.toList ++ "];".toList

/-- The statement for an import. -/
def edgeLine (source target : Id) : List Char :=
  "    ".toList ++ quote (Numeral.write source) ++ " -> ".toList ++
    quote (Numeral.write target) ++ ";".toList

end Dot

namespace Graph

/-- Whether a number is a key of the nodes. -/
def hasNode (graph : Graph) (id : Id) : Bool :=
  (graph.node? id).isSome

/-- The imports of all nodes, each with the number that its node holds. -/
def edges (graph : Graph) : List (Id × Id) :=
  graph.nodes.flatMap fun entry => entry.2.imports.map (entry.2.id, ·)

/-- The imports that a drawing shows. -/
def drawnEdges (graph : Graph) : List (Id × Id) :=
  graph.edges.filter fun edge => graph.hasNode edge.2

/-- How many imports a drawing leaves out. -/
def danglingCount (graph : Graph) : Nat :=
  graph.edges.countP fun edge => !graph.hasNode edge.2

/-- The lines of the drawing of a graph. -/
def dotLines (graph : Graph) : List (List Char) :=
  Dot.header ++ graph.nodes.map (fun entry => Dot.nodeLine entry.2) ++ [[]] ++
    graph.drawnEdges.map (fun edge => Dot.edgeLine edge.1 edge.2) ++ [['\x7d']]

/-- The drawing of a graph in the DOT language. -/
def dot (graph : Graph) : List Char :=
  ['\n'].intercalate graph.dotLines

/-- What drawing reports: how many imports were left out, if any were. -/
def dotLog (graph : Graph) : List LogLine :=
  if graph.danglingCount = 0 then []
  else [⟨.warning, "skipped edges to unknown node ids",
    [("dangling", toString graph.danglingCount)]⟩]

end Graph

end ImportAtlas
