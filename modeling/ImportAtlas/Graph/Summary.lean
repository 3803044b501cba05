import ImportAtlas.Graph.Basic
import ImportAtlas.Json.Printer

/-! # Counts of a graph -/

namespace ImportAtlas

/-- How large a graph is. -/
structure Summary where
  entries : Nat
  files : Nat
  /-- Entries that are no source files. -/
  others : Nat
  edges : Nat
  /-- The greatest level of an entry. -/
  depth : Nat
deriving DecidableEq, Repr

namespace Graph

/-- The counts of a graph. A graph with more nodes than entries has no other entries. -/
def summary (graph : Graph) : Summary where
  entries := graph.ids.length
  files := graph.nodes.length
  others := graph.ids.length - graph.nodes.length
  edges := (graph.nodes.map fun node => node.2.imports.length).foldr (· + ·) 0
  depth := (graph.levels.map (·.2)).foldl max 0

end Graph

/-- The counts in one line. -/
def Summary.line (summary : Summary) : String :=
  toString summary.entries ++ " entries (" ++ toString summary.files ++ " source files, " ++
    toString summary.others ++ " other), " ++ toString summary.edges ++ " edges, max depth " ++
    toString summary.depth

/-- The counts in JSON. -/
def Summary.json (summary : Summary) : Json :=
  .object
    [("total_entries".toList, .ofNat summary.entries), ("file_count".toList, .ofNat summary.files),
      ("other_count".toList, .ofNat summary.others), ("edge_count".toList, .ofNat summary.edges),
      ("max_level".toList, .ofNat summary.depth)]

end ImportAtlas
