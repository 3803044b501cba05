import ImportAtlas.Graph.Dot
import ImportAtlas.Proofs.Text.Numeral
import ImportAtlas.Source.Statement

/-! # Reading drawings

A drawing can be read back. A label ends at its first unescaped quote, so what is in it is told from what
surrounds it, whether it holds quotes, line ends or the text of a statement. Hence each statement of a
drawing is read as what it was written for, and two graphs have the same drawing only if they have the same
vertices and the same drawn imports.
-/

namespace ImportAtlas

open Source (afterWord?)

namespace Dot

variable {α : Type}

/-! ## Labels -/

/-- A text up to its first unescaped quote, with its escapes undone, and the text after that quote. -/
def untilQuote? : List Char → Option (List Char × List Char)
  | [] => none
  | '"' :: text => some ([], text)
  | '\\' :: '\\' :: text => (untilQuote? text).map fun found => ('\\' :: found.1, found.2)
  | '\\' :: '"' :: text => (untilQuote? text).map fun found => ('"' :: found.1, found.2)
  | '\\' :: _ => none
  | c :: text => (untilQuote? text).map fun found => (c :: found.1, found.2)

/-- The label in quotes that a text starts with, and the text after it. -/
def quoted? (text : List Char) : Option (List Char × List Char) :=
  (afterWord? ['"'] text).bind untilQuote?

theorem untilQuote?_escape (label rest : List Char) :
    untilQuote? (escape label ++ '"' :: rest) = some (label, rest) := by
  induction label with
  | nil => rfl
  | cons c label ih =>
    have split : escape (c :: label) = escape [c] ++ escape label := by simp [escape]
    rw [split, List.append_assoc]
    by_cases backslash : c = '\\'
    · subst backslash
      have escaped : escape ['\\'] = ['\\', '\\'] := rfl
      simp [escaped, untilQuote?, ih]
    by_cases quote : c = '"'
    · subst quote
      have escaped : escape ['"'] = ['\\', '"'] := rfl
      simp [escaped, untilQuote?, ih]
    · have plain : escape [c] = [c] := by simp [escape, backslash, quote]
      rw [plain, List.singleton_append, untilQuote?, ih]
      · rfl
      all_goals simp [backslash, quote]

/-- A label in its quotes is read as that label, whatever follows it. -/
theorem quoted?_quote (label rest : List Char) : quoted? (quote label ++ rest) = some (label, rest) := by
  rw [quoted?, quote, List.cons_append, List.append_assoc]
  exact untilQuote?_escape label rest

/-! ## Statements -/

/-- A vertex as its statement shows it. -/
structure Vertex where
  id : Id
  label : String
  tooltip : String
deriving DecidableEq, Repr

/-- The number in quotes that a text starts with, and the text after it. -/
def number? (text : List Char) : Option (Id × List Char) := do
  let (digits, text) ← quoted? text
  let id ← Numeral.read? digits
  some (id, text)

/-- The vertex whose statement a text starts with, and the text after it. -/
def vertex? (text : List Char) : Option (Vertex × List Char) := do
  let text ← afterWord? "    ".toList text
  let (id, text) ← number? text
  let text ← afterWord? " [label=".toList text
  let (label, text) ← quoted? text
  let text ← afterWord? ", tooltip=".toList text
  let (tooltip, text) ← quoted? text
  let text ← afterWord? "];".toList text
  some (⟨id, String.ofList label, String.ofList tooltip⟩, text)

/-- The edge whose statement a text starts with, and the text after it. -/
def edge? (text : List Char) : Option ((Id × Id) × List Char) := do
  let text ← afterWord? "    ".toList text
  let (source, text) ← number? text
  let text ← afterWord? " -> ".toList text
  let (target, text) ← number? text
  let text ← afterWord? ";".toList text
  some ((source, target), text)

/-- What the line that a text starts with is read as, and the text after that line. -/
def line? (read? : List Char → Option (α × List Char)) (text : List Char) : Option (α × List Char) := do
  let (item, text) ← read? text
  let text ← afterWord? ['\n'] text
  some (item, text)

/-- The lines of one kind that a text starts with, as many as there are, and the text after them. -/
def lines (read? : List Char → Option (α × List Char)) (text : List Char) : List α × List Char :=
  match line? read? text with
  | none => ([], text)
  | some (item, rest) =>
    if rest.length < text.length then
      let found := lines read? rest
      (item :: found.1, found.2)
    else ([], text)
termination_by text.length

theorem afterWord?_append (word text : List Char) : afterWord? word (word ++ text) = some text := by
  induction word with
  | nil => rfl
  | cons c word ih => rw [List.cons_append, afterWord?, if_pos rfl, ih]

theorem number?_quote (id : Id) (rest : List Char) :
    number? (quote (Numeral.write id) ++ rest) = some (id, rest) := by
  simp [number?, quoted?_quote, Numeral.read?_write]

theorem vertex?_nodeLine (node : Node) (rest : List Char) :
    vertex? (nodeLine node ++ rest) = some (⟨node.id, node.baseName, node.key⟩, rest) := by
  unfold nodeLine vertex?
  simp only [List.append_assoc, afterWord?_append, number?_quote, quoted?_quote, Option.bind_eq_bind,
    Option.bind_some, String.ofList_toList]

theorem edge?_edgeLine (source target : Id) (rest : List Char) :
    edge? (edgeLine source target ++ rest) = some ((source, target), rest) := by
  unfold edgeLine edge?
  simp only [List.append_assoc, afterWord?_append, number?_quote, Option.bind_eq_bind, Option.bind_some]

/-- Lines that are read one by one are read one after another, up to a text that starts with no such line. -/
theorem lines_append {read? : List Char → Option (α × List Char)} {β : Type} {line : β → List Char}
    {meaning : β → α} (reads : ∀ item rest, read? (line item ++ rest) = some (meaning item, rest))
    (items : List β) (rest : List Char) (ends : read? rest = none) :
    lines read? (items.flatMap (fun item => line item ++ ['\n']) ++ rest) = (items.map meaning, rest) := by
  induction items with
  | nil =>
    have nothing : line? read? rest = none := by simp [line?, ends]
    rw [List.flatMap_nil, List.nil_append, lines, nothing, List.map_nil]
  | cons item items ih =>
    let others := items.flatMap (fun item => line item ++ ['\n']) ++ rest
    have one : line? read? (line item ++ ['\n'] ++ others) = some (meaning item, others) := by
      simp only [line?, List.append_assoc, reads, afterWord?_append, Option.bind_eq_bind, Option.bind_some]
    have shorter : others.length < (line item ++ ['\n'] ++ others).length := by
      simp only [List.length_append, List.length_singleton]
      omega
    rw [List.flatMap_cons, List.append_assoc, lines, one, List.map_cons]
    simp only [shorter, if_true, others, ih]

/-! ## Drawings -/

/-- What a drawing shows. -/
structure Drawing where
  vertices : List Vertex
  edges : List (Id × Id)
deriving DecidableEq, Repr

/-- The drawing that a text spells: the lines of the header, the vertices, an empty line, the edges and a
closing brace. -/
def read? (text : List Char) : Option Drawing := do
  let text ← afterWord? (header.flatMap fun line => line ++ ['\n']) text
  let (vertices, text) := lines vertex? text
  let text ← afterWord? ['\n'] text
  let (edges, text) := lines edge? text
  if text = ['\x7d'] then some ⟨vertices, edges⟩ else none

/-- The text of lines of which the last has no line end. -/
theorem intercalate_concat (before : List (List Char)) (last : List Char) :
    ['\n'].intercalate (before ++ [last]) = before.flatMap (fun line => line ++ ['\n']) ++ last := by
  induction before with
  | nil => simp
  | cons line before ih =>
    rw [List.cons_append, List.intercalate_cons_of_ne_nil (by simp), ih, List.flatMap_cons,
      List.append_assoc, List.append_assoc, List.append_assoc]

end Dot

namespace Graph

open Dot (Drawing)

/-- The numbers and keys of the vertices that a drawing shows. -/
def vertices (graph : Graph) : List (Id × String) :=
  graph.nodes.map fun entry => (entry.2.id, entry.2.key)

/-- What the drawing of a graph shows. -/
def drawing (graph : Graph) : Drawing where
  vertices := graph.nodes.map fun entry => ⟨entry.2.id, entry.2.baseName, entry.2.key⟩
  edges := graph.drawnEdges

theorem dot_eq (graph : Graph) :
    graph.dot = Dot.header.flatMap (fun line => line ++ ['\n']) ++
      (graph.nodes.flatMap (fun entry => Dot.nodeLine entry.2 ++ ['\n']) ++
        (['\n'] ++ (graph.drawnEdges.flatMap (fun edge => Dot.edgeLine edge.1 edge.2 ++ ['\n']) ++ ['\x7d']))) := by
  rw [dot, dotLines, Dot.intercalate_concat]
  simp only [List.flatMap_append, List.flatMap_map, List.flatMap_singleton, List.nil_append, List.append_assoc]

/-- A drawing is read as what it shows. -/
theorem read?_dot (graph : Graph) : Dot.read? graph.dot = some graph.drawing := by
  let edgeText := graph.drawnEdges.flatMap (fun edge => Dot.edgeLine edge.1 edge.2 ++ ['\n']) ++ ['\x7d']
  have vertices := Dot.lines_append (fun entry : Id × Node => Dot.vertex?_nodeLine entry.2) graph.nodes
    ('\n' :: edgeText) rfl
  have edges := Dot.lines_append (fun edge : Id × Id => Dot.edge?_edgeLine edge.1 edge.2) graph.drawnEdges
    ['\x7d'] rfl
  have gap : afterWord? ['\n'] ('\n' :: edgeText) = some edgeText := Dot.afterWord?_append ['\n'] edgeText
  rw [dot_eq, Dot.read?, Dot.afterWord?_append, Option.bind_eq_bind, Option.bind_some, List.singleton_append]
  rw [vertices]
  simp only [gap, Option.bind_some]
  rw [edges]
  simp [drawing]

/-- The text of a drawing depends on nothing but its vertices and edges: the label of a vertex is cut from
its key. -/
theorem dot_congr {graph other : Graph} (sameVertices : graph.vertices = other.vertices)
    (sameEdges : graph.drawnEdges = other.drawnEdges) : graph.dot = other.dot := by
  let lineOf (vertex : Id × String) : List Char := Dot.nodeLine (Node.fresh vertex.1 vertex.2 0 none none)
  have nodeLines (graph : Graph) :
      graph.nodes.map (fun entry => Dot.nodeLine entry.2) = graph.vertices.map lineOf := by
    rw [vertices, List.map_map]
    rfl
  rw [dot, dot, dotLines, dotLines, nodeLines, nodeLines, sameVertices, sameEdges]

theorem vertices_eq (graph : Graph) :
    graph.vertices = graph.drawing.vertices.map fun vertex => (vertex.id, vertex.tooltip) := by
  rw [drawing, vertices, List.map_map]
  rfl

/-- Drawings are unambiguous. Two graphs have the same drawing just if their vertices have the same numbers
and keys, by number, and the same imports are drawn. From the text one reads a vertex with the base name and
the key of its file for every node, and an edge for every import of a number that has a node. A label in
quotes is read as that label whatever it holds and whatever follows it. -/
theorem dot_is_unambiguous (graph other : Graph) :
    (graph.dot = other.dot ↔
      graph.nodes.map (fun entry => (entry.2.id, entry.2.key)) =
          other.nodes.map (fun entry => (entry.2.id, entry.2.key)) ∧
        graph.drawnEdges = other.drawnEdges) ∧
      Dot.read? graph.dot =
        some ⟨graph.nodes.map fun entry => ⟨entry.2.id, entry.2.baseName, entry.2.key⟩, graph.drawnEdges⟩ ∧
      ∀ label rest : List Char, Dot.quoted? (Dot.quote label ++ rest) = some (label, rest) := by
  refine ⟨⟨?_, fun ⟨sameVertices, sameEdges⟩ => dot_congr sameVertices sameEdges⟩, read?_dot graph,
    Dot.quoted?_quote⟩
  intro same
  have reading : Dot.read? graph.dot = Dot.read? other.dot := congrArg Dot.read? same
  rw [read?_dot, read?_dot, Option.some_inj] at reading
  have sameVertices : graph.vertices = other.vertices := by rw [vertices_eq, vertices_eq, reading]
  exact ⟨sameVertices, congrArg Drawing.edges reading⟩

end Graph

end ImportAtlas
