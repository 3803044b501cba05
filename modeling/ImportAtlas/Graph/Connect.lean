import ImportAtlas.Graph.Survey
import ImportAtlas.Source.Lookup

/-! # Connecting the files of a survey

Connecting reads every source file of a survey, finds the files that its local specifiers mean, and
keeps those that are nodes. The survey may be older than the file system that is read. The files can
be read in any order, since each result belongs to one node.
-/

namespace ImportAtlas

/-- What the statements of one source file come to. -/
structure Findings where
  /-- The imported nodes, in the order of the statements. -/
  imports : List Id
  /-- How many local specifiers mean no node. -/
  unresolved : Nat
deriving DecidableEq, Repr

/-- A graph, and how many local specifiers were left out of it. -/
structure Connected where
  graph : Graph
  unresolved : Nat
deriving DecidableEq, Repr

/-- The imports of a node among some nodes; none if there is no such node. -/
def importsOf (nodes : List (Id × Node)) (id : Id) : List Id :=
  match nodes.lookup id with
  | some node => node.imports
  | none => []

/-- The nodes with the findings of one of them recorded. -/
def recordFindings (nodes : List (Id × Node)) (result : Id × Findings) : List (Id × Node) :=
  nodes.map fun entry =>
    if entry.1 = result.1 then (entry.1, { entry.2 with imports := result.2.imports }) else entry

/-- The nodes with what their imports import. -/
def recordReach (nodes : List (Id × Node)) : List (Id × Node) :=
  nodes.map fun entry =>
    (entry.1, { entry.2 with reach := (entry.2.imports.flatMap (importsOf nodes)).eraseDups })

/-- How the specifiers of a project are looked up. -/
def Settings.lookup (settings : Settings) : Source.Lookup where
  extensions := settings.lookupEndings
  indexName := settings.indexName

namespace Survey

/-- The node that a path names, if it names one. -/
def nodeAt? (survey : Survey) (path : Path) : Option Id :=
  ((survey.root.keyBelow? path).bind survey.numbering.id?).filter fun id =>
    (survey.nodes.lookup id).isSome

/-- What each local specifier in a text means for a file in a directory. -/
def meanings (survey : Survey) (fs : FileSystem) (directory : Path) (text : List Char) :
    List (Option Id) :=
  ((Source.specifiers text).filter Source.isLocal).map fun specifier =>
    (survey.settings.lookup.find? fs directory specifier).bind survey.nodeAt?

/-- Reads one source file. -/
def scan (survey : Survey) (fs : FileSystem) (key : String) : Except Failure Findings :=
  let path := survey.filePath key
  match fs.readBytes path with
  | .error cause => .error (.file path cause)
  | .ok bytes =>
    let found := survey.meanings fs (path.parent?.getD survey.root) (Utf8.decodeLossy bytes)
    .ok ⟨found.filterMap id, found.countP Option.isNone⟩

/-- Reads all source files; the first that cannot be read, by number, ends the scan. -/
def scanAll (survey : Survey) (fs : FileSystem) : Except Failure (List (Id × Findings)) :=
  survey.nodes.mapM fun entry => (survey.scan fs entry.2.key).map (entry.1, ·)

/-- The graph that some results make of a survey. -/
def assemble (survey : Survey) (results : List (Id × Findings)) : Connected where
  graph :=
    { ids := survey.numbering.ids
      levels := survey.numbering.levels
      nodes := recordReach (results.foldl recordFindings survey.nodes) }
  unresolved := (results.map (·.2.unresolved)).foldr (· + ·) 0

/-- The graph of a survey. -/
def connect (survey : Survey) (fs : FileSystem) : Except Failure Connected :=
  (survey.scanAll fs).map survey.assemble

end Survey

namespace Connected

/-- A list of numbers in brackets. -/
def showIds (ids : List Id) : String :=
  "[" ++ ", ".intercalate (ids.map toString) ++ "]"

/-- What connecting reports: the imports of each file, and the counts. -/
def log (connected : Connected) : List LogLine :=
  connected.graph.nodes.map (fun entry =>
    ⟨.debug, "wired", [("file", entry.2.key), ("dependencies", showIds entry.2.imports)]⟩) ++
  [⟨.debug, "relative specifiers left unresolved",
      [("unresolved", toString connected.unresolved)]⟩,
    ⟨.info, "wiring complete", [("files", toString connected.graph.nodes.length),
      ("edges", toString ((connected.graph.nodes.map fun node => node.2.imports.length).foldr (· + ·) 0))]⟩]

end Connected

/-- The graph of the source tree below a root, and what was reported on the way. -/
def buildWithLog (fs : FileSystem) (root : Path) (settings : Settings) :
    Except Failure Connected × List LogLine :=
  match Workspace.ofPath fs root settings with
  | .error failure => (.error failure, [])
  | .ok workspace =>
    match workspace.survey fs with
    | .error failure => (.error failure, [])
    | .ok survey =>
      match survey.connect fs with
      | .error failure => (.error failure, survey.log)
      | .ok connected => (.ok connected, survey.log ++ connected.log)

/-- The graph of the source tree below a root. -/
def buildGraph (fs : FileSystem) (root : Path) (settings : Settings) : Except Failure Connected :=
  (buildWithLog fs root settings).1

end ImportAtlas
