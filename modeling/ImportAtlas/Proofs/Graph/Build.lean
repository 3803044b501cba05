import ImportAtlas.Proofs.FileSystem.Reading
import ImportAtlas.Proofs.Graph.Reach
import ImportAtlas.Proofs.Graph.Records
import ImportAtlas.Proofs.Source.Lookup

/-! # From a path to a graph

A graph is built in stages: the path leads to a location, what lies there is surveyed under the path of
that location, and the files of the survey are connected. So all that a built graph says is said about
locations below one root, and every path that is made on the way is one of names below that root.
-/

namespace ImportAtlas

/-! ## The stages -/

section Stages

variable {fs : FileSystem} {path : Path} {settings : Settings} {root : Location}

theorem buildGraph_of_locate_error {cause : Cause} (failed : fs.locate path = .error cause) :
    buildGraph fs path settings = .error (.rootNotFound path) := by
  rw [buildGraph, buildWithLog, Workspace.ofPath, failed]

/-- Once the root is located, the rest of a build goes on from its own path. -/
theorem buildGraph_of_locate (located : fs.locate path = .ok root) :
    buildGraph fs path settings =
      if fs.leadsToDirectory (Path.ofNames root) then
        (Workspace.survey ⟨Path.ofNames root, settings⟩ fs).bind (Survey.connect · fs)
      else .error (.rootNotFound (Path.ofNames root)) := by
  rw [buildGraph, buildWithLog, Workspace.ofPath, located]
  dsimp only
  cases fs.leadsToDirectory (Path.ofNames root) with
  | false => rfl
  | true =>
    rw [if_pos rfl, if_pos rfl]
    dsimp only
    cases Workspace.survey ⟨Path.ofNames root, settings⟩ fs with
    | error failure => rfl
    | ok survey =>
      dsimp only [Except.bind]
      cases survey.connect fs <;> rfl

/-- What is located is there and is no link. -/
theorem exists_entry_of_locate (located : fs.locate path = .ok root) :
    ∃ entry, fs.get? root = some entry ∧ ∀ target, entry ≠ .link target := by
  rw [FileSystem.locate] at located
  split at located
  case h_1 location entry resolved =>
    cases located
    exact ⟨entry, FileSystem.isIn_of_resolve resolved, FileSystem.ne_link_of_resolve (by decide) resolved⟩
  case h_2 => cases located
  case h_3 => cases located

/-- A root that leads to a directory leads to the one at its location. -/
theorem exists_directory_of_leads (sound : fs.tree.IsSound) (located : fs.locate path = .ok root)
    (leads : fs.leadsToDirectory (Path.ofNames root) = true) :
    ∃ children, fs.get? root = some (.directory children) ∧
      fs.resolve .follow (Path.ofNames root) = .ok (.found root (.directory children)) := by
  obtain ⟨entry, here, noLink⟩ := exists_entry_of_locate located
  rw [FileSystem.leadsToDirectory_eq, decide_eq_true_iff, FileSystem.seen_eq_some_iff] at leads
  obtain ⟨last, found, isDirectory⟩ := leads
  obtain ⟨location, resolved⟩ := FileSystem.entryAt_eq_ok_iff.mp found
  cases FileSystem.place_of_resolve_ofNames sound here noLink resolved
  obtain ⟨children, rfl⟩ := Entry.kind_eq_directory_iff.mp isDirectory
  exact ⟨children, here, resolved⟩

/-- A survey of what the root leads to fails only if the path of a directory is too long to be listed. -/
theorem survey_of_resolve {workspace : Workspace} {location : Location} {entry : Entry}
    (resolved : fs.resolve .follow workspace.root = .ok (.found location entry)) :
    workspace.survey fs =
      if (entry.walk workspace.settings.isIgnored).any workspace.cannotList then .error (.walk workspace.root)
      else .ok ((entry.walk workspace.settings.isIgnored).foldl Survey.visit (.start workspace)) := by
  rw [Workspace.survey, FileSystem.entryAt_eq_ok_iff.mpr ⟨location, resolved⟩]

/-- A build that succeeds has located its root, surveyed what lies there and connected the survey. -/
theorem exists_survey_of_buildGraph {connected : Connected} (built : buildGraph fs path settings = .ok connected) :
    ∃ root survey, fs.locate path = .ok root ∧ fs.leadsToDirectory (Path.ofNames root) = true ∧
      Workspace.survey ⟨Path.ofNames root, settings⟩ fs = .ok survey ∧ survey.connect fs = .ok connected := by
  cases located : fs.locate path with
  | error cause =>
    rw [buildGraph_of_locate_error located] at built
    cases built
  | ok root =>
    rw [buildGraph_of_locate located] at built
    split at built
    case isFalse => cases built
    case isTrue leads =>
      cases surveyed : Workspace.survey ⟨Path.ofNames root, settings⟩ fs with
      | error failure =>
        rw [surveyed] at built
        cases built
      | ok survey =>
        rw [surveyed] at built
        exact ⟨root, survey, rfl, leads, surveyed, built⟩

end Stages

namespace Survey

/-! ## Surveys below a location -/

/-- A survey of the directory at a location, made under the path of that location. -/
structure Covers (survey : Survey) (fs : FileSystem) (root : Location) : Prop where
  path : survey.root = Path.ofNames root
  here : ∃ children, fs.get? root = some (.directory children)
  unique : Table.HasUniqueKeys survey.nodes
  enumerates : survey.Enumerates fs root
  isCoherent : survey.IsCoherent

/-- The survey of a root that leads to a directory covers what lies there. -/
theorem covers_of_survey {fs : FileSystem} {path : Path} {root : Location} {settings : Settings} {survey : Survey}
    (sound : fs.tree.IsSound) (located : fs.locate path = .ok root)
    (leads : fs.leadsToDirectory (Path.ofNames root) = true)
    (surveyed : Workspace.survey ⟨Path.ofNames root, settings⟩ fs = .ok survey) :
    survey.settings = settings ∧ survey.Covers fs root := by
  obtain ⟨children, here, resolved⟩ := exists_directory_of_leads sound located leads
  obtain ⟨location, entry, found, there, uses, visited, recorded⟩ :=
    Workspace.hasVisited_and_hasRecorded_of_survey sound surveyed
  cases resolved.symm.trans found
  refine ⟨uses, ?_, ⟨children, here⟩, (Workspace.survey_nodes_sorted surveyed).hasUniqueKeys,
    visited.enumerates sound here, recorded.isCoherent visited sound here⟩
  obtain ⟨entry, -, made⟩ := Workspace.visits_of_survey surveyed
  rw [made, foldl_visit_root]
  rfl

section Covers

variable {survey : Survey} {fs : FileSystem} {root : Location} (covers : survey.Covers fs root)
  (sound : fs.tree.IsSound)

include covers sound

theorem Covers.isPlain : ∀ name ∈ root, Path.IsPlain name := by
  obtain ⟨children, here⟩ := covers.here
  exact sound.isPlain here

omit sound in
/-- Where there are no links below the root, the nodes are files. -/
theorem Covers.exists_file {tree : Entry} (here : fs.get? root = some tree) (free : tree.IsLinkFree) {id : Id}
    {node : Node} (member : (id, node) ∈ survey.nodes) :
    ∃ content, IsKept fs root survey.settings node.key (.file content) ∧
      survey.settings.HasSourceEnding ((namesOf node.key).getLast (namesOf_ne_nil node.key)) := by
  have numbered := (covers.isCoherent.nodes member).numbered
  obtain ⟨entry, kept, isFile, isSource⟩ := (covers.enumerates.nodes node.key).mp ⟨id, node, numbered, member⟩
  cases entry with
  | file content => exact ⟨content, kept, isSource⟩
  | link target =>
    have below := kept.here
    rw [FileSystem.get?_append here] at below
    exact absurd rfl ((free.of_get? below).ne_link target)
  | directory children => cases isFile

omit sound in
/-- A source file that is kept has a node with its key. -/
theorem Covers.exists_node {key : String} {content : Bytes}
    (kept : IsKept fs root survey.settings key (.file content))
    (source : survey.settings.HasSourceEnding ((namesOf key).getLast (namesOf_ne_nil key))) :
    ∃ id node, (id, node) ∈ survey.nodes ∧ node.key = key := by
  obtain ⟨id, node, numbered, member⟩ := (covers.enumerates.nodes key).mpr ⟨_, kept, rfl, source⟩
  exact ⟨id, node, member, covers.isCoherent.eq_of_id? (covers.isCoherent.nodes member).numbered numbered⟩

section Kept

variable {settings : Settings} {key : String} {entry : Entry} (kept : IsKept fs root settings key entry)

include kept

omit covers in
/-- The names on the way to what is kept stand for themselves. -/
theorem isPlain_of_isKept : ∀ name ∈ root ++ namesOf key, Path.IsPlain name :=
  sound.isPlain kept.here

omit covers in
theorem isPlain_directory_of_isKept : ∀ name ∈ root ++ (namesOf key).dropLast, Path.IsPlain name := by
  rw [← List.dropLast_append_of_ne_nil (namesOf_ne_nil key)]
  exact Path.isPlain_dropLast (isPlain_of_isKept sound kept)

theorem Covers.filePath_eq : survey.filePath key = Path.ofNames (root ++ namesOf key) := by
  have plain := isPlain_of_isKept sound kept
  have relative : (Path.mk key.toList).isAbsolute = false := by
    obtain ⟨first, rest, names⟩ := List.exists_cons_of_ne_nil (namesOf_ne_nil key)
    have spelled : key.toList = Path.ofSegments (first :: rest) := by
      rw [← names, namesOf, Path.ofSegments_segments]
    rw [spelled]
    have plainFirst := plain first (by simp [names])
    exact Path.isAbsolute_relative_cons plainFirst.nonempty plainFirst.noSlash rest
  rw [filePath, covers.path, Path.join_ofNames (covers.isPlain sound) relative, namesOf]

theorem Covers.directoryOf_eq :
    survey.directoryOf key = Path.ofNames (root ++ (namesOf key).dropLast) := by
  have plain := isPlain_of_isKept sound kept
  have names : root ++ namesOf key =
      root ++ (namesOf key).dropLast ++ [(namesOf key).getLast (namesOf_ne_nil key)] := by
    rw [List.append_assoc, List.dropLast_append_getLast]
  rw [names] at plain
  rw [directoryOf, covers.filePath_eq sound kept, names, Path.parent?_ofNames_concat plain, Option.getD_some]

omit kept in
/-- A file that is kept can be read unless its path is too long. -/
theorem Covers.readBytes_filePath {content : Bytes} (kept : IsKept fs root settings key (.file content)) :
    fs.readBytes (survey.filePath key) =
      if FileSystem.Fits (root ++ namesOf key) then .ok content else .error .nameTooLong := by
  have nonempty : root ++ namesOf key ≠ [] := by simp [namesOf_ne_nil]
  rw [covers.filePath_eq sound kept, FileSystem.readBytes_ofNames_of_file sound nonempty kept.here]

end Kept

/-- A path of names below the root names the node that has the key of these names. -/
theorem Covers.nodeAt?_ofNames {names : List Name} (nonempty : names ≠ [])
    (plain : ∀ name ∈ names, Path.IsPlain name) {id : Id} :
    survey.nodeAt? (Path.ofNames (root ++ names)) = some id ↔
      survey.numbering.id? (keyOf names) = some id ∧ id ∈ survey.nodes.map (·.1) := by
  have plainRoot := covers.isPlain sound
  have all : ∀ name ∈ root ++ names, Path.IsPlain name := List.forall_mem_append.mpr ⟨plainRoot, plain⟩
  rw [nodeAt?_eq_some_iff, ← Table.exists_lookup_iff]
  constructor
  · rintro ⟨key, found, numbered, isNode⟩
    rw [covers.path, Path.keyBelow?_ofNames_eq_some_iff plainRoot all] at found
    obtain ⟨more, -, same, rfl⟩ := found
    obtain rfl : names = more := List.append_cancel_left same
    exact ⟨numbered, isNode⟩
  · rintro ⟨numbered, isNode⟩
    refine ⟨keyOf names, ?_, numbered, isNode⟩
    rw [covers.path, Path.keyBelow?_ofNames_eq_some_iff plainRoot all]
    exact ⟨names, nonempty, rfl, rfl⟩

/-- A path below the root that names a node does so at the place where its last segment settles, and that
is the place of a source file that is kept. -/
theorem Covers.exists_isKept_of_nodeAt? {names : List Name} (plain : ∀ name ∈ names, Path.IsPlain name)
    {segment : List Char} (noSlash : '/' ∉ segment) {id : Id}
    (found : survey.nodeAt? (Path.ofNames (root ++ (names ++ [segment]))) = some id) :
    Path.component? segment ≠ some .up ∧ ∃ key entry, namesOf key = Path.settleStep names segment ∧
      IsKept fs root survey.settings key entry ∧ entry.isDirectory = false ∧
      survey.settings.HasSourceEnding ((namesOf key).getLast (namesOf_ne_nil key)) := by
  obtain ⟨key, below, numbered, node, isNode⟩ := nodeAt?_eq_some_iff.mp found
  rw [covers.path, Path.keyBelow?_ofNames_concat (covers.isPlain sound) plain noSlash] at below
  obtain ⟨notUp, nonempty, rfl⟩ := below
  have hasNode : survey.HasNode (keyOf (Path.settleStep names segment)) :=
    ⟨id, node, numbered, (Table.lookup_eq_some_iff covers.unique).mp isNode⟩
  obtain ⟨entry, kept, isFile, isSource⟩ := (covers.enumerates.nodes _).mp hasNode
  refine ⟨notUp, _, entry, ?_, kept, isFile, isSource⟩
  have settled : ∀ name ∈ Path.settle names [segment], Path.IsPlain name :=
    Path.isPlain_settle plain (by simpa using noSlash)
  exact namesOf_keyOf nonempty (Path.noSlash_of_isPlain settled)

omit sound in
/-- A node of a graph is that of a file of the survey, with the imports of its text. -/
theorem Covers.of_mem_graph {connected : Connected} (success : survey.connect fs = .ok connected) {id : Id}
    {node : Node} (member : (id, node) ∈ connected.graph.nodes) :
    ∃ surveyed text missing, (id, surveyed) ∈ survey.nodes ∧ node.key = surveyed.key ∧
      survey.text? fs node.key = some text ∧
        survey.Imports fs (survey.directoryOf node.key) (Source.specifiers text) node.imports missing := by
  obtain ⟨-, -, filled⟩ := connect_fills_in covers.unique success
  have described := connect_describes covers.unique success
  obtain ⟨⟨_, surveyed⟩, inSurvey, same, fills⟩ := exists_mem_of_forall₂ filled.flip member
  obtain ⟨⟨_, other⟩, alsoInSurvey, alsoSame, text, missing, read, imports⟩ :=
    exists_mem_of_forall₂ described.imports.flip member
  dsimp only at same alsoSame
  subst same alsoSame
  obtain rfl : other = surveyed := by
    have first := (Table.lookup_eq_some_iff covers.unique).mpr inSurvey
    have second := (Table.lookup_eq_some_iff covers.unique).mpr alsoInSurvey
    exact Option.some.inj (second.symm.trans first)
  have key : node.key = other.key := by
    have same := congrArg Node.key fills
    exact same
  refine ⟨other, text, missing, inSurvey, key, ?_, ?_⟩
  · rw [key]
    exact read
  · rw [key]
    exact imports

end Covers

/-! ## Connecting two surveys -/

/-- A file comes to the same in two surveys if it has the same text and its local specifiers mean the same. -/
theorem scan_congr {survey other : Survey} {fs otherFs : FileSystem} {key : String} {content : Bytes}
    (read : fs.readBytes (survey.filePath key) = .ok content)
    (otherRead : otherFs.readBytes (other.filePath key) = .ok content)
    (means : ∀ specifier ∈ Source.specifiers (Utf8.decodeLossy content), Source.isLocal specifier = true →
      (survey.settings.lookup.find? fs (survey.directoryOf key) specifier).bind survey.nodeAt? =
        (other.settings.lookup.find? otherFs (other.directoryOf key) specifier).bind other.nodeAt?) :
    survey.scan fs key = other.scan otherFs key := by
  have meanings : survey.meanings fs (survey.directoryOf key) (Utf8.decodeLossy content) =
      other.meanings otherFs (other.directoryOf key) (Utf8.decodeLossy content) := by
    apply List.map_congr_left
    intro specifier member
    obtain ⟨inText, isLocal⟩ := List.mem_filter.mp member
    exact means specifier inText isLocal
  rw [directoryOf, directoryOf] at meanings
  rw [scan, scan, read, otherRead]
  dsimp only
  rw [meanings]

/-- A file that is kept, and lies in another file system as well, comes to the same there if its local specifiers
mean the same. -/
theorem Covers.scan_eq {survey : Survey} {fs other : FileSystem} {root : Location} (covers : survey.Covers fs root)
    (sound : fs.tree.IsSound) (otherSound : other.tree.IsSound) {key : String} {content : Bytes}
    (kept : IsKept fs root survey.settings key (.file content))
    (there : other.get? (root ++ namesOf key) = some (.file content))
    (means : ∀ specifier, Source.isLocal specifier = true →
      (survey.settings.lookup.find? fs (survey.directoryOf key) specifier).bind survey.nodeAt? =
        (survey.settings.lookup.find? other (survey.directoryOf key) specifier).bind survey.nodeAt?) :
    survey.scan fs key = survey.scan other key := by
  have nonempty : root ++ namesOf key ≠ [] := by simp [namesOf_ne_nil]
  have read := covers.readBytes_filePath sound kept
  have otherRead := FileSystem.readBytes_ofNames_of_file otherSound nonempty there
  rw [← covers.filePath_eq sound kept] at otherRead
  split_ifs at read otherRead with fits
  · exact scan_congr read otherRead fun specifier _ isLocal => means specifier isLocal
  · rw [scan, scan, read, otherRead]

/-- Surveys with the same tables whose files come to the same make the same graph, or fail alike. -/
theorem connect_congr {survey other : Survey} {fs otherFs : FileSystem}
    (numbering : survey.numbering = other.numbering) (nodes : survey.nodes = other.nodes)
    (scans : ∀ entry ∈ survey.nodes, survey.scan fs entry.2.key = other.scan otherFs entry.2.key) :
    survey.connect fs = other.connect otherFs := by
  have results : survey.scanAll fs = other.scanAll otherFs := by
    rw [scanAll, scanAll, ← nodes]
    apply mapM_congr_of_mem
    intro entry member
    rw [scans entry member]
  have assembles : survey.assemble = other.assemble := by
    funext results
    rw [assemble, assemble, numbering, nodes]
  rw [connect, connect, results, assembles]

end Survey

end ImportAtlas
