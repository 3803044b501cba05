import ImportAtlas.Proofs.Graph.Build

/-! # The place of a tree does not show

The paths that are tried for a specifier hold the names on the way to the root, and they are read off the
whole tree. If every local specifier denotes something below the root, however, none of these paths leaves
the directory that holds it, and what it settles at is told by the names after the root alone. What remains
of the root is its length: a path can be too long below one root and not below the other. That can only
happen to a path that names no node anyway.
-/

namespace ImportAtlas

/-- The same shows everywhere in two trees. What a directory holds may be listed in another order. -/
def Entry.Alike (tree other : Entry) : Prop :=
  ∀ names, (tree.get? names).map Entry.surface = (other.get? names).map Entry.surface

/-- Each local specifier in a source file that is kept, joined to the directory of the file below the root
and cleaned, begins with a name: it denotes neither the root nor anything above it. -/
def Entry.StaysInside (tree : Entry) (settings : Settings) : Prop :=
  ∀ directory name content specifier, tree.get? (directory ++ [name]) = some (.file content) →
    (∀ outer ∈ directory ++ [name], String.ofList outer ∉ settings.ignoredNames) → settings.HasSourceEnding name →
    specifier ∈ Source.specifiers (Utf8.decodeLossy content) → Source.isLocal specifier = true →
    Path.StaysBelow directory ⟨specifier⟩

/-- A file system holds a directory tree without links at a location that a path leads to, and the paths of
all its entries are short enough. What else the file system holds is open. -/
structure FileSystem.Holds (fs : FileSystem) (path : Path) (root : Location) (tree : Entry) : Prop where
  sound : fs.tree.IsSound
  located : fs.locate path = .ok root
  here : fs.get? root = some tree
  isDirectory : tree.isDirectory = true
  free : tree.IsLinkFree
  fits {names : List Name} {entry : Entry} : tree.get? names = some entry → FileSystem.Fits (root ++ names)

namespace FileSystem.Holds

variable {fs : FileSystem} {path : Path} {root : Location} {tree : Entry} (holds : fs.Holds path root tree)

include holds

theorem soundTree : tree.IsSound :=
  (holds.sound.of_get? holds.here).1

theorem isPlain : ∀ name ∈ root, Path.IsPlain name :=
  holds.sound.isPlain holds.here

theorem get?_append (names : List Name) : fs.get? (root ++ names) = tree.get? names :=
  FileSystem.get?_append holds.here names

theorem exists_directory : ∃ children, fs.get? root = some (.directory children) := by
  have isDirectory := holds.isDirectory
  cases tree with
  | directory children => exact ⟨children, holds.here⟩
  | file content => cases isDirectory
  | link target => cases isDirectory

/-- The path of the root leads to the root. -/
theorem leads : fs.leadsToDirectory (Path.ofNames root) = true := by
  obtain ⟨children, here⟩ := holds.exists_directory
  have clear : fs.IsClear root := isClear_of_isLinkFree holds.here holds.free
  have fits : Fits root := by
    have fits := holds.fits (Entry.get?_nil tree)
    rwa [List.append_nil] at fits
  rw [leadsToDirectory_eq, decide_eq_true_iff, seen_eq_some_iff]
  exact ⟨_, (entryAt_ofNames_iff (.inl rfl) holds.sound holds.isPlain clear).mpr
    ⟨Entry.exists_directory_root here, here, fits⟩, rfl⟩

/-- No directory of the tree has too long a path to be listed, so the survey has visited all of the tree. -/
theorem survey_eq (settings : Settings) :
    Workspace.survey ⟨Path.ofNames root, settings⟩ fs =
      .ok ((tree.walk settings.isIgnored).foldl Survey.visit (.start ⟨Path.ofNames root, settings⟩)) := by
  obtain ⟨children, here, resolved⟩ := exists_directory_of_leads holds.sound holds.located holds.leads
  obtain rfl : tree = .directory children := Option.some.inj (holds.here.symm.trans here)
  have listed : ((Entry.directory children).walk settings.isIgnored).any
      (Workspace.cannotList ⟨Path.ofNames root, settings⟩) = false := by
    rw [List.any_eq_false]
    intro visit member
    obtain ⟨nonempty, -, entry, way, -⟩ := (Entry.mem_walk_iff holds.soundTree).mp member
    have plain : ∀ name ∈ visit.names, Path.IsPlain name := holds.soundTree.isPlain way
    obtain ⟨first, rest, names⟩ := List.exists_cons_of_ne_nil nonempty
    have relative : (Path.relative visit.names).isAbsolute = false := by
      rw [names]
      have plainFirst := plain first (by simp [names])
      exact Path.isAbsolute_relative_cons plainFirst.nonempty plainFirst.noSlash rest
    have spelled : (Path.ofNames root).join (Path.relative visit.names) = Path.ofNames (root ++ visit.names) := by
      rw [Path.join_ofNames holds.isPlain relative, Path.relative,
        Path.segments_ofSegments nonempty (Path.noSlash_of_isPlain plain)]
    have short := (holds.fits way).path
    rw [← spelled, Path.relative] at short
    simp [Workspace.cannotList, short]
  rw [survey_of_resolve resolved, listed]
  rfl

end FileSystem.Holds

/-! ## Lookups below two roots -/

section Lookups

variable {fs other : FileSystem} {path otherPath : Path} {root otherRoot : Location} {tree otherTree : Entry}
  (holds : fs.Holds path root tree) (otherHolds : other.Holds otherPath otherRoot otherTree)
  (alike : tree.Alike otherTree)

include holds otherHolds alike

/-- A path of names below the roots shows the same, if a last segment that is no name is within reach below
both roots or below neither. -/
theorem seen_of_alike {manner : Manner} (looks : manner.Looks) {names : List Name}
    (plain : ∀ name ∈ names, Path.IsPlain name) {segment : List Char} (noSlash : '/' ∉ segment)
    (reach : (∃ children, fs.get? (root ++ names) = some (.directory children)) →
      Path.component? segment = some (.name segment) ∨
        (FileSystem.Fits (root ++ names ++ [segment]) ↔ FileSystem.Fits (otherRoot ++ names ++ [segment]))) :
    fs.seen manner (Path.ofNames (root ++ names ++ [segment])) =
      other.seen manner (Path.ofNames (otherRoot ++ names ++ [segment])) := by
  have plainBelow {base : Location} (plainBase : ∀ name ∈ base, Path.IsPlain name) :
      ∀ name ∈ base ++ names, Path.IsPlain name := List.forall_mem_append.mpr ⟨plainBase, plain⟩
  apply FileSystem.seen_ofNames_concat_congr looks holds.sound otherHolds.sound
    (FileSystem.clearWay_append holds.here holds.free (plainBelow holds.isPlain) noSlash)
    (FileSystem.clearWay_append otherHolds.here otherHolds.free (plainBelow otherHolds.isPlain) noSlash)
  case directory =>
    rw [holds.get?_append, otherHolds.get?_append]
    exact Entry.directory_iff_of_surface (alike names)
  case settled =>
    rw [Path.settleStep, Path.settleStep]
    rcases Path.component?_cases segment with idle | dots | stands
    · rw [idle]
      dsimp only
      rw [holds.get?_append, otherHolds.get?_append]
      exact Entry.map_kind_of_surface (alike names)
    · rw [dots]
      dsimp only
      rcases List.eq_nil_or_concat names with rfl | ⟨before, last, rfl⟩
      · -- What lies above a root is a directory.
        obtain ⟨children, here⟩ := holds.exists_directory
        obtain ⟨otherChildren, otherHere⟩ := otherHolds.exists_directory
        obtain ⟨above, parent⟩ := Entry.exists_directory_dropLast here
        obtain ⟨otherAbove, otherParent⟩ := Entry.exists_directory_dropLast otherHere
        rw [List.append_nil, List.append_nil, FileSystem.get?, FileSystem.get?, parent, otherParent]
        rfl
      · rw [List.concat_eq_append, ← List.append_assoc, ← List.append_assoc, List.dropLast_concat,
          List.dropLast_concat, holds.get?_append, otherHolds.get?_append]
        exact Entry.map_kind_of_surface (alike before)
    · rw [stands]
      dsimp only
      rw [List.append_assoc, List.append_assoc, holds.get?_append, otherHolds.get?_append]
      exact Entry.map_kind_of_surface (alike _)
  case fits =>
    intro entry directory found
    rcases reach directory with stands | same
    · rw [Path.settleStep, stands] at found
      dsimp only at found
      rw [List.append_assoc, holds.get?_append] at found
      have alsoFound := alike (names ++ [segment])
      rw [found] at alsoFound
      obtain ⟨otherEntry, otherFound, -⟩ := Option.map_eq_some_iff.mp alsoFound.symm
      rw [List.append_assoc, List.append_assoc]
      exact iff_of_true (holds.fits found) (otherHolds.fits otherFound)
    · exact same

/-- The surveys below both roots number the same and have the same nodes. -/
theorem exists_surveys_of_alike (settings : Settings) : ∃ survey otherSurvey,
    Workspace.survey ⟨Path.ofNames root, settings⟩ fs = .ok survey ∧
      Workspace.survey ⟨Path.ofNames otherRoot, settings⟩ other = .ok otherSurvey ∧
        survey.numbering = otherSurvey.numbering ∧ survey.nodes = otherSurvey.nodes := by
  have walks : tree.walk settings.isIgnored = otherTree.walk settings.isIgnored :=
    Entry.walk_congr holds.soundTree otherHolds.soundTree
      fun names _ _ => Entry.map_isDirectory_of_surface (alike names)
  have relocated := Survey.foldl_visit_of_root (.start ⟨Path.ofNames root, settings⟩) (Path.ofNames otherRoot)
    (tree.walk settings.isIgnored)
  have otherSurveyed := otherHolds.survey_eq settings
  rw [← walks] at otherSurveyed
  refine ⟨_, _, holds.survey_eq settings, otherSurveyed, ?_, ?_⟩
  · exact (congrArg Survey.numbering relocated).symm
  · exact (congrArg Survey.nodes relocated).symm

variable {survey otherSurvey : Survey} (covers : survey.Covers fs root)
  (otherCovers : otherSurvey.Covers other otherRoot) (numbering : survey.numbering = otherSurvey.numbering)
  (nodes : survey.nodes = otherSurvey.nodes)

include covers otherCovers numbering nodes

omit alike in
/-- The same node is named below both roots. -/
theorem nodeAt?_of_alike {names : List Name} (plain : ∀ name ∈ names, Path.IsPlain name) {segment : List Char}
    (noSlash : '/' ∉ segment) : survey.nodeAt? (Path.ofNames (root ++ names ++ [segment])) =
      otherSurvey.nodeAt? (Path.ofNames (otherRoot ++ names ++ [segment])) := by
  have all : ∀ name ∈ names ++ [segment], '/' ∉ name :=
    List.forall_mem_append.mpr ⟨Path.noSlash_of_isPlain plain, by simpa using noSlash⟩
  rw [List.append_assoc, List.append_assoc, Survey.nodeAt?, Survey.nodeAt?, covers.path, otherCovers.path,
    Path.keyBelow?_ofNames_append holds.isPlain all, Path.keyBelow?_ofNames_append otherHolds.isPlain all,
    numbering, nodes]

omit otherHolds alike otherCovers numbering nodes in
/-- No path into a directory whose entries have names of one byte names a node: those of source files are
longer. -/
theorem nodeAt?_of_short {names : List Name} (plain : ∀ name ∈ names, Path.IsPlain name)
    (directory : ∃ children, tree.get? names = some (.directory children))
    (short : ∀ name entry, tree.get? (names ++ [name]) = some entry → FileSystem.byteLength name < 2)
    {segment : List Char} (noSlash : '/' ∉ segment) :
    survey.nodeAt? (Path.ofNames (root ++ names ++ [segment])) = none := by
  rw [Option.eq_none_iff_forall_ne_some]
  intro id found
  rw [List.append_assoc] at found
  obtain ⟨notUp, key, entry, way, kept, isFile, isSource⟩ :=
    covers.exists_isKept_of_nodeAt? holds.sound plain noSlash found
  have here := kept.here
  rw [holds.get?_append] at here
  rw [Path.settleStep] at way
  rcases Path.component?_cases segment with idle | dots | stands
  · rw [idle] at way
    obtain ⟨children, directory⟩ := directory
    rw [way, directory] at here
    cases here
    cases isFile
  · exact notUp dots
  · rw [stands] at way
    dsimp only at way
    have last : (namesOf key).getLast (namesOf_ne_nil key) = segment := by simp [way]
    rw [last] at isSource
    rw [way] at here
    have valid := (holds.soundTree.of_get? here).2 segment (by simp)
    have two := isSource.two_le_length valid.noDot
    have bytes := FileSystem.length_le_byteLength segment
    have few := short segment entry here
    omega

/-- The paths into an entry show and mean the same below both roots, or mean nothing. -/
theorem same_or_nothing_of_alike {names : List Name} (plain : ∀ name ∈ names, Path.IsPlain name) :
    (∀ segment, '/' ∉ segment → fs.seen .follow (Path.ofNames (root ++ names ++ [segment])) =
        other.seen .follow (Path.ofNames (otherRoot ++ names ++ [segment])) ∧
      survey.nodeAt? (Path.ofNames (root ++ names ++ [segment])) =
        otherSurvey.nodeAt? (Path.ofNames (otherRoot ++ names ++ [segment]))) ∨
    ∀ segment, '/' ∉ segment → survey.nodeAt? (Path.ofNames (root ++ names ++ [segment])) = none ∧
      otherSurvey.nodeAt? (Path.ofNames (otherRoot ++ names ++ [segment])) = none := by
  by_cases nothing : (∃ children, tree.get? names = some (.directory children)) ∧
      ∀ name entry, tree.get? (names ++ [name]) = some entry → FileSystem.byteLength name < 2
  · right
    intro segment noSlash
    have none := nodeAt?_of_short holds covers plain nothing.1 nothing.2 noSlash
    rw [← nodeAt?_of_alike holds otherHolds covers otherCovers numbering nodes plain noSlash]
    exact ⟨none, none⟩
  · left
    intro segment noSlash
    refine ⟨?_, nodeAt?_of_alike holds otherHolds covers otherCovers numbering nodes plain noSlash⟩
    apply seen_of_alike holds otherHolds alike (.inl rfl) plain noSlash
    intro directory
    rw [or_iff_not_imp_left]
    intro special
    -- Some entry of the directory has a name that is as long as two dots, and it is within reach.
    rw [holds.get?_append] at directory
    simp only [not_and, not_forall, Nat.not_lt] at nothing
    obtain ⟨name, entry, found, long⟩ := nothing directory
    obtain ⟨otherEntry, otherFound, -⟩ :=
      Option.map_eq_some_iff.mp ((alike (names ++ [name])).symm.trans (congrArg _ found))
    have shorter : FileSystem.byteLength segment ≤ FileSystem.byteLength name := by
      apply Nat.le_trans _ long
      rcases Path.eq_dots_of_component? special with rfl | rfl | rfl <;> decide
    have fits := holds.fits found
    have otherFits := otherHolds.fits otherFound
    rw [← List.append_assoc] at fits otherFits
    exact iff_of_true (fits.of_byteLength_le shorter) (otherFits.of_byteLength_le shorter)

/-- A local specifier that stays below the root means the same below both roots. -/
theorem bind_find?_of_alike {lookup : Source.Lookup} (plainEndings : lookup.HasPlainEndings)
    {directory : List Name} (plain : ∀ name ∈ directory, Path.IsPlain name) {specifier : List Char}
    (isLocal : Source.isLocal specifier = true) (stays : Path.StaysBelow directory ⟨specifier⟩) :
    (lookup.find? fs (Path.ofNames (root ++ directory)) specifier).bind survey.nodeAt? =
      (lookup.find? other (Path.ofNames (otherRoot ++ directory)) specifier).bind otherSurvey.nodeAt? := by
  obtain ⟨names, nonempty, plainNames, settles⟩ :=
    stays.exists_names plain (Source.Lookup.isAbsolute_of_isLocal isLocal)
  rw [Source.Lookup.find?_ofNames (List.forall_mem_append.mpr ⟨holds.isPlain, plain⟩) isLocal,
    Source.Lookup.find?_ofNames (List.forall_mem_append.mpr ⟨otherHolds.isPlain, plain⟩) isLocal, settles, settles]
  obtain ⟨outer, last, rfl⟩ := (List.eq_nil_or_concat names).resolve_left nonempty
  rw [List.concat_eq_append] at plainNames ⊢
  obtain ⟨plainOuter, plainLast⟩ := List.forall_mem_append.mp plainNames
  rw [List.forall_mem_singleton] at plainLast
  have atLast (base : Location) : (base ++ (outer ++ [last])).getLast? = some last := by
    rw [← List.append_assoc, List.getLast?_concat]
  have beforeLast (base : Location) : (base ++ (outer ++ [last])).dropLast = base ++ outer := by
    rw [← List.append_assoc, List.dropLast_concat]
  apply Source.Lookup.bind_atPath?_ofNames_congr (List.forall_mem_append.mpr ⟨holds.isPlain, plainNames⟩)
    plainEndings (List.forall_mem_append.mpr ⟨otherHolds.isPlain, plainNames⟩)
  case sameLast => rw [atLast, atLast]
  case outer =>
    intro ending noSlash
    rw [atLast, Option.getD_some, beforeLast, beforeLast]
    have plainSegment := plainLast.append noSlash
    constructor
    · intro manner looks
      apply seen_of_alike holds otherHolds alike looks plainOuter plainSegment.noSlash
      exact fun _ => .inl (Path.component?_of_isPlain plainSegment)
    · exact nodeAt?_of_alike holds otherHolds covers otherCovers numbering nodes plainOuter plainSegment.noSlash
  case inner => exact same_or_nothing_of_alike holds otherHolds alike covers otherCovers numbering nodes plainNames

/-- A file of the tree comes to the same below both roots. -/
theorem scan_of_alike {settings : Settings} (uses : survey.settings = settings)
    (otherUses : otherSurvey.settings = settings) (plainEndings : settings.lookup.HasPlainEndings)
    (stays : tree.StaysInside settings) {id : Id} {node : Node} (member : (id, node) ∈ survey.nodes) :
    survey.scan fs node.key = otherSurvey.scan other node.key := by
  obtain ⟨content, kept, isSource⟩ := covers.exists_file holds.here holds.free member
  have here := kept.here
  rw [holds.get?_append] at here
  have otherHere := Entry.file_of_surface (alike (namesOf node.key)) here
  have otherKept : IsKept other otherRoot settings node.key (.file content) := by
    refine ⟨by rw [otherHolds.get?_append, otherHere], ?_⟩
    rw [← uses]
    exact kept.noneIgnored
  have read := covers.readBytes_filePath holds.sound kept
  have otherRead := otherCovers.readBytes_filePath otherHolds.sound otherKept
  rw [if_pos (holds.fits here)] at read
  rw [if_pos (otherHolds.fits otherHere)] at otherRead
  apply Survey.scan_congr read otherRead
  intro specifier statement isLocal
  rw [covers.directoryOf_eq holds.sound kept, otherCovers.directoryOf_eq otherHolds.sound otherKept, uses, otherUses]
  have noneIgnored := otherKept.noneIgnored
  obtain ⟨directory, name, names⟩ : ∃ directory name, namesOf node.key = directory ++ [name] :=
    ⟨_, _, (List.dropLast_append_getLast (namesOf_ne_nil node.key)).symm⟩
  have last : (namesOf node.key).getLast (namesOf_ne_nil node.key) = name := by simp [names]
  rw [last, uses] at isSource
  rw [names] at here noneIgnored
  rw [names, List.dropLast_concat]
  have plain : ∀ outer ∈ directory, Path.IsPlain outer :=
    (List.forall_mem_append.mp (holds.soundTree.isPlain here)).1
  apply bind_find?_of_alike holds otherHolds alike covers otherCovers numbering nodes plainEndings plain isLocal
  exact stays directory name content specifier here noneIgnored isSource statement isLocal

end Lookups

/-- A tree without links of which all local specifiers stay inside makes the same graph, with the same count
of unresolved specifiers, wherever it lies and whatever lies around it. -/
theorem buildGraph_relocates {fs other : FileSystem} {path otherPath : Path} {root otherRoot : Location}
    {tree otherTree : Entry} {settings : Settings} (holds : fs.Holds path root tree)
    (otherHolds : other.Holds otherPath otherRoot otherTree) (alike : tree.Alike otherTree)
    (plainEndings : settings.lookup.HasPlainEndings) (stays : tree.StaysInside settings) :
    ∃ connected, buildGraph fs path settings = .ok connected ∧
      buildGraph other otherPath settings = .ok connected := by
  obtain ⟨survey, otherSurvey, surveyed, otherSurveyed, numbering, nodes⟩ :=
    exists_surveys_of_alike holds otherHolds alike settings
  obtain ⟨uses, covers⟩ := Survey.covers_of_survey holds.sound holds.located holds.leads surveyed
  obtain ⟨otherUses, otherCovers⟩ :=
    Survey.covers_of_survey otherHolds.sound otherHolds.located otherHolds.leads otherSurveyed
  have same : survey.connect fs = otherSurvey.connect other := by
    apply Survey.connect_congr numbering nodes
    intro entry member
    exact scan_of_alike holds otherHolds alike covers otherCovers numbering nodes uses otherUses plainEndings stays
      member
  -- All files are within reach, so connecting succeeds.
  obtain ⟨connected, success⟩ : ∃ connected, survey.connect fs = .ok connected := by
    apply Survey.exists_connect_eq_ok_iff.mpr
    intro entry member
    obtain ⟨content, kept, -⟩ := covers.exists_file holds.here holds.free member
    have here := kept.here
    rw [holds.get?_append] at here
    rw [covers.readBytes_filePath holds.sound kept, if_pos (holds.fits here)]
    exact ⟨content, rfl⟩
  refine ⟨connected, ?_, ?_⟩
  · rw [buildGraph_of_locate holds.located, if_pos holds.leads, surveyed]
    exact success
  · rw [buildGraph_of_locate otherHolds.located, if_pos otherHolds.leads, otherSurveyed]
    exact same.symm.trans success

/-! The same tree next to a file with the name of its root and an extension, and alone in another place. -/

/-- A file that imports its neighbour one directory further up. -/
def movableTree : Entry :=
  .directory [("a.js".toList, .file []), ("lib".toList, .directory
    [("b.js".toList, .file (Utf8.encode "import a from '../a';".toList))])]

/-- The tree at `/p/src`, with entries around it. -/
def crowdedFiles : FileSystem where
  tree := .directory [("p".toList, .directory
    [("src.js".toList, .file []), ("l".toList, .link (.ofString "src")), ("src".toList, movableTree)])]
  workingDirectory := []

/-- The tree at `/q`, with nothing around it. -/
def bareFiles : FileSystem where
  tree := .directory [("q".toList, movableTree)]
  workingDirectory := []

/-- Whether all paths of a tree fit can be found out by walking it. -/
theorem fits_of_walk {tree : Entry} (sound : tree.IsSound) {root : Location} (here : FileSystem.Fits root)
    (below : ∀ visit ∈ tree.walk fun _ => false, FileSystem.Fits (root ++ visit.names)) {names : List Name}
    {entry : Entry} (found : tree.get? names = some entry) : FileSystem.Fits (root ++ names) := by
  by_cases none : names = []
  · rwa [none, List.append_nil]
  · exact below ⟨names, entry.isDirectory⟩
      ((Entry.mem_walk_iff sound).mpr ⟨none, fun _ _ => rfl, entry, found, rfl⟩)

theorem staysInside_movableTree : movableTree.StaysInside .standard := by
  have sound : movableTree.IsSound := by decide +kernel
  have visits : (movableTree.walk fun _ => false) =
      [⟨["a.js".toList], false⟩, ⟨["lib".toList], true⟩, ⟨["lib".toList, "b.js".toList], false⟩] := by
    decide +kernel
  intro directory name content specifier found _ _ statement _
  have member : ⟨directory ++ [name], false⟩ ∈ movableTree.walk fun _ => false :=
    (Entry.mem_walk_iff sound).mpr ⟨by simp, fun _ _ => rfl, _, found, rfl⟩
  rw [visits, List.mem_cons, List.mem_cons, List.mem_singleton] at member
  rcases member with front | outer | back
  · have front : directory ++ [name] = ["a.js".toList] := congrArg Visit.names front
    rw [front] at found
    cases found
    have none : Source.specifiers (Utf8.decodeLossy []) = [] := by decide +kernel
    rw [none] at statement
    cases statement
  · cases congrArg Visit.isDirectory outer
  · have back : directory ++ [name] = ["lib".toList] ++ ["b.js".toList] := congrArg Visit.names back
    obtain ⟨rfl, -⟩ := List.append_inj' back rfl
    rw [back] at found
    cases found
    have one : Source.specifiers (Utf8.decodeLossy (Utf8.encode "import a from '../a';".toList)) =
        ["../a".toList] := by
      decide +kernel
    rw [one, List.mem_singleton] at statement
    subst statement
    exact ⟨"a".toList, [], by decide +kernel⟩

def movableConnected : Connected where
  graph :=
    { ids := [("a.js", 1), ("lib", 2), ("lib/b.js", 3)]
      levels := [(1, 0), (2, 0), (3, 1)]
      nodes := [(1, .fresh 1 "a.js" 0 none none),
        (3, { Node.fresh 3 "lib/b.js" 1 (some 2) none with imports := [1] })] }
  unresolved := 0

theorem buildGraph_relocates_of_movableTree :
    buildGraph crowdedFiles (.ofString "/p/l") .standard = .ok movableConnected ∧
      buildGraph bareFiles (.ofString "/q") .standard = .ok movableConnected := by
  have sound : movableTree.IsSound := by decide +kernel
  have holds : crowdedFiles.Holds (.ofString "/p/l") ["p".toList, "src".toList] movableTree := {
    sound := by decide +kernel
    located := by decide +kernel
    here := rfl
    isDirectory := rfl
    free := by decide +kernel
    fits := fits_of_walk sound (by decide +kernel) (by decide +kernel) }
  have otherHolds : bareFiles.Holds (.ofString "/q") ["q".toList] movableTree := {
    sound := by decide +kernel
    located := by decide +kernel
    here := rfl
    isDirectory := rfl
    free := by decide +kernel
    fits := fits_of_walk sound (by decide +kernel) (by decide +kernel) }
  obtain ⟨connected, built, otherBuilt⟩ :=
    buildGraph_relocates holds otherHolds (fun _ => rfl) ⟨by decide, by decide⟩ staysInside_movableTree
  have graph : buildGraph crowdedFiles (.ofString "/p/l") .standard = .ok movableConnected := by decide +kernel
  obtain rfl := Except.ok.inj (graph.symm.trans built)
  exact ⟨built, otherBuilt⟩

end ImportAtlas
