import ImportAtlas.Proofs.Graph.Build

/-! # Specifiers are followed on the real tree

A specifier is looked up by cleaning a joined path, without looking at the tree. Where every step of the
specifier can be taken on the tree, from one directory to the next, this comes to the entry at which the
steps end, even if they leave the root and come back. If that is the file of a node, the file itself is
found before any extension or index file is tried, and the statement imports this node.
-/

namespace ImportAtlas

/-- Following segments one by one on a tree: idle segments stay, two dots go to the directory that holds
the current one, and a name goes to what the current one has under it. -/
inductive Leads (fs : FileSystem) : Location → List (List Char) → Location → Prop
  | done {here : Location} : Leads fs here [] here
  | stay {here goal : Location} {children : List (Name × Entry)} {segment : List Char} {rest : List (List Char)}
      (directory : fs.get? here = some (.directory children)) (idle : segment = [] ∨ segment = ['.'])
      (onward : Leads fs here rest goal) : Leads fs here (segment :: rest) goal
  | climb {here goal : Location} {children : List (Name × Entry)} {rest : List (List Char)}
      (directory : fs.get? here = some (.directory children))
      (onward : Leads fs here.dropLast rest goal) : Leads fs here (['.', '.'] :: rest) goal
  | enter {here goal : Location} {children : List (Name × Entry)} {name : Name} {entry : Entry}
      {rest : List (List Char)} (directory : fs.get? here = some (.directory children))
      (child : Entry.child? name children = some entry)
      (onward : Leads fs (here ++ [name]) rest goal) : Leads fs here (name :: rest) goal

/-- Steps that can be taken end where the segments settle. -/
theorem Leads.settle_eq {fs : FileSystem} (sound : fs.tree.IsSound) {here goal : Location}
    {segments : List (List Char)} (leads : Leads fs here segments goal) : Path.settle here segments = goal := by
  induction leads with
  | done => rfl
  | @stay here _ _ segment _ _ idle _ ih =>
    have stays : Path.settleStep here segment = here := by rw [Path.settleStep, Path.component?, if_pos idle]
    rw [Path.settle, List.foldl_cons, stays, ← Path.settle, ih]
  | climb _ _ ih => exact ih
  | @enter here _ _ name entry _ directory child _ ih =>
    have below : fs.tree.get? (here ++ [name]) = some entry := (Entry.get?_child directory name).trans child
    have valid := (sound.of_get? below).2 name (by simp)
    rw [Path.settle, List.foldl_cons, Path.settleStep_of_isPlain valid.isPlain, ← Path.settle, ih]

namespace Survey

variable {survey : Survey} {fs : FileSystem} {root : Location}

/-- One of the specifiers of a file contributes exactly the number of a node: what is imported before it and
after it comes from the other specifiers. -/
def Contributes (survey : Survey) (fs : FileSystem) (directory : Path) (before after : List (List Char))
    (target : Id) (imports : List Id) : Prop :=
  ∃ first firstMissing last lastMissing, survey.Imports fs directory before first firstMissing ∧
    survey.Imports fs directory after last lastMissing ∧ imports = first ++ target :: last

/-- A local specifier that leads to the file of a node names that node. -/
theorem Covers.names_of_leads (covers : survey.Covers fs root) (sound : fs.tree.IsSound) {key goal : String}
    {entry : Entry} (kept : IsKept fs root survey.settings key entry) {specifier : List Char}
    (isLocal : Source.isLocal specifier = true)
    (leads : Leads fs (root ++ (namesOf key).dropLast) (Path.segments specifier) (root ++ namesOf goal))
    {content : Bytes} (atGoal : fs.get? (root ++ namesOf goal) = some (.file content))
    (fits : FileSystem.Fits (root ++ namesOf goal)) {id : Id} (numbered : survey.numbering.id? goal = some id)
    (isNode : id ∈ survey.nodes.map (·.1)) :
    survey.Names fs (survey.directoryOf key) specifier id := by
  have plain : ∀ name ∈ root ++ namesOf goal, Path.IsPlain name := sound.isPlain atGoal
  have clear : fs.IsClear (root ++ namesOf goal) := FileSystem.isClear_of_isLinkFree atGoal (.file content)
  have isFile : fs.isPlainFile (Path.ofNames (root ++ namesOf goal)) = true := by
    rw [FileSystem.isPlainFile_eq, decide_eq_true_iff, FileSystem.seen_eq_some_iff]
    obtain ⟨children, here⟩ := covers.here
    exact ⟨_, (FileSystem.entryAt_ofNames_iff (.inr rfl) sound plain clear).mpr
      ⟨Entry.exists_directory_root here, atGoal, fits⟩, rfl⟩
  have found : survey.settings.lookup.find? fs (survey.directoryOf key) specifier =
      some (Path.ofNames (root ++ namesOf goal)) := by
    rw [covers.directoryOf_eq sound kept,
      Source.Lookup.find?_ofNames (isPlain_directory_of_isKept sound kept) isLocal, leads.settle_eq sound,
      Source.Lookup.atPath?, if_pos isFile]
  have plainGoal := (List.forall_mem_append.mp plain).2
  rw [names_iff, found, Option.bind_some, covers.nodeAt?_ofNames sound (namesOf_ne_nil goal) plainGoal, keyOf_namesOf]
  exact ⟨numbered, isNode⟩

/-- The file of a node that was read has a path that fits. -/
theorem Covers.fits_of_text? (covers : survey.Covers fs root) (sound : fs.tree.IsSound) {key : String}
    {content : Bytes} (kept : IsKept fs root survey.settings key (.file content)) {text : List Char}
    (read : survey.text? fs key = some text) :
    FileSystem.Fits (root ++ namesOf key) ∧ text = Utf8.decodeLossy content := by
  rw [text?, covers.readBytes_filePath sound kept] at read
  split_ifs at read with fits
  exact ⟨fits, (Option.some.inj read).symm⟩

end Survey

/-- In a tree without links, a statement whose local specifier leads on the tree, one segment after the
other, from the directory of its file to the file of a node, contributes exactly the number of that node to
the imports, wherever the way goes and whatever else could have been meant. -/
theorem buildGraph_follows_specifiers {fs : FileSystem} {path : Path} {settings : Settings} {connected : Connected}
    (sound : fs.tree.IsSound) (free : fs.tree.IsLinkFree) (built : buildGraph fs path settings = .ok connected) :
    ∃ root survey, fs.locate path = .ok root ∧
      Workspace.survey ⟨Path.ofNames root, settings⟩ fs = .ok survey ∧ survey.connect fs = .ok connected ∧
      ∀ id node, (id, node) ∈ connected.graph.nodes →
        ∃ content, fs.get? (root ++ namesOf node.key) = some (.file content) ∧
          ∀ before specifier after target goal,
            Source.specifiers (Utf8.decodeLossy content) = before ++ specifier :: after →
            Source.isLocal specifier = true → (target, goal) ∈ connected.graph.nodes →
            Leads fs (root ++ (namesOf node.key).dropLast) (Path.segments specifier) (root ++ namesOf goal.key) →
            survey.Contributes fs (survey.directoryOf node.key) before after target node.imports := by
  obtain ⟨root, survey, located, leads, surveyed, success⟩ := exists_survey_of_buildGraph built
  obtain ⟨-, covers⟩ := Survey.covers_of_survey sound located leads surveyed
  refine ⟨root, survey, located, surveyed, success, ?_⟩
  obtain ⟨children, here⟩ := covers.here
  have freeBelow := free.of_get? here
  intro id node member
  obtain ⟨surveyed, text, missing, inSurvey, key, read, imports⟩ := covers.of_mem_graph success member
  obtain ⟨content, kept, -⟩ := covers.exists_file here freeBelow inSurvey
  rw [← key] at kept
  refine ⟨content, kept.here, ?_⟩
  intro before specifier after target goal statements isLocal isNode way
  obtain ⟨surveyedGoal, goalText, -, goalInSurvey, goalKey, goalRead, -⟩ := covers.of_mem_graph success isNode
  obtain ⟨goalContent, goalKept, -⟩ := covers.exists_file here freeBelow goalInSurvey
  have numbered := (covers.isCoherent.nodes goalInSurvey).numbered
  rw [← goalKey] at goalKept numbered
  obtain ⟨fits, -⟩ := covers.fits_of_text? sound goalKept goalRead
  obtain ⟨-, rfl⟩ := covers.fits_of_text? sound kept read
  have known : target ∈ survey.nodes.map (·.1) := List.mem_map.mpr ⟨_, goalInSurvey, rfl⟩
  have names := covers.names_of_leads sound kept isLocal way goalKept.here fits numbered known
  rw [statements] at imports
  obtain ⟨first, firstMissing, rest, restMissing, importsBefore, importsRest, parts⟩ := imports.exists_append
  obtain ⟨last, rfl, importsAfter⟩ := importsRest.exists_cons_of_names names
  exact ⟨first, firstMissing, last, restMissing, importsBefore, importsAfter, parts⟩

/-! A specifier that leaves the root and comes back, next to a file whose name is that of its goal with an
extension added. -/

/-- The specifier of the file `a.js` below `/p/src`. -/
def climbingSpecifier : List Char :=
  "./../src//lib/b.js".toList

def climbingImport : Bytes :=
  Utf8.encode "import b from './../src//lib/b.js';".toList

def climbingFiles : FileSystem where
  tree := .directory [("p".toList, .directory [("src".toList, .directory
    [("a.js".toList, .file climbingImport), ("lib".toList, .directory
      [("b.js".toList, .file []), ("b.js.js".toList, .file [])])])])]
  workingDirectory := []

def climbingConnected : Connected where
  graph :=
    { ids := [("a.js", 1), ("lib", 2), ("lib/b.js", 3), ("lib/b.js.js", 4)]
      levels := [(1, 0), (2, 0), (3, 1), (4, 1)]
      nodes :=
        [(1, { Node.fresh 1 "a.js" 0 none none with imports := [3] }),
          (3, .fresh 3 "lib/b.js" 1 (some 2) none), (4, .fresh 4 "lib/b.js.js" 1 (some 2) none)] }
  unresolved := 0

theorem buildGraph_follows_specifiers_of_climbingFiles :
    climbingFiles.tree.IsSound ∧ climbingFiles.tree.IsLinkFree ∧
      buildGraph climbingFiles (.ofString "/p/src") .standard = .ok climbingConnected ∧
      ∃ survey, Workspace.survey ⟨.ofString "/p/src", .standard⟩ climbingFiles = .ok survey ∧
        survey.Contributes climbingFiles (survey.directoryOf "a.js") [] [] 3 [3] := by
  have sound : climbingFiles.tree.IsSound := by decide +kernel
  have free : climbingFiles.tree.IsLinkFree := by decide +kernel
  have built : buildGraph climbingFiles (.ofString "/p/src") .standard = .ok climbingConnected := by decide +kernel
  have located : climbingFiles.locate (.ofString "/p/src") = .ok ["p".toList, "src".toList] := by decide +kernel
  obtain ⟨root, survey, leads, surveyed, -, follows⟩ := buildGraph_follows_specifiers sound free built
  obtain rfl := Except.ok.inj (located.symm.trans leads)
  have front : namesOf "a.js" = ["a.js".toList] := by decide +kernel
  have back : namesOf "lib/b.js" = ["lib".toList, "b.js".toList] := by decide +kernel
  obtain ⟨content, here, contributes⟩ := follows 1 _ List.mem_cons_self
  have here : climbingFiles.get? (["p".toList, "src".toList] ++ namesOf "a.js") = some (.file content) := here
  rw [front] at here
  cases here
  have statements : Source.specifiers (Utf8.decodeLossy climbingImport) = [climbingSpecifier] := by decide +kernel
  have way : Leads climbingFiles (["p".toList, "src".toList] ++ (namesOf "a.js").dropLast)
      (Path.segments climbingSpecifier) (["p".toList, "src".toList] ++ namesOf "lib/b.js") := by
    rw [front, back]
    exact .stay rfl (.inr rfl) (.climb rfl (.enter rfl rfl (.stay rfl (.inl rfl) (.enter rfl rfl
      (.enter rfl rfl .done)))))
  exact ⟨sound, free, built, survey, surveyed, contributes [] climbingSpecifier [] 3 _ statements rfl
    (List.mem_cons_of_mem _ List.mem_cons_self) way⟩

end ImportAtlas
