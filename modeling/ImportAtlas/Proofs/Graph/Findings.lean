import ImportAtlas.Proofs.Graph.Meaning
import ImportAtlas.Proofs.Graph.Table
import ImportAtlas.Proofs.List.Traversal
import Mathlib.Data.List.Perm.Basic

/-! # Recording what the files of a survey come to

A result changes the node of its file and no other, so results of different files can be recorded in
any order. Recorded by number they give each node the imports of its own file, and the graph that they
make describes the files. Connecting is reading all files by number and recording the results.
-/

namespace ImportAtlas

section Record

/-! Recording what a file came to changes the node of the file and no other. -/

theorem recordFindings_of_absent {nodes : List (Id × Node)} {result : Id × Findings}
    (absent : result.1 ∉ nodes.map (·.1)) : recordFindings nodes result = nodes := by
  have kept : ∀ entry ∈ nodes, entry.1 ≠ result.1 := by
    intro entry member same
    exact absent (List.mem_map.mpr ⟨entry, member, same⟩)
  calc recordFindings nodes result
    _ = nodes.map id := List.map_congr_left fun entry member => if_neg (kept entry member)
    _ = nodes := List.map_id nodes

theorem recordFindings_append (first second : List (Id × Node)) (result : Id × Findings) :
    recordFindings (first ++ second) result = recordFindings first result ++ recordFindings second result :=
  List.map_append ..

/-- Results of different files can be recorded in either order. -/
theorem recordFindings_comm (nodes : List (Id × Node)) {first second : Id × Findings}
    (different : first.1 ≠ second.1) :
    recordFindings (recordFindings nodes first) second =
      recordFindings (recordFindings nodes second) first := by
  simp only [recordFindings, List.map_map]
  congr 1
  funext entry
  by_cases atFirst : entry.1 = first.1
  · have notSecond : first.1 ≠ second.1 := different
    simp [atFirst, notSecond]
  · by_cases atSecond : entry.1 = second.1 <;> simp [atFirst, atSecond, Ne.symm different]

/-- Recording is independent of the order of the results, if no file has two of them. -/
theorem foldl_recordFindings_perm {first second : List (Id × Findings)} (same : first.Perm second)
    (unique : Table.HasUniqueKeys first) (nodes : List (Id × Node)) :
    first.foldl recordFindings nodes = second.foldl recordFindings nodes := by
  apply same.foldl_eq'
  intro a inFirst b alsoInFirst nodes
  by_cases equal : a = b
  · rw [equal]
  · apply recordFindings_comm nodes
    intro sameKey
    exact equal (List.inj_on_of_nodup_map unique inFirst alsoInFirst sameKey)

/-- The entry of a file with the imports that were found in it. -/
def withImports (entry : Id × Node) (result : Id × Findings) : Id × Node :=
  (entry.1, { entry.2 with imports := result.2.imports })

/-- The node with what its imports import among some nodes. -/
def withReach (nodes : List (Id × Node)) (node : Node) : Node :=
  { node with reach := (node.imports.flatMap (importsOf nodes)).eraseDups }

theorem recordReach_eq_map (nodes : List (Id × Node)) :
    recordReach nodes = nodes.map fun entry => (entry.1, withReach nodes entry.2) := rfl

private theorem recordFindings_at {before after : List (Id × Node)} {entry : Id × Node}
    {result : Id × Findings} (unique : Table.HasUniqueKeys (before ++ entry :: after))
    (same : result.1 = entry.1) :
    recordFindings (before ++ entry :: after) result = before ++ withImports entry result :: after := by
  rw [Table.HasUniqueKeys, List.map_append, List.map_cons, List.nodup_append, List.nodup_cons] at unique
  obtain ⟨_, ⟨notAfter, _⟩, notBefore⟩ := unique
  have absentBefore : result.1 ∉ before.map (·.1) :=
    fun member => notBefore _ member _ List.mem_cons_self same
  have absentAfter : result.1 ∉ after.map (·.1) := same ▸ notAfter
  rw [recordFindings_append, recordFindings_of_absent absentBefore, ← List.singleton_append,
    recordFindings_append, recordFindings_of_absent absentAfter]
  simp [recordFindings, withImports, same]

/-- Recording one result for each file gives each file the imports of its result. -/
theorem foldl_recordFindings_aligned {nodes : List (Id × Node)} {results : List (Id × Findings)}
    (aligned : List.Forall₂ (fun entry result => result.1 = entry.1) nodes results)
    (before : List (Id × Node)) (unique : Table.HasUniqueKeys (before ++ nodes)) :
    results.foldl recordFindings (before ++ nodes) = before ++ List.zipWith withImports nodes results := by
  induction aligned generalizing before with
  | nil => rfl
  | @cons entry result nodes results same aligned ih =>
    have next : Table.HasUniqueKeys ((before ++ [withImports entry result]) ++ nodes) := by
      simpa [Table.HasUniqueKeys, withImports] using unique
    rw [List.foldl_cons, recordFindings_at unique same, List.append_cons, ih _ next,
      List.zipWith_cons_cons, ← List.append_cons]

end Record

namespace Survey

/-- Reads the file of a node. -/
def scanEntry (survey : Survey) (fs : FileSystem) (entry : Id × Node) : Except Failure (Id × Findings) :=
  (survey.scan fs entry.2.key).map (entry.1, ·)

/-- The files have been read with these results, in the same order. -/
abbrev Scanned (survey : Survey) (fs : FileSystem) : List (Id × Node) → List (Id × Findings) → Prop :=
  List.Forall₂ fun entry result => survey.scanEntry fs entry = .ok result

variable {survey : Survey} {fs : FileSystem}

theorem scanEntry_eq_ok_iff {entry : Id × Node} {result : Id × Findings} :
    survey.scanEntry fs entry = .ok result ↔
      result.1 = entry.1 ∧ survey.scan fs entry.2.key = .ok result.2 := by
  unfold scanEntry
  cases survey.scan fs entry.2.key with
  | error failure => simp [Except.map]
  | ok findings => simp [Except.map, Prod.ext_iff, eq_comm]

/-- Only a file that cannot be read makes a scan fail, and the failure names it. -/
theorem scanEntry_eq_error_iff {entry : Id × Node} {failure : Failure} :
    survey.scanEntry fs entry = .error failure ↔
      ∃ cause, fs.readBytes (survey.filePath entry.2.key) = .error cause ∧
        failure = .file (survey.filePath entry.2.key) cause := by
  rw [← scan_eq_error_iff, scanEntry]
  cases survey.scan fs entry.2.key <;> simp [Except.map]

/-- The graph does not depend on the order in which the results are recorded. -/
theorem assemble_perm (survey : Survey) {first second : List (Id × Findings)} (same : first.Perm second)
    (unique : Table.HasUniqueKeys first) : survey.assemble first = survey.assemble second := by
  simp only [assemble, foldl_recordFindings_perm same unique, (same.map (·.2.unresolved)).foldr_eq 0]

theorem hasUniqueKeys_of_scanned {nodes : List (Id × Node)} {results : List (Id × Findings)}
    (unique : Table.HasUniqueKeys nodes)
    (scanned : survey.Scanned fs nodes results) :
    Table.HasUniqueKeys results := by
  have keys : results.map (·.1) = nodes.map (·.1) := by
    induction scanned with
    | nil => rfl
    | cons scanned _ ih =>
      rw [List.map_cons, List.map_cons, (scanEntry_eq_ok_iff.mp scanned).1,
        ih (List.nodup_cons.mp unique).2]
  rwa [Table.HasUniqueKeys, keys]

private theorem hasImports_of_scanned {nodes direct : List (Id × Node)} {results : List (Id × Findings)}
    (scanned : survey.Scanned fs nodes results) :
    List.Forall₂ (survey.HasImports fs) nodes ((List.zipWith withImports nodes results).map fun entry =>
      (entry.1, withReach direct entry.2)) := by
  induction scanned with
  | nil => exact .nil
  | cons scanned _ ih =>
    refine .cons ⟨rfl, ?_⟩ ih
    obtain ⟨text, read, imports⟩ := imports_of_scan (scanEntry_eq_ok_iff.mp scanned).2
    exact ⟨text, _, read, imports⟩

theorem localCount_of_scan {key : String} {findings : Findings} (scanned : survey.scan fs key = .ok findings) :
    findings.imports.length + findings.unresolved = survey.localCount fs key := by
  obtain ⟨text, read, imports⟩ := imports_of_scan scanned
  rw [imports.count, localCount, read]
  rfl

private theorem total_of_scanned {nodes : List (Id × Node)} {results : List (Id × Findings)}
    (scanned : survey.Scanned fs nodes results) :
    ((List.zipWith withImports nodes results).map fun entry => entry.2.imports.length).sum +
        (results.map (·.2.unresolved)).sum =
      (nodes.map fun entry => survey.localCount fs entry.2.key).sum := by
  induction scanned with
  | nil => rfl
  | @cons entry result nodes results scanned _ ih =>
    have here := localCount_of_scan (scanEntry_eq_ok_iff.mp scanned).2
    simp only [List.zipWith_cons_cons, List.map_cons, List.sum_cons, withImports] at ih ⊢
    omega

/-- The nodes of the graph are those of the survey with the imports of their results, and what they reach. -/
theorem assemble_nodes (unique : Table.HasUniqueKeys survey.nodes) {results : List (Id × Findings)}
    (scanned : survey.Scanned fs survey.nodes results) :
    (survey.assemble results).graph.nodes = recordReach (List.zipWith withImports survey.nodes results) :=
  congrArg recordReach (foldl_recordFindings_aligned
    (scanned.imp fun _ _ scanned => (scanEntry_eq_ok_iff.mp scanned).1) [] unique)

/-- Recording the results of all files, by number, makes a graph that describes the files. -/
theorem describes_of_scanned (unique : Table.HasUniqueKeys survey.nodes) {results : List (Id × Findings)}
    (scanned : survey.Scanned fs survey.nodes results) :
    survey.Describes fs (survey.assemble results) := by
  have nodes := assemble_nodes unique scanned
  refine ⟨nodes ▸ hasImports_of_scanned scanned, ?_⟩
  rw [nodes, recordReach, List.map_map]
  exact total_of_scanned scanned

/-- Connecting succeeds with the graph of all results, in the order of the files. -/
theorem connect_eq_ok_iff {connected : Connected} :
    survey.connect fs = .ok connected ↔ ∃ results, survey.assemble results = connected ∧
      survey.Scanned fs survey.nodes results := by
  have unfolded : survey.connect fs = (survey.nodes.mapM (survey.scanEntry fs)).map survey.assemble := rfl
  rw [unfolded]
  constructor
  · intro success
    cases scanned : survey.nodes.mapM (survey.scanEntry fs) with
    | error failure =>
      rw [scanned] at success
      cases success
    | ok results =>
      rw [scanned] at success
      exact ⟨results, Except.ok.inj success, mapM_eq_ok_iff.mp scanned⟩
  · rintro ⟨results, rfl, scanned⟩
    rw [mapM_eq_ok_iff.mpr scanned]
    rfl

/-- Connecting succeeds exactly if all files can be read. -/
theorem exists_connect_eq_ok_iff :
    (∃ connected, survey.connect fs = .ok connected) ↔
      ∀ entry ∈ survey.nodes, ∃ bytes, fs.readBytes (survey.filePath entry.2.key) = .ok bytes := by
  constructor
  · rintro ⟨connected, success⟩ entry member
    obtain ⟨results, _, scanned⟩ := connect_eq_ok_iff.mp success
    cases read : fs.readBytes (survey.filePath entry.2.key) with
    | ok bytes => exact ⟨bytes, rfl⟩
    | error cause =>
      obtain ⟨result, _, scanned⟩ := exists_mem_of_forall₂ scanned member
      rw [scanEntry_eq_error_iff.mpr ⟨cause, read, rfl⟩] at scanned
      cases scanned
  · intro readable
    cases scanned : survey.nodes.mapM (survey.scanEntry fs) with
    | ok results => exact ⟨_, connect_eq_ok_iff.mpr ⟨results, rfl, mapM_eq_ok_iff.mp scanned⟩⟩
    | error failure =>
      obtain ⟨entry, member, failed⟩ := exists_of_mapM_eq_error scanned
      obtain ⟨cause, unreadable, _⟩ := scanEntry_eq_error_iff.mp failed
      obtain ⟨bytes, read⟩ := readable entry member
      rw [read] at unreadable
      cases unreadable

end Survey

end ImportAtlas
