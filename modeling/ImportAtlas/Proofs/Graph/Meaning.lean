import ImportAtlas.Graph.Connect
import Mathlib.Algebra.GroupWithZero.Nat
import Mathlib.Data.List.Forall2

/-! # What the specifiers of a file mean

A specifier names a node if the file that it is looked up to be has a key below the root, the key has
a number, and a node has that number. `Imports` runs through the specifiers of a text in their order
and tells what each of them contributes: a number, a unit of the count of unresolved specifiers, or
nothing. Scanning a file agrees with it.
-/

namespace ImportAtlas

namespace Survey

/-- In a file of the directory the specifier leads to a file that is the node with the number. -/
def Names (survey : Survey) (fs : FileSystem) (directory : Path) (specifier : List Char) (id : Id) : Prop :=
  ∃ path key, survey.settings.lookup.find? fs directory specifier = some path ∧
    survey.root.keyBelow? path = some key ∧ survey.numbering.id? key = some id ∧
    ∃ node, survey.nodes.lookup id = some node

/-- Specifiers in their order, the nodes that they import, and how many local ones import none. -/
inductive Imports (survey : Survey) (fs : FileSystem) (directory : Path) :
    List (List Char) → List Id → Nat → Prop
  | nil : Imports survey fs directory [] [] 0
  | package {specifier : List Char} {rest : List (List Char)} {ids : List Id} {missing : Nat}
      (package : Source.isLocal specifier = false) (later : Imports survey fs directory rest ids missing) :
      Imports survey fs directory (specifier :: rest) ids missing
  | node {specifier : List Char} {id : Id} {rest : List (List Char)} {ids : List Id} {missing : Nat}
      (names : survey.Names fs directory specifier id) (later : Imports survey fs directory rest ids missing) :
      Imports survey fs directory (specifier :: rest) (id :: ids) missing
  | missing {specifier : List Char} {rest : List (List Char)} {ids : List Id} {missing : Nat}
      (isLocal : Source.isLocal specifier = true) (nothing : ∀ id, ¬ survey.Names fs directory specifier id)
      (later : Imports survey fs directory rest ids missing) :
      Imports survey fs directory (specifier :: rest) ids (missing + 1)

/-- The text of a source file, malformed bytes replaced, if the file can be read. -/
def text? (survey : Survey) (fs : FileSystem) (key : String) : Option (List Char) :=
  match fs.readBytes (survey.filePath key) with
  | .ok bytes => some (Utf8.decodeLossy bytes)
  | .error _ => none

/-- The directory that a source file lies in. -/
def directoryOf (survey : Survey) (key : String) : Path :=
  (survey.filePath key).parent?.getD survey.root

/-- The node of a graph has the imports that the text of the surveyed file says. -/
def HasImports (survey : Survey) (fs : FileSystem) (surveyed connected : Id × Node) : Prop :=
  connected.1 = surveyed.1 ∧ ∃ text missing, survey.text? fs surveyed.2.key = some text ∧
    survey.Imports fs (survey.directoryOf surveyed.2.key) (Source.specifiers text)
      connected.2.imports missing

/-- How many local specifiers the text of a file holds. -/
def localCount (survey : Survey) (fs : FileSystem) (key : String) : Nat :=
  ((survey.text? fs key).elim [] Source.specifiers).countP Source.isLocal

/-- A graph has the files of a survey in their order with the imports of their texts, and what it
leaves out of the local specifiers is counted. -/
structure Describes (survey : Survey) (fs : FileSystem) (connected : Connected) : Prop where
  imports : List.Forall₂ (survey.HasImports fs) survey.nodes connected.graph.nodes
  total : (connected.graph.nodes.map fun entry => entry.2.imports.length).sum + connected.unresolved =
    (survey.nodes.map fun entry => survey.localCount fs entry.2.key).sum

variable {survey : Survey} {fs : FileSystem} {directory : Path}

theorem nodeAt?_eq_some_iff {path : Path} {id : Id} :
    survey.nodeAt? path = some id ↔
      ∃ key, survey.root.keyBelow? path = some key ∧ survey.numbering.id? key = some id ∧
        ∃ node, survey.nodes.lookup id = some node := by
  simp only [nodeAt?, Option.filter_eq_some_iff, Option.bind_eq_some_iff, Option.isSome_iff_exists]
  constructor
  · rintro ⟨⟨key, atKey, numbered⟩, node, found⟩
    exact ⟨key, atKey, numbered, node, found⟩
  · rintro ⟨key, atKey, numbered, node, found⟩
    exact ⟨⟨key, atKey, numbered⟩, node, found⟩

theorem names_iff {specifier : List Char} {id : Id} :
    survey.Names fs directory specifier id ↔
      (survey.settings.lookup.find? fs directory specifier).bind survey.nodeAt? = some id := by
  simp only [Names, Option.bind_eq_some_iff, nodeAt?_eq_some_iff]
  constructor
  · rintro ⟨path, key, found, named⟩
    exact ⟨path, found, key, named⟩
  · rintro ⟨path, found, key, named⟩
    exact ⟨path, key, found, named⟩

/-- Only local specifiers are looked up. -/
theorem Names.isLocal {specifier : List Char} {id : Id} (names : survey.Names fs directory specifier id) :
    Source.isLocal specifier = true := by
  obtain ⟨path, _, found, _⟩ := names
  unfold Source.Lookup.find? at found
  split at found
  · assumption
  · cases found

/-- Every local specifier counts once, as an import or as an unresolved specifier. -/
theorem Imports.count {specifiers : List (List Char)} {ids : List Id} {missing : Nat}
    (imports : survey.Imports fs directory specifiers ids missing) :
    ids.length + missing = specifiers.countP Source.isLocal := by
  induction imports with
  | nil => rfl
  | package package _ ih => rw [List.countP_cons_of_neg (by simp [package]), ih]
  | node names _ ih =>
    rw [List.countP_cons_of_pos names.isLocal, ← ih, List.length_cons]
    omega
  | missing isLocal _ _ ih =>
    rw [List.countP_cons_of_pos isLocal, ← ih]
    omega

/-- Specifiers that all have been looked up contribute as `Imports` says. -/
theorem imports_of_lookups (survey : Survey) (fs : FileSystem) (directory : Path)
    (specifiers : List (List Char)) :
    let found := (specifiers.filter Source.isLocal).map fun specifier =>
      (survey.settings.lookup.find? fs directory specifier).bind survey.nodeAt?
    survey.Imports fs directory specifiers (found.filterMap id) (found.countP Option.isNone) := by
  induction specifiers with
  | nil => exact .nil
  | cons specifier rest ih =>
    cases kind : Source.isLocal specifier with
    | false =>
      rw [List.filter_cons_of_neg (by simp [kind])]
      exact .package kind ih
    | true =>
      rw [List.filter_cons_of_pos kind, List.map_cons]
      cases meaning : (survey.settings.lookup.find? fs directory specifier).bind survey.nodeAt? with
      | none =>
        have nothing : ∀ id, ¬ survey.Names fs directory specifier id := by
          intro id names
          rw [names_iff, meaning] at names
          cases names
        simpa using Imports.missing kind nothing ih
      | some id => simpa using Imports.node (names_iff.mpr meaning) ih

/-- A scan succeeds exactly if the file can be read. -/
theorem scan_eq_ok_iff {key : String} {findings : Findings} :
    survey.scan fs key = .ok findings ↔
      ∃ text, survey.text? fs key = some text ∧
        findings = ⟨(survey.meanings fs (survey.directoryOf key) text).filterMap id,
          (survey.meanings fs (survey.directoryOf key) text).countP Option.isNone⟩ := by
  simp only [scan, text?, directoryOf]
  cases fs.readBytes (survey.filePath key) with
  | error cause => simp
  | ok bytes => simp [eq_comm]

/-- A scan fails exactly if the file cannot be read, and the failure names the file. -/
theorem scan_eq_error_iff {key : String} {failure : Failure} :
    survey.scan fs key = .error failure ↔
      ∃ cause, fs.readBytes (survey.filePath key) = .error cause ∧
        failure = .file (survey.filePath key) cause := by
  simp only [scan]
  cases fs.readBytes (survey.filePath key) with
  | error cause => simp [eq_comm]
  | ok bytes => simp

/-- What a scan finds is what the specifiers of the file import. -/
theorem imports_of_scan {key : String} {findings : Findings} (scanned : survey.scan fs key = .ok findings) :
    ∃ text, survey.text? fs key = some text ∧
      survey.Imports fs (survey.directoryOf key) (Source.specifiers text) findings.imports
        findings.unresolved := by
  obtain ⟨text, read, rfl⟩ := scan_eq_ok_iff.mp scanned
  exact ⟨text, read, imports_of_lookups survey fs _ _⟩

/-- Every import that a scan finds is a node. -/
theorem Imports.isNode {specifiers : List (List Char)} {ids : List Id} {missing : Nat}
    (imports : survey.Imports fs directory specifiers ids missing) :
    ∀ id ∈ ids, ∃ node, survey.nodes.lookup id = some node := by
  induction imports with
  | nil => simp
  | package _ _ ih => exact ih
  | node names _ ih =>
    obtain ⟨_, _, _, _, _, isNode⟩ := names
    exact List.forall_mem_cons.mpr ⟨isNode, ih⟩
  | missing _ _ _ ih => exact ih

/-- Specifiers contribute in their order. -/
theorem Imports.exists_append {first second : List (List Char)} {ids : List Id} {missing : Nat}
    (imports : survey.Imports fs directory (first ++ second) ids missing) :
    ∃ before beforeMissing after afterMissing, survey.Imports fs directory first before beforeMissing ∧
      survey.Imports fs directory second after afterMissing ∧ ids = before ++ after := by
  induction first generalizing ids missing with
  | nil => exact ⟨[], 0, ids, missing, .nil, imports, rfl⟩
  | cons specifier rest ih =>
    rw [List.cons_append] at imports
    cases imports with
    | package package later =>
      obtain ⟨before, _, after, _, atFirst, atSecond, rfl⟩ := ih later
      exact ⟨before, _, after, _, .package package atFirst, atSecond, rfl⟩
    | @node _ id _ _ _ names later =>
      obtain ⟨before, _, after, _, atFirst, atSecond, rfl⟩ := ih later
      exact ⟨id :: before, _, after, _, .node names atFirst, atSecond, rfl⟩
    | missing isLocal nothing later =>
      obtain ⟨before, _, after, _, atFirst, atSecond, rfl⟩ := ih later
      exact ⟨before, _, after, _, .missing isLocal nothing atFirst, atSecond, rfl⟩

/-- A specifier that names a node contributes the number of this node and nothing else. -/
theorem Imports.exists_cons_of_names {specifier : List Char} {rest : List (List Char)} {ids : List Id}
    {missing : Nat} (imports : survey.Imports fs directory (specifier :: rest) ids missing) {id : Id}
    (names : survey.Names fs directory specifier id) :
    ∃ later, ids = id :: later ∧ survey.Imports fs directory rest later missing := by
  cases imports with
  | package package _ => exact absurd names.isLocal (by simp [package])
  | node alsoNames later =>
    rw [names_iff] at names alsoNames
    cases names.symm.trans alsoNames
    exact ⟨_, rfl, later⟩
  | missing _ nothing _ => exact absurd names (nothing id)

end Survey

end ImportAtlas
