import ImportAtlas.Graph.Connect
import ImportAtlas.Proofs.FileSystem.Kept
import ImportAtlas.Source.Lookup

/-! # What a lookup gives

A lookup tries one path after the other and takes the first one that leads to anything. So what it gives leads
to a file unless a directory has the name of a path that is tried, and none of the paths before it leads to a
file. Just then it is not the file that comes first: the directory hides the files that come after it.
-/

namespace ImportAtlas

/-! ## The first member of a list -/

section First

variable {α : Type} {takes wants : α → Bool} {list : List α}

/-- What is taken first is what is wanted first just if it is wanted. -/
theorem find?_eq_find?_iff (narrower : ∀ a, wants a = true → takes a = true) :
    list.find? takes = list.find? wants ↔ ∀ found, list.find? takes = some found → wants found = true := by
  constructor
  · intro same found first
    exact List.find?_some (same ▸ first)
  · intro wanted
    cases first : list.find? takes with
    | none =>
      rw [List.find?_eq_none] at first
      exact (List.find?_eq_none.mpr fun a member wants => first a member (narrower a wants)).symm
    | some found =>
      obtain ⟨-, before, after, parts, refused⟩ := List.find?_eq_some_iff_append.mp first
      symm
      apply List.find?_eq_some_iff_append.mpr
      refine ⟨wanted found first, before, after, parts, ?_⟩
      intro a member
      have notTaken := refused a member
      cases isWanted : wants a with
      | false => rfl
      | true =>
        rw [narrower a isWanted] at notTaken
        exact notTaken

/-- What is taken first is not wanted just if nothing wanted comes before something else that is taken. -/
theorem exists_find?_not_iff (narrower : ∀ a, wants a = true → takes a = true) :
    (∃ found, list.find? takes = some found ∧ wants found = false) ↔
      ∃ before other after, list = before ++ other :: after ∧ (takes other && !wants other) = true ∧
        ∀ earlier ∈ before, wants earlier = false := by
  constructor
  · rintro ⟨found, first, notWanted⟩
    obtain ⟨taken, before, after, parts, refused⟩ := List.find?_eq_some_iff_append.mp first
    refine ⟨before, found, after, parts, by rw [taken, notWanted]; rfl, ?_⟩
    intro earlier member
    rw [← Bool.not_eq_true]
    intro wanted
    simpa [narrower earlier wanted] using refused earlier member
  · rintro ⟨before, other, after, rfl, isOther, noneWanted⟩
    obtain ⟨taken, notWanted⟩ : takes other = true ∧ wants other = false := by simpa using isOther
    rw [List.find?_append]
    cases first : before.find? takes with
    | some found => exact ⟨found, rfl, noneWanted found (List.mem_of_find?_eq_some first)⟩
    | none => exact ⟨other, by rw [Option.none_or, List.find?_cons_of_pos taken], notWanted⟩

end First

namespace Source.Lookup

variable {lookup : Lookup} {fs : FileSystem}

/-- The paths that are tried for a path that is no plain file, in order. -/
def tried (lookup : Lookup) (fs : FileSystem) (path : Path) : List Path :=
  let extended (path : Path) := lookup.extensions.map fun extension => path.extend extension.toList
  extended path ++ if fs.isPlainDirectory path then extended (path.join ⟨lookup.indexName.toList⟩) else []

theorem atPath?_eq (path : Path) : lookup.atPath? fs path =
    if fs.isPlainFile path then some path else (lookup.tried fs path).find? fs.pathExists := by
  rw [atPath?, tried, List.find?_append, ← withExtension?]
  split
  · rfl
  cases lookup.withExtension? fs path with
  | some found => rfl
  | none =>
    rw [Option.none_or]
    dsimp only
    split <;> rfl

/-- The file that a specifier means if nothing but files counts: the path itself, if it is a plain file, or the
first of the paths that are tried which leads to a file. -/
def findFile? (lookup : Lookup) (fs : FileSystem) (directory : Path) (specifier : List Char) : Option Path :=
  let path := (directory.join ⟨specifier⟩).clean
  if isLocal specifier then
    if fs.isPlainFile path then some path else (lookup.tried fs path).find? fs.leadsToFile
  else none

/-- Whether a directory has the name of a path that is tried, and none of the paths before it leads to a file. -/
def IsObstructed (lookup : Lookup) (fs : FileSystem) (path : Path) : Prop :=
  ∃ before directory after, lookup.tried fs path = before ++ directory :: after ∧
    fs.leadsToDirectory directory = true ∧ ∀ earlier ∈ before, fs.leadsToFile earlier = false

/-- What a lookup gives leads to a file or to a directory. It is a file, and the one that is found if nothing
but files counts, unless a directory obstructs the lookup; and if one does, it is not. -/
theorem find?_eq_findFile?_iff (lookup : Lookup) (fs : FileSystem) (directory : Path) (specifier : List Char) :
    (∀ found, lookup.find? fs directory specifier = some found →
      fs.leadsToFile found = true ∨ fs.leadsToDirectory found = true) ∧
    (lookup.find? fs directory specifier = lookup.findFile? fs directory specifier ↔
      ∀ found, lookup.find? fs directory specifier = some found → fs.leadsToFile found = true) ∧
    (lookup.find? fs directory specifier = lookup.findFile? fs directory specifier ↔
      (isLocal specifier = true → fs.isPlainFile (directory.join ⟨specifier⟩).clean = false →
        ¬lookup.IsObstructed fs (directory.join ⟨specifier⟩).clean)) := by
  rw [find?, findFile?]
  generalize (directory.join ⟨specifier⟩).clean = path
  by_cases isLocal : isLocal specifier = true
  case neg => simp [isLocal]
  rw [if_pos isLocal, if_pos isLocal, atPath?_eq]
  by_cases plain : fs.isPlainFile path = true
  case pos => simp [plain, FileSystem.leadsToFile_of_isPlainFile plain]
  rw [if_neg plain, if_neg plain]
  have narrower (path : Path) (leads : fs.leadsToFile path = true) : fs.pathExists path = true :=
    FileSystem.pathExists_of_leadsToFile leads
  have same := @find?_eq_find?_iff Path fs.pathExists fs.leadsToFile (lookup.tried fs path) narrower
  have obstructed := @exists_find?_not_iff Path fs.pathExists fs.leadsToFile (lookup.tried fs path) narrower
  refine ⟨?_, same, ?_⟩
  · intro found first
    rw [FileSystem.leadsToDirectory_eq_and, List.find?_some first]
    cases fs.leadsToFile found <;> simp
  · simp only [← FileSystem.leadsToDirectory_eq_and] at obstructed
    rw [same, IsObstructed, ← obstructed]
    simp [isLocal, plain]

/-- A directory beside the file that a specifier would mean, with an ending that is tried before that of the
file. -/
def shadedFiles : FileSystem where
  tree := .directory [("b.js".toList, .directory []), ("b.ts".toList, .file [])]
  workingDirectory := []

/-- With the standard settings, the directory is given and hides the file. -/
theorem find?_gives_directory :
    Settings.standard.lookup.find? shadedFiles (.ofString "") "./b".toList = some (.ofString "b.js") ∧
    shadedFiles.leadsToFile (.ofString "b.js") = false ∧
    shadedFiles.leadsToDirectory (.ofString "b.js") = true ∧
    Settings.standard.lookup.findFile? shadedFiles (.ofString "") "./b".toList = some (.ofString "b.ts") := by
  refine ⟨?_, ?_, ?_, ?_⟩ <;> decide +kernel

end Source.Lookup

end ImportAtlas
