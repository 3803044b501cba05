import ImportAtlas.Proofs.FileSystem.Operations

/-! # What is left alone

Making a directory and the directories above it leaves every entry where it is, and each new entry is a directory
that one of the paths leads to. Writing a file afterwards changes the entry that its path leads to and no other.
-/

namespace ImportAtlas

/-- The paths above a path: its parent, the parent of that and so on, without the empty path. -/
def Path.parents (path : Path) : List Path :=
  match path.parent? with
  | some parent => parent.ancestors
  | none => []

namespace FileSystem

variable {fs middle after : FileSystem}

/-- Whether a path leads to a directory at a location, links followed. -/
def LeadsToDirectory (fs : FileSystem) (path : Path) (location : Location) : Prop :=
  ∃ children, fs.resolve .follow path = .ok (.found location (.directory children))

theorem LeadsToDirectory.grow {path : Path} {location : Location} (leads : fs.LeadsToDirectory path location)
    (grows : fs.Grows after) : after.LeadsToDirectory path location := by
  obtain ⟨children, resolved⟩ := leads
  obtain ⟨later, here⟩ := grows.exists_directory (isIn_of_resolve resolved)
  exact ⟨later, grows.resolve (fun goal => by simp) (by decide) (fun kept => by cases kept) resolved here⟩

/-- A file system in which nothing but directories was made, each of which one of some paths leads to, and the one
before. -/
structure Makes (fs after : FileSystem) (paths : List Path) : Prop where
  workingDirectory : after.workingDirectory = fs.workingDirectory
  kept {location : Location} {entry : Entry} (here : fs.get? location = some entry) :
    (after.get? location).map Entry.surface = some entry.surface
  made {location : Location} {entry : Entry} (free : fs.get? location = none)
    (here : after.get? location = some entry) : ∃ path ∈ paths, after.LeadsToDirectory path location

namespace Makes

variable {paths : List Path}

theorem refl (fs : FileSystem) (paths : List Path) : fs.Makes fs paths where
  workingDirectory := rfl
  kept here := by rw [here, Option.map_some]
  made free here := by cases free.symm.trans here

theorem grows (makes : fs.Makes after paths) : fs.Grows after :=
  .of_surface makes.workingDirectory makes.kept

theorem mono {more : List Path} (makes : fs.Makes after paths) (among : paths ⊆ more) : fs.Makes after more where
  workingDirectory := makes.workingDirectory
  kept := makes.kept
  made free here := by
    obtain ⟨path, member, leads⟩ := makes.made free here
    exact ⟨path, among member, leads⟩

theorem trans (first : fs.Makes middle paths) (second : middle.Makes after paths) : fs.Makes after paths where
  workingDirectory := second.workingDirectory.trans first.workingDirectory
  kept here := by
    obtain ⟨between, found, same⟩ := Option.map_eq_some_iff.mp (first.kept here)
    rw [second.kept found, same]
  made {location _} free here := by
    cases between : middle.get? location with
    | none => exact second.made between here
    | some entry =>
      obtain ⟨path, member, leads⟩ := first.made free between
      exact ⟨path, member, leads.grow second.grows⟩

end Makes

/-- A directory is made where its path leads. -/
theorem makes_of_makeDirectory {path : Path} (success : fs.makeDirectory path = .ok after) :
    fs.Makes after [path] := by
  unfold makeDirectory at success
  split at success
  case h_1 => cases success
  case h_2 parent name resolved =>
    cases success
    obtain ⟨children, here, free⟩ : Place.IsIn fs (.vacant parent name) := isIn_of_resolve resolved
    have before : fs.tree.get? (parent ++ [name]) = none := (Entry.get?_child here name).trans free
    have made : (fs.put (parent ++ [name]) (.directory [])).get? (parent ++ [name]) = some (.directory []) :=
      Entry.get?_put_in_directory here name _
    have elsewhere {location : Location} (differs : location ≠ parent ++ [name]) :=
      surface_get?_put (fun _ => Entry.get?_empty_directory) (.inl before) differs
    have kept {location : Location} {entry : Entry} (found : fs.get? location = some entry) :
        ((fs.put (parent ++ [name]) (.directory [])).get? location).map Entry.surface = some entry.surface := by
      rw [elsewhere, found, Option.map_some]
      rintro rfl
      cases before.symm.trans found
    refine ⟨rfl, kept, ?_⟩
    intro location entry absent found
    obtain rfl : location = parent ++ [name] := by
      by_contra differs
      have nothing := elsewhere differs
      rw [absent, found] at nothing
      cases nothing
    have grows : fs.Grows (fs.put (parent ++ [name]) (.directory [])) := .of_surface rfl kept
    exact ⟨path, List.mem_singleton_self path, [],
      grows.resolve (fun goal => by simp) (by decide) (fun _ _ => rfl) resolved made⟩
  case h_3 => cases success

/-- Making a chain of directories makes only directories of the chain, even if it fails. -/
theorem makes_makeChain (fs : FileSystem) (paths : List Path) : fs.Makes (fs.makeChain paths).2 paths := by
  induction paths with
  | nil => exact .refl fs []
  | cons path outer ih =>
    have among : [path] ⊆ path :: outer := by simp
    have outerMakes := ih.mono (List.subset_cons_self path outer)
    rw [makeChain]
    split
    case h_1 made success => exact (makes_of_makeDirectory success).mono among
    case h_2 =>
      split
      case h_1 cause made failed =>
        rw [failed] at outerMakes
        exact outerMakes
      case h_2 made success =>
        rw [success] at outerMakes
        split
        case h_1 last lastSuccess => exact outerMakes.trans ((makes_of_makeDirectory lastSuccess).mono among)
        case h_2 => exact outerMakes
    case h_3 => exact .refl fs _

/-! ## Writing beside what is there -/

/-- A file system in which the file at `target` was written, where `path` leads, and directories that some of the
`parents` lead to were made, and the one before. Nothing else is different. -/
structure WritesOnly (fs after : FileSystem) (path : Path) (parents : List Path) (target : Location) : Prop where
  denotes : ∃ content, after.resolve .follow path = .ok (.found target (.file content))
  workingDirectory : after.workingDirectory = fs.workingDirectory
  before : fs.get? target = none ∨ ∃ old, fs.get? target = some (.file old)
  kept {location : Location} {entry : Entry} (differs : location ≠ target) (here : fs.get? location = some entry) :
    (after.get? location).map Entry.surface = some entry.surface
  made {location : Location} {entry : Entry} (differs : location ≠ target) (free : fs.get? location = none)
    (here : after.get? location = some entry) : ∃ path ∈ parents, after.LeadsToDirectory path location

/-- After directories were made, a file is written where its path leads. -/
theorem Makes.exists_writesOnly {path : Path} {parents : List Path} (makes : fs.Makes middle parents)
    {content : Bytes} (success : middle.writeFile path content = .ok after) :
    ∃ target, fs.WritesOnly after path parents target := by
  obtain ⟨place, target, resolved, there, written⟩ := isWritten_of_writeFile success
  refine ⟨target, ⟨content, written.resolve resolved there⟩,
    written.workingDirectory.trans makes.workingDirectory, ?before, ?kept, ?made⟩
  case before =>
    cases here : fs.get? target with
    | none => exact .inl rfl
    | some entry =>
      obtain ⟨between, found, same⟩ := Option.map_eq_some_iff.mp (makes.kept here)
      rcases written.before with absent | ⟨old, isFile⟩
      · cases found.symm.trans absent
      · cases found.symm.trans isFile
        cases entry <;> cases same
        exact .inr ⟨old, rfl⟩
  case kept =>
    intro location entry differs here
    rw [written.elsewhere location differs, makes.kept here]
  case made =>
    intro location entry differs free here
    have same := written.elsewhere location differs
    rw [here] at same
    obtain ⟨between, found, -⟩ := Option.map_eq_some_iff.mp same.symm
    obtain ⟨outer, member, leads⟩ := makes.made free found
    exact ⟨outer, member, leads.grow written.grows⟩

end FileSystem

end ImportAtlas
