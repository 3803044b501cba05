import ImportAtlas.FileSystem.Entry

/-! # What lies at a location

Putting an entry at a location leaves everything else where it is. The directories on the way to it
hold something new, so what stays the same there is only what kind of entry they are: this is all
that following a path depends on.
-/

namespace ImportAtlas.Entry

/-- What an entry is, apart from what it holds. -/
inductive Kind where
  | file
  | link (target : Path)
  | directory
deriving DecidableEq

/-- The kind of an entry. -/
def kind : Entry → Kind
  | .file _ => .file
  | .link target => .link target
  | .directory _ => .directory

theorem kind_eq_directory_iff {entry : Entry} :
    entry.kind = .directory ↔ ∃ children, entry = .directory children := by
  cases entry <;> simp [kind]

theorem isDirectory_eq (entry : Entry) : entry.isDirectory = decide (entry.kind = .directory) := by
  cases entry <;> rfl

theorem map_isDirectory_of_kind {found other : Option Entry} (same : found.map kind = other.map kind) :
    found.map isDirectory = other.map isDirectory := by
  have tells : (decide <| · = Kind.directory) ∘ kind = isDirectory :=
    funext fun entry => (isDirectory_eq entry).symm
  have kinds := congrArg (Option.map (decide <| · = Kind.directory)) same
  simpa only [Option.map_map, tells] using kinds

/-! ## Children -/

theorem child?_cons_of_ne {name other : Name} (differs : other ≠ name) (entry : Entry)
    (children : List (Name × Entry)) : child? name ((other, entry) :: children) = child? name children := by
  rw [child?, if_neg differs]

@[simp] theorem child?_setChild_same (name : Name) (entry : Entry) (children : List (Name × Entry)) :
    child? name (setChild name entry children) = some entry := by
  induction children with
  | nil => simp [setChild, child?]
  | cons first rest ih =>
    rw [setChild]
    split <;> simp [child?, *]

theorem child?_setChild_of_ne {name other : Name} (differs : other ≠ name) (entry : Entry)
    (children : List (Name × Entry)) :
    child? other (setChild name entry children) = child? other children := by
  induction children with
  | nil => simp [setChild, child?, differs.symm]
  | cons first rest ih =>
    rw [setChild]
    split
    case isTrue same => simp [child?, same, differs.symm]
    case isFalse => simp only [child?, ih]

theorem child?_eq_some_iff {children : List (Name × Entry)} (unique : (children.map (·.1)).Nodup)
    {name : Name} {entry : Entry} : child? name children = some entry ↔ (name, entry) ∈ children := by
  induction children with
  | nil => simp [child?]
  | cons first rest ih =>
    obtain ⟨other, old⟩ := first
    obtain ⟨new, unique⟩ := List.nodup_cons.mp unique
    rw [child?, List.mem_cons]
    split
    case isTrue same =>
      subst same
      have absent : (other, entry) ∉ rest := fun member => new (List.mem_map.mpr ⟨_, member, rfl⟩)
      simp [absent, eq_comm]
    case isFalse differs => simp [ih unique, Ne.symm differs]

theorem mem_of_child? {children : List (Name × Entry)} {name : Name} {entry : Entry}
    (found : child? name children = some entry) : (name, entry) ∈ children := by
  induction children with
  | nil => cases found
  | cons first rest ih =>
    rw [child?] at found
    split at found
    case isTrue same =>
      cases found
      rw [← same]
      exact List.mem_cons_self
    case isFalse => exact List.mem_cons_of_mem _ (ih found)

theorem mem_setChild {name : Name} {entry : Entry} {children : List (Name × Entry)} {child : Name × Entry}
    (member : child ∈ setChild name entry children) : child = (name, entry) ∨ child ∈ children := by
  induction children with
  | nil => exact .inl (List.mem_singleton.mp member)
  | cons first rest ih =>
    rw [setChild] at member
    split at member
    case isTrue => exact (List.mem_cons.mp member).imp_right (List.mem_cons_of_mem _)
    case isFalse =>
      rcases List.mem_cons.mp member with rfl | later
      · exact .inr List.mem_cons_self
      · exact (ih later).imp_right (List.mem_cons_of_mem _)

theorem nodup_setChild (name : Name) (entry : Entry) {children : List (Name × Entry)}
    (unique : (children.map (·.1)).Nodup) : ((setChild name entry children).map (·.1)).Nodup := by
  induction children with
  | nil => exact List.pairwise_singleton _ _
  | cons first rest ih =>
    obtain ⟨new, unique⟩ := List.nodup_cons.mp unique
    rw [setChild]
    split
    case isTrue same => exact List.nodup_cons.mpr ⟨same ▸ new, unique⟩
    case isFalse differs =>
      refine List.nodup_cons.mpr ⟨?_, ih unique⟩
      intro again
      obtain ⟨other, member, equal⟩ := List.mem_map.mp again
      rcases mem_setChild member with rfl | old
      · exact differs equal.symm
      · exact new (equal ▸ List.mem_map_of_mem old)

/-- Setting a child to what it is changes nothing. -/
theorem setChild_of_child? {name : Name} {entry : Entry} {children : List (Name × Entry)}
    (found : child? name children = some entry) : setChild name entry children = children := by
  induction children with
  | nil => cases found
  | cons first rest ih =>
    rw [child?] at found
    rw [setChild]
    split at found
    case isTrue same =>
      cases found
      rw [if_pos same, ← same]
    case isFalse differs => rw [if_neg differs, ih found]

/-! ## Locations -/

@[simp] theorem get?_nil (entry : Entry) : entry.get? [] = some entry := by
  rw [get?]

@[simp] theorem get?_directory (children : List (Name × Entry)) (name : Name) (rest : Location) :
    (directory children).get? (name :: rest) = (child? name children).bind (·.get? rest) := by
  rw [get?]

theorem get?_file (content : Bytes) {rest : Location} (more : rest ≠ []) : (file content).get? rest = none := by
  obtain ⟨name, rest, rfl⟩ := List.exists_cons_of_ne_nil more
  rfl

theorem get?_empty_directory {rest : Location} (more : rest ≠ []) : (directory []).get? rest = none := by
  obtain ⟨name, rest, rfl⟩ := List.exists_cons_of_ne_nil more
  rfl

theorem get?_append (entry : Entry) (location rest : Location) :
    entry.get? (location ++ rest) = (entry.get? location).bind (·.get? rest) := by
  induction location generalizing entry with
  | nil => simp
  | cons name location ih =>
    cases entry with
    | directory children =>
      rw [List.cons_append, get?_directory, get?_directory, Option.bind_assoc]
      exact congrArg _ (funext fun child => ih child)
    | file content => simp [get?]
    | link target => simp [get?]

/-- What a directory has under a name lies at that name below it. -/
theorem get?_child {tree : Entry} {location : Location} {children : List (Name × Entry)}
    (here : tree.get? location = some (.directory children)) (name : Name) :
    tree.get? (location ++ [name]) = child? name children := by
  rw [get?_append, here, Option.bind_some, get?_directory]
  cases child? name children <;> simp

/-- Only a directory has something below it. -/
theorem exists_directory_of_get? {tree child : Entry} {location : Location} {name : Name}
    (below : tree.get? (location ++ [name]) = some child) :
    ∃ children, tree.get? location = some (.directory children) ∧ child? name children = some child := by
  rw [get?_append] at below
  cases here : tree.get? location with
  | none => rw [here] at below; cases below
  | some entry =>
    cases entry with
    | directory children => exact ⟨children, rfl, by rw [← get?_child here, get?_append, below]⟩
    | file content => rw [here] at below; cases below
    | link target => rw [here] at below; cases below

/-- The way to an entry passes through directories. -/
theorem exists_directory_of_get?_append {tree entry : Entry} {location more : Location} (nonempty : more ≠ [])
    (below : tree.get? (location ++ more) = some entry) :
    ∃ children, tree.get? location = some (.directory children) := by
  obtain ⟨name, rest, rfl⟩ := List.exists_cons_of_ne_nil nonempty
  rw [List.append_cons, get?_append] at below
  obtain ⟨child, here, -⟩ := Option.bind_eq_some_iff.mp below
  obtain ⟨children, directory, -⟩ := exists_directory_of_get? here
  exact ⟨children, directory⟩

/-- Every location on the way to a directory is one. -/
theorem exists_directory_of_directory {tree : Entry} {location more : Location}
    (below : ∃ children, tree.get? (location ++ more) = some (.directory children)) :
    ∃ children, tree.get? location = some (.directory children) := by
  obtain ⟨children, below⟩ := below
  cases more with
  | nil => exact ⟨children, by rwa [List.append_nil] at below⟩
  | cons name rest => exact exists_directory_of_get?_append (List.cons_ne_nil _ _) below

/-- The way to a directory passes through directories. -/
theorem exists_directory_dropLast {tree : Entry} {location : Location} {children : List (Name × Entry)}
    (here : tree.get? location = some (.directory children)) :
    ∃ children, tree.get? location.dropLast = some (.directory children) := by
  rcases List.eq_nil_or_concat location with rfl | ⟨parent, name, rfl⟩
  · exact ⟨children, here⟩
  · rw [List.concat_eq_append] at here ⊢
    obtain ⟨siblings, above, -⟩ := exists_directory_of_get? here
    exact ⟨siblings, by rw [List.dropLast_concat]; exact above⟩

theorem exists_directory_root {tree : Entry} {location : Location} {children : List (Name × Entry)}
    (here : tree.get? location = some (.directory children)) :
    ∃ children, tree.get? [] = some (.directory children) := by
  cases tree with
  | directory siblings => exact ⟨siblings, rfl⟩
  | file content => cases location <;> simp [get?] at here
  | link target => cases location <;> simp [get?] at here

/-! ## What shows without looking inside -/

/-- What shows of an entry without looking into it: what a file holds shows, what a directory holds does
not. -/
def surface : Entry → Entry
  | .directory _ => .directory []
  | entry => entry

theorem kind_surface (entry : Entry) : entry.surface.kind = entry.kind := by
  cases entry <;> rfl

section Surface

variable {found other : Option Entry} (same : found.map surface = other.map surface)

include same

theorem map_kind_of_surface : found.map kind = other.map kind := by
  have kinds := congrArg (Option.map kind) same
  have forget : kind ∘ surface = kind := funext kind_surface
  simpa only [Option.map_map, forget] using kinds

theorem map_isDirectory_of_surface : found.map isDirectory = other.map isDirectory :=
  map_isDirectory_of_kind (map_kind_of_surface same)

theorem directory_iff_of_surface :
    (∃ children, found = some (directory children)) ↔ ∃ children, other = some (directory children) := by
  have tell (entry : Option Entry) :
      (∃ children, entry = some (directory children)) ↔ entry.map kind = some .directory := by
    simp only [Option.map_eq_some_iff, kind_eq_directory_iff]
    constructor
    · rintro ⟨children, rfl⟩
      exact ⟨_, rfl, children, rfl⟩
    · rintro ⟨_, rfl, children, rfl⟩
      exact ⟨children, rfl⟩
  rw [tell, tell, map_kind_of_surface same]

theorem file_of_surface {content : Bytes} (isFile : found = some (file content)) :
    other = some (file content) := by
  rw [isFile] at same
  obtain ⟨entry, here, shows⟩ := Option.map_eq_some_iff.mp same.symm
  cases entry with
  | file otherContent =>
    cases shows
    exact here
  | link target => cases shows
  | directory children => cases shows

end Surface

/-! ## Putting an entry -/

/-- An entry lies where it was put, if a directory holds that place. -/
theorem get?_put_in_directory {tree : Entry} {parent : Location} {children : List (Name × Entry)}
    (here : tree.get? parent = some (.directory children)) (name : Name) (entry : Entry) :
    (tree.put (parent ++ [name]) entry).get? (parent ++ [name]) = some entry := by
  induction parent generalizing tree with
  | nil =>
    obtain rfl : tree = .directory children := by simpa using here
    rw [List.nil_append, put]
    split
    · simp [put]
    · simp
  | cons first parent ih =>
    cases tree with
    | directory others =>
      rw [get?_directory] at here
      obtain ⟨child, found, here⟩ := Option.bind_eq_some_iff.mp here
      rw [List.cons_append, put, found]
      simp [ih here]
    | file content => simp [get?] at here
    | link target => simp [get?] at here

/-- An entry lies where it was put in the place of another. -/
theorem get?_put_of_found {tree old : Entry} {location : Location} (found : tree.get? location = some old)
    (entry : Entry) : (tree.put location entry).get? location = some entry := by
  rcases List.eq_nil_or_concat location with rfl | ⟨parent, name, rfl⟩
  · simp [put]
  · rw [List.concat_eq_append] at found ⊢
    obtain ⟨children, here, -⟩ := exists_directory_of_get? found
    exact get?_put_in_directory here name entry

/-- Putting an entry where it lies already changes nothing. -/
theorem put_of_get? {tree entry : Entry} {location : Location} (here : tree.get? location = some entry) :
    tree.put location entry = tree := by
  induction location generalizing tree with
  | nil =>
    rw [get?_nil] at here
    rw [put, Option.some.inj here]
  | cons name rest ih =>
    cases tree with
    | file content => rfl
    | link target => rfl
    | directory children =>
      rw [get?_directory] at here
      obtain ⟨child, found, here⟩ := Option.bind_eq_some_iff.mp here
      rw [put, found]
      dsimp only
      rw [ih here, setChild_of_child? found]

/-- Putting an entry that has nothing below it, in the place of one that has nothing below it or of
none, leaves what shows of every other entry. -/
theorem surface_get?_put {tree entry : Entry} {target location : Location}
    (bare : ∀ rest, rest ≠ [] → tree.get? (target ++ rest) = none)
    (empty : ∀ rest, rest ≠ [] → entry.get? rest = none) (differs : location ≠ target) :
    ((tree.put target entry).get? location).map surface = (tree.get? location).map surface := by
  induction target generalizing tree location with
  | nil =>
    have nothing := bare location differs
    rw [List.nil_append] at nothing
    rw [put, empty location differs, nothing]
  | cons name target ih =>
    cases tree with
    | file content => rfl
    | link goal => rfl
    | directory children =>
      cases location with
      | nil => rw [put]; split <;> (try split) <;> rfl
      | cons first location =>
        rw [put]
        by_cases same : first = name
        · subst same
          cases found : child? first children with
          | some child =>
            -- The way goes on into this child, and the rest of it is not the rest of the target.
            have inner : ∀ rest, rest ≠ [] → child.get? (target ++ rest) = none := by
              intro rest more
              have nothing := bare rest more
              rwa [List.cons_append, get?_directory, found, Option.bind_some] at nothing
            rw [get?_directory, get?_directory, child?_setChild_same, found]
            apply ih inner
            intro equal
            exact differs (by rw [equal])
          | none =>
            dsimp only
            split
            case isTrue last =>
              subst last
              have more : location ≠ [] := fun equal => differs (by rw [equal])
              rw [get?_directory, get?_directory, child?_setChild_same, found, Option.bind_some,
                empty location more]
              rfl
            case isFalse => rfl
        · cases child? name children with
          | some child => simp only [get?_directory, child?_setChild_of_ne same]
          | none => dsimp only; split <;> simp only [get?_directory, child?_setChild_of_ne same]

/-! ## Sound trees -/

/-- The names that entries of a directory can have. -/
structure IsName (name : Name) : Prop where
  nonempty : name ≠ []
  noSlash : '/' ∉ name
  noNull : '\x00' ∉ name
  noDot : name ≠ ['.']
  noDots : name ≠ ['.', '.']

instance (name : Name) : Decidable (IsName name) :=
  decidable_of_iff (name ≠ [] ∧ '/' ∉ name ∧ '\x00' ∉ name ∧ name ≠ ['.'] ∧ name ≠ ['.', '.'])
    ⟨fun ⟨nonempty, noSlash, noNull, noDot, noDots⟩ => ⟨nonempty, noSlash, noNull, noDot, noDots⟩,
      fun valid => ⟨valid.nonempty, valid.noSlash, valid.noNull, valid.noDot, valid.noDots⟩⟩

/-- A tree as file systems have them: each entry of a directory has a name of its own. -/
inductive IsSound : Entry → Prop
  | file (content : Bytes) : IsSound (.file content)
  | link (target : Path) : IsSound (.link target)
  | directory {children : List (Name × Entry)} (unique : (children.map (·.1)).Nodup)
      (names : ∀ child ∈ children, IsName child.1) (sound : ∀ child ∈ children, IsSound child.2) :
      IsSound (.directory children)

/-- All names on the way to an entry of a sound tree are possible names, and what lies below the entry
is sound. -/
theorem IsSound.of_get? {tree entry : Entry} (sound : tree.IsSound) {location : Location}
    (here : tree.get? location = some entry) : entry.IsSound ∧ ∀ name ∈ location, IsName name := by
  induction location generalizing tree with
  | nil =>
    obtain rfl : tree = entry := by simpa using here
    exact ⟨sound, fun _ member => nomatch member⟩
  | cons name location ih =>
    cases sound with
    | file content => simp [get?] at here
    | link target => simp [get?] at here
    | directory unique names sound =>
      rw [get?_directory] at here
      obtain ⟨child, found, here⟩ := Option.bind_eq_some_iff.mp here
      have member := (child?_eq_some_iff unique).mp found
      obtain ⟨below, rest⟩ := ih (sound _ member) here
      exact ⟨below, List.forall_mem_cons.mpr ⟨names _ member, rest⟩⟩

/-- A sound tree is sound still with a sound entry put at possible names. -/
theorem IsSound.put {tree entry : Entry} (sound : tree.IsSound) (entrySound : entry.IsSound) {location : Location}
    (names : ∀ name ∈ location, IsName name) : (tree.put location entry).IsSound := by
  induction location generalizing tree with
  | nil => rwa [Entry.put]
  | cons name rest ih =>
    obtain ⟨valid, names⟩ := List.forall_mem_cons.mp names
    cases sound with
    | file content => exact .file content
    | link target => exact .link target
    | @directory children unique allNames sound =>
      have set {child : Entry} (childSound : child.IsSound) :
          (Entry.directory (setChild name child children)).IsSound := by
        apply IsSound.directory (nodup_setChild name child unique)
        · intro other member
          rcases mem_setChild member with rfl | old
          · exact valid
          · exact allNames other old
        · intro other member
          rcases mem_setChild member with rfl | old
          · exact childSound
          · exact sound other old
      rw [Entry.put]
      split
      case h_1 old found => exact set (ih (sound _ (mem_of_child? found)) names)
      case h_2 =>
        split
        · exact set entrySound
        · exact .directory unique allNames sound

mutual

/-- Whether a tree is sound can be found out by going through it. -/
instance decidableIsSound : (entry : Entry) → Decidable entry.IsSound
  | .file content => isTrue (.file content)
  | .link target => isTrue (.link target)
  | .directory children =>
    haveI := decidableSoundChildren children
    decidable_of_iff ((children.map (·.1)).Nodup ∧ ∀ child ∈ children, IsName child.1 ∧ child.2.IsSound) <| by
      constructor
      · rintro ⟨unique, sound⟩
        exact .directory unique (fun child member => (sound child member).1)
          fun child member => (sound child member).2
      · intro sound
        cases sound with
        | directory unique names sound =>
          exact ⟨unique, fun child member => ⟨names child member, sound child member⟩⟩

/-- The same for what a directory holds. -/
instance decidableSoundChildren : (children : List (Name × Entry)) →
    Decidable (∀ child ∈ children, IsName child.1 ∧ child.2.IsSound)
  | [] => isTrue fun _ member => nomatch member
  | (name, entry) :: rest =>
    haveI := decidableIsSound entry
    haveI := decidableSoundChildren rest
    decidable_of_iff ((IsName name ∧ entry.IsSound) ∧ ∀ child ∈ rest, IsName child.1 ∧ child.2.IsSound) <| by
      rw [List.forall_mem_cons]

end

/-! ## Trees without links -/

/-- A tree that holds no link and is none. -/
inductive IsLinkFree : Entry → Prop
  | file (content : Bytes) : IsLinkFree (.file content)
  | directory {children : List (Name × Entry)} (free : ∀ child ∈ children, IsLinkFree child.2) :
      IsLinkFree (.directory children)

mutual

/-- Whether a tree is free of links can be found out by going through it. -/
instance decidableIsLinkFree : (entry : Entry) → Decidable entry.IsLinkFree
  | .file content => isTrue (.file content)
  | .link target => isFalse fun free => nomatch free
  | .directory children =>
    haveI := decidableLinkFreeChildren children
    decidable_of_iff (∀ child ∈ children, child.2.IsLinkFree) <| by
      constructor
      · exact .directory
      · intro free
        cases free with
        | directory free => exact free

/-- The same for what a directory holds. -/
instance decidableLinkFreeChildren : (children : List (Name × Entry)) →
    Decidable (∀ child ∈ children, child.2.IsLinkFree)
  | [] => isTrue fun _ member => nomatch member
  | (_, entry) :: rest =>
    haveI := decidableIsLinkFree entry
    haveI := decidableLinkFreeChildren rest
    decidable_of_iff (entry.IsLinkFree ∧ ∀ child ∈ rest, child.2.IsLinkFree) <| by rw [List.forall_mem_cons]

end

theorem IsLinkFree.ne_link {entry : Entry} (free : entry.IsLinkFree) (target : Path) : entry ≠ .link target := by
  rintro rfl
  cases free

/-- A tree without links has none still with an entry put into it that has none. -/
theorem IsLinkFree.put {tree entry : Entry} (free : tree.IsLinkFree) (entryFree : entry.IsLinkFree)
    (location : Location) : (tree.put location entry).IsLinkFree := by
  induction location generalizing tree with
  | nil => rwa [Entry.put]
  | cons name rest ih =>
    cases free with
    | file content => exact .file content
    | @directory children free =>
      have set {child : Entry} (childFree : child.IsLinkFree) :
          (Entry.directory (setChild name child children)).IsLinkFree := by
        apply IsLinkFree.directory
        intro other member
        rcases mem_setChild member with rfl | old
        · exact childFree
        · exact free other old
      rw [Entry.put]
      split
      case h_1 old found => exact set (ih (free _ (mem_of_child? found)))
      case h_2 =>
        split
        · exact set entryFree
        · exact .directory free

/-- What lies in a tree without links is free of links. -/
theorem IsLinkFree.of_get? {tree entry : Entry} (free : tree.IsLinkFree) {location : Location}
    (here : tree.get? location = some entry) : entry.IsLinkFree := by
  induction location generalizing tree with
  | nil =>
    obtain rfl : tree = entry := by simpa using here
    exact free
  | cons name location ih =>
    cases free with
    | file content => simp [get?] at here
    | directory free =>
      rw [get?_directory] at here
      obtain ⟨child, found, here⟩ := Option.bind_eq_some_iff.mp here
      exact ih (free _ (mem_of_child? found)) here

end ImportAtlas.Entry

/-- A file system that holds one file. Paths begin in the directory that the file lies in. -/
def ImportAtlas.FileSystem.holding (location : Location) (content : Bytes) : FileSystem where
  tree := location.foldr (fun name entry => .directory [(name, entry)]) (.file content)
  workingDirectory := location.dropLast

/-- What lies below a location is found from what lies there. -/
theorem ImportAtlas.FileSystem.get?_append {fs : FileSystem} {base : Location} {entry : Entry}
    (here : fs.get? base = some entry) (more : Location) : fs.get? (base ++ more) = entry.get? more := by
  rw [get?, Entry.get?_append, show fs.tree.get? base = some entry from here, Option.bind_some]
