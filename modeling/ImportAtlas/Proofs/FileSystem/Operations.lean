import ImportAtlas.FileSystem.Operations
import ImportAtlas.Proofs.FileSystem.Growth
import ImportAtlas.Proofs.Text.Utf8

/-! # What was written is read back

A file is written where its path leads, which is where the path leads afterwards too: writing changes
no directory and no link on the way. The only difference is that a name which was free is now that
of the file.
-/

namespace ImportAtlas.FileSystem

variable {fs after : FileSystem} {target : Location} {content : Bytes} {path : Path}

/-- Where a file is written that a path leads to: the place of an old file or a free name. -/
inductive WrittenAt : Place → Location → Prop
  | old (location : Location) (before : Bytes) : WrittenAt (.found location (.file before)) location
  | new (parent : Location) (name : Name) : WrittenAt (.vacant parent name) (parent ++ [name])

theorem WrittenAt.location_eq {place : Place} (there : WrittenAt place target) : place.location = target := by
  cases there <;> rfl

/-- A file system in which a file was written, and the one before. -/
structure IsWritten (fs after : FileSystem) (target : Location) (content : Bytes) : Prop where
  workingDirectory : after.workingDirectory = fs.workingDirectory
  before : fs.get? target = none ∨ ∃ old, fs.get? target = some (.file old)
  here : after.get? target = some (.file content)
  elsewhere (location : Location) (differs : location ≠ target) :
    (after.get? location).map Entry.surface = (fs.get? location).map Entry.surface

namespace IsWritten

variable (written : IsWritten fs after target content)

include written

/-- Nothing goes away where a file is written, and nothing but a file is written over. -/
theorem grows : fs.Grows after where
  workingDirectory := written.workingDirectory
  kinds {location entry} here := by
    by_cases same : location = target
    · subst same
      rcases written.before with absent | ⟨old, found⟩
      · cases here.symm.trans absent
      · cases here.symm.trans found
        exact ⟨_, written.here, rfl⟩
    · have kinds := Entry.map_kind_of_surface (written.elsewhere location same)
      rw [here] at kinds
      exact Option.map_eq_some_iff.mp kinds

/-- A path that led to where the file was written leads to that file. -/
theorem resolve {place : Place} (success : fs.resolve .create path = .ok place)
    (there : WrittenAt place target) :
    after.resolve .follow path = .ok (.found target (.file content)) := by
  obtain rfl := there.location_eq
  exact written.grows.resolve (fun goal => by simp) (by decide) (fun kept => by cases kept) success written.here

end IsWritten

/-- What shows elsewhere stays where an entry without anything below it is put, in the place of a file or none. -/
theorem surface_get?_put {entry : Entry} (empty : ∀ rest, rest ≠ [] → entry.get? rest = none)
    (before : fs.get? target = none ∨ ∃ old, fs.get? target = some (.file old)) {location : Location}
    (differs : location ≠ target) :
    ((fs.put target entry).get? location).map Entry.surface = (fs.get? location).map Entry.surface := by
  apply Entry.surface_get?_put _ empty differs
  intro rest more
  rw [Entry.get?_append]
  rcases before with absent | ⟨old, found⟩
  · rw [show fs.tree.get? target = none from absent, Option.bind_none]
  · rw [show fs.tree.get? target = some (.file old) from found, Option.bind_some, Entry.get?_file old more]

/-- Putting a file where none or another one lies is writing it. -/
theorem isWritten_put (before : fs.get? target = none ∨ ∃ old, fs.get? target = some (.file old))
    (here : (fs.put target (.file content)).get? target = some (.file content)) :
    IsWritten fs (fs.put target (.file content)) target content where
  workingDirectory := rfl
  before := before
  here := here
  elsewhere _ differs := surface_get?_put (fun _ => Entry.get?_file content) before differs

/-- A file is written where its path leads. -/
theorem isWritten_of_writeFile (success : fs.writeFile path content = .ok after) :
    ∃ place target, fs.resolve .create path = .ok place ∧ WrittenAt place target ∧
      IsWritten fs after target content := by
  unfold writeFile at success
  split at success
  case h_1 location old resolved =>
    cases success
    have found : fs.get? location = some (.file old) := isIn_of_resolve resolved
    exact ⟨_, location, resolved, .old location old,
      isWritten_put (.inr ⟨old, found⟩) (Entry.get?_put_of_found found _)⟩
  case h_4 parent name resolved =>
    cases success
    obtain ⟨children, here, free⟩ : Place.IsIn fs (.vacant parent name) := isIn_of_resolve resolved
    exact ⟨_, parent ++ [name], resolved, .new parent name,
      isWritten_put (.inl ((Entry.get?_child here name).trans free)) (Entry.get?_put_in_directory here name _)⟩
  all_goals cases success

/-- A file that was written is read at the same path with what was written. -/
theorem readBytes_of_writeFile (success : fs.writeFile path content = .ok after) :
    after.readBytes path = .ok content := by
  obtain ⟨place, target, resolved, there, written⟩ := isWritten_of_writeFile success
  rw [readBytes, entryAt, written.resolve resolved there]

/-- A file that holds a text is read as this text. -/
theorem readText_of_encoded {text : List Char} (stored : fs.readBytes path = .ok (Utf8.encode text)) :
    fs.readText path = .ok text := by
  rw [readText, stored]
  dsimp only
  rw [Utf8.decode?_encode]

theorem pathExists_of_readBytes (stored : fs.readBytes path = .ok content) : fs.pathExists path = true := by
  rw [readBytes] at stored
  rw [pathExists]
  cases found : fs.entryAt .follow path with
  | ok entry => rfl
  | error cause =>
    rw [found] at stored
    cases stored

end ImportAtlas.FileSystem
