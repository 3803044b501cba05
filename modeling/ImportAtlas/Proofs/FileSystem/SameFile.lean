import ImportAtlas.Proofs.FileSystem.Kept
import ImportAtlas.Proofs.FileSystem.Operations
import ImportAtlas.Proofs.FileSystem.Passage
import ImportAtlas.Proofs.Path.Extension

/-! # Two paths to one file

Writing a file shows at every path that leads to it, and at no other path that led to a file before. A path and the
same path with another extension lead to different files unless they are the same path or one of them ends in a
link.
-/

namespace ImportAtlas.FileSystem

variable {fs after : FileSystem} {path other : Path} {location : Location} {old content : Bytes}

/-- Whether two paths lead to one file. -/
def SameFile (fs : FileSystem) (path other : Path) : Prop :=
  ∃ location content, fs.resolve .follow path = .ok (.found location (.file content)) ∧
    fs.resolve .follow other = .ok (.found location (.file content))

/-- After a file was written, a path that led to a file leads to it still. It is as it was unless it is the one
that was written. -/
theorem readBytes_of_other_write (resolved : fs.resolve .follow path = .ok (.found location (.file old)))
    (success : fs.writeFile other content = .ok after) :
    after.readBytes path = .ok old ∨ after.SameFile path other ∧ after.readBytes path = .ok content := by
  obtain ⟨place, target, resolvedOther, there, written⟩ := isWritten_of_writeFile success
  have here : fs.get? location = some (.file old) := isIn_of_resolve resolved
  have leads {bytes : Bytes} (found : after.get? location = some (.file bytes)) :
      after.resolve .follow path = .ok (.found location (.file bytes)) :=
    written.grows.resolve (fun goal => by simp) (by decide) (fun kept => by cases kept) resolved found
  by_cases same : location = target
  · subst same
    have now := leads written.here
    refine .inr ⟨⟨location, content, now, written.resolve resolvedOther there⟩, ?_⟩
    rw [readBytes, entryAt, now]
  · left
    have kept := Entry.file_of_surface (written.elsewhere location same).symm here
    rw [readBytes, entryAt, leads kept]

/-- The last step of a path to a file is a name. Paths that name files themselves, and ask for the same steps
before their last ones, lead to these names in the same directory. -/
theorem exists_holder_of_file (fs : FileSystem) (manner : Manner) (start : Location) (steps : List Step) :
    ∃ holder, ∀ path step location content, fs.startOf path = start → path.steps = steps ++ [step] →
      fs.resolve manner path = .ok (.found location (.file content)) →
        ∃ name, step = .name name ∧ (manner = .keep → location = holder ++ [name]) := by
  obtain ⟨holder, leads⟩ := fs.exists_holder manner start steps
  refine ⟨holder, ?_⟩
  intro path step location content starts asks resolved
  rcases leads path step location _ starts asks resolved with ⟨children, isDirectory⟩ | isName
  · cases isDirectory
  · exact isName

theorem exists_steps_of_file {manner : Manner}
    (resolved : fs.resolve manner path = .ok (.found location (.file content))) :
    ∃ steps name, path.steps = steps ++ [.name name] := by
  obtain ⟨steps, last, asks⟩ := (List.eq_nil_or_concat path.steps).resolve_left
    (steps_ne_nil (accepts_of_resolve resolved).nonempty)
  rw [List.concat_eq_append] at asks
  obtain ⟨holder, leads⟩ := fs.exists_holder_of_file manner (fs.startOf path) steps
  obtain ⟨name, rfl, -⟩ := leads path last location content rfl asks resolved
  exact ⟨steps, name, asks⟩

/-- A path and the same path with another extension that name files themselves lead to one file just if they are
the same path. -/
theorem sameFile_withExtension_iff {extension : Name} (noSlash : '/' ∉ extension)
    (plain : fs.isPlainFile path = true) (otherPlain : fs.isPlainFile (path.withExtension extension) = true) :
    fs.SameFile path (path.withExtension extension) ↔ path.withExtension extension = path := by
  obtain ⟨location, content, kept, followed⟩ := exists_resolve_of_isPlainFile plain
  obtain ⟨otherLocation, otherContent, otherKept, otherFollowed⟩ := exists_resolve_of_isPlainFile otherPlain
  constructor
  · rintro ⟨place, bytes, leads, otherLeads⟩
    cases followed.symm.trans leads
    cases otherFollowed.symm.trans otherLeads
    obtain ⟨steps, name, asks⟩ := exists_steps_of_file kept
    obtain ⟨sameRoot, step, otherAsks, same⟩ := Path.exists_step_withExtension asks noSlash
    have starts : fs.startOf (path.withExtension extension) = fs.startOf path := by
      rw [startOf, startOf, sameRoot]
    obtain ⟨holder, leads⟩ := fs.exists_holder_of_file .keep (fs.startOf path) steps
    obtain ⟨_, isName, here⟩ := leads path _ _ _ rfl asks kept
    obtain ⟨other, rfl, there⟩ := leads _ step _ _ starts otherAsks otherKept
    cases isName
    have names := List.append_cancel_left ((here rfl).symm.trans (there rfl))
    exact same (congrArg Step.name (List.singleton_inj.mp names).symm)
  · intro same
    rw [same]
    exact ⟨location, content, followed, followed⟩

end ImportAtlas.FileSystem
