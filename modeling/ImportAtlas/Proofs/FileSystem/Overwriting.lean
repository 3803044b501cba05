import ImportAtlas.Proofs.FileSystem.Operations
import ImportAtlas.Proofs.FileSystem.Passage
import ImportAtlas.Proofs.FileSystem.Reading

/-! # What a written file changes

Following a path depends on the kinds of the entries on the way, and on nothing that files or directories hold.
So writing over a file changes nothing of what is seen by any path. A file with a new name can do so, but it
stands in no way that leads to a directory.
-/

namespace ImportAtlas

/-- The kind of the entry at a place, if there is one. -/
def Place.kind? : Place → Option Entry.Kind
  | .found _ entry => some entry.kind
  | .vacant .. => none

namespace FileSystem

variable {fs other after : FileSystem} {manner : Manner} {path : Path}

/-- File systems that have entries of the same kinds at the same locations. -/
structure IsLike (fs other : FileSystem) : Prop where
  workingDirectory : other.workingDirectory = fs.workingDirectory
  kinds (location : Location) : (fs.get? location).map Entry.kind = (other.get? location).map Entry.kind

namespace IsLike

variable (alike : fs.IsLike other)

include alike

theorem cases (location : Location) :
    (fs.get? location = none ∧ other.get? location = none) ∨
      (∃ content otherContent, fs.get? location = some (.file content) ∧
        other.get? location = some (.file otherContent)) ∨
      (∃ target, fs.get? location = some (.link target) ∧ other.get? location = some (.link target)) ∨
      (fs.HasDirectory location ∧ other.HasDirectory location) := by
  have kinds := alike.kinds location
  cases here : fs.get? location with
  | none =>
    rw [here] at kinds
    exact .inl ⟨rfl, Option.map_eq_none_iff.mp kinds.symm⟩
  | some entry =>
    rw [here] at kinds
    obtain ⟨otherEntry, there, kind⟩ := Option.map_eq_some_iff.mp kinds.symm
    cases entry with
    | file content =>
      cases otherEntry <;> cases kind
      exact .inr (.inl ⟨_, _, rfl, there⟩)
    | link target =>
      cases otherEntry <;> cases kind
      exact .inr (.inr (.inl ⟨_, rfl, there⟩))
    | directory children =>
      cases otherEntry <;> cases kind
      exact .inr (.inr (.inr ⟨⟨_, here⟩, ⟨_, there⟩⟩))

theorem followWith_kind? {jump otherJump : Location → List Step → Except Cause Place}
    (jumps : ∀ location steps, (jump location steps).map Place.kind? = (otherJump location steps).map Place.kind?)
    (location : Location) (steps : List Step) :
    (fs.followWith manner jump location steps).map Place.kind? =
      (other.followWith manner otherJump location steps).map Place.kind? := by
  induction steps generalizing location with
  | nil =>
    rw [followWith, followWith]
    rcases alike.cases location with
      ⟨here, there⟩ | ⟨_, _, here, there⟩ | ⟨_, here, there⟩ | ⟨⟨_, here⟩, ⟨_, there⟩⟩
    · rw [here, there]
    · rw [here, there]
      rfl
    · rw [here, there]
    · rw [here, there]
      rfl
  | cons step rest ih =>
    rcases alike.cases location with
      ⟨here, there⟩ | ⟨_, _, here, there⟩ | ⟨_, here, there⟩ | ⟨⟨_, here⟩, ⟨_, there⟩⟩
    · rw [followWith, followWith, here, there]
    · rw [followWith, followWith, here, there]
    · rw [followWith, followWith, here, there]
    · cases step with
      | name name =>
        rw [followWith_name here, followWith_name there]
        split
        · rfl
        split
        · rfl
        rcases alike.cases (location ++ [name]) with
          ⟨below, otherBelow⟩ | ⟨_, _, below, otherBelow⟩ | ⟨_, below, otherBelow⟩ | ⟨⟨_, below⟩, ⟨_, otherBelow⟩⟩
        · rw [below, otherBelow]
        · rw [below, otherBelow]
          exact ih (location ++ [name])
        · rw [below, otherBelow]
          dsimp only
          split
          · rfl
          · exact jumps _ _
        · rw [below, otherBelow]
          exact ih (location ++ [name])
      | _ =>
        rw [followWith, followWith, here, there]
        exact ih _

/-- Every path leads to entries of the same kind, or fails alike. -/
theorem resolve_kind? (manner : Manner) (path : Path) :
    (fs.resolve manner path).map Place.kind? = (other.resolve manner path).map Place.kind? := by
  have follow (links : Nat) : ∀ location steps, (fs.follow manner links location steps).map Place.kind? =
      (other.follow manner links location steps).map Place.kind? := by
    induction links with
    | zero => exact alike.followWith_kind? fun _ _ => rfl
    | succ links ih => exact alike.followWith_kind? ih
  have start : other.startOf path = fs.startOf path := by rw [startOf, startOf, alike.workingDirectory]
  rw [resolve, resolve, start]
  split
  · rfl
  split
  · rfl
  split
  · rfl
  exact follow _ _ _

theorem seen_eq (manner : Manner) (path : Path) : fs.seen manner path = other.seen manner path := by
  have shows (files : FileSystem) : files.seen manner path =
      ((files.resolve manner path).map Place.kind?).toOption.bind id := by
    rw [seen, entryAt]
    cases files.resolve manner path with
    | error cause => rfl
    | ok place => cases place <;> rfl
  rw [shows, shows, alike.resolve_kind?]

end IsLike

namespace IsWritten

variable {target root : Location} {content : Bytes} (written : IsWritten fs after target content)

include written

/-- No directory is made and none goes away. -/
theorem hasDirectory_iff (location : Location) : after.HasDirectory location ↔ fs.HasDirectory location := by
  by_cases same : location = target
  · subst same
    apply iff_of_false
    · rintro ⟨children, here⟩
      cases here.symm.trans written.here
    · rintro ⟨children, here⟩
      rcases written.before with absent | ⟨old, found⟩
      · cases here.symm.trans absent
      · cases here.symm.trans found
  · exact Entry.directory_iff_of_surface (written.elsewhere location same)

/-- Where a file is written over, all entries keep their kinds. -/
theorem isLike {old : Bytes} (there : fs.get? target = some (.file old)) : fs.IsLike after where
  workingDirectory := written.workingDirectory
  kinds location := by
    by_cases same : location = target
    · subst same
      rw [there, written.here]
      rfl
    · exact (Entry.map_kind_of_surface (written.elsewhere location same)).symm

theorem startOf_eq (path : Path) : after.startOf path = fs.startOf path := by
  rw [startOf, startOf, written.workingDirectory]

/-- A path that led to a directory still does. -/
theorem resolve_directory (free : fs.tree.IsLinkFree) (makesNothing : manner ≠ .create)
    {children : List (Name × Entry)}
    (resolved : fs.resolve manner path = .ok (.found root (.directory children))) :
    ∃ children, after.resolve manner path = .ok (.found root (.directory children)) := by
  have passes := (passes_of_resolve free resolved).mono fun _ => (written.hasDirectory_iff _).mpr
  rw [← written.startOf_eq] at passes
  exact passes.resolve_eq (accepts_of_resolve resolved) makesNothing (List.append_nil _).symm (.inl rfl)

theorem locate_directory (free : fs.tree.IsLinkFree) (located : fs.locate path = .ok root)
    (here : fs.HasDirectory root) : after.locate path = .ok root := by
  obtain ⟨children, directory⟩ := here
  obtain ⟨later, resolved⟩ := written.resolve_directory free (by decide) (resolve_of_locate located directory)
  rw [locate, resolved]

end IsWritten

end FileSystem

end ImportAtlas
