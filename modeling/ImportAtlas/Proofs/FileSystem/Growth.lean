import ImportAtlas.Proofs.FileSystem.Resolve

/-! # Growing file systems

A file system grows if entries are added, files are written over, and nothing goes away or becomes something
else. All ways that were open stay open, and links still stand for the same paths. So a path that led to an entry
leads there still, and one that led to a free name leads to what has got this name.
-/

namespace ImportAtlas

/-- Where an entry lies that a path leads to, or would lie that had the free name. -/
def Place.location : Place → Location
  | .found location _ => location
  | .vacant parent name => parent ++ [name]

namespace FileSystem

/-- Whether every entry is still there and of the same kind. -/
structure Grows (fs after : FileSystem) : Prop where
  workingDirectory : after.workingDirectory = fs.workingDirectory
  kinds {location : Location} {entry : Entry} (here : fs.get? location = some entry) :
    ∃ later, after.get? location = some later ∧ later.kind = entry.kind

namespace Grows

theorem refl (fs : FileSystem) : fs.Grows fs :=
  ⟨rfl, fun here => ⟨_, here, rfl⟩⟩

variable {fs after : FileSystem}

/-- A file system grows if what showed of its entries shows still. -/
theorem of_surface (workingDirectory : after.workingDirectory = fs.workingDirectory)
    (kept : ∀ {location entry}, fs.get? location = some entry →
      (after.get? location).map Entry.surface = some entry.surface) : fs.Grows after where
  workingDirectory := workingDirectory
  kinds here := by
    obtain ⟨later, found, same⟩ := Option.map_eq_some_iff.mp (kept here)
    refine ⟨later, found, ?_⟩
    rw [← Entry.kind_surface, same, Entry.kind_surface]

variable (grows : fs.Grows after) {location : Location}

include grows

theorem exists_directory {children : List (Name × Entry)} (here : fs.get? location = some (.directory children)) :
    ∃ children, after.get? location = some (.directory children) := by
  obtain ⟨entry, found, kind⟩ := grows.kinds here
  obtain ⟨children, rfl⟩ := Entry.kind_eq_directory_iff.mp kind
  exact ⟨children, found⟩

theorem link {goal : Path} (here : fs.get? location = some (.link goal)) :
    after.get? location = some (.link goal) := by
  obtain ⟨entry, found, kind⟩ := grows.kinds here
  cases entry with
  | link other => cases kind; exact found
  | file content => cases kind
  | directory children => cases kind

/-- What is no link has not become one. -/
theorem exists_no_link {entry : Entry} (here : fs.get? location = some entry) (noLink : ∀ goal, entry ≠ .link goal) :
    ∃ later, after.get? location = some later ∧ ∀ goal, later ≠ .link goal := by
  obtain ⟨later, found, kind⟩ := grows.kinds here
  refine ⟨later, found, ?_⟩
  rintro goal rfl
  cases entry with
  | link other => exact noLink other rfl
  | file content => cases kind
  | directory children => cases kind

variable {manner : Manner} {place : Place} {entry : Entry} (noLink : ∀ goal, entry ≠ .link goal)
  (handed : manner ≠ .locate)
  (isDirectory : manner = .keep → fs.get? place.location = none → entry.kind = .directory)

include noLink handed isDirectory

theorem followWith {jump jumpAfter : Location → List Step → Except Cause Place}
    (jumps : ∀ location steps, jump location steps = .ok place →
      jumpAfter location steps = .ok (.found place.location entry))
    {steps : List Step} (success : fs.followWith manner jump location steps = .ok place)
    (there : after.get? place.location = some entry) :
    after.followWith .follow jumpAfter location steps = .ok (.found place.location entry) := by
  induction steps generalizing location with
  | nil =>
    obtain ⟨_, -, rfl⟩ := followWith_nil_eq_ok_iff.mp success
    exact followWith_nil_eq_ok_iff.mpr ⟨entry, there, rfl⟩
  | cons step rest ih =>
    obtain ⟨children, here⟩ := exists_directory_of_followWith success
    obtain ⟨later, hereAfter⟩ := grows.exists_directory here
    cases step with
    | name name =>
      obtain ⟨-, short, leads⟩ := (followWith_name_eq_ok_iff here).mp success
      have shortAfter : isTooLong .follow location name = false := by simpa [isTooLong, handed] using short
      apply (followWith_name_eq_ok_iff hereAfter).mpr ⟨by simp, shortAfter, _⟩
      cases leads with
      | vacant absent last =>
        have isLast : rest = [] ∨ rest = [.slash] ∧ entry.kind = .directory :=
          last.imp_right fun ⟨keeps, slash⟩ => ⟨slash, isDirectory keeps absent⟩
        exact .passed there noLink (followWith_last there isLast)
      | kept link =>
        cases (grows.link link).symm.trans there
        exact absurd rfl (noLink _)
      | jumped link _ success => exact .jumped (grows.link link) (by simp) (jumps _ _ success)
      | passed found noLink success =>
        obtain ⟨entryAfter, foundAfter, noLinkAfter⟩ := grows.exists_no_link found noLink
        exact .passed foundAfter noLinkAfter (ih success)
    | _ =>
      rw [FileSystem.followWith, here] at success
      rw [FileSystem.followWith, hereAfter]
      exact ih success

/-- A path leads to where it has led. -/
theorem resolve {path : Path} (success : fs.resolve manner path = .ok place)
    (there : after.get? place.location = some entry) :
    after.resolve .follow path = .ok (.found place.location entry) := by
  have follow (links : Nat) : ∀ location steps, fs.follow manner links location steps = .ok place →
      after.follow .follow links location steps = .ok (.found place.location entry) := by
    induction links with
    | zero =>
      intro location steps success
      refine grows.followWith noLink handed isDirectory ?_ success there
      intro _ _ failed
      cases failed
    | succ links ih =>
      intro location steps success
      exact grows.followWith noLink handed isDirectory ih success there
  have start : after.startOf path = fs.startOf path := by rw [startOf, startOf, grows.workingDirectory]
  obtain ⟨accepted, followed⟩ := resolve_eq_ok_iff.mp success
  apply resolve_eq_ok_iff.mpr ⟨⟨accepted.noNull, accepted.nonempty, fun _ => accepted.short handed⟩, _⟩
  rw [start]
  exact follow _ _ _ followed

end Grows

end FileSystem

end ImportAtlas
