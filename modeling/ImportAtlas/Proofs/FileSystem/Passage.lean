import ImportAtlas.FileSystem.Operations
import ImportAtlas.Proofs.FileSystem.Resolve

/-! # Ways through directories

Steps that lead through directories to a directory are followed to it, whatever else the file system holds. So
such a way stays open as long as none of its directories goes away, and a path that goes on from there with one
name depends on nothing but what has this name there. Where there are no links, every path that leads to a
directory is such a way.
-/

namespace ImportAtlas

/-- Where a step leads if it meets no link. -/
def Step.next (location : Location) : Step → Location
  | .name added => location ++ [added]
  | .here => location
  | .up => location.dropLast
  | .slash => location

namespace FileSystem

variable {fs other : FileSystem} {manner : Manner} {jump : Location → List Step → Except Cause Place}
  {location goal : Location} {steps rest : List Step} {path : Path}

/-- Whether a directory lies at a location. -/
def HasDirectory (fs : FileSystem) (location : Location) : Prop :=
  ∃ children, fs.get? location = some (.directory children)

/-! ## Ways -/

/-- Steps from a location that lead through directories to a directory, past no name that is too long. -/
inductive Passes (fs : FileSystem) (manner : Manner) : Location → List Step → Location → Prop
  | nil {location : Location} (here : fs.HasDirectory location) : Passes fs manner location [] location
  | cons {location goal : Location} {step : Step} {rest : List Step} (here : fs.HasDirectory location)
      (short : ∀ name, step = .name name → isTooLong manner location name = false)
      (later : Passes fs manner (step.next location) rest goal) : Passes fs manner location (step :: rest) goal

namespace Passes

theorem start (passes : fs.Passes manner location steps goal) : fs.HasDirectory location := by
  cases passes with
  | nil here => exact here
  | cons here => exact here

theorem finish (passes : fs.Passes manner location steps goal) : fs.HasDirectory goal := by
  induction passes with
  | nil here => exact here
  | cons _ _ _ ih => exact ih

theorem of_append (passes : fs.Passes manner location (steps ++ rest) goal) :
    ∃ middle, fs.Passes manner location steps middle ∧ fs.Passes manner middle rest goal := by
  induction steps generalizing location with
  | nil => exact ⟨location, .nil passes.start, passes⟩
  | cons step steps ih =>
    cases passes with
    | cons here short later =>
      obtain ⟨middle, first, second⟩ := ih later
      exact ⟨middle, .cons here short first, second⟩

/-- Steps that stay where they are lead nowhere else. -/
theorem eq_of_stays (passes : fs.Passes manner location steps goal)
    (stays : ∀ step ∈ steps, ∀ location, step.next location = location) : location = goal := by
  induction passes with
  | nil => rfl
  | cons _ _ _ ih =>
    obtain ⟨here, later⟩ := List.forall_mem_cons.mp stays
    rw [← ih later, here]

/-- A way stays open as long as no directory goes away. -/
theorem mono (passes : fs.Passes manner location steps goal)
    (kept : ∀ location, fs.HasDirectory location → other.HasDirectory location) :
    other.Passes manner location steps goal := by
  induction passes with
  | nil here => exact .nil (kept _ here)
  | cons here short _ ih => exact .cons (kept _ here) short ih

/-- A path that can be followed one entry at a time can be handed over as a whole. -/
theorem of_locate (passes : fs.Passes .locate location steps goal) : fs.Passes manner location steps goal := by
  induction passes with
  | nil here => exact .nil here
  | cons here short _ ih =>
    refine .cons here ?_ ih
    intro name asks
    obtain ⟨shortName, shortPath⟩ := Bool.or_eq_false_iff.mp (short name asks)
    rw [isTooLong, shortName, Bool.false_or]
    cases manner <;> first | rfl | exact shortPath

/-- The steps of a way lead to its goal, and whatever comes after them is followed from there. -/
theorem followWith_append (passes : fs.Passes manner location steps goal)
    (more : manner = .create → rest ≠ [] ∧ rest ≠ [.slash]) :
    fs.followWith manner jump location (steps ++ rest) = fs.followWith manner jump goal rest := by
  induction passes with
  | nil => rfl
  | @cons location _ step steps here short later ih =>
    obtain ⟨children, directory⟩ := here
    rw [List.cons_append]
    cases step with
    | name name =>
      -- Where a file is to be written, its name comes with the rest.
      have notLast : ¬(manner = .create ∧ steps ++ rest = [.slash]) := by
        rintro ⟨create, last⟩
        obtain ⟨someStep, noSlash⟩ := more create
        rcases List.append_eq_singleton_iff.mp last with ⟨-, slash⟩ | ⟨-, none⟩
        · exact noSlash slash
        · exact someStep none
      obtain ⟨below, next⟩ := later.start
      have next : fs.get? (location ++ [name]) = some (.directory below) := next
      rw [followWith_name directory, if_neg notLast, if_neg (by simp [short name rfl]), next]
      exact ih
    | _ =>
      rw [followWith, directory]
      exact ih

end Passes

/-- Where there are no links, steps that lead to a directory lead through directories. -/
theorem passes_of_followWith (free : fs.tree.IsLinkFree) {children : List (Name × Entry)}
    (success : fs.followWith manner jump location steps = .ok (.found goal (.directory children))) :
    fs.Passes manner location steps goal := by
  induction steps generalizing location with
  | nil =>
    obtain ⟨_, here, ⟨⟩⟩ := followWith_nil_eq_ok_iff.mp success
    exact .nil ⟨children, here⟩
  | cons step rest ih =>
    obtain ⟨siblings, here⟩ := exists_directory_of_followWith success
    cases step with
    | name name =>
      obtain ⟨-, short, leads⟩ := (followWith_name_eq_ok_iff here).mp success
      cases leads with
      | jumped link => exact absurd rfl ((free.of_get? link).ne_link _)
      | passed _ _ success => exact .cons ⟨siblings, here⟩ (by rintro _ ⟨rfl⟩; exact short) (ih success)
    | _ =>
      rw [followWith, here] at success
      exact .cons ⟨siblings, here⟩ (by simp) (ih success)

/-! ## Paths along a way -/

/-- A directory is located by following the path to it. -/
theorem resolve_of_locate {children : List (Name × Entry)} (located : fs.locate path = .ok goal)
    (here : fs.get? goal = some (.directory children)) :
    fs.resolve .locate path = .ok (.found goal (.directory children)) := by
  rw [locate] at located
  split at located
  case h_1 location entry resolved =>
    cases located
    cases here.symm.trans (isIn_of_resolve resolved)
    exact resolved
  case h_2 => cases located
  case h_3 => cases located

/-- Where there are no links, a path to a directory is a way. -/
theorem passes_of_resolve (free : fs.tree.IsLinkFree) {children : List (Name × Entry)}
    (success : fs.resolve manner path = .ok (.found goal (.directory children))) :
    fs.Passes manner (fs.startOf path) path.steps goal := by
  obtain ⟨jump, followed⟩ := fs.exists_resolve_eq (accepts_of_resolve success)
  exact passes_of_followWith free (followed.symm.trans success)

namespace Passes

/-- A path along a way leads to its goal, with or without a slash at the end. -/
theorem resolve_eq (passes : fs.Passes manner (fs.startOf path) steps goal) (accepted : manner.Accepts path)
    (makesNothing : manner ≠ .create) (asks : path.steps = steps ++ rest) (stays : rest = [] ∨ rest = [.slash]) :
    ∃ children, fs.resolve manner path = .ok (.found goal (.directory children)) := by
  obtain ⟨jump, followed⟩ := fs.exists_resolve_eq accepted
  obtain ⟨children, here⟩ := passes.finish
  refine ⟨children, ?_⟩
  rw [followed, asks, passes.followWith_append fun create => absurd create makesNothing]
  rcases stays with rfl | rfl
  · rw [followWith, here]
  · rw [followWith, here]
    dsimp only
    rw [followWith, here]

/-- A path that goes on from a way with one name leads to what has that name there. -/
theorem resolve_name (passes : fs.Passes manner (fs.startOf path) steps goal) (accepted : manner.Accepts path)
    {name : Name} (asks : path.steps = steps ++ [.name name])
    (noLink : ∀ target, fs.get? (goal ++ [name]) ≠ some (.link target)) :
    fs.resolve manner path =
      if isTooLong manner goal name then .error .nameTooLong
      else
        match fs.get? (goal ++ [name]) with
        | some entry => .ok (.found (goal ++ [name]) entry)
        | none => .ok (.vacant goal name) := by
  obtain ⟨jump, followed⟩ := fs.exists_resolve_eq accepted
  obtain ⟨children, here⟩ := passes.finish
  rw [followed, asks, passes.followWith_append fun _ => by simp, followWith_name here, if_neg (by simp)]
  split
  · rfl
  cases found : fs.get? (goal ++ [name]) with
  | none => simp
  | some entry =>
    cases entry with
    | link target => exact absurd found (noLink target)
    | file content => rw [followWith, found]
    | directory below => rw [followWith, found]

end Passes

end FileSystem

end ImportAtlas
