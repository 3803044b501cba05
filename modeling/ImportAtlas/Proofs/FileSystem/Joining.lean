import ImportAtlas.Proofs.FileSystem.Operations
import ImportAtlas.Proofs.FileSystem.Passage
import ImportAtlas.Proofs.FileSystem.Reading
import ImportAtlas.Proofs.FileSystem.Steps

/-! # What a name leads to in a directory

Where there are no links, a path to a directory that is joined with a name leads to what has this name in the
directory, however the path is spelled. The parent of such a path leads to the directory itself, so that it need
not be made.
-/

namespace ImportAtlas.FileSystem

variable {fs other after : FileSystem} {manner : Manner} {root path : Path} {holder : Location} {name : Name}

theorem startOf_of_isAbsolute (fs : FileSystem) (same : path.isAbsolute = root.isAbsolute) :
    fs.startOf path = fs.startOf root := by
  rw [startOf, startOf, same]

/-- Where there are no links, a path that locates a directory is a way to it, whether it ends in a slash or not. -/
theorem passes_of_locate (free : fs.tree.IsLinkFree) (located : fs.locate root = .ok holder)
    (here : fs.HasDirectory holder) : fs.Passes .locate (fs.startOf root) root.innerSteps holder := by
  obtain ⟨children, directory⟩ := here
  obtain ⟨middle, inner, last⟩ := (passes_of_resolve free (resolve_of_locate located directory)).of_append
  have stays : middle = holder := by
    apply last.eq_of_stays
    intro step member location
    split at member
    · rw [List.mem_singleton.mp member]
      rfl
    · cases member
  rwa [stays] at inner

section Join

variable (passes : fs.Passes .locate (fs.startOf root) root.innerSteps holder) (plain : Path.IsPlain name)

include passes plain

/-- A path that is joined with a name leads to what has that name in the directory. -/
theorem Passes.resolve_join (accepted : manner.Accepts (root.join ⟨name⟩))
    (noLink : ∀ target, fs.get? (holder ++ [name]) ≠ some (.link target)) :
    fs.resolve manner (root.join ⟨name⟩) =
      if isTooLong manner holder name then .error .nameTooLong
      else
        match fs.get? (holder ++ [name]) with
        | some entry => .ok (.found (holder ++ [name]) entry)
        | none => .ok (.vacant holder name) := by
  have start := fs.startOf_of_isAbsolute (Path.isAbsolute_join (Path.isAbsolute_of_noSlash plain.noSlash) root)
  rw [← start] at passes
  exact passes.of_locate.resolve_name accepted (Path.steps_join plain root) noLink

theorem Passes.entryAt_join (accepted : manner.Accepts (root.join ⟨name⟩)) (free : fs.tree.IsLinkFree) :
    fs.entryAt manner (root.join ⟨name⟩) =
      if isTooLong manner holder name then .error .nameTooLong
      else
        match fs.get? (holder ++ [name]) with
        | some entry => .ok entry
        | none => .error .notFound := by
  rw [entryAt, passes.resolve_join plain accepted fun target link => (free.of_get? link).ne_link target rfl]
  cases isTooLong manner holder name with
  | true => rfl
  | false => cases fs.get? (holder ++ [name]) <;> rfl

/-- In two file systems, the same shows at such a path if the same shows at the place of the name. -/
theorem Passes.entryAt_join_congr (otherPasses : other.Passes .locate (other.startOf root) root.innerSteps holder)
    (free : fs.tree.IsLinkFree) (otherFree : other.tree.IsLinkFree)
    (same : (fs.get? (holder ++ [name])).map Entry.surface = (other.get? (holder ++ [name])).map Entry.surface) :
    (fs.entryAt manner (root.join ⟨name⟩)).map Entry.surface =
      (other.entryAt manner (root.join ⟨name⟩)).map Entry.surface := by
  by_cases accepted : manner.Accepts (root.join ⟨name⟩)
  · rw [passes.entryAt_join plain accepted free, otherPasses.entryAt_join plain accepted otherFree]
    cases isTooLong manner holder name with
    | true => rfl
    | false =>
      cases here : fs.get? (holder ++ [name]) <;> cases there : other.get? (holder ++ [name]) <;>
        rw [here, there] at same
      · cases same
      · cases same
      · exact congrArg Except.ok (Option.some.inj same)
  · obtain ⟨cause, failed⟩ := resolve_of_not_accepts accepted
    rw [entryAt, entryAt, failed, failed]

/-- A file can be written at such a path unless a directory has the name, or the path or the name is too long. -/
theorem Passes.writeFile_join_eq_ok_iff (free : fs.tree.IsLinkFree) {content : Bytes} :
    fs.writeFile (root.join ⟨name⟩) content = .ok after ↔
      Manner.create.Accepts (root.join ⟨name⟩) ∧ isTooLong .create holder name = false ∧
        ¬fs.HasDirectory (holder ++ [name]) ∧ fs.put (holder ++ [name]) (.file content) = after := by
  have noLink (target : Path) : fs.get? (holder ++ [name]) ≠ some (.link target) :=
    fun link => (free.of_get? link).ne_link target rfl
  by_cases accepted : Manner.create.Accepts (root.join ⟨name⟩)
  · rw [writeFile, passes.resolve_join plain accepted noLink, HasDirectory]
    cases isTooLong .create holder name with
    | true => simp
    | false =>
      cases here : fs.get? (holder ++ [name]) with
      | none => simp [accepted]
      | some entry =>
        cases entry with
        | file old => simp [accepted]
        | directory children => simp
        | link target => exact absurd here (noLink target)
  · refine iff_of_false ?_ fun all => accepted all.1
    obtain ⟨cause, failed⟩ := resolve_of_not_accepts accepted
    rw [writeFile, failed]
    exact fun success => nomatch success

end Join

section Surface

variable (same : (fs.entryAt .follow path).map Entry.surface = (other.entryAt .follow path).map Entry.surface)

include same

theorem pathExists_of_surface : fs.pathExists path = other.pathExists path := by
  have tells (files : FileSystem) :
      files.pathExists path = ((files.entryAt .follow path).map Entry.surface).isOk := by
    rw [pathExists]
    cases files.entryAt .follow path <;> rfl
  rw [tells, tells, same]

theorem readBytes_of_surface : fs.readBytes path = other.readBytes path := by
  have read (files : FileSystem) : files.readBytes path =
      ((files.entryAt .follow path).map Entry.surface).bind fun shown =>
        match shown with
        | .file content => .ok content
        | .directory _ => .error .isDirectory
        | .link _ => .error .tooManyLinks := by
    rw [readBytes]
    cases files.entryAt .follow path with
    | error cause => rfl
    | ok entry => cases entry <;> rfl
  rw [read, read, same]

end Surface

/-! ## Making directories that are there -/

/-- Making a directory that is there makes nothing. -/
theorem makeDirectories_of_resolve {children others : List (Name × Entry)}
    (kept : fs.resolve .keep path = .ok (.found holder (.directory children)))
    (followed : fs.resolve .follow path = .ok (.found holder (.directory others))) :
    fs.makeDirectories path = (.ok (), fs) := by
  have made : fs.makeDirectory path = .error .alreadyExists := by rw [makeDirectory, kept]
  have leads : fs.leadsToDirectory path = true := by
    rw [leadsToDirectory, entryAt, followed]
    rfl
  have nonempty := (accepts_of_resolve kept).nonempty
  have chain : ∃ outer, path.ancestors = path :: outer := by
    rw [Path.ancestors]
    cases path.chars.length with
    | zero => exact ⟨[], by rw [Path.ancestors.go, if_neg nonempty]⟩
    | succ bound =>
      rw [Path.ancestors.go, if_neg nonempty]
      split
      · exact ⟨_, rfl⟩
      · exact ⟨[], rfl⟩
  obtain ⟨outer, ancestors⟩ := chain
  rw [makeDirectories, ancestors, makeChain, made]
  dsimp only
  rw [leads, if_pos rfl]

/-- The parent of a path that is joined with a name is there, unless it is empty. -/
theorem Passes.makeDirectories_parent (passes : fs.Passes .locate (fs.startOf root) root.innerSteps holder)
    (plain : Path.IsPlain name) (accepted : Manner.create.Accepts (root.join ⟨name⟩)) :
    ∃ parent, (root.join ⟨name⟩).parent? = some parent ∧
      (parent.chars ≠ [] → fs.makeDirectories parent = (.ok (), fs)) := by
  obtain ⟨parent, found, begins, inner⟩ := Path.exists_parent?_join plain root
  refine ⟨parent, found, ?_⟩
  intro some
  obtain ⟨idle, parts, stay⟩ := inner some
  rw [parts] at passes
  obtain ⟨middle, way, last⟩ := passes.of_append
  -- The steps that the parent does not ask for are dots, so its way ends in the same directory.
  obtain rfl : middle = holder := by
    apply last.eq_of_stays
    intro step member location
    rw [stay step member]
    rfl
  have start := fs.startOf_of_isAbsolute ((Path.isAbsolute_of_begins begins some).trans
    (Path.isAbsolute_join (Path.isAbsolute_of_noSlash plain.noSlash) root))
  rw [← start] at way
  have acceptedParent (manner : Manner) : manner.Accepts parent := by
    refine ⟨fun null => accepted.noNull (begins.subset null), some, ?_⟩
    intro _
    obtain ⟨rest, spelled⟩ := begins
    have short := accepted.short (by decide)
    rw [← spelled, byteLength_append] at short
    exact Nat.lt_of_le_of_lt (Nat.le_add_right _ _) short
  have ends : (if parent.chars.getLast? = Option.some '/' then [Step.slash] else []) = [] ∨
      (if parent.chars.getLast? = Option.some '/' then [Step.slash] else []) = [.slash] := by
    split
    · exact .inr rfl
    · exact .inl rfl
  obtain ⟨children, kept⟩ := way.of_locate.resolve_eq (acceptedParent .keep) (by decide) rfl ends
  obtain ⟨others, followed⟩ := way.of_locate.resolve_eq (acceptedParent .follow) (by decide) rfl ends
  exact makeDirectories_of_resolve kept followed

end ImportAtlas.FileSystem
