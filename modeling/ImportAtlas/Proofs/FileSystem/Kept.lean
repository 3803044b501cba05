import ImportAtlas.Proofs.FileSystem.Growth
import ImportAtlas.Proofs.FileSystem.Reading

/-! # Links at the end of a path

Two ways of looking at a path differ only in a link at its end. What is found without following it, and is no
link, is found by following as well. And without following it, paths that differ in their last name only lead
into the same directory, to these names, through whatever links lie before them.
-/

namespace ImportAtlas.FileSystem

variable {fs : FileSystem} {path : Path} {location : Location} {entry : Entry}

/-! ## What is no link -/

/-- What a path leads to without following a link at the end is where it leads, unless it is a link. -/
theorem resolve_follow_of_keep (kept : fs.resolve .keep path = .ok (.found location entry))
    (noLink : ∀ target, entry ≠ .link target) : fs.resolve .follow path = .ok (.found location entry) := by
  have here : fs.get? location = some entry := isIn_of_resolve kept
  refine (Grows.refl fs).resolve noLink (by decide) ?_ kept here
  intro _ absent
  cases here.symm.trans absent

/-- A path that names a file itself leads to that file. -/
theorem exists_resolve_of_isPlainFile (plain : fs.isPlainFile path = true) :
    ∃ location content, fs.resolve .keep path = .ok (.found location (.file content)) ∧
      fs.resolve .follow path = .ok (.found location (.file content)) := by
  rw [isPlainFile] at plain
  split at plain
  case h_1 entry found =>
    cases entry with
    | file content =>
      obtain ⟨location, resolved⟩ := entryAt_eq_ok_iff.mp found
      exact ⟨location, content, resolved, resolve_follow_of_keep resolved (by simp)⟩
    | link target => cases plain
    | directory children => cases plain
  case h_2 => cases plain

/-! ## Files and directories -/

/-- Whether a path leads to a file, links followed. -/
def leadsToFile (fs : FileSystem) (path : Path) : Bool :=
  match fs.entryAt .follow path with
  | .ok entry => entry.isFile
  | .error _ => false

theorem leadsToFile_of_isPlainFile (plain : fs.isPlainFile path = true) : fs.leadsToFile path = true := by
  obtain ⟨location, content, -, resolved⟩ := exists_resolve_of_isPlainFile plain
  rw [leadsToFile, entryAt, resolved]
  rfl

/-- What a path leads to is a file or a directory, and not both. -/
theorem leadsToDirectory_eq_and (fs : FileSystem) (path : Path) :
    fs.leadsToDirectory path = (fs.pathExists path && !fs.leadsToFile path) := by
  rw [leadsToDirectory, pathExists, leadsToFile]
  cases found : fs.entryAt .follow path with
  | error cause => rfl
  | ok entry =>
    obtain ⟨location, resolved⟩ := entryAt_eq_ok_iff.mp found
    cases entry with
    | file content => rfl
    | directory children => rfl
    | link target => exact absurd rfl (ne_link_of_resolve (by decide) resolved target)

theorem pathExists_of_leadsToFile (leads : fs.leadsToFile path = true) : fs.pathExists path = true := by
  rw [leadsToFile] at leads
  rw [pathExists]
  cases found : fs.entryAt .follow path with
  | ok entry => rfl
  | error cause => rw [found] at leads; cases leads

/-! ## The last step -/

/-- Where a last step leads: to a directory, or to the entry with a name in the directory that the steps before it
lead to. The entry can lie elsewhere only if it was reached through a link with this name. -/
def LeadsTo (manner : Manner) (holder : Location) (step : Step) (location : Location) (entry : Entry) : Prop :=
  (∃ children, entry = .directory children) ∨
    ∃ name, step = .name name ∧ (manner = .keep → location = holder ++ [name])

variable {manner : Manner} {jump : Location → List Step → Except Cause Place}

/-- A name with more after it is that of a link, whose steps are followed, or of another entry. -/
theorem followWith_name_of_more {name : Name} {rest : List Step} {last : Location} (more : rest ≠ [])
    (success : fs.followWith manner jump location (.name name :: rest) = .ok (.found last entry)) :
    (∃ target, fs.get? (location ++ [name]) = some (.link target) ∧
      jump (linkStart location target) (target.steps ++ rest) = .ok (.found last entry)) ∨
    ((∀ target, fs.get? (location ++ [name]) ≠ some (.link target)) ∧
      fs.followWith manner jump (location ++ [name]) rest = .ok (.found last entry)) := by
  obtain ⟨children, here⟩ := exists_directory_of_followWith success
  obtain ⟨-, -, leads⟩ := (followWith_name_eq_ok_iff here).mp success
  cases leads with
  | kept _ last => exact absurd last.1 more
  | jumped link _ success => exact .inl ⟨_, link, success⟩
  | passed found noLink success =>
    refine .inr ⟨?_, success⟩
    intro target link
    exact noLink target (Option.some.inj (found.symm.trans link))

private theorem leadsTo_of_followWith_singleton {step : Step} {last : Location}
    (success : fs.followWith manner jump location [step] = .ok (.found last entry)) :
    LeadsTo manner location step last entry := by
  obtain ⟨children, here⟩ := exists_directory_of_followWith success
  have stays (success : fs.followWith manner jump location [] = .ok (.found last entry)) :
      ∃ children, entry = .directory children := by
    obtain ⟨_, found, ⟨⟩⟩ := followWith_nil_eq_ok_iff.mp success
    exact ⟨children, Option.some.inj (found.symm.trans here)⟩
  cases step with
  | here =>
    rw [followWith, here] at success
    exact .inl (stays success)
  | slash =>
    rw [followWith, here] at success
    exact .inl (stays success)
  | up =>
    obtain ⟨siblings, above⟩ := Entry.exists_directory_dropLast here
    rw [followWith, here] at success
    dsimp only at success
    rw [followWith, FileSystem.get?, above] at success
    cases success
    exact .inl ⟨siblings, rfl⟩
  | name name =>
    refine .inr ⟨name, rfl, ?_⟩
    rintro rfl
    obtain ⟨-, -, leads⟩ := (followWith_name_eq_ok_iff here).mp success
    cases leads with
    | kept => rfl
    | jumped _ replaced => exact absurd ⟨rfl, rfl⟩ replaced
    | passed _ _ success =>
      obtain ⟨_, -, ⟨⟩⟩ := followWith_nil_eq_ok_iff.mp success
      rfl

private theorem exists_holder_followWith
    (jumps : ∀ location steps, ∃ holder, ∀ step last entry,
      jump location (steps ++ [step]) = .ok (.found last entry) → LeadsTo manner holder step last entry)
    (location : Location) (steps : List Step) :
    ∃ holder, ∀ step last entry, fs.followWith manner jump location (steps ++ [step]) = .ok (.found last entry) →
      LeadsTo manner holder step last entry := by
  induction steps generalizing location with
  | nil => exact ⟨location, fun _ _ _ => leadsTo_of_followWith_singleton⟩
  | cons next rest ih =>
    by_cases directory : ∃ children, fs.get? location = some (.directory children)
    case neg => exact ⟨[], fun _ _ _ success => absurd (exists_directory_of_followWith success) directory⟩
    obtain ⟨children, here⟩ := directory
    cases next with
    | name name =>
      by_cases isLink : ∃ target, fs.get? (location ++ [name]) = some (.link target)
      · -- The steps of the link come before the rest, so the last step is still the same.
        obtain ⟨target, link⟩ := isLink
        obtain ⟨holder, leads⟩ := jumps (linkStart location target) (target.steps ++ rest)
        refine ⟨holder, ?_⟩
        intro step last entry success
        rcases followWith_name_of_more (by simp) success with ⟨other, sameLink, jumped⟩ | ⟨noLink, -⟩
        · cases link.symm.trans sameLink
          exact leads step last entry (List.append_assoc _ _ _ ▸ jumped)
        · exact absurd link (noLink target)
      · obtain ⟨holder, leads⟩ := ih (location ++ [name])
        refine ⟨holder, ?_⟩
        intro step last entry success
        rcases followWith_name_of_more (by simp) success with ⟨target, link, -⟩ | ⟨-, later⟩
        · exact absurd ⟨target, link⟩ isLink
        · exact leads step last entry later
    | _ =>
      simp only [List.cons_append, followWith, here]
      exact ih _

/-- All paths that ask for the same steps before the last one lead from the same directory. -/
theorem exists_holder (fs : FileSystem) (manner : Manner) (start : Location) (steps : List Step) :
    ∃ holder, ∀ path step location entry, fs.startOf path = start → path.steps = steps ++ [step] →
      fs.resolve manner path = .ok (.found location entry) → LeadsTo manner holder step location entry := by
  have follow (links : Nat) : ∀ location steps, ∃ holder, ∀ step last entry,
      fs.follow manner links location (steps ++ [step]) = .ok (.found last entry) →
        LeadsTo manner holder step last entry := by
    induction links with
    | zero =>
      apply exists_holder_followWith
      intro location steps
      exact ⟨[], fun _ _ _ failed => nomatch failed⟩
    | succ links ih => exact exists_holder_followWith ih
  obtain ⟨holder, leads⟩ := follow linkLimit start steps
  refine ⟨holder, ?_⟩
  rintro path step location entry rfl asks success
  apply leads step location entry
  rw [← asks]
  exact (resolve_eq_ok_iff.mp success).2

end ImportAtlas.FileSystem
