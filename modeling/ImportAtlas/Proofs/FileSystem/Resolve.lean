import ImportAtlas.FileSystem.Resolve
import ImportAtlas.Proofs.FileSystem.Entry
import ImportAtlas.Proofs.Path.Names
import Mathlib.Data.List.Basic

/-! # What paths lead to is there

A path is followed at all if its spelling is accepted. Following it ends at an entry of the tree, or at a name that a
directory of the tree does not have, and at a link only if links are kept. So the path of an entry other than a link
leads to that entry or nowhere.
-/

namespace ImportAtlas

theorem Entry.IsName.isPlain {name : Name} (valid : Entry.IsName name) : Path.IsPlain name :=
  ⟨valid.nonempty, valid.noSlash, valid.noDot, valid.noDots⟩

/-- The names on the way to an entry of a sound tree stand for themselves in a path. -/
theorem Entry.IsSound.isPlain {tree entry : Entry} (sound : tree.IsSound) {location : Location}
    (here : tree.get? location = some entry) : ∀ name ∈ location, Path.IsPlain name :=
  fun name member => ((sound.of_get? here).2 name member).isPlain

/-- Whether a file system has what a path is said to lead to. -/
def Place.IsIn (fs : FileSystem) : Place → Prop
  | .found location entry => fs.get? location = some entry
  | .vacant parent name =>
    ∃ children, fs.get? parent = some (.directory children) ∧ Entry.child? name children = none

/-- Whether a path is followed at all, which depends on its spelling only. -/
structure Manner.Accepts (manner : Manner) (path : Path) : Prop where
  noNull : '\x00' ∉ path.chars
  nonempty : path.chars ≠ []
  short : manner ≠ .locate → FileSystem.byteLength path.chars < FileSystem.pathLimit

namespace FileSystem

variable {fs : FileSystem} {manner : Manner} {jump : Location → List Step → Except Cause Place}

/-! ## Accepted paths -/

/-- A path that is not accepted is refused for the same cause everywhere. -/
theorem resolve_of_not_accepts {path : Path} (refused : ¬manner.Accepts path) :
    ∃ cause, ∀ fs : FileSystem, fs.resolve manner path = .error cause := by
  by_cases null : '\x00' ∈ path.chars
  · exact ⟨.nullInPath, fun fs => by rw [resolve, if_pos null]⟩
  by_cases empty : path.chars = []
  · exact ⟨.notFound, fun fs => by rw [resolve, if_neg null, if_pos empty]⟩
  by_cases long : manner ≠ .locate ∧ byteLength path.chars ≥ pathLimit
  · exact ⟨.nameTooLong, fun fs => by rw [resolve, if_neg null, if_neg empty, if_pos long]⟩
  · exact absurd ⟨null, empty, fun handed => Nat.lt_of_not_ge fun many => long ⟨handed, many⟩⟩ refused

/-- An accepted path is followed from where it starts. -/
theorem resolve_of_accepts {path : Path} (accepted : manner.Accepts path) :
    fs.resolve manner path = fs.follow manner linkLimit (fs.startOf path) path.steps := by
  have short : ¬(manner ≠ .locate ∧ byteLength path.chars ≥ pathLimit) :=
    fun long => absurd (accepted.short long.1) (Nat.not_lt_of_ge long.2)
  rw [resolve, if_neg accepted.noNull, if_neg accepted.nonempty, if_neg short]

theorem exists_resolve_eq {path : Path} (fs : FileSystem) (accepted : manner.Accepts path) :
    ∃ jump, fs.resolve manner path = fs.followWith manner jump (fs.startOf path) path.steps := by
  rw [resolve_of_accepts accepted]
  cases linkLimit <;> exact ⟨_, rfl⟩

theorem accepts_of_resolve {path : Path} {place : Place} (success : fs.resolve manner path = .ok place) :
    manner.Accepts path := by
  by_contra refused
  obtain ⟨cause, failed⟩ := resolve_of_not_accepts refused
  cases success.symm.trans (failed fs)

/-- A path leads to a place if it is accepted and its steps lead there from where it starts. -/
theorem resolve_eq_ok_iff {path : Path} {place : Place} :
    fs.resolve manner path = .ok place ↔
      manner.Accepts path ∧ fs.follow manner linkLimit (fs.startOf path) path.steps = .ok place := by
  constructor
  · intro success
    have accepted := accepts_of_resolve success
    rw [resolve_of_accepts accepted] at success
    exact ⟨accepted, success⟩
  · rintro ⟨accepted, followed⟩
    rw [resolve_of_accepts accepted]
    exact followed

/-! ## One step -/

/-- Where a name in a directory leads. A free name and a link that is kept are where the steps end. The steps of any
other link are followed in its place, and every other entry is gone on from. -/
inductive NameLeads (fs : FileSystem) (manner : Manner) (jump : Location → List Step → Except Cause Place)
    (location : Location) (name : Name) (rest : List Step) : Place → Prop
  | vacant (absent : fs.get? (location ++ [name]) = none) (last : rest = [] ∨ manner = .keep ∧ rest = [.slash]) :
      NameLeads fs manner jump location name rest (.vacant location name)
  | kept {target : Path} (link : fs.get? (location ++ [name]) = some (.link target))
      (last : rest = [] ∧ manner = .keep) :
      NameLeads fs manner jump location name rest (.found (location ++ [name]) (.link target))
  | jumped {target : Path} {place : Place} (link : fs.get? (location ++ [name]) = some (.link target))
      (replaced : ¬(rest = [] ∧ manner = .keep))
      (success : jump (linkStart location target) (target.steps ++ rest) = .ok place) :
      NameLeads fs manner jump location name rest place
  | passed {entry : Entry} {place : Place} (found : fs.get? (location ++ [name]) = some entry)
      (noLink : ∀ target, entry ≠ .link target)
      (success : fs.followWith manner jump (location ++ [name]) rest = .ok place) :
      NameLeads fs manner jump location name rest place

/-- One name further on the way. -/
theorem followWith_name {location : Location} {children : List (Name × Entry)}
    (here : fs.get? location = some (.directory children)) (name : Name) (rest : List Step) :
    fs.followWith manner jump location (.name name :: rest) =
      if manner = .create ∧ rest = [.slash] then .error .isDirectory
      else if isTooLong manner location name then .error .nameTooLong
      else
        match fs.get? (location ++ [name]) with
        | none =>
          if rest = [] ∨ manner = .keep ∧ rest = [.slash] then .ok (.vacant location name)
          else .error .notFound
        | some (.link target) =>
          if rest = [] ∧ manner = .keep then .ok (.found (location ++ [name]) (.link target))
          else jump (linkStart location target) (target.steps ++ rest)
        | some _ => fs.followWith manner jump (location ++ [name]) rest := by
  have child : fs.get? (location ++ [name]) = Entry.child? name children := Entry.get?_child here name
  rewrite [followWith, here, child]
  rfl

/-- A name is followed in a directory unless it is too long, or names a file to be made with a slash after it. -/
theorem followWith_name_eq_ok_iff {location : Location} {children : List (Name × Entry)} {name : Name}
    {rest : List Step} {place : Place} (here : fs.get? location = some (.directory children)) :
    fs.followWith manner jump location (.name name :: rest) = .ok place ↔
      ¬(manner = .create ∧ rest = [.slash]) ∧ isTooLong manner location name = false ∧
        fs.NameLeads manner jump location name rest place := by
  rw [followWith_name here]
  constructor
  · intro success
    split at success
    case isTrue => cases success
    case isFalse noSlash =>
      split at success
      case isTrue => cases success
      case isFalse short =>
        refine ⟨noSlash, by simpa using short, ?_⟩
        split at success
        case h_1 absent =>
          split at success
          case isTrue last =>
            cases success
            exact .vacant absent last
          case isFalse => cases success
        case h_2 target link =>
          split at success
          case isTrue last =>
            cases success
            exact .kept link last
          case isFalse replaced => exact .jumped link replaced success
        case h_3 entry noLink found => exact .passed found noLink success
  · rintro ⟨noSlash, short, leads⟩
    rw [if_neg noSlash, if_neg (by simp [short])]
    cases leads with
    | vacant absent last =>
      rw [absent]
      exact if_pos last
    | kept link last =>
      rw [link]
      exact if_pos last
    | jumped link replaced success =>
      rw [link]
      exact (if_neg replaced).trans success
    | @passed entry _ found noLink success =>
      rw [found]
      cases entry with
      | link target => exact absurd rfl (noLink target)
      | file content => exact success
      | directory children => exact success

/-- Where there are no more steps, an entry is led to if it is there. -/
theorem followWith_nil_eq_ok_iff {location : Location} {place : Place} :
    fs.followWith manner jump location [] = .ok place ↔
      ∃ entry, fs.get? location = some entry ∧ place = .found location entry := by
  rw [followWith]
  cases fs.get? location with
  | none => simp
  | some entry => simp [eq_comm]

/-- Steps end at an entry, and with a slash after it at a directory. -/
theorem followWith_last {location : Location} {entry : Entry} {rest : List Step}
    (here : fs.get? location = some entry) (last : rest = [] ∨ rest = [.slash] ∧ entry.kind = .directory) :
    fs.followWith manner jump location rest = .ok (.found location entry) := by
  have ends : fs.followWith manner jump location [] = .ok (.found location entry) :=
    followWith_nil_eq_ok_iff.mpr ⟨entry, here, rfl⟩
  rcases last with rfl | ⟨rfl, kind⟩
  · exact ends
  · obtain ⟨children, rfl⟩ := Entry.kind_eq_directory_iff.mp kind
    rw [followWith, here]
    exact ends

/-- Nothing follows a step but a directory. -/
theorem exists_directory_of_followWith {location : Location} {step : Step} {rest : List Step}
    {place : Place} (success : fs.followWith manner jump location (step :: rest) = .ok place) :
    ∃ children, fs.get? location = some (.directory children) := by
  rw [followWith.eq_def] at success
  cases here : fs.get? location with
  | none => simp [here] at success
  | some entry =>
    cases entry with
    | directory children => exact ⟨children, rfl⟩
    | file content => simp [here] at success
    | link target => simp [here] at success

private theorem followWith_isIn
    (sound : ∀ location steps place, jump location steps = .ok place → place.IsIn fs)
    {location : Location} {steps : List Step} {place : Place}
    (success : fs.followWith manner jump location steps = .ok place) : place.IsIn fs := by
  induction steps generalizing location with
  | nil =>
    obtain ⟨entry, here, rfl⟩ := followWith_nil_eq_ok_iff.mp success
    exact here
  | cons step rest ih =>
    obtain ⟨children, here⟩ := exists_directory_of_followWith success
    cases step with
    | name name =>
      obtain ⟨-, -, leads⟩ := (followWith_name_eq_ok_iff here).mp success
      cases leads with
      | vacant absent => exact ⟨children, here, by rw [← Entry.get?_child here]; exact absent⟩
      | kept link => exact link
      | jumped _ _ success => exact sound _ _ _ success
      | passed _ _ success => exact ih success
    | _ =>
      rw [followWith, here] at success
      exact ih success

/-- What a path leads to is there. -/
theorem isIn_of_resolve {path : Path} {place : Place} (success : fs.resolve manner path = .ok place) :
    place.IsIn fs := by
  have follow (links : Nat) : ∀ location steps place,
      fs.follow manner links location steps = .ok place → place.IsIn fs := by
    induction links with
    | zero =>
      intro location steps place success
      apply followWith_isIn _ success
      intro _ _ _ failed
      cases failed
    | succ links ih =>
      intro location steps place success
      exact followWith_isIn ih success
  exact follow _ _ _ _ (resolve_eq_ok_iff.mp success).2

/-! ## Where links are gone -/

/-- The steps after a link begin in a directory. -/
theorem exists_directory_linkStart {location : Location} {children : List (Name × Entry)}
    (here : fs.get? location = some (.directory children)) (target : Path) :
    ∃ children, fs.get? (linkStart location target) = some (.directory children) := by
  unfold linkStart
  split
  · exact Entry.exists_directory_root here
  · exact ⟨children, here⟩

private theorem followWith_noLink (follows : manner ≠ .keep) {last : Location} {entry : Entry}
    (jumps : ∀ location steps, (∃ children, fs.get? location = some (.directory children)) →
      jump location steps = .ok (.found last entry) → ∀ target, entry ≠ .link target)
    {location : Location} {steps : List Step}
    (start : steps = [] → ∀ target, fs.get? location ≠ some (.link target))
    (success : fs.followWith manner jump location steps = .ok (.found last entry)) (target : Path) :
    entry ≠ .link target := by
  induction steps generalizing location with
  | nil =>
    obtain ⟨_, here, ⟨⟩⟩ := followWith_nil_eq_ok_iff.mp success
    exact fun same => start rfl target (same ▸ here)
  | cons step rest ih =>
    obtain ⟨children, here⟩ := exists_directory_of_followWith success
    cases step with
    | here =>
      rw [followWith, here] at success
      exact ih (fun _ target => by simp [here]) success
    | slash =>
      rw [followWith, here] at success
      exact ih (fun _ target => by simp [here]) success
    | up =>
      rw [followWith, here] at success
      obtain ⟨above, parent⟩ := Entry.exists_directory_dropLast here
      exact ih (fun _ target link => nomatch parent.symm.trans link) success
    | name name =>
      obtain ⟨-, -, leads⟩ := (followWith_name_eq_ok_iff here).mp success
      cases leads with
      | kept _ last => exact absurd last.2 follows
      | jumped _ _ success => exact jumps _ _ (exists_directory_linkStart here _) success target
      | passed found noLink success =>
        apply ih _ success
        intro _ target link
        exact noLink target (Option.some.inj (found.symm.trans link))

/-- A path with any spelling asks for a step. -/
theorem steps_ne_nil {path : Path} (nonempty : path.chars ≠ []) : path.steps ≠ [] := by
  intro none
  obtain ⟨noNames, noSlash⟩ := List.append_eq_nil_iff.mp none
  have slashes : ∀ c ∈ path.chars, c = '/' := by
    intro c member
    rw [← Path.ofSegments_segments path.chars] at member
    rcases Path.mem_ofSegments member with slash | ⟨segment, inside, here⟩
    · exact slash
    · -- A segment with a character asks for a step.
      have idle := List.filterMap_eq_nil_iff.mp noNames segment inside
      unfold Path.step? at idle
      split_ifs at idle with empty
      rw [empty] at here
      cases here
  have last : path.chars.getLast? = some '/' := by
    rw [List.getLast?_eq_some_getLast nonempty, slashes _ (List.getLast_mem nonempty)]
  rw [if_pos last] at noSlash
  cases noSlash

/-- No path that is followed to its end leads to a link. -/
theorem ne_link_of_resolve (follows : manner ≠ .keep) {path : Path} {location : Location} {entry : Entry}
    (success : fs.resolve manner path = .ok (.found location entry)) (target : Path) :
    entry ≠ .link target := by
  have follow (links : Nat) : ∀ start steps, (steps = [] → ∀ target, fs.get? start ≠ some (.link target)) →
      fs.follow manner links start steps = .ok (.found location entry) → ∀ target, entry ≠ .link target := by
    induction links with
    | zero =>
      intro start steps grounded success
      apply followWith_noLink follows _ grounded success
      intro _ _ _ failed
      cases failed
    | succ links ih =>
      intro start steps grounded success
      apply followWith_noLink follows _ grounded success
      rintro next steps ⟨children, here⟩ success
      exact ih next steps (fun _ target => by simp [here]) success
  obtain ⟨accepted, followed⟩ := resolve_eq_ok_iff.mp success
  exact follow _ _ _ (fun none => absurd none (steps_ne_nil accepted.nonempty)) followed target

/-! ## The path of a location -/

theorem step?_of_isPlain {name : Name} (plain : Path.IsPlain name) :
    Path.step? name = some (.name name) := by
  rw [Path.step?, if_neg plain.nonempty, if_neg plain.noDot, if_neg plain.noDots]

/-- The step that the last segment of a path asks for. -/
def lastStep (segment : List Char) : Step :=
  (Path.step? segment).getD .slash

theorem steps_ofNames_concat {names : List Name} (plain : ∀ name ∈ names, Path.IsPlain name) {segment : List Char}
    (noSlash : '/' ∉ segment) :
    (Path.ofNames (names ++ [segment])).steps = names.map Step.name ++ [lastStep segment] := by
  have all := Path.noSlash_append plain (List.forall_mem_singleton.mpr noSlash)
  have named : names.filterMap Path.step? = names.map Step.name := by
    apply List.filterMap_eq_map_iff_forall_eq_some.mpr
    intro name member
    exact step?_of_isPlain (plain name member)
  have steps : (Path.segments (Path.ofNames (names ++ [segment])).chars).filterMap Path.step? =
      names.map Step.name ++ (Path.step? segment).toList := by
    rw [Path.segments_ofNames (by simp) all, List.filterMap_cons_none rfl, List.filterMap_append, named]
    cases step : Path.step? segment <;> simp [step]
  rw [Path.steps, steps]
  by_cases empty : segment = []
  · subst empty
    rw [if_pos (Path.getLast?_ofNames_eq_slash names), List.append_assoc]
    rfl
  · rw [if_neg (Path.getLast?_ofNames_ne_slash empty noSlash), List.append_nil, lastStep, Path.step?, if_neg empty]
    split_ifs <;> rfl

theorem steps_ofNames {names : List Name} (nonempty : names ≠ [])
    (valid : ∀ name ∈ names, Entry.IsName name) : (Path.ofNames names).steps = names.map Step.name := by
  obtain ⟨before, last, rfl⟩ := (List.eq_nil_or_concat names).resolve_left nonempty
  rw [List.concat_eq_append] at valid ⊢
  have plain : ∀ name ∈ before ++ [last], Path.IsPlain name := fun name member => (valid name member).isPlain
  have here := plain last (by simp)
  rw [steps_ofNames_concat (fun name member => plain name (List.mem_append_left _ member)) here.noSlash, lastStep,
    step?_of_isPlain here, List.map_append]
  rfl

/-- Names that lead to an entry other than a link are followed to that entry. -/
private theorem followWith_names {names : List Name} {base : Location} {entry : Entry} {place : Place}
    (here : fs.get? (base ++ names) = some entry) (noLink : ∀ target, entry ≠ .link target)
    (success : fs.followWith manner jump base (names.map Step.name) = .ok place) :
    place = .found (base ++ names) entry := by
  induction names generalizing base with
  | nil =>
    rw [List.append_nil] at here ⊢
    rw [List.map_nil, followWith, here] at success
    exact (Except.ok.inj success).symm
  | cons name names ih =>
    obtain ⟨children, directory⟩ := exists_directory_of_followWith success
    obtain ⟨-, -, leads⟩ := (followWith_name_eq_ok_iff directory).mp success
    rw [List.append_cons] at here ⊢
    have below : (fs.get? (base ++ [name])).bind (·.get? names) = some entry := by
      rw [FileSystem.get?, ← Entry.get?_append]
      exact here
    have isNoLink (target : Path) : fs.get? (base ++ [name]) ≠ some (.link target) := by
      intro link
      rw [link, Option.bind_some] at below
      cases names with
      | nil =>
        rw [Entry.get?_nil] at below
        exact noLink target (Option.some.inj below).symm
      | cons next names => cases below
    cases leads with
    | vacant absent =>
      rw [absent] at below
      cases below
    | kept link => exact absurd link (isNoLink _)
    | jumped link => exact absurd link (isNoLink _)
    | passed _ _ success => exact ih here success

/-- The path of an entry other than a link leads to that entry. -/
theorem place_of_resolve_ofNames (sound : fs.tree.IsSound) {location : Location} {entry : Entry} {place : Place}
    (here : fs.get? location = some entry) (noLink : ∀ target, entry ≠ .link target)
    (success : fs.resolve manner (Path.ofNames location) = .ok place) : place = .found location entry := by
  have follow {jump : Location → List Step → Except Cause Place}
      (success : fs.followWith manner jump [] (Path.ofNames location).steps = .ok place) :
      place = .found location entry := by
    by_cases nonempty : location = []
    · subst nonempty
      have slash : (Path.ofNames []).steps = [.slash] := rfl
      rw [slash] at success
      obtain ⟨children, root⟩ := exists_directory_of_followWith success
      rw [followWith, root] at success
      exact @followWith_names _ _ _ [] [] _ _ here noLink success
    · rw [steps_ofNames nonempty (sound.of_get? here).2] at success
      exact followWith_names here noLink success
  obtain ⟨-, followed⟩ := resolve_eq_ok_iff.mp success
  have start : fs.startOf (Path.ofNames location) = [] := rfl
  rw [start, linkLimit, FileSystem.follow] at followed
  exact follow followed

end FileSystem

end ImportAtlas
