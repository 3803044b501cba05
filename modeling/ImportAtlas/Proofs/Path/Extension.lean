import ImportAtlas.Proofs.FileSystem.Steps
import ImportAtlas.Proofs.List.Starts

/-! # Paths with another extension

A name is cut at its last dot, unless nothing stands before it. Giving it an extension leaves it as it is just if
it has that extension already. A path that asks for a name at its end asks for the same steps before it when its
extension is replaced, and it is the same path just if the name is the same.
-/

namespace ImportAtlas.Path

/-! ## Names -/

section Name

variable {name stem ending : Name}

theorem splitExtension_append (nonempty : stem ≠ []) (noDot : '.' ∉ ending) :
    splitExtension (stem ++ '.' :: ending) = (stem, some ending) := by
  have undotted : ∀ c ∈ ending.reverse, (c != '.') = true := by
    intro c member
    simpa using fun same : c = '.' => noDot (same ▸ List.mem_reverse.mp member)
  have stops : ∀ c ∈ ('.' :: stem.reverse).head?, (c != '.') = false := by simp
  have reversed : (stem ++ '.' :: ending).reverse = ending.reverse ++ '.' :: stem.reverse := by simp
  rw [splitExtension, reversed, takeWhile_append_stop undotted stops, dropWhile_append_stop undotted stops]
  simp [nonempty]

theorem splitExtension_cases (name : Name) :
    splitExtension name = (name, none) ∨
      ∃ stem ending, stem ≠ [] ∧ '.' ∉ ending ∧ name = stem ++ '.' :: ending := by
  have parts := List.takeWhile_append_dropWhile (p := (· != '.')) (l := name.reverse)
  have stops := List.head?_dropWhile_not (· != '.') name.reverse
  rw [splitExtension]
  cases rest : name.reverse.dropWhile (· != '.') with
  | nil => exact .inl rfl
  | cons c stem =>
    rw [rest] at parts stops
    obtain rfl : c = '.' := by simpa using stops
    by_cases empty : stem = []
    · subst empty
      exact .inl rfl
    · refine .inr ⟨stem.reverse, (name.reverse.takeWhile (· != '.')).reverse, by simpa using empty, ?_, ?_⟩
      · intro member
        have kept := List.mem_takeWhile_imp (List.mem_reverse.mp member)
        cases kept
      · have forwards := congrArg List.reverse parts
        simpa using forwards.symm

theorem renameExtension_append (nonempty : stem ≠ []) (noDot : '.' ∉ ending) (extension : Name) :
    renameExtension (stem ++ '.' :: ending) extension =
      if stem = ['.'] then ['.', '.'] else stem ++ '.' :: extension := by
  rw [renameExtension, splitExtension_append nonempty noDot]

variable (plain : IsPlain name)

include plain

/-- A name with another extension is a name again, apart from one that consists of a dot and an extension with its
own dot. -/
theorem renameExtension_cases {extension : Name} (noSlash : '/' ∉ extension) :
    IsPlain (renameExtension name extension) ∨ renameExtension name extension = ['.', '.'] := by
  rcases splitExtension_cases name with whole | ⟨stem, ending, nonempty, noDot, rfl⟩
  · left
    rw [renameExtension, whole]
    exact plain.append (by simpa using noSlash)
  · rw [renameExtension_append nonempty noDot]
    split
    case isTrue => exact .inr rfl
    case isFalse other =>
      have stemNoSlash : '/' ∉ stem := fun slash => plain.noSlash (List.mem_append_left _ slash)
      refine .inl ⟨by simp, by simp [stemNoSlash, noSlash], ?_, ?_⟩
      · intro dot
        rcases List.append_eq_singleton_iff.mp dot with ⟨empty, -⟩ | ⟨-, nothing⟩
        · exact nonempty empty
        · cases nothing
      · intro dots
        obtain ⟨c, rest, rfl⟩ := List.exists_cons_of_ne_nil nonempty
        obtain ⟨rfl, later⟩ := List.cons.inj dots
        rcases List.append_eq_singleton_iff.mp later with ⟨rfl, -⟩ | ⟨-, nothing⟩
        · exact other rfl
        · cases nothing

theorem renameExtension_eq_self_iff {extension : Name} (noDot : '.' ∉ extension) :
    renameExtension name extension = name ↔
      ∃ stem, stem ≠ [] ∧ stem ≠ ['.'] ∧ name = stem ++ '.' :: extension := by
  constructor
  · intro same
    rcases splitExtension_cases name with whole | ⟨stem, ending, nonempty, endingNoDot, rfl⟩
    · rw [renameExtension, whole] at same
      simp at same
    · rw [renameExtension_append nonempty endingNoDot] at same
      split at same
      case isTrue => exact absurd same.symm plain.noDots
      case isFalse other => exact ⟨stem, nonempty, other, same.symm⟩
  · rintro ⟨stem, nonempty, other, rfl⟩
    rw [renameExtension_append nonempty noDot, if_neg other]

end Name

/-! ## Paths -/

variable {path : Path} {name : Name} {steps : List Step} {before : List (List Char)}

/-- A segment is empty, or a dot, or two dots, or stands for itself. -/
theorem step?_cases {segment : List Char} (noSlash : '/' ∉ segment) :
    segment = [] ∨ step? segment = some .here ∨ step? segment = some .up ∨
      IsPlain segment ∧ step? segment = some (.name segment) := by
  rw [step?]
  split_ifs with empty dot dots
  · exact .inl empty
  · exact .inr (.inl rfl)
  · exact .inr (.inr (.inl rfl))
  · exact .inr (.inr (.inr ⟨⟨empty, noSlash, dot, dots⟩, rfl⟩))

/-- A path that does not end in a slash has a segment at its end, unless it has no characters below the root. -/
theorem ne_nil_of_noSlash (noSlash : path.chars.getLast? ≠ some '/') {last : List Char} (nonempty : before ≠ [])
    (parts : segments path.charsBelow = before ++ [last]) : last ≠ [] := by
  rintro rfl
  have spelled := ofSegments_segments path.charsBelow
  rw [parts, ofSegments_append nonempty (by simp), ofSegments_singleton] at spelled
  apply noSlash
  rw [chars_eq path, ← spelled]
  split
  · rw [← List.cons_append, List.getLast?_concat]
  · rw [List.getLast?_concat]

/-- A path whose last step is a name ends in the segment for it. -/
theorem exists_segments_of_steps (asks : path.steps = steps ++ [.name name]) :
    ∃ before, segments path.charsBelow = before ++ [name] ∧ before.filterMap step? = steps ∧ IsPlain name := by
  have noSlash : path.chars.getLast? ≠ some '/' := by
    intro slash
    rw [Path.steps, if_pos slash] at asks
    cases (List.append_inj' asks rfl).2
  rw [Path.steps, if_neg noSlash, List.append_nil, ← innerSteps, innerSteps_eq] at asks
  obtain ⟨before, last, parts⟩ := (List.eq_nil_or_concat (segments path.charsBelow)).resolve_left
    (segments_ne_nil _)
  rw [List.concat_eq_append] at parts
  have member : last ∈ segments path.charsBelow := by simp [parts]
  have lastNoSlash := noSlash_of_mem_segments member
  rw [parts, List.filterMap_append] at asks
  rcases step?_cases lastNoSlash with rfl | here | up | ⟨plain, stands⟩
  · by_cases empty : before = []
    · subst empty
      simp [step?] at asks
    · exact absurd rfl (ne_nil_of_noSlash noSlash empty parts)
  · rw [List.filterMap_cons_some here] at asks
    cases (List.append_inj' asks rfl).2
  · rw [List.filterMap_cons_some up] at asks
    cases (List.append_inj' asks rfl).2
  · rw [List.filterMap_cons_some stands] at asks
    obtain ⟨same, last⟩ := List.append_inj' asks rfl
    cases last
    exact ⟨before, parts, same, plain⟩

/-- A path of which the last segment was replaced. -/
theorem chars_withSegments_concat (parts : segments path.charsBelow = before ++ [name]) :
    ∃ start, path.chars = start ++ name ∧
      ∀ last, (path.withSegments (before ++ [last])).chars = start ++ last := by
  obtain ⟨start, spelled⟩ := exists_ofSegments_concat before
  have chars : path.charsBelow = start ++ name := by rw [← spelled, ← parts, ofSegments_segments]
  rw [chars_eq path, chars]
  simp only [withSegments, spelled]
  split
  · exact ⟨'/' :: start, rfl, fun _ => rfl⟩
  · exact ⟨start, rfl, fun _ => rfl⟩

section Segments

variable (plain : IsPlain name) (parts : segments path.charsBelow = before ++ [name])

include parts

/-- With its last segment replaced, a path has the same segments before it and the same root. -/
theorem withSegments_concat {last : List Char} (nonempty : last ≠ []) (noSlash : '/' ∉ last) :
    (path.withSegments (before ++ [last])).isAbsolute = path.isAbsolute ∧
      (path.withSegments (before ++ [last])).steps = before.filterMap step? ++ (step? last).toList := by
  have inside (segment : List Char) (member : segment ∈ before ++ [name]) : '/' ∉ segment :=
    noSlash_of_mem_segments (parts ▸ member)
  obtain ⟨start, chars, replaced⟩ := chars_withSegments_concat parts
  have sameRoot : (path.withSegments (before ++ [last])).isAbsolute = path.isAbsolute := by
    rw [isAbsolute, isAbsolute, replaced, chars]
    cases start with
    | cons c rest => rfl
    | nil =>
      have first := isAbsolute_of_noSlash (inside name (by simp))
      have other := isAbsolute_of_noSlash noSlash
      exact other.trans first.symm
  have below : (path.withSegments (before ++ [last])).charsBelow = ofSegments (before ++ [last]) := by
    rw [charsBelow, sameRoot, withSegments]
    split <;> rfl
  refine ⟨sameRoot, ?_⟩
  have noSlashes : ∀ segment ∈ before ++ [last], '/' ∉ segment :=
    List.forall_mem_append.mpr
      ⟨fun segment member => inside segment (List.mem_append_left _ member), List.forall_mem_singleton.mpr noSlash⟩
  rw [Path.steps, if_neg (replaced last ▸ getLast?_ne_slash nonempty noSlash start), List.append_nil, ← innerSteps,
    innerSteps_eq, below, segments_ofSegments (by simp) noSlashes, List.filterMap_append]
  cases step : step? last <;> simp [step]

include plain

theorem fileName?_of_segments : path.fileName? = some name := by
  rw [fileName?, backwards_of_segments plain parts]
  dsimp only
  rw [component?_of_isPlain plain]

theorem withExtension_of_segments (extension : Name) :
    path.withExtension extension = path.withSegments (before ++ [renameExtension name extension]) := by
  rw [withExtension, fileName?_of_segments plain parts, backwards_of_segments plain parts]
  simp [ofBackwards, withSegments]

end Segments

variable {extension : Name} (asks : path.steps = steps ++ [.name name])

include asks

/-- A path that asks for a name asks for the same steps before it when it has another extension. Unless it is the
same path, it asks for another step then. -/
theorem exists_step_withExtension (noSlash : '/' ∉ extension) :
    (path.withExtension extension).isAbsolute = path.isAbsolute ∧
      ∃ step, (path.withExtension extension).steps = steps ++ [step] ∧
        (step = .name name → path.withExtension extension = path) := by
  obtain ⟨before, parts, rfl, plain⟩ := exists_segments_of_steps asks
  obtain ⟨start, chars, replaced⟩ := chars_withSegments_concat parts
  rw [withExtension_of_segments plain parts]
  rcases renameExtension_cases plain noSlash with other | dots
  · obtain ⟨sameRoot, steps⟩ := withSegments_concat parts other.nonempty other.noSlash
    refine ⟨sameRoot, .name (renameExtension name extension), ?_, ?_⟩
    · rw [steps, FileSystem.step?_of_isPlain other]
      rfl
    · intro same
      rw [Step.name.injEq] at same
      have spelled := replaced name
      rw [← chars] at spelled
      rw [same]
      exact congrArg Path.mk spelled
  · rw [dots]
    have nonempty : ['.', '.'] ≠ [] := by simp
    obtain ⟨sameRoot, steps⟩ := withSegments_concat parts nonempty (by decide)
    exact ⟨sameRoot, .up, steps, fun same => nomatch same⟩

/-- A path is the same with an extension just if its name has that extension, with something but a lone dot before
it. -/
theorem withExtension_eq_self_iff (noDot : '.' ∉ extension) :
    path.withExtension extension = path ↔
      ∃ stem, stem ≠ [] ∧ stem ≠ ['.'] ∧ path.fileName? = some (stem ++ '.' :: extension) := by
  obtain ⟨before, parts, rfl, plain⟩ := exists_segments_of_steps asks
  obtain ⟨start, chars, replaced⟩ := chars_withSegments_concat parts
  have spelled : path.withExtension extension = path ↔ renameExtension name extension = name := by
    rw [withExtension_of_segments plain parts]
    constructor
    · intro same
      have sameChars := congrArg Path.chars same
      rw [replaced, chars] at sameChars
      exact List.append_cancel_left sameChars
    · intro same
      rw [same]
      exact congrArg Path.mk ((replaced name).trans chars.symm)
  rw [spelled, renameExtension_eq_self_iff plain noDot, fileName?_of_segments plain parts]
  simp only [Option.some.injEq]

end ImportAtlas.Path
