import ImportAtlas.Settings

/-! # Which names settings single out

A name is ignored if it is listed as it is. Whether it is that of a source file depends on what
follows its last dot, so a name without a dot never is.
-/

namespace ImportAtlas.Settings

variable {settings : Settings} {name : List Char}

theorem isIgnored_eq_false_iff :
    settings.isIgnored name = false ↔ String.ofList name ∉ settings.ignoredNames := by
  simp [isIgnored]

private theorem ending?_append {stem ending : List Char} (noDot : '.' ∉ ending) :
    ending? (stem ++ '.' :: ending) = some ending := by
  have undotted : ∀ c ∈ ending.reverse, (c != '.') = true := by
    intro c member
    rw [List.mem_reverse] at member
    simpa using fun same : c = '.' => noDot (same ▸ member)
  simp [ending?, List.takeWhile_append_of_pos undotted]

/-- Whether the text after the last dot of a name is one of the endings of source files. -/
def HasSourceEnding (settings : Settings) (name : List Char) : Prop :=
  ∃ stem ending, name = stem ++ '.' :: ending ∧ '.' ∉ ending ∧
    String.ofList ending ∈ settings.sourceEndings

/-- Source files are told by the text after the last dot. -/
theorem isSource_iff : settings.isSource name ↔ settings.HasSourceEnding name := by
  constructor
  · intro source
    by_cases dotted : '.' ∈ name
    · obtain ⟨ending, stem, reversed, noDot⟩ := List.eq_append_cons_of_mem (List.mem_reverse.mpr dotted)
      obtain rfl : name = stem.reverse ++ '.' :: ending.reverse := by
        have forwards := congrArg List.reverse reversed
        simpa using forwards
      rw [isSource, ending?_append (by simpa using noDot)] at source
      exact ⟨_, _, rfl, by simpa using noDot, by simpa using source⟩
    · simp [isSource, ending?, dotted] at source
  · rintro ⟨stem, ending, rfl, noDot, listed⟩
    rw [isSource, ending?_append noDot]
    simpa using listed

/-- A name with the ending of a source file that is more than a dot has two characters at least. -/
theorem HasSourceEnding.two_le_length (source : settings.HasSourceEnding name) (noDot : name ≠ ['.']) :
    2 ≤ name.length := by
  obtain ⟨stem, ending, rfl, -⟩ := source
  cases stem with
  | cons first rest =>
    rw [List.length_append, List.length_cons, List.length_cons]
    omega
  | nil =>
    cases ending with
    | nil => exact absurd rfl noDot
    | cons first rest => exact Nat.le_add_left 2 rest.length

end ImportAtlas.Settings
