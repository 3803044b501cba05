import ImportAtlas.Proofs.Path.NormalForm

/-! # What is added to a clean path

A clean path stays clean when an ending is added to its last component, since the two dots and the root become
names thereby, and when a name is added behind it, since no name is cleaned away before two dots follow. The dot
is the exception to the second: it is how no components at all are spelled, so it is dropped as soon as there is
a name behind it.
-/

namespace ImportAtlas.Path

variable {components : List Component} {last : Component} {name ending : List Char}

/-- Whether some components are those of a path: what segments stand for, behind the root if there is one. -/
def AreStanding (components : List Component) : Prop :=
  ∃ inner, (∀ component ∈ inner, IsInner component) ∧ (components = inner ∨ components = .root :: inner)

instance (segment : List Char) : Decidable (IsPlain segment) :=
  decidable_of_iff (segment ≠ [] ∧ '/' ∉ segment ∧ segment ≠ ['.'] ∧ segment ≠ ['.', '.'])
    ⟨fun ⟨nonempty, noSlash, noDot, noDots⟩ => ⟨nonempty, noSlash, noDot, noDots⟩,
      fun plain => ⟨plain.nonempty, plain.noSlash, plain.noDot, plain.noDots⟩⟩

theorem isInner_name (plain : IsPlain name) : IsInner (.name name) :=
  ⟨plain.noSlash, component?_of_isPlain plain⟩

theorem IsPlain.dots_append (plain : IsPlain ending) : IsPlain ('.' :: '.' :: ending) where
  nonempty := List.cons_ne_nil _ _
  noSlash := by simpa using plain.noSlash
  noDot := by simp
  noDots := by simpa using plain.nonempty

theorem IsPlain.dot_append (plain : IsPlain ending) : IsPlain ('.' :: ending) where
  nonempty := List.cons_ne_nil _ _
  noSlash := by simpa using plain.noSlash
  noDot := by simpa using plain.nonempty
  noDots := by simpa using plain.noDot

/-- An ending turns every component that is spelled into a name. -/
theorem IsInner.isPlain_append {component : Component} (inner : IsInner component) (plain : IsPlain ending) :
    IsPlain (Component.spell component ++ ending) := by
  cases component with
  | root => exact absurd rfl inner.spell_ne_nil
  | here => exact plain.dot_append
  | up => exact plain.dots_append
  | name name => exact (isPlain_of_component? inner.noSlash inner.stands).append plain.noSlash

/-! ## Components -/

theorem AreStanding.concat_name (standing : AreStanding components) (plain : IsPlain name) :
    AreStanding (components ++ [.name name]) := by
  obtain ⟨inner, all, same⟩ := standing
  refine ⟨inner ++ [.name name], ?_, ?_⟩
  · rw [List.forall_mem_append, List.forall_mem_singleton]
    exact ⟨all, isInner_name plain⟩
  · rcases same with rfl | rfl
    · exact .inl rfl
    · exact .inr rfl

theorem AreStanding.of_concat (standing : AreStanding (components ++ [last])) :
    components = [] ∧ last = .root ∨ AreStanding components ∧ IsInner last := by
  obtain ⟨inner, all, same | same⟩ := standing
  · rw [← same, List.forall_mem_append, List.forall_mem_singleton] at all
    exact .inr ⟨⟨components, all.1, .inl rfl⟩, all.2⟩
  · cases components with
    | nil => exact .inl ⟨rfl, (List.cons.inj same).1⟩
    | cons first rest =>
      obtain ⟨rfl, below⟩ := List.cons.inj same
      rw [← below, List.append_eq, List.forall_mem_append, List.forall_mem_singleton] at all
      exact .inr ⟨⟨rest, all.1, .inr rfl⟩, all.2⟩

theorem cleanComponents_concat_name (components : List Component) (name : Name) :
    cleanComponents (components ++ [.name name]) = cleanComponents components ++ [.name name] := by
  rw [cleanComponents, List.foldl_concat, cleanStep_name, List.reverse_cons, ← cleanComponents]

/-- What cleaning leaves as it is begins with what cleaning leaves as it is. -/
theorem cleanComponents_of_concat (cleaned : cleanComponents (components ++ [last]) = components ++ [last]) :
    cleanComponents components = components := by
  have step : (cleanComponents (components ++ [last])).Sublist (cleanComponents components ++ [last]) := by
    rw [cleanComponents, List.foldl_concat, cleanComponents, ← List.reverse_cons]
    exact (cleanStep_sublist _ last).reverse
  rw [cleaned, List.append_sublist_append_right] at step
  exact (cleanComponents_sublist components).antisymm step

/-! ## Spelling -/

/-- A clean path is spelled by components that cleaning leaves as they are. -/
theorem exists_components_of_clean (path : Path) :
    ∃ components, AreStanding components ∧ cleanComponents components = components ∧
      path.clean = ofComponents components := by
  refine ⟨cleanComponents path.bareComponents, exists_isInner_of_sublist (cleanComponents_sublist _),
    cleanComponents_cleanComponents _, ?_⟩
  rw [clean, cleanComponents_components]

theorem ofComponents_concat (components : List Component) (inner : IsInner last) :
    ofComponents (components ++ [last]) =
      ⟨ofSegments (components.map Component.spell ++ [Component.spell last])⟩ := by
  have notRoot : last ≠ .root := by
    rintro rfl
    exact inner.spell_ne_nil rfl
  rw [← List.map_singleton, ← List.map_append, ofComponents.eq_def]
  split
  case h_1 empty => simp at empty
  case h_2 root => simp [List.append_eq_singleton_iff, notRoot] at root
  case h_3 => rfl

theorem extend_ofComponents_concat (components : List Component) (inner : IsInner last) (plain : IsPlain ending) :
    (ofComponents (components ++ [last])).extend ending =
      ofComponents (components ++ [.name (Component.spell last ++ ending)]) := by
  obtain ⟨before, spelled⟩ := exists_ofSegments_concat (components.map Component.spell)
  have extended := ofComponents_concat components (isInner_name (inner.isPlain_append plain))
  rw [extended, ofComponents_concat components inner, spelled, spelled, extend, List.append_assoc]
  rfl

/-- Behind the root, a name is an ending. -/
theorem extend_root (plain : IsPlain name) :
    (ofComponents [.root]).extend name = ofComponents ([.root] ++ [.name name]) := by
  have spelled : ofSegments [[], name] = '/' :: name :=
    (ofSegments_cons [] (List.cons_ne_nil name [])).trans (by rw [ofSegments_singleton, List.nil_append])
  rw [ofComponents_concat [.root] (isInner_name plain)]
  exact congrArg Path.mk spelled.symm

theorem join_ofComponents (standing : AreStanding components) (nonempty : components ≠ []) (plain : IsPlain name) :
    (ofComponents components).join ⟨name⟩ = ofComponents (components ++ [.name name]) := by
  have relative : (Path.mk name).isAbsolute = false := isAbsolute_of_noSlash plain.noSlash
  rw [join, if_neg (by simp [relative])]
  obtain ⟨before, last, rfl⟩ := (List.eq_nil_or_concat components).resolve_left nonempty
  rw [List.concat_eq_append] at standing ⊢
  rcases standing.of_concat with ⟨rfl, rfl⟩ | ⟨-, inner⟩
  · rw [if_pos (.inr rfl)]
    exact extend_root plain
  · obtain ⟨start, spelled⟩ := exists_ofSegments_concat (before.map Component.spell)
    have noSlash : (start ++ Component.spell last).getLast? ≠ some '/' :=
      getLast?_ne_slash inner.spell_ne_nil inner.noSlash start
    have someChars : start ++ Component.spell last ≠ [] := by simp [inner.spell_ne_nil]
    have longer : ofSegments ((before ++ [last]).map Component.spell ++ [name]) =
        start ++ Component.spell last ++ '/' :: name := by
      rw [ofSegments_append (by simp) (by simp), List.map_append, List.map_singleton, spelled, ofSegments_singleton]
    rw [ofComponents_concat before inner, spelled, if_neg (not_or.mpr ⟨someChars, noSlash⟩),
      ofComponents_concat (before ++ [last]) (isInner_name plain)]
    exact congrArg Path.mk longer.symm

/-! ## Clean paths -/

/-- The plainest path with components that cleaning leaves as they are, and a name behind them, is clean. -/
theorem clean_ofComponents_concat (standing : AreStanding components)
    (cleaned : cleanComponents components = components) (plain : IsPlain name) :
    (ofComponents (components ++ [.name name])).clean = ofComponents (components ++ [.name name]) := by
  have listed : (ofComponents (components ++ [.name name])).bareComponents = components ++ [.name name] := by
    obtain ⟨inner, all, same | same⟩ := standing.concat_name plain
    · rw [same, bareComponents_ofComponents all]
    · rw [same, bareComponents_ofComponents_root all]
  rw [clean, cleanComponents_components, listed, cleanComponents_concat_name, cleaned]

/-- A name by itself is clean. -/
theorem clean_of_isPlain (plain : IsPlain name) : (Path.mk name).clean = ⟨name⟩ := by
  have spelled : ofComponents [.name name] = ⟨name⟩ :=
    (ofComponents_concat [] (isInner_name plain)).trans (congrArg Path.mk (ofSegments_singleton name))
  have nothing : AreStanding [] := ⟨[], List.forall_mem_nil _, .inl rfl⟩
  rw [← spelled]
  exact clean_ofComponents_concat nothing rfl plain

/-- A clean path with an ending is clean. -/
theorem clean_extend (path : Path) (plain : IsPlain ending) :
    (path.clean.extend ending).clean = path.clean.extend ending := by
  obtain ⟨components, standing, cleaned, spelled⟩ := exists_components_of_clean path
  rw [spelled]
  rcases List.eq_nil_or_concat components with rfl | ⟨before, last, rfl⟩
  · exact clean_of_isPlain plain.dot_append
  rw [List.concat_eq_append] at standing cleaned ⊢
  rcases standing.of_concat with ⟨rfl, rfl⟩ | ⟨standingBefore, inner⟩
  · rw [List.nil_append, extend_root plain]
    exact clean_ofComponents_concat standing cleaned plain
  · rw [extend_ofComponents_concat before inner plain]
    exact clean_ofComponents_concat standingBefore (cleanComponents_of_concat cleaned) (inner.isPlain_append plain)

/-- A clean path with a name behind it is clean, unless it is the dot. -/
theorem clean_join_name {path : Path} (noDot : path.clean ≠ ⟨['.']⟩) (plain : IsPlain name) :
    (path.clean.join ⟨name⟩).clean = path.clean.join ⟨name⟩ := by
  obtain ⟨components, standing, cleaned, spelled⟩ := exists_components_of_clean path
  rw [spelled] at noDot ⊢
  have nonempty : components ≠ [] := by
    rintro rfl
    exact noDot rfl
  rw [join_ofComponents standing nonempty plain]
  exact clean_ofComponents_concat standing cleaned plain

/-- Behind a dot, cleaning leaves the name alone. -/
theorem clean_dot_join (plain : IsPlain name) : ((Path.mk ['.']).join ⟨name⟩).clean = ⟨name⟩ := by
  have relative : (Path.mk name).isAbsolute = false := isAbsolute_of_noSlash plain.noSlash
  have nothing : (Path.mk ['.']).clean = (Path.mk []).clean := by decide
  have joined : (Path.mk []).join ⟨name⟩ = ⟨name⟩ := by simp [join, relative]
  rw [clean_join_congr relative relative nothing rfl, joined, clean_of_isPlain plain]

/-- An ending of a relative path may be added before or after joining. -/
theorem extend_join (root : Path) (relative : (Path.mk name).isAbsolute = false)
    (extendedRelative : (Path.mk (name ++ ending)).isAbsolute = false) :
    (root.join ⟨name⟩).extend ending = root.join ⟨name ++ ending⟩ := by
  simp only [join, relative, extendedRelative, Bool.false_eq_true, if_false]
  split <;> simp [extend]

end ImportAtlas.Path
