import ImportAtlas.Proofs.FileSystem.Steps
import ImportAtlas.Proofs.Path.Clean
import Mathlib.Data.List.Induction
import Mathlib.Logic.Relation

/-! # Cleaning is a normal form

What is left after cleaning is cleaned no further, and cleaning what is left does on every stack what
cleaning all of it does. So the clean form of a joined path depends on the clean forms of its two parts only,
however many names the one part drops from the other. Segments that lead nowhere, and a name with the two
dots that go back from it, do not show in the clean form.
-/

namespace ImportAtlas.Path

/-! ## Components -/

/-- Two dots stay on the stack, or are dropped on the root, or take a name with them. -/
theorem cleanStep_up_cases (stack : List Component) :
    cleanStep stack .up = .up :: stack ∨
      (∃ below, stack = .root :: below ∧ cleanStep stack .up = stack) ∨
      ∃ name below, stack = .name name :: below ∧ cleanStep stack .up = below := by
  rcases stack with _ | ⟨_ | _ | _ | name, below⟩
  · exact .inl rfl
  · exact .inr (.inl ⟨below, rfl, rfl⟩)
  · exact .inl rfl
  · exact .inl rfl
  · exact .inr (.inr ⟨name, below, rfl, rfl⟩)

theorem cleanStep_sublist (stack : List Component) (component : Component) :
    (cleanStep stack component).Sublist (component :: stack) := by
  cases component with
  | here => exact cleanStep_here stack ▸ List.sublist_cons_self _ _
  | root => rw [cleanStep_root]
  | name name => rw [cleanStep_name]
  | up =>
    rcases cleanStep_up_cases stack with stays | ⟨below, -, dropped⟩ | ⟨name, below, rfl, taken⟩
    · rw [stays]
    · rw [dropped]
      exact List.sublist_cons_self _ _
    · rw [taken]
      exact (List.sublist_cons_self _ _).trans (List.sublist_cons_self _ _)

theorem foldl_cleanStep_sublist (components stack : List Component) :
    (components.foldl cleanStep stack).Sublist (components.reverse ++ stack) := by
  induction components generalizing stack with
  | nil => exact List.Sublist.refl _
  | cons component rest ih =>
    rw [List.foldl_cons, List.reverse_cons, List.append_assoc, List.singleton_append]
    exact (ih _).trans ((cleanStep_sublist stack component).append_left _)

/-- Cleaning adds nothing and changes no order. -/
theorem cleanComponents_sublist (components : List Component) :
    (cleanComponents components).Sublist components := by
  have left := (foldl_cleanStep_sublist components []).reverse
  rwa [List.append_nil, List.reverse_reverse] at left

/-- On every stack, cleaned components do what the components did. -/
theorem foldl_cleanStep_cleanComponents (components stack : List Component) :
    (cleanComponents components).foldl cleanStep stack = components.foldl cleanStep stack := by
  induction components using List.reverseRecOn with
  | nil => rfl
  | append_singleton earlier last ih =>
    rw [cleanComponents] at ih ⊢
    rw [List.foldl_concat, List.foldl_concat, ← ih]
    cases last with
    | here => rw [cleanStep_here, cleanStep_here]
    | root => rw [cleanStep_root, List.reverse_cons, List.foldl_concat]
    | name name => rw [cleanStep_name, List.reverse_cons, List.foldl_concat]
    | up =>
      -- The root or the name that is on top of the cleaned components comes on top of the stack as well.
      rcases cleanStep_up_cases (earlier.foldl cleanStep []) with stays | ⟨below, top, dropped⟩ |
        ⟨name, below, top, taken⟩
      · rw [stays, List.reverse_cons, List.foldl_concat]
      · rw [dropped, top, List.reverse_cons, List.foldl_concat, cleanStep_root, cleanStep]
      · rw [taken, top, List.reverse_cons, List.foldl_concat, cleanStep_name, cleanStep]

theorem cleanComponents_append (first second : List Component) :
    cleanComponents (first ++ second) = cleanComponents (cleanComponents first ++ cleanComponents second) := by
  rw [cleanComponents, cleanComponents, List.foldl_append, List.foldl_append, foldl_cleanStep_cleanComponents,
    foldl_cleanStep_cleanComponents]

theorem cleanComponents_cleanComponents (components : List Component) :
    cleanComponents (cleanComponents components) = cleanComponents components := by
  rw [cleanComponents, foldl_cleanStep_cleanComponents, ← cleanComponents]

/-! ## Paths -/

variable {path other root : Path}

/-- The components of a path, without the dot that a relative one may start with. -/
def bareComponents (path : Path) : List Component :=
  let inner := (segments path.chars).filterMap component?
  if path.isAbsolute then .root :: inner else inner

theorem cleanComponents_components (path : Path) :
    cleanComponents path.components = cleanComponents path.bareComponents := by
  rw [components, bareComponents]
  split
  · rfl
  · split
    · rw [cleanComponents, List.foldl_cons, cleanStep_here, ← cleanComponents]
    · rfl

/-- A component that is what some segment stands for, and so what its own spelling stands for. -/
structure IsInner (component : Component) : Prop where
  noSlash : '/' ∉ Component.spell component
  stands : component? (Component.spell component) = some component

theorem IsInner.spell_ne_nil {component : Component} (inner : IsInner component) :
    Component.spell component ≠ [] := by
  intro empty
  have stands := inner.stands
  rw [empty] at stands
  cases stands

theorem isInner_of_component? {segment : List Char} (noSlash : '/' ∉ segment) {component : Component}
    (stands : component? segment = some component) : IsInner component := by
  rcases component?_cases segment with idle | dots | plain
  · cases idle.symm.trans stands
  · cases dots.symm.trans stands
    exact ⟨by decide, rfl⟩
  · cases plain.symm.trans stands
    exact ⟨noSlash, plain⟩

section Inner

variable {components : List Component} (inner : ∀ component ∈ components, IsInner component)

include inner

theorem noSlash_of_isInner : ∀ segment ∈ components.map Component.spell, '/' ∉ segment := by
  intro segment member
  obtain ⟨component, inside, rfl⟩ := List.mem_map.mp member
  exact (inner component inside).noSlash

theorem filterMap_component?_of_isInner : (components.map Component.spell).filterMap component? = components := by
  rw [List.filterMap_map]
  calc components.filterMap (component? ∘ Component.spell)
    _ = components.filterMap some := List.filterMap_congr fun component member => (inner component member).stands
    _ = components := List.filterMap_some

/-- The plainest path with some components has these and no others. -/
theorem bareComponents_ofComponents : (ofComponents components).bareComponents = components := by
  cases components with
  | nil => rfl
  | cons first rest =>
    have here := inner first List.mem_cons_self
    have spelled : ofComponents (first :: rest) = relative ((first :: rest).map Component.spell) := by
      cases first with
      | root => exact absurd rfl here.spell_ne_nil
      | _ => rfl
    have isRelative : (relative ((first :: rest).map Component.spell)).isAbsolute = false :=
      isAbsolute_relative_cons here.spell_ne_nil here.noSlash _
    rw [spelled, bareComponents, isRelative, relative, segments_ofSegments (by simp) (noSlash_of_isInner inner),
      filterMap_component?_of_isInner inner]
    rfl

theorem bareComponents_ofComponents_root :
    (ofComponents (.root :: components)).bareComponents = .root :: components := by
  have spelled : ofComponents (.root :: components) = ofNames (components.map Component.spell) := by
    cases components with
    | nil => rfl
    | cons first rest => exact congrArg Path.mk (ofSegments_cons [] (by simp))
  have listed := components_ofNames (noSlash_of_isInner inner)
  rw [filterMap_component?_of_isInner inner] at listed
  rw [spelled, ← listed]
  rfl

end Inner

/-- Behind the root, if there is one, a path has components that segments stand for. -/
theorem exists_isInner_of_sublist {components : List Component} (part : components.Sublist path.bareComponents) :
    ∃ inner, (∀ component ∈ inner, IsInner component) ∧ (components = inner ∨ components = .root :: inner) := by
  have listed : ∀ component ∈ (segments path.chars).filterMap component?, IsInner component := by
    intro component member
    obtain ⟨segment, inside, stands⟩ := List.mem_filterMap.mp member
    exact isInner_of_component? (noSlash_of_mem_segments inside) stands
  rw [bareComponents] at part
  split at part
  · rcases List.sublist_cons_iff.mp part with below | ⟨inner, rfl, below⟩
    · exact ⟨components, fun component member => listed component (below.subset member), .inl rfl⟩
    · exact ⟨inner, fun component member => listed component (below.subset member), .inr rfl⟩
  · exact ⟨components, fun component member => listed component (part.subset member), .inl rfl⟩

/-- The clean form of a path consists of what is left after cleaning. -/
theorem bareComponents_clean (path : Path) : path.clean.bareComponents = cleanComponents path.bareComponents := by
  rw [clean, cleanComponents_components]
  obtain ⟨inner, all, same | same⟩ := exists_isInner_of_sublist (cleanComponents_sublist path.bareComponents)
  · rw [same, bareComponents_ofComponents all]
  · rw [same, bareComponents_ofComponents_root all]

theorem clean_eq_clean_iff :
    path.clean = other.clean ↔ cleanComponents path.bareComponents = cleanComponents other.bareComponents := by
  constructor
  · intro same
    rw [← bareComponents_clean, same, bareComponents_clean]
  · intro same
    rw [clean, clean, cleanComponents_components, same, ← cleanComponents_components]

/-- A clean form is clean. -/
theorem clean_clean (path : Path) : path.clean.clean = path.clean := by
  rw [clean_eq_clean_iff, bareComponents_clean, cleanComponents_cleanComponents]

/-- Joining a relative path adds its components. -/
theorem bareComponents_join {added : List Char} (relative : (Path.mk added).isAbsolute = false) (root : Path) :
    (root.join ⟨added⟩).bareComponents = root.bareComponents ++ (Path.mk added).bareComponents := by
  have listed : (segments (root.join ⟨added⟩).chars).filterMap component? =
      (segments root.chars).filterMap component? ++ (segments added).filterMap component? := by
    obtain ⟨glue, joined, ends⟩ := exists_chars_join relative root
    rw [joined]
    rcases ends with rfl | ⟨rfl, empty | slash⟩
    · rw [List.singleton_append, segments_append_slash, List.filterMap_append]
    · rw [empty]
      rfl
    · obtain ⟨stem, spelled⟩ := List.getLast?_eq_some_iff.mp slash
      rw [spelled, List.nil_append, ← List.append_cons, segments_append_slash, segments_append_slash,
        List.filterMap_append, List.filterMap_append]
      exact congrArg (· ++ _) (List.append_nil _).symm
  rw [bareComponents, bareComponents, bareComponents, isAbsolute_join relative root, relative, listed]
  split <;> rfl

/-- The clean form of a joined path depends on the clean forms of its parts only. -/
theorem clean_join_congr {added otherAdded : List Char} (relative : (Path.mk added).isAbsolute = false)
    (otherRelative : (Path.mk otherAdded).isAbsolute = false) (sameRoot : root.clean = other.clean)
    (sameAdded : (Path.mk added).clean = (Path.mk otherAdded).clean) :
    (root.join ⟨added⟩).clean = (other.join ⟨otherAdded⟩).clean := by
  rw [clean_eq_clean_iff] at sameRoot sameAdded ⊢
  rw [bareComponents_join relative, bareComponents_join otherRelative, cleanComponents_append, sameRoot, sameAdded,
    ← cleanComponents_append]

/-! ## Segments that lead nowhere -/

/-- Segments that lead nowhere: what stands between two slashes in a row or after the last one, a dot, and a
name with the two dots that go back from it. -/
inductive IsIdle : List (List Char) → Prop
  | slash : IsIdle [[]]
  | dot : IsIdle [['.']]
  | back {name : Name} (plain : IsPlain name) : IsIdle [name, ['.', '.']]

/-- Whether a path is spelled as another one is, but for segments that lead nowhere. -/
def Abridges (path long : Path) : Prop :=
  path.isAbsolute = long.isAbsolute ∧ ∃ before idle after, IsIdle idle ∧
    segments path.chars = before ++ after ∧ segments long.chars = before ++ (idle ++ after)

/-- Whether a path becomes another one when segments that lead nowhere are added and dropped. -/
def Respells : Path → Path → Prop :=
  Relation.EqvGen Abridges

theorem IsIdle.foldl_cleanStep {idle : List (List Char)} (isIdle : IsIdle idle) (stack : List Component) :
    (idle.filterMap component?).foldl cleanStep stack = stack := by
  cases isIdle with
  | slash => rfl
  | dot => rfl
  | back plain =>
    have dots : component? ['.', '.'] = some .up := rfl
    rw [List.filterMap_cons_some (component?_of_isPlain plain), List.filterMap_cons_some dots, List.foldl_cons,
      cleanStep_name]
    rfl

theorem Abridges.clean_eq (abridges : path.Abridges other) : path.clean = other.clean := by
  obtain ⟨sameRoot, before, idle, after, isIdle, short, long⟩ := abridges
  have left (stack : List Component) :
      ((segments path.chars).filterMap component?).foldl cleanStep stack =
        ((segments other.chars).filterMap component?).foldl cleanStep stack := by
    rw [short, long]
    simp only [List.filterMap_append, List.foldl_append, isIdle.foldl_cleanStep]
  rw [clean_eq_clean_iff, bareComponents, bareComponents, sameRoot]
  split
  · exact congrArg List.reverse (left [.root])
  · exact congrArg List.reverse (left [])

theorem Respells.clean_eq (respells : path.Respells other) : path.clean = other.clean := by
  induction respells with
  | rel path other abridges => exact abridges.clean_eq
  | refl path => rfl
  | symm path other _ ih => exact ih.symm
  | trans path between other _ _ first second => exact first.trans second

end ImportAtlas.Path
