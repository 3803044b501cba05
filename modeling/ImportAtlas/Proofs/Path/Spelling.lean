import ImportAtlas.Proofs.Path.Clean
import Mathlib.Data.List.Induction
import Mathlib.Logic.Relation

/-! # Spellings of a path

A path may be spelled with slashes and dots that are no components. Two paths have the same components just if
each becomes the other when such slashes and dots are added and dropped.

The key of a path below a root depends on the components only. There is one if, up to its spelling, the path is
the root joined with some names, and then these names are the key. Only the empty root is an exception, since it
is also the start of a path that begins with a dot.
-/

namespace ImportAtlas.Path

/-- A spelling, and the same with a slash or a dot more that is no component. -/
inductive Pads : List Char → List Char → Prop
  /-- A slash is repeated. -/
  | slash (before after : List Char) : Pads (before ++ '/' :: after) (before ++ '/' :: '/' :: after)
  /-- A dot stands between two slashes. -/
  | dot (before after : List Char) : Pads (before ++ '/' :: after) (before ++ '/' :: '.' :: '/' :: after)
  /-- A slash stands at the end. -/
  | slashAtEnd {chars : List Char} (nonempty : chars ≠ []) : Pads chars (chars ++ ['/'])
  /-- A dot stands at the end, behind a slash. -/
  | dotAtEnd (before : List Char) : Pads (before ++ ['/']) (before ++ ['/', '.'])

/-- Whether a path becomes another one when slashes and dots that are no components are added and dropped. -/
def IsSpellingOf (path other : Path) : Prop :=
  Relation.EqvGen Pads path.chars other.chars

/-! ## Components -/

/-- What stands behind a slash adds the components that its segments stand for. -/
theorem components_append_slash (before after : List Char) :
    (Path.mk (before ++ '/' :: after)).components =
      (Path.mk (before ++ ['/'])).components ++ (segments after).filterMap component? := by
  have head (rest : List Char) : (before ++ '/' :: rest).head? = (before ++ ['/']).head? := by
    cases before <;> rfl
  have first (rest : List Char) : (segments (before ++ '/' :: rest)).head? = (segments before).head? := by
    rw [segments_append_slash, List.head?_append_of_ne_nil _ (segments_ne_nil before)]
  have idle : (segments []).filterMap component? = [] := rfl
  rw [components, components, isAbsolute, isAbsolute, head, first, first, segments_append_slash,
    segments_append_slash, List.filterMap_append, List.filterMap_append, idle, List.append_nil]
  dsimp only
  split_ifs <;> rfl

theorem components_concat_slash {chars : List Char} (nonempty : chars ≠ []) :
    (Path.mk (chars ++ ['/'])).components = (Path.mk chars).components := by
  have head : (chars ++ ['/']).head? = chars.head? := List.head?_append_of_ne_nil _ nonempty
  have first : (segments (chars ++ ['/'])).head? = (segments chars).head? := by
    rw [segments_append_slash, List.head?_append_of_ne_nil _ (segments_ne_nil chars)]
  have idle : (segments []).filterMap component? = [] := rfl
  rw [components, components, isAbsolute, isAbsolute, head, first, segments_append_slash, List.filterMap_append, idle,
    List.append_nil]

theorem Pads.components_eq {chars longer : List Char} (pads : Pads chars longer) :
    (Path.mk chars).components = (Path.mk longer).components := by
  cases pads with
  | slash before after =>
    have parts : segments ('/' :: after) = [] :: segments after := segments_append_slash [] after
    rw [components_append_slash, components_append_slash before ('/' :: after), parts]
    rfl
  | dot before after =>
    have parts : segments ('.' :: '/' :: after) = ['.'] :: segments after := segments_append_slash ['.'] after
    rw [components_append_slash, components_append_slash before ('.' :: '/' :: after), parts]
    rfl
  | slashAtEnd nonempty => exact (components_concat_slash nonempty).symm
  | dotAtEnd before =>
    rw [components_append_slash before ['.']]
    exact (List.append_nil _).symm

theorem IsSpellingOf.components_eq {path other : Path} (spelling : path.IsSpellingOf other) :
    path.components = other.components := by
  obtain ⟨chars⟩ := path
  obtain ⟨others⟩ := other
  change Relation.EqvGen Pads chars others at spelling
  induction spelling with
  | rel chars longer pads => exact pads.components_eq
  | refl chars => rfl
  | symm chars others _ ih => exact ih.symm
  | trans chars between others _ _ first second => exact first.trans second

/-! ## The shortest spelling -/

/-- The spelling of components that has no slash and no dot too many. -/
def shortest (components : List Component) : List Char :=
  if components = [.root] then ['/'] else ofSegments (components.map Component.spell)

theorem shortest_concat {components : List Component} (last : Component) (some : components ≠ [])
    (deep : components ≠ [.root]) :
    shortest (components ++ [last]) = shortest components ++ '/' :: Component.spell last := by
  have long : components ++ [last] ≠ [.root] := by simp [List.append_eq_singleton_iff, some]
  rw [shortest, shortest, if_neg deep, if_neg long, List.map_append, ofSegments_append (by simpa using some) (by simp),
    List.map_singleton, ofSegments_singleton]

theorem shortest_root_concat (last : Component) : shortest ([.root] ++ [last]) = '/' :: Component.spell last := by
  rw [shortest, if_neg (by simp), List.singleton_append, List.map_cons, ofSegments_cons _ (by simp), List.map_singleton,
    ofSegments_singleton]
  rfl

theorem spell_of_component? {segment : List Char} {component : Component}
    (stands : component? segment = some component) : Component.spell component = segment := by
  rw [component?] at stands
  split_ifs at stands with idle dots
  · cases stands
    exact dots.symm
  · cases stands
    rfl

/-- Only the empty path has no components. -/
theorem components_eq_nil_iff {path : Path} : path.components = [] ↔ path.chars = [] := by
  constructor
  · intro empty
    obtain ⟨first, rest, parts⟩ := List.exists_cons_of_ne_nil (segments_ne_nil path.chars)
    have spelled : path.chars = ofSegments (first :: rest) := by rw [← parts, ofSegments_segments]
    rw [components, parts] at empty
    split_ifs at empty with absolute dot
    rw [List.filterMap_eq_nil_iff] at empty
    have idle := empty first List.mem_cons_self
    rw [component?] at idle
    split_ifs at idle with isIdle
    obtain rfl : first = [] := isIdle.resolve_right (by simpa using dot)
    cases rest with
    | nil => exact spelled
    | cons next more =>
      rw [ofSegments_cons [] (List.cons_ne_nil next more)] at spelled
      simp [isAbsolute, spelled] at absolute
  · intro empty
    obtain ⟨chars⟩ := path
    obtain rfl : chars = [] := empty
    rfl

/-- What stands behind a slash does not mind how the path before it is spelled. -/
theorem eqvGen_append_slash {chars others : List Char} (spelling : Relation.EqvGen Pads chars others)
    (after : List Char) : Relation.EqvGen Pads (chars ++ '/' :: after) (others ++ '/' :: after) := by
  induction spelling with
  | refl chars => exact .refl _
  | symm chars others _ ih => exact .symm _ _ ih
  | trans chars between others _ _ first second => exact .trans _ _ _ first second
  | rel chars longer pads =>
    cases pads with
    | slash before later =>
      have padded := Pads.slash before (later ++ '/' :: after)
      exact .rel _ _ (by simpa using padded)
    | dot before later =>
      have padded := Pads.dot before (later ++ '/' :: after)
      exact .rel _ _ (by simpa using padded)
    | slashAtEnd nonempty =>
      have padded := Pads.slash chars after
      exact .rel _ _ (by simpa using padded)
    | dotAtEnd before =>
      have withSlash := Pads.slash before after
      have withDot := Pads.dot before after
      rw [List.append_assoc, List.append_assoc]
      exact .trans _ _ _ (.symm _ _ (.rel _ _ withSlash)) (.rel _ _ withDot)

/-- A slash or a dot at the end is dropped. -/
theorem eqvGen_idle {before last : List Char} (nonempty : before ≠ []) (idle : component? last = none) :
    Relation.EqvGen Pads (before ++ '/' :: last) before := by
  have slash : Relation.EqvGen Pads (before ++ ['/']) before := .symm _ _ (.rel _ _ (.slashAtEnd nonempty))
  rw [component?] at idle
  split_ifs at idle with isIdle
  rcases isIdle with rfl | rfl
  · exact slash
  · exact .trans _ _ _ (.symm _ _ (.rel _ _ (.dotAtEnd before))) slash

/-- A segment alone has no slash and no dot too many. -/
theorem shortest_of_noSlash {last : List Char} (noSlash : '/' ∉ last) : shortest (Path.mk last).components = last := by
  rw [components, isAbsolute_of_noSlash noSlash, segments_of_noSlash noSlash, if_neg Bool.false_ne_true]
  split_ifs with dot
  · obtain rfl : last = ['.'] := by simpa using dot
    rfl
  · cases stands : component? last with
    | none =>
      rw [component?] at stands
      split_ifs at stands with idle
      obtain rfl : last = [] := idle.resolve_right (by simpa using dot)
      rfl
    | some component =>
      have notRoot : component ≠ .root := by
        rintro rfl
        rcases component?_cases last with idle | up | name
        · cases idle.symm.trans stands
        · cases up.symm.trans stands
        · cases name.symm.trans stands
      rw [List.filterMap_cons_some stands, List.filterMap_nil, shortest, if_neg (by simpa using notRoot),
        List.map_singleton, ofSegments_singleton, spell_of_component? stands]

/-- If a path is a spelling of the shortest one with its components, so is the path with one segment more. -/
theorem eqvGen_shortest_append {before last : List Char} (noSlash : '/' ∉ last)
    (spelling : Relation.EqvGen Pads before (shortest (Path.mk before).components)) :
    Relation.EqvGen Pads (before ++ '/' :: last) (shortest (Path.mk (before ++ '/' :: last)).components) := by
  rw [components_append_slash, segments_of_noSlash noSlash]
  by_cases empty : before = []
  · subst empty
    have root : (Path.mk ([] ++ ['/'])).components = [.root] := rfl
    cases stands : component? last with
    | some component =>
      rw [root, List.filterMap_cons_some stands, List.filterMap_nil, shortest_root_concat, spell_of_component? stands]
      exact .refl _
    | none =>
      rw [root, List.filterMap_cons_none stands, List.filterMap_nil, List.append_nil]
      rw [component?] at stands
      split_ifs at stands with idle
      rcases idle with rfl | rfl
      · exact .refl _
      · exact .symm _ _ (.rel _ _ (.dotAtEnd []))
  · rw [components_concat_slash empty]
    cases stands : component? last with
    | none =>
      rw [List.filterMap_cons_none stands, List.filterMap_nil, List.append_nil]
      exact .trans _ _ _ (eqvGen_idle empty stands) spelling
    | some component =>
      have longer := eqvGen_append_slash spelling last
      rw [List.filterMap_cons_some stands, List.filterMap_nil]
      by_cases top : (Path.mk before).components = [.root]
      · -- The slash of the root is not repeated in front of the segment.
        rw [top] at longer ⊢
        rw [shortest_root_concat, spell_of_component? stands]
        exact .trans _ _ _ longer (.symm _ _ (.rel _ _ (.slash [] last)))
      · rw [shortest_concat component (mt components_eq_nil_iff.mp empty) top, spell_of_component? stands]
        exact longer

/-- Every path is a spelling of the shortest one with its components. -/
theorem isSpellingOf_shortest (path : Path) : path.IsSpellingOf ⟨shortest path.components⟩ := by
  have ofParts {parts : List (List Char)} (nonempty : parts ≠ []) (noSlash : ∀ part ∈ parts, '/' ∉ part) :
      Relation.EqvGen Pads (ofSegments parts) (shortest (Path.mk (ofSegments parts)).components) := by
    induction parts using List.reverseRecOn with
    | nil => exact absurd rfl nonempty
    | append_singleton front last ih =>
      rw [List.forall_mem_append, List.forall_mem_singleton] at noSlash
      by_cases alone : front = []
      · subst alone
        rw [List.nil_append, ofSegments_singleton, shortest_of_noSlash noSlash.2]
        exact .refl _
      · rw [ofSegments_append alone (by simp), ofSegments_singleton]
        exact eqvGen_shortest_append noSlash.2 (ih alone noSlash.1)
  have whole := ofParts (segments_ne_nil path.chars) fun _ => noSlash_of_mem_segments
  rwa [ofSegments_segments] at whole

/-- Paths are spellings of one another just if they have the same components. -/
theorem isSpellingOf_iff {path other : Path} : path.IsSpellingOf other ↔ path.components = other.components := by
  constructor
  · exact IsSpellingOf.components_eq
  · intro same
    have first := path.isSpellingOf_shortest
    rw [same] at first
    exact .trans _ _ _ first (.symm _ _ other.isSpellingOf_shortest)

/-! ## Keys -/

variable {root path : Path} {names : List Name} {key : String}

/-- Joining names adds them to the components. -/
theorem components_join (root : Path) (nonempty : names ≠ []) (plain : ∀ name ∈ names, IsPlain name) :
    (root.join ⟨ofSegments names⟩).components = root.components ++ names.map .name := by
  have inner : (segments (ofSegments names)).filterMap component? = names.map .name := by
    rw [segments_ofSegments nonempty (noSlash_of_isPlain plain), filterMap_component?_of_isPlain plain]
  obtain ⟨first, rest, rfl⟩ := List.exists_cons_of_ne_nil nonempty
  have here := plain first List.mem_cons_self
  have relative : (Path.mk (ofSegments (first :: rest))).isAbsolute = false :=
    isAbsolute_relative_cons here.nonempty here.noSlash rest
  rw [join, relative, if_neg Bool.false_ne_true]
  split_ifs with ends
  · rcases ends with empty | slash
    · have dot : (segments (ofSegments (first :: rest))).head? ≠ some ['.'] := by
        rw [segments_ofSegments nonempty (noSlash_of_isPlain plain)]
        simpa using here.noDot
      rw [components_eq_nil_iff.mpr empty, empty, List.nil_append, List.nil_append, components, relative, if_neg dot,
        if_neg Bool.false_ne_true, inner]
    · obtain ⟨stem, spelled⟩ := List.getLast?_eq_some_iff.mp slash
      obtain ⟨chars⟩ := root
      obtain rfl : chars = stem ++ ['/'] := spelled
      rw [← List.append_cons, components_append_slash, inner]
  · rw [not_or] at ends
    rw [components_append_slash, components_concat_slash ends.1, inner]

theorem component?_ne_here (segment : List Char) : component? segment ≠ some .here := by
  rcases component?_cases segment with idle | up | name
  · simp [idle]
  · simp [up]
  · simp [name]

/-- Only the first component of a path can be a dot. -/
theorem here_notMem_of_append {before rest : List Component} (split : path.components = before ++ rest)
    (nonempty : before ≠ []) : .here ∉ rest := by
  have inner : .here ∉ (segments path.chars).filterMap component? := by
    rw [List.mem_filterMap]
    rintro ⟨segment, -, stands⟩
    exact component?_ne_here segment stands
  obtain ⟨first, before, rfl⟩ := List.exists_cons_of_ne_nil nonempty
  intro member
  have behind : .here ∈ before ++ rest := List.mem_append_right _ member
  rw [components] at split
  split_ifs at split
  · rw [List.cons_append, List.cons.injEq] at split
    exact inner (split.2 ▸ behind)
  · rw [List.cons_append, List.cons.injEq] at split
    exact inner (split.2 ▸ behind)
  · exact inner (split ▸ List.mem_cons_of_mem _ behind)

theorem isPlain_of_mem_components {name : Name} (member : .name name ∈ path.components) : IsPlain name := by
  have inner : .name name ∈ (segments path.chars).filterMap component? := by
    rw [components] at member
    split_ifs at member <;> simpa using member
  obtain ⟨segment, inside, stands⟩ := List.mem_filterMap.mp inner
  obtain rfl : name = segment := spell_of_component? stands
  exact isPlain_of_component? (noSlash_of_mem_segments inside) stands

/-- A path has a key below a root if it is spelled as the root joined with the names that the key is made of. Below
the empty root it may also begin with a dot. -/
theorem keyBelow?_eq_some_iff : root.keyBelow? path = some key ↔
    ∃ names, names ≠ [] ∧ (∀ name ∈ names, IsPlain name) ∧ key = keyOf names ∧
      (path.IsSpellingOf (root.join ⟨ofSegments names⟩) ∨
        root.chars = [] ∧ path.IsSpellingOf ((Path.mk ['.']).join ⟨ofSegments names⟩)) := by
  rw [keyBelow?_eq_some_iff_components]
  constructor
  · rintro ⟨rest, names, split, only, nonempty, rfl⟩
    have plain : ∀ name ∈ names, IsPlain name := by
      intro name member
      have listed : Component.name name ∈ rest.filter (· != .here) := only ▸ List.mem_map_of_mem member
      have behind : Component.name name ∈ path.components :=
        split ▸ List.mem_append_right _ (List.mem_of_mem_filter listed)
      exact isPlain_of_mem_components behind
    refine ⟨names, nonempty, plain, rfl, ?_⟩
    rw [isSpellingOf_iff, isSpellingOf_iff, components_join root nonempty plain, components_join _ nonempty plain, split]
    have keeps {list : List Component} (noDot : .here ∉ list) : list.filter (· != .here) = list :=
      List.filter_eq_self.mpr fun component member => bne_iff_ne.mpr fun same => noDot (same ▸ member)
    by_cases empty : root.chars = []
    · rw [components_eq_nil_iff.mpr empty, List.nil_append] at split ⊢
      cases rest with
      | nil => exact absurd (List.map_eq_nil_iff.mp only.symm) nonempty
      | cons first rest =>
        have noDot : .here ∉ rest := @here_notMem_of_append path [first] rest split (by simp)
        by_cases dot : first = .here
        · subst dot
          rw [List.filter_cons_of_neg (by simp), keeps noDot] at only
          exact .inr ⟨empty, congrArg (Component.here :: ·) only⟩
        · rw [List.filter_cons_of_pos (by simpa using dot), keeps noDot] at only
          exact .inl only
    · have noDot := here_notMem_of_append split (mt components_eq_nil_iff.mp empty)
      rw [keeps noDot] at only
      exact .inl (congrArg _ only)
  · rintro ⟨names, nonempty, plain, rfl, spelled⟩
    rw [isSpellingOf_iff, isSpellingOf_iff, components_join root nonempty plain,
      components_join _ nonempty plain] at spelled
    rcases spelled with behind | ⟨empty, behind⟩
    · exact ⟨_, names, behind, filter_map_name names, nonempty, rfl⟩
    · have dot : (Path.mk ['.']).components = [.here] := rfl
      rw [dot] at behind
      refine ⟨.here :: names.map .name, names, ?_, ?_, nonempty, rfl⟩
      · rw [components_eq_nil_iff.mpr empty]
        exact behind
      · rw [List.filter_cons_of_neg (by simp), filter_map_name]

/-- Every spelling of a root joined with names has these names as its key. Conversely, a key consists of names, and
the root joined with it has the same key; so other names give another key. There is no key for a path that does not
begin with the components of the root, for the root itself, and for a path with two dots behind the root. -/
theorem keyBelow?_names_path (root : Path) :
    (∀ names, names ≠ [] → (∀ name ∈ names, IsPlain name) →
      ∀ path : Path, path.IsSpellingOf (root.join ⟨ofSegments names⟩) → root.keyBelow? path = some (keyOf names)) ∧
    (∀ path key, root.keyBelow? path = some key →
      (∀ name ∈ namesOf key, IsPlain name) ∧ root.keyBelow? (root.join ⟨key.toList⟩) = some key ∧
        (path.IsSpellingOf (root.join ⟨key.toList⟩) ∨
          root.chars = [] ∧ path.IsSpellingOf ((Path.mk ['.']).join ⟨key.toList⟩))) ∧
    (∀ names others, names ≠ [] → others ≠ [] → (∀ name ∈ names, IsPlain name) → (∀ name ∈ others, IsPlain name) →
      root.keyBelow? (root.join ⟨ofSegments names⟩) = root.keyBelow? (root.join ⟨ofSegments others⟩) →
        names = others) ∧
    (∀ path : Path, ¬root.components <+: path.components → root.keyBelow? path = none) ∧
    (∀ path : Path, path.IsSpellingOf root → root.keyBelow? path = none) ∧
    ∀ (path : Path) rest, path.components = root.components ++ rest → .up ∈ rest → root.keyBelow? path = none := by
  have found {names : List Name} (nonempty : names ≠ []) (plain : ∀ name ∈ names, IsPlain name) {path : Path}
      (spelled : path.IsSpellingOf (root.join ⟨ofSegments names⟩)) : root.keyBelow? path = some (keyOf names) :=
    keyBelow?_eq_some_iff.mpr ⟨names, nonempty, plain, rfl, .inl spelled⟩
  -- Without a key there are no names behind the root.
  have refused {path : Path}
      (noNames : ∀ rest names, path.components = root.components ++ rest →
        rest.filter (· != .here) = names.map Component.name → names = []) : root.keyBelow? path = none := by
    rw [Option.eq_none_iff_forall_ne_some]
    intro key hasKey
    obtain ⟨rest, names, split, only, nonempty, -⟩ := keyBelow?_eq_some_iff_components.mp hasKey
    exact nonempty (noNames rest names split only)
  refine ⟨fun _ nonempty plain _ => found nonempty plain, ?_, ?_, ?_, ?_, ?_⟩
  · intro path key hasKey
    obtain ⟨names, nonempty, plain, rfl, spelled⟩ := keyBelow?_eq_some_iff.mp hasKey
    have text : (keyOf names).toList = ofSegments names := String.toList_ofList
    rw [namesOf_keyOf nonempty (noSlash_of_isPlain plain), text]
    exact ⟨plain, found nonempty plain (.refl _), spelled⟩
  · intro names others someNames someOthers plain plainOthers same
    rw [found someNames plain (.refl _), found someOthers plainOthers (.refl _), Option.some.injEq] at same
    rw [← namesOf_keyOf someNames (noSlash_of_isPlain plain), same,
      namesOf_keyOf someOthers (noSlash_of_isPlain plainOthers)]
  · intro path elsewhere
    refine refused fun rest names split _ => ?_
    exact absurd ⟨rest, split.symm⟩ elsewhere
  · intro path spelled
    refine refused fun rest names split only => ?_
    rw [spelled.components_eq, List.self_eq_append_right] at split
    rw [split] at only
    exact List.map_eq_nil_iff.mp only.symm
  · intro path behind split up
    refine refused fun rest names split' only => ?_
    obtain rfl : rest = behind := List.append_cancel_left (split'.symm.trans split)
    have listed : Component.up ∈ names.map .name := only ▸ List.mem_filter.mpr ⟨up, rfl⟩
    obtain ⟨name, -, other⟩ := List.mem_map.mp listed
    cases other

/-- A root that goes into a directory and out of it again is matched component by component, and a root does not
match a longer name. -/
theorem keyBelow?_names_path_of_winding_root :
    (ofString "./x//.././a//b/.").IsSpellingOf ((ofString "./x/..").join ⟨ofSegments ["a".toList, "b".toList]⟩) ∧
      (ofString "./x/..").keyBelow? (ofString "./x//.././a//b/.") = some (keyOf ["a".toList, "b".toList]) ∧
      ¬(ofString "/project").components <+: (ofString "/project2/a").components ∧
      (ofString "/project").keyBelow? (ofString "/project2/a") = none := by
  have plain : ∀ name ∈ ["a".toList, "b".toList], IsPlain name := by
    simp only [List.forall_mem_cons]
    exact ⟨⟨by decide, by decide, by decide, by decide⟩, ⟨by decide, by decide, by decide, by decide⟩,
      List.forall_mem_nil _⟩
  have spelled : (ofString "./x//.././a//b/.").IsSpellingOf
      ((ofString "./x/..").join ⟨ofSegments ["a".toList, "b".toList]⟩) := isSpellingOf_iff.mpr (by decide)
  have elsewhere : ¬(ofString "/project").components <+: (ofString "/project2/a").components := by decide
  exact ⟨spelled, (keyBelow?_names_path _).1 _ (by decide) plain _ spelled, elsewhere,
    (keyBelow?_names_path _).2.2.2.1 _ elsewhere⟩

end ImportAtlas.Path
