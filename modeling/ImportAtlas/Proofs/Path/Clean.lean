import ImportAtlas.Path.Clean
import ImportAtlas.Proofs.Path.Names

/-! # Cleaning settles where segments lead

Cleaning an absolute path goes through its segments from the root of the file system: an idle segment
stays where it is, two dots drop the last name, and any other segment adds a name. Cleaning a relative
path does the same as long as there is a name to drop. So if it leaves no two dots in front, the names that
it leaves are found below every directory that the path is joined to.
-/

namespace ImportAtlas.Path

/-- Where a segment leads from an entry, if every entry is a directory and none a link. -/
def settleStep (names : List Name) (segment : List Char) : List Name :=
  match component? segment with
  | some (.name name) => names ++ [name]
  | some .up => names.dropLast
  | _ => names

/-- Where segments lead from an entry, one after the other. -/
def settle (names : List Name) (segments : List (List Char)) : List Name :=
  segments.foldl settleStep names

/-- What is on the stack of a cleaning that has come to an entry. -/
def stackOf (names : List Name) : List Component :=
  (names.map Component.name).reverse ++ [.root]

variable {names : List Name} {segments : List (List Char)}

theorem settleStep_of_isPlain {name : Name} (plain : IsPlain name) : settleStep names name = names ++ [name] := by
  rw [settleStep, component?_of_isPlain plain]

theorem settle_append (names : List Name) (first second : List (List Char)) :
    settle names (first ++ second) = settle (settle names first) second :=
  List.foldl_append

theorem settle_of_isPlain (plain : ∀ segment ∈ segments, IsPlain segment) :
    settle names segments = names ++ segments := by
  induction segments generalizing names with
  | nil => simp [settle]
  | cons segment rest ih =>
    obtain ⟨here, later⟩ := List.forall_mem_cons.mp plain
    rw [settle, List.foldl_cons, settleStep_of_isPlain here, ← settle, ih later, ← List.append_cons]

theorem isPlain_settle (plain : ∀ name ∈ names, IsPlain name) (noSlash : ∀ segment ∈ segments, '/' ∉ segment) :
    ∀ name ∈ settle names segments, IsPlain name := by
  induction segments generalizing names with
  | nil => exact plain
  | cons segment rest ih =>
    obtain ⟨here, later⟩ := List.forall_mem_cons.mp noSlash
    apply ih _ later
    intro name member
    rw [settleStep] at member
    rcases component?_cases segment with idle | dots | stands
    · rw [idle] at member
      exact plain name member
    · rw [dots] at member
      exact isPlain_dropLast plain name member
    · rw [stands] at member
      rcases List.mem_append.mp member with before | last
      · exact plain name before
      · rw [List.mem_singleton.mp last]
        exact isPlain_of_component? here stands

/-! ## Absolute paths -/

theorem cleanStep_up_stackOf (names : List Name) : cleanStep (stackOf names) .up = stackOf names.dropLast := by
  rcases List.eq_nil_or_concat names with rfl | ⟨before, last, rfl⟩
  · rfl
  · rw [List.concat_eq_append, List.dropLast_concat, stackOf, List.map_append, List.reverse_append]
    rfl

theorem cleanStep_name_stackOf (names : List Name) (name : Name) :
    cleanStep (stackOf names) (.name name) = stackOf (names ++ [name]) := by
  rw [stackOf, stackOf, List.map_append, List.reverse_append]
  cases (names.map Component.name).reverse <;> rfl

/-- Cleaning step by step comes to where the segments lead. -/
theorem foldl_cleanStep_stackOf (names : List Name) (segments : List (List Char)) :
    (segments.filterMap component?).foldl cleanStep (stackOf names) = stackOf (settle names segments) := by
  induction segments generalizing names with
  | nil => rfl
  | cons segment rest ih =>
    rw [settle, List.foldl_cons, ← settle, settleStep]
    rcases component?_cases segment with idle | dots | stands
    · rw [List.filterMap_cons_none idle, idle, ih]
    · rw [List.filterMap_cons_some dots, dots, List.foldl_cons, cleanStep_up_stackOf, ih]
    · rw [List.filterMap_cons_some stands, stands, List.foldl_cons, cleanStep_name_stackOf, ih]

theorem ofComponents_names (names : List Name) : ofComponents (.root :: names.map .name) = ofNames names := by
  cases names with
  | nil => rfl
  | cons name rest =>
    have spelled : (Component.name name :: rest.map .name).map Component.spell = name :: rest := by
      rw [List.map_cons, List.map_map]
      exact congrArg (name :: ·) (List.map_id rest)
    calc ofComponents (.root :: (name :: rest).map .name)
      _ = ⟨ofSegments ([] :: (Component.name name :: rest.map .name).map Component.spell)⟩ := rfl
      _ = ⟨ofSegments ([] :: name :: rest)⟩ := by rw [spelled]
      _ = ofNames (name :: rest) := congrArg Path.mk (ofSegments_cons [] (List.cons_ne_nil name rest))

theorem clean_ofNames (noSlash : ∀ segment ∈ segments, '/' ∉ segment) :
    (ofNames segments).clean = ofNames (settle [] segments) := by
  rw [clean, components_ofNames noSlash, cleanComponents, List.foldl_cons]
  have start : cleanStep [] .root = stackOf [] := rfl
  rw [start, foldl_cleanStep_stackOf, stackOf, List.reverse_append, List.reverse_reverse]
  exact ofComponents_names _

/-- A relative path that is joined to a directory and cleaned names where its segments lead from there. -/
theorem clean_join_ofNames (plain : ∀ name ∈ names, IsPlain name) {path : Path}
    (relative : path.isAbsolute = false) :
    ((ofNames names).join path).clean = ofNames (settle names (Path.segments path.chars)) := by
  have noSlash : ∀ segment ∈ names ++ Path.segments path.chars, '/' ∉ segment :=
    noSlash_append plain fun _ => noSlash_of_mem_segments
  rw [join_ofNames plain relative, clean_ofNames noSlash, settle_append, settle_of_isPlain plain,
    List.nil_append]

private theorem namesOnly?_concat_up (names : List Name) : namesOnly? (names.map .name ++ [.up]) = none := by
  induction names with
  | nil => rfl
  | cons name rest ih => rw [List.map_cons, List.cons_append, namesOnly?, ih, Option.map_none]

/-- The key of a path below a root is that of the place where its last segment settles, but a path with two
dots at its end has none. -/
theorem keyBelow?_ofNames_concat {root : List Name} (plainRoot : ∀ name ∈ root, IsPlain name)
    (plain : ∀ name ∈ names, IsPlain name) {segment : List Char} (noSlash : '/' ∉ segment) {key : String} :
    (ofNames root).keyBelow? (ofNames (root ++ (names ++ [segment]))) = some key ↔
      component? segment ≠ some .up ∧ settleStep names segment ≠ [] ∧ keyOf (settleStep names segment) = key := by
  have all := noSlash_append plain (List.forall_mem_singleton.mpr noSlash)
  rw [keyBelow?_ofNames_append plainRoot all, List.filterMap_append, filterMap_component?_of_isPlain plain,
    settleStep]
  rcases component?_cases segment with idle | dots | stands
  · rw [List.filterMap_cons_none idle, List.filterMap_nil, List.append_nil, namesOnly?_map_name, idle]
    simp
  · rw [List.filterMap_cons_some dots, List.filterMap_nil, namesOnly?_concat_up, dots]
    simp
  · have joined : names.map Component.name ++ [.name segment] = (names ++ [segment]).map .name := by simp
    rw [List.filterMap_cons_some stands, List.filterMap_nil, joined, namesOnly?_map_name, stands]
    simp

/-! ## Relative paths -/

@[simp] theorem cleanStep_here (stack : List Component) : cleanStep stack .here = stack := by
  cases stack <;> rfl

@[simp] theorem cleanStep_root (stack : List Component) : cleanStep stack .root = .root :: stack := by
  rcases stack with _ | ⟨_ | _ | _ | _, _⟩ <;> rfl

@[simp] theorem cleanStep_name (stack : List Component) (name : Name) :
    cleanStep stack (.name name) = .name name :: stack := by
  rcases stack with _ | ⟨_ | _ | _ | _, _⟩ <;> rfl

/-- Two dots at the bottom of the stack stay there. -/
theorem getLast?_cleanStep_of_up {stack : List Component} (bottom : stack.getLast? = some .up)
    (component : Component) : (cleanStep stack component).getLast? = some .up := by
  cases stack with
  | nil => cases bottom
  | cons top rest =>
    cases component with
    | here => rwa [cleanStep_here]
    | root => rwa [cleanStep_root, List.getLast?_cons_cons]
    | name name => rwa [cleanStep_name, List.getLast?_cons_cons]
    | up =>
      cases top with
      | root => exact bottom
      | here => exact bottom
      | up => exact bottom
      | name name =>
        cases rest with
        | nil => cases bottom
        | cons next rest => rwa [List.getLast?_cons_cons] at bottom

theorem getLast?_foldl_cleanStep_of_up {stack : List Component} (bottom : stack.getLast? = some .up)
    (components : List Component) : (components.foldl cleanStep stack).getLast? = some .up := by
  induction components generalizing stack with
  | nil => exact bottom
  | cons component rest ih => exact ih (getLast?_cleanStep_of_up bottom component)

/-- Unless two dots come to the bottom of the stack, nothing below the stack is touched. -/
theorem foldl_cleanStep_append {stack components : List Component} (below : List Component)
    (bottom : (components.foldl cleanStep stack).getLast? ≠ some .up) :
    components.foldl cleanStep (stack ++ below) = components.foldl cleanStep stack ++ below := by
  induction components generalizing stack with
  | nil => rfl
  | cons component rest ih =>
    rw [List.foldl_cons] at bottom ⊢
    have step : cleanStep (stack ++ below) component = cleanStep stack component ++ below := by
      cases component with
      | here => simp
      | root => simp
      | name name => simp
      | up =>
        cases stack with
        | nil => exact absurd (getLast?_foldl_cleanStep_of_up rfl rest) bottom
        | cons top stack => cases top <;> rfl
    rw [step, ih bottom, List.foldl_cons]

/-- The relative path with the given segments. -/
def relative (segments : List (List Char)) : Path :=
  ⟨ofSegments segments⟩

theorem isAbsolute_relative_cons {first : Name} (nonempty : first ≠ []) (noSlash : '/' ∉ first)
    (rest : List (List Char)) : (relative (first :: rest)).isAbsolute = false := by
  obtain ⟨c, chars, rfl⟩ := List.exists_cons_of_ne_nil nonempty
  have noSlash : c ≠ '/' := fun same => noSlash (same ▸ List.mem_cons_self)
  rw [relative, isAbsolute]
  cases rest with
  | nil => simp [noSlash]
  | cons next rest => simp [ofSegments_cons, noSlash]

/-- Joining a relative path to a directory of names adds its segments, and it is still relative. -/
theorem join_relative {directory : List Name} (plain : ∀ name ∈ directory, IsPlain name) {path : Path}
    (isRelative : path.isAbsolute = false) :
    (relative directory).join path = relative (directory ++ Path.segments path.chars) ∧
      (relative (directory ++ Path.segments path.chars)).isAbsolute = false := by
  rw [join, if_neg (by simp [isRelative])]
  rcases List.eq_nil_or_concat directory with rfl | ⟨before, last, rfl⟩
  · rw [if_pos (.inl rfl), List.nil_append, relative, relative, ofSegments_segments]
    exact ⟨rfl, isRelative⟩
  · rw [List.concat_eq_append] at plain ⊢
    have here := plain last (by simp)
    obtain ⟨first, rest, parts⟩ := List.exists_cons_of_ne_nil (show before ++ [last] ≠ [] by simp)
    have plainFirst := plain first (by simp [parts])
    have absolute := isAbsolute_relative_cons plainFirst.nonempty plainFirst.noSlash
      (rest ++ Path.segments path.chars)
    rw [← List.cons_append, ← parts] at absolute
    refine ⟨?_, absolute⟩
    obtain ⟨chars, spelled⟩ := exists_ofSegments_concat before
    have noSlash : (relative (before ++ [last])).chars.getLast? ≠ some '/' := by
      rw [relative, spelled]
      exact getLast?_ne_slash here.nonempty here.noSlash chars
    have someChars : (relative (before ++ [last])).chars ≠ [] := by
      rw [relative, spelled]
      simp [here.nonempty]
    rw [if_neg (not_or.mpr ⟨someChars, noSlash⟩), relative, relative,
      ofSegments_append (by simp) (segments_ne_nil _), ofSegments_segments]

/-- Whether a path that is joined to the directory with some names, and cleaned, begins with a name. Then
it denotes something below whatever these names are below, neither that itself nor anything above it. -/
def StaysBelow (directory : List Name) (path : Path) : Prop :=
  ∃ name rest, cleanComponents ((relative directory).join path).components = .name name :: rest

theorem cleanComponents_relative (nonempty : segments ≠ []) (noSlash : ∀ segment ∈ segments, '/' ∉ segment)
    (isRelative : (relative segments).isAbsolute = false) :
    cleanComponents (relative segments).components =
      ((segments.filterMap component?).foldl cleanStep []).reverse := by
  rw [components, isRelative, relative, segments_ofSegments nonempty noSlash, cleanComponents,
    if_neg Bool.false_ne_true]
  split
  · rw [List.foldl_cons, cleanStep_here]
  · rfl

/-- Where a path that stays below leads to is found below every root, at the same names. -/
theorem StaysBelow.exists_names {directory : List Name} (plain : ∀ name ∈ directory, IsPlain name) {path : Path}
    (isRelative : path.isAbsolute = false) (stays : StaysBelow directory path) :
    ∃ names, names ≠ [] ∧ (∀ name ∈ names, IsPlain name) ∧
      ∀ root, settle (root ++ directory) (Path.segments path.chars) = root ++ names := by
  obtain ⟨first, rest, begins⟩ := stays
  obtain ⟨joined, joinedRelative⟩ := join_relative plain isRelative
  have noSlash : ∀ segment ∈ directory ++ Path.segments path.chars, '/' ∉ segment :=
    noSlash_append plain fun _ => noSlash_of_mem_segments
  have nonempty : directory ++ Path.segments path.chars ≠ [] := by simp [segments_ne_nil]
  rw [joined, cleanComponents_relative nonempty noSlash joinedRelative] at begins
  generalize stack : ((directory ++ Path.segments path.chars).filterMap component?).foldl cleanStep [] = left
    at begins
  have bottom : left.getLast? ≠ some .up := by
    rw [← List.head?_reverse, begins]
    simp
  -- Cleaning below a root leaves the same, on top of the root.
  have onTop (root : List Name) : stackOf (settle root (directory ++ Path.segments path.chars)) =
      left ++ stackOf root := by
    rw [← foldl_cleanStep_stackOf, ← stack]
    exact foldl_cleanStep_append _ (stack ▸ bottom)
  let names := settle [] (directory ++ Path.segments path.chars)
  have spelled : names.map Component.name = left.reverse := by
    have bare : (names.map Component.name).reverse ++ [.root] = left ++ [.root] := onTop []
    exact List.reverse_eq_iff.mp (List.append_cancel_right bare)
  refine ⟨names, ?_, isPlain_settle (fun _ member => nomatch member) noSlash, ?_⟩
  · intro none
    rw [none, begins] at spelled
    cases spelled
  · intro root
    have below := onTop root
    rw [stackOf, stackOf, ← List.append_assoc] at below
    have reversed := congrArg List.reverse (List.append_cancel_right below)
    rw [List.reverse_append, List.reverse_reverse, List.reverse_reverse, ← spelled, ← List.map_append] at reversed
    rw [← settle_of_isPlain plain, ← settle_append]
    exact List.map_injective_iff.mpr (fun _ _ same => Component.name.inj same) reversed

end ImportAtlas.Path
