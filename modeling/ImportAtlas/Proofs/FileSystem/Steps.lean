import ImportAtlas.Proofs.FileSystem.Resolve

/-! # The steps of joined paths and of their parents

A path that is joined with a name asks for one step more. Its parent asks for the same steps as the path that
the name was joined to, but for dots at the end, which stay where they are.
-/

namespace ImportAtlas.Path

variable {root path : Path} {name : Name}

/-- What the segments of a path ask for, without the slash at its end. -/
def innerSteps (path : Path) : List Step :=
  (segments path.chars).filterMap step?

/-- The spelling of a path after the slash of the root. -/
def charsBelow (path : Path) : List Char :=
  if path.isAbsolute then path.chars.tail else path.chars

theorem chars_of_isAbsolute (absolute : path.isAbsolute = true) : path.chars = '/' :: path.charsBelow := by
  rw [charsBelow, if_pos absolute]
  rw [isAbsolute, beq_iff_eq] at absolute
  exact (List.cons_head?_tail absolute).symm

theorem chars_eq (path : Path) :
    path.chars = if path.isAbsolute then '/' :: path.charsBelow else path.charsBelow := by
  split
  case isTrue absolute => exact chars_of_isAbsolute absolute
  case isFalse relative => rw [charsBelow, if_neg relative]

/-- The slash of the root asks for no step. -/
theorem innerSteps_eq (path : Path) : path.innerSteps = (segments path.charsBelow).filterMap step? := by
  rw [innerSteps, chars_eq]
  split
  case isTrue absolute =>
    have parts : segments ('/' :: path.charsBelow) = segments [] ++ segments path.charsBelow :=
      segments_append_slash [] _
    rw [parts, List.filterMap_append]
    rfl
  case isFalse => rfl

/-! ## Joining -/

section Join

variable (relative : (Path.mk name).isAbsolute = false)

include relative

/-- A name is joined with a slash unless there is one already or nothing to join it to. -/
theorem exists_chars_join (root : Path) : ∃ glue, (root.join ⟨name⟩).chars = root.chars ++ (glue ++ name) ∧
    (glue = ['/'] ∨ glue = [] ∧ (root.chars = [] ∨ root.chars.getLast? = some '/')) := by
  rw [join, relative, if_neg Bool.false_ne_true]
  split
  case isTrue ends => exact ⟨[], rfl, .inr ⟨rfl, ends⟩⟩
  case isFalse => exact ⟨['/'], rfl, .inl rfl⟩

theorem isAbsolute_join (root : Path) : (root.join ⟨name⟩).isAbsolute = root.isAbsolute := by
  obtain ⟨glue, joined, ends⟩ := exists_chars_join relative root
  rw [isAbsolute, isAbsolute, joined]
  cases spelled : root.chars with
  | cons c rest => rfl
  | nil =>
    rcases ends with rfl | ⟨rfl, -⟩
    · rw [join, relative, if_neg Bool.false_ne_true, if_pos (.inl spelled), spelled] at joined
      have long := congrArg List.length joined
      simp at long
    · exact relative

theorem exists_charsBelow_join (root : Path) : ∃ glue,
    (root.join ⟨name⟩).charsBelow = root.charsBelow ++ (glue ++ name) ∧
    (glue = ['/'] ∨ glue = [] ∧ (root.charsBelow = [] ∨ root.charsBelow.getLast? = some '/')) := by
  obtain ⟨glue, joined, ends⟩ := exists_chars_join relative root
  refine ⟨glue, ?_, ?_⟩
  · rw [chars_eq, chars_eq root, isAbsolute_join relative root] at joined
    split at joined
    · exact List.cons_injective joined
    · exact joined
  · rw [chars_eq] at ends
    split at ends
    · refine ends.imp_right (And.imp_right ?_)
      cases root.charsBelow <;> simp [List.getLast?_cons_cons]
    · exact ends

end Join

/-- Joining a name adds it to the segments, and those before it ask for what the path asked for. -/
theorem exists_segments_join (plain : IsPlain name) (root : Path) :
    ∃ before, segments (root.join ⟨name⟩).charsBelow = before ++ [name] ∧
      before.filterMap step? = root.innerSteps := by
  obtain ⟨glue, joined, ends⟩ := exists_charsBelow_join (isAbsolute_of_noSlash plain.noSlash) root
  have last : segments name = [name] := segments_of_noSlash plain.noSlash
  rw [joined, innerSteps_eq]
  rcases ends with rfl | ⟨rfl, empty | slash⟩
  · refine ⟨segments root.charsBelow, ?_, rfl⟩
    rw [List.singleton_append, segments_append_slash, last]
  · refine ⟨[], ?_, ?_⟩
    · rw [empty, List.nil_append, List.nil_append, last, List.nil_append]
    · rw [empty]
      rfl
  · obtain ⟨stem, spelled⟩ := List.getLast?_eq_some_iff.mp slash
    refine ⟨segments stem, ?_, ?_⟩
    · rw [spelled, List.nil_append, ← List.append_cons, segments_append_slash, last]
    · rw [spelled, segments_append_slash, List.filterMap_append]
      exact (List.append_nil _).symm

/-- A path that is joined with a name asks for one step more. -/
theorem steps_join (plain : IsPlain name) (root : Path) :
    (root.join ⟨name⟩).steps = root.innerSteps ++ [.name name] := by
  obtain ⟨before, parts, asks⟩ := exists_segments_join plain root
  obtain ⟨glue, joined, -⟩ := exists_chars_join (isAbsolute_of_noSlash plain.noSlash) root
  have noSlash : (root.join ⟨name⟩).chars.getLast? ≠ some '/' := by
    rw [joined, ← List.append_assoc]
    exact getLast?_ne_slash plain.nonempty plain.noSlash _
  rw [steps, ← innerSteps, if_neg noSlash, List.append_nil, innerSteps_eq, parts, List.filterMap_append, asks,
    List.filterMap_cons_some (FileSystem.step?_of_isPlain plain), List.filterMap_nil]

/-! ## Parents -/

/-- Only idle segments are dropped. -/
theorem exists_dropIdle (absolute : Bool) (segments : List (List Char)) :
    ∃ idle, segments = idle ++ dropIdle absolute segments ∧ ∀ segment ∈ idle, segment = [] ∨ segment = ['.'] := by
  induction segments with
  | nil => exact ⟨[], rfl, fun _ member => nomatch member⟩
  | cons segment earlier ih =>
    obtain ⟨idle, parts, all⟩ := ih
    rw [dropIdle]
    split
    case isTrue drops =>
      refine ⟨segment :: idle, by rw [List.cons_append, ← parts], ?_⟩
      exact List.forall_mem_cons.mpr ⟨drops.imp_right And.left, all⟩
    case isFalse => exact ⟨[], rfl, fun _ member => nomatch member⟩

theorem ofSegments_begins {first second : List (List Char)} (begins : first <+: second) :
    ofSegments first <+: ofSegments second := by
  obtain ⟨rest, rfl⟩ := begins
  by_cases none : first = []
  · subst none
    exact List.nil_prefix
  by_cases last : rest = []
  · simp [last]
  · rw [ofSegments_append none last]
    exact List.prefix_append _ _

theorem isAbsolute_of_begins {parent : Path} (begins : parent.chars <+: path.chars) (some : parent.chars ≠ []) :
    parent.isAbsolute = path.isAbsolute := by
  obtain ⟨rest, parts⟩ := begins
  rw [isAbsolute, isAbsolute, ← parts, List.head?_append_of_ne_nil _ some]

/-- The path with the same root as another one and with the given segments. -/
def withSegments (path : Path) (segments : List (List Char)) : Path :=
  ⟨if path.isAbsolute then '/' :: ofSegments segments else ofSegments segments⟩

theorem backwards_of_segments {before : List (List Char)} (plain : IsPlain name)
    (parts : segments path.charsBelow = before ++ [name]) : path.backwards = name :: before.reverse := by
  rw [Path.backwards, ← charsBelow, parts, List.reverse_concat, dropIdle, if_neg]
  rintro (empty | ⟨dot, -⟩)
  · exact plain.nonempty empty
  · exact plain.noDot dot

/-- Dropping a name at the end of a path drops the idle segments before it as well. -/
theorem exists_parent? {before : List (List Char)} (plain : IsPlain name)
    (parts : segments path.charsBelow = before ++ [name]) :
    ∃ outer idle, before = outer ++ idle ∧ (∀ segment ∈ idle, segment = [] ∨ segment = ['.']) ∧
      path.parent? = some (path.withSegments outer) := by
  have backwards := backwards_of_segments plain parts
  obtain ⟨idle, dropped, all⟩ := exists_dropIdle path.isAbsolute before.reverse
  refine ⟨(dropIdle path.isAbsolute before.reverse).reverse, idle.reverse, ?_, ?_, ?_⟩
  · rw [← List.reverse_append, ← dropped, List.reverse_reverse]
  · exact fun segment member => all segment (List.mem_reverse.mp member)
  · rw [parent?, backwards]
    rfl

section WithSegments

variable {outer : List (List Char)} (begins : outer <+: segments path.charsBelow)

include begins

theorem withSegments_begins : (path.withSegments outer).chars <+: path.chars := by
  have inside : ofSegments outer <+: path.charsBelow := by
    rw [← ofSegments_segments path.charsBelow]
    exact ofSegments_begins begins
  rw [chars_eq path, withSegments]
  split
  · exact (List.prefix_cons_inj _).mpr inside
  · exact inside

theorem innerSteps_withSegments (some : (path.withSegments outer).chars ≠ []) :
    (path.withSegments outer).innerSteps = outer.filterMap step? := by
  have below : (path.withSegments outer).charsBelow = ofSegments outer := by
    rw [charsBelow, isAbsolute_of_begins (withSegments_begins begins) some, withSegments]
    split <;> rfl
  rw [innerSteps_eq, below]
  by_cases none : outer = []
  · rw [none]
    rfl
  · rw [segments_ofSegments none fun segment member => noSlash_of_mem_segments (begins.subset member)]

end WithSegments

/-- The parent of a path that is joined with a name is spelled as the path begins. Unless it is empty, it asks
for the steps of what the name was joined to, apart from dots at the end. -/
theorem exists_parent?_join (plain : IsPlain name) (root : Path) :
    ∃ parent, (root.join ⟨name⟩).parent? = some parent ∧ parent.chars <+: (root.join ⟨name⟩).chars ∧
      (parent.chars ≠ [] → ∃ idle, root.innerSteps = parent.innerSteps ++ idle ∧ ∀ step ∈ idle, step = .here) := by
  obtain ⟨before, parts, asks⟩ := exists_segments_join plain root
  obtain ⟨outer, idle, rfl, all, found⟩ := exists_parent? plain parts
  have begins : outer <+: segments (root.join ⟨name⟩).charsBelow := by
    rw [parts, List.append_assoc]
    exact List.prefix_append _ _
  refine ⟨_, found, withSegments_begins begins, ?_⟩
  intro some
  refine ⟨idle.filterMap step?, ?_, ?_⟩
  · rw [← asks, List.filterMap_append, innerSteps_withSegments begins some]
  · intro step member
    obtain ⟨segment, inside, asked⟩ := List.mem_filterMap.mp member
    rcases all segment inside with rfl | rfl
    · cases asked
    · cases asked
      rfl

end ImportAtlas.Path
