import ImportAtlas.Toml.Document

/-! # Values, keys and entries between gaps

Gaps around a value, a name or a whole line are passed over. What is left of an entry is its name, an equals sign
and its value.
-/

namespace ImportAtlas.Toml

variable {breaks : Bool} {tree : Tree} {trees gaps before after : List Tree}

/-- Whether trees are nothing but space. -/
def AreGaps (breaks : Bool) (trees : List Tree) : Prop :=
  ∀ tree ∈ trees, tree.isGap breaks = true

theorem AreGaps.all (areGaps : AreGaps breaks trees) : trees.all (·.isGap breaks) = true :=
  List.all_eq_true.mpr areGaps

theorem AreGaps.dropWhile (areGaps : AreGaps breaks trees) : trees.dropWhile (·.isGap breaks) = [] := by
  have dropped := @List.dropWhile_append_of_pos Tree _ _ [] areGaps
  rwa [List.append_nil] at dropped

theorem AreGaps.reverse (areGaps : AreGaps breaks trees) : AreGaps breaks trees.reverse :=
  fun tree member => areGaps tree (List.mem_reverse.mp member)

theorem dropGaps_append (areGaps : AreGaps breaks after)
    (ends : ∀ tree ∈ trees.getLast?, tree.isGap breaks = false) : dropGaps breaks (trees ++ after) = trees := by
  rw [dropGaps, List.reverse_append, List.dropWhile_append_of_pos areGaps.reverse]
  rw [← List.head?_reverse] at ends
  suffices kept : trees.reverse.dropWhile (·.isGap breaks) = trees.reverse by rw [kept, List.reverse_reverse]
  cases backwards : trees.reverse with
  | nil => rfl
  | cons tree trees =>
    rw [backwards] at ends
    exact List.dropWhile_cons_of_neg (by simp [ends tree rfl])

/-- Blanks at the two ends of trees are cut off. -/
theorem trimBlanks_append (gapsBefore : AreGaps false before) (gapsAfter : AreGaps false after)
    (starts : ∀ tree ∈ trees.head?, tree.isGap false = false)
    (ends : ∀ tree ∈ trees.getLast?, tree.isGap false = false) :
    trimBlanks (before ++ (trees ++ after)) = trees := by
  rw [trimBlanks, List.dropWhile_append_of_pos gapsBefore]
  cases trees with
  | nil =>
    rw [List.nil_append, gapsAfter.dropWhile]
    rfl
  | cons tree trees =>
    rw [List.cons_append, List.dropWhile_cons_of_neg (by simp [starts tree rfl])]
    exact dropGaps_append gapsAfter ends

theorem trimBlanks_of_areGaps (areGaps : AreGaps false trees) : trimBlanks trees = [] := by
  have trimmed : trimBlanks (trees ++ ([] ++ [])) = [] :=
    trimBlanks_append areGaps (List.forall_mem_nil _) nofun nofun
  rwa [List.append_nil, List.append_nil] at trimmed

/-! ## Values -/

theorem value?_append (areGaps : AreGaps breaks gaps) : value? breaks (gaps ++ trees) = value? breaks trees := by
  induction gaps with
  | nil => rfl
  | cons gap gaps ih =>
    obtain ⟨isGap, areGaps⟩ := List.forall_mem_cons.mp areGaps
    rw [List.cons_append, value?.eq_def]
    exact (if_pos isGap).trans (ih areGaps)

theorem value?_text {chars : List Char} {multiline : Bool} (areGaps : AreGaps breaks after) :
    value? breaks (.token (.text chars multiline) :: after) = some (.text chars) := by
  rw [value?.eq_def]
  exact (if_neg Bool.false_ne_true).trans (if_pos areGaps.all)

theorem value?_brackets {parts : List (List Tree)} (areGaps : AreGaps breaks after) :
    value? breaks (.brackets parts :: after) = (items? parts).map .array := by
  rw [value?.eq_def]
  exact (if_neg Bool.false_ne_true).trans (if_pos areGaps.all)

theorem value?_word {word : List Char} (isScalar : Toml.isScalar [.bare word] = true)
    (areGaps : AreGaps breaks after) : value? breaks (.token (.bare word) :: after) = some .scalar := by
  have alone : dropGaps breaks after = [] := by
    rw [dropGaps, areGaps.reverse.dropWhile]
    rfl
  have read : scalar? (.token (.bare word) :: dropGaps breaks after) = some .scalar := by
    rw [alone, scalar?]
    exact if_pos isScalar
  rw [value?.eq_def]
  exact (if_neg Bool.false_ne_true).trans read

theorem items?_gaps (areGaps : AreGaps true gaps) : items? [gaps] = some [] := by
  rw [items?, List.isEmpty_nil, Bool.true_and, if_pos areGaps.all]

/-- A part that holds a text is an item. -/
theorem items?_text {chars : List Char} {parts : List (List Tree)} (gapsBefore : AreGaps true before)
    (gapsAfter : AreGaps true after) :
    items? ((before ++ .token (.text chars false) :: after) :: parts) = (items? parts).map (.text chars :: ·) := by
  have noGap : (before ++ .token (.text chars false) :: after).all (·.isGap true) = false := by
    simp [Tree.isGap]
  rw [items?, noGap, Bool.and_false, if_neg Bool.false_ne_true, value?_append gapsBefore, value?_text gapsAfter]

/-! ## Entries -/

/-- A leaf that writes a name. -/
inductive IsName : Tree → KeyPart → Prop
  | bare (word : List Char) : IsName (.token (.bare word)) word
  | text (chars : List Char) : IsName (.token (.text chars false)) chars

theorem key?_of_isName {name : KeyPart} (isName : IsName tree name) (areGaps : AreGaps false gaps) :
    key? (tree :: gaps) = some [name] := by
  have noGap : tree.isGap false = false := by cases isName <;> rfl
  have trimmed : trimBlanks ([] ++ ([tree] ++ gaps)) = [tree] := by
    apply trimBlanks_append (List.forall_mem_nil _) areGaps
    all_goals
      rintro _ ⟨⟩
      exact noGap
  have noPeriod : ∀ other ∈ tree :: gaps, other.isPeriod = false := by
    rw [List.forall_mem_cons]
    refine ⟨by cases isName <;> rfl, ?_⟩
    intro other member
    have isGap := areGaps other member
    cases other with
    | token token => cases token <;> first | rfl | cases isGap
    | brackets => rfl
    | braces => rfl
  have read : keyPart? (tree :: gaps) = some name := by
    rw [List.nil_append, List.singleton_append] at trimmed
    rw [keyPart?, trimmed]
    cases isName <;> rfl
  rw [key?, List.splitOnP_eq_singleton noPeriod, List.mapM_cons, read]
  rfl

theorem assignment?_append {seen : List Tree} (noEquals : ∀ tree ∈ trees, tree ≠ .token .equals) :
    assignment? seen (trees ++ after) = assignment? (trees.reverse ++ seen) after := by
  induction trees generalizing seen with
  | nil => rfl
  | cons tree trees ih =>
    obtain ⟨here, later⟩ := List.forall_mem_cons.mp noEquals
    rw [List.cons_append, assignment?.eq_3 _ _ _ here, ih later, List.reverse_cons, List.append_assoc]
    rfl

/-- A name, an equals sign and a value are an entry. -/
theorem line?_of_entry {name : KeyPart} {key shown : Tree} {value : Value} {margin beforeEquals afterEquals : List Tree}
    (isName : IsName key name) (noGap : shown.isGap false = false) (gapsInMargin : AreGaps false margin)
    (gapsBefore : AreGaps false beforeEquals) (gapsAfter : AreGaps false afterEquals) (gapsAtEnd : AreGaps false after)
    (shows : value? false [shown] = some value) :
    line? (margin ++ ((key :: (beforeEquals ++ .token .equals :: (afterEquals ++ [shown]))) ++ after)) =
      some (.entry [name] value) := by
  have trimmed : trimBlanks (margin ++ ((key :: (beforeEquals ++ .token .equals :: (afterEquals ++ [shown]))) ++ after)) =
      key :: (beforeEquals ++ .token .equals :: (afterEquals ++ [shown])) := by
    refine trimBlanks_append gapsInMargin gapsAtEnd ?_ ?_
    · rintro _ ⟨⟩
      cases isName <;> rfl
    · rw [← List.cons_append, ← List.cons_append, ← List.append_assoc, List.getLast?_concat]
      rintro _ ⟨⟩
      exact noGap
  have noEquals : ∀ tree ∈ key :: beforeEquals, tree ≠ .token .equals := by
    rw [List.forall_mem_cons]
    refine ⟨by cases isName <;> exact nofun, ?_⟩
    rintro tree member rfl
    cases gapsBefore _ member
  have assigned : assignment? [] (key :: (beforeEquals ++ .token .equals :: (afterEquals ++ [shown]))) =
      some ([name], value) := by
    rw [← List.cons_append, assignment?_append noEquals, assignment?, List.append_nil, List.reverse_reverse,
      key?_of_isName isName gapsBefore, value?_append gapsAfter, shows]
  rw [line?, trimmed]
  cases isName <;> exact congrArg (Option.map _) assigned

theorem line?_of_areGaps (areGaps : AreGaps false trees) : line? trees = some .blank := by
  rw [line?, trimBlanks_of_areGaps areGaps]

end ImportAtlas.Toml
