import ImportAtlas.Proofs.Graph.Order
import ImportAtlas.Proofs.Source.Owner

/-! # What the tables and the nodes of a survey say

The level of an entry, the directory that holds it and the module that owns it can all be read off its
key. A survey has them from other places: the level from the depth of the walk, the number of the
directory from the numbers given so far, the module from the segments of the key alone. They fit together
because a walk visits a directory before what it holds, so that no directory is missing when it is looked
up, and keeps what it has found.
-/

namespace ImportAtlas

/-- How many slashes a key has. -/
def slashes (key : String) : Nat :=
  key.toList.count '/'

/-- Whether `directory` is the part of `key` before its last slash. -/
def IsHeldBy (key directory : String) : Prop :=
  ∃ name, '/' ∉ name ∧ key.toList = directory.toList ++ '/' :: name

theorem slashes_add_one (key : String) : slashes key + 1 = (namesOf key).length :=
  Path.count_slash_add_one _

theorem isHeldBy_iff {key directory : String} :
    IsHeldBy key directory ↔ ∃ name, namesOf key = namesOf directory ++ [name] := by
  constructor
  · rintro ⟨name, noSlash, spelled⟩
    refine ⟨name, ?_⟩
    rw [namesOf, spelled, Path.segments_append_slash, Path.segments_of_noSlash noSlash, namesOf]
  · rintro ⟨name, names⟩
    refine ⟨name, ?_, ?_⟩
    · have inside : name ∈ Path.segments key.toList := by
        rw [← namesOf, names]
        simp
      exact Path.noSlash_of_mem_segments inside
    · rw [← Path.ofSegments_segments key.toList, ← namesOf, names,
        Path.ofSegments_append (namesOf_ne_nil directory) (by simp), Path.ofSegments_singleton, namesOf,
        Path.ofSegments_segments]

namespace Survey

/-- A node that is kept under a number says of its file what the tables say. -/
structure Records (survey : Survey) (id : Id) (node : Node) : Prop where
  sameId : node.id = id
  numbered : survey.numbering.id? node.key = some id
  level : survey.numbering.level? id = some node.level
  /-- A file right below the root has no parent. -/
  atTop : '/' ∉ node.key.toList → node.parents = []
  /-- The parent of any other file is the directory that holds it. -/
  held {directory : String} : IsHeldBy node.key directory →
    ∃ parent, survey.numbering.id? directory = some parent ∧ node.parents = [parent]
  /-- The owning module is an entry that was numbered before the file, or the file itself. -/
  owned {owner : String} : node.owner = some owner →
    ∃ number, survey.numbering.id? owner = some number ∧ number ≤ id

/-- The tables and the nodes of a survey fit together. -/
structure IsCoherent (survey : Survey) : Prop where
  /-- Each key stands in the table once. -/
  unique : Table.HasUniqueKeys survey.numbering.ids
  /-- The keys are numbered from one. -/
  numbers {place : Nat} {entry : String × Id} : survey.numbering.ids[place]? = some entry → entry.2 = place + 1
  /-- The numbers that have a level are those of the keys, and it is how many slashes the key has. -/
  levels : survey.numbering.levels = survey.numbering.ids.map fun entry => (entry.2, slashes entry.1)
  /-- What holds an entry has a smaller number, lies one level above it and has no node. -/
  held {key directory : String} {id : Id} : IsHeldBy key directory → survey.numbering.id? key = some id →
    ∃ outer level, survey.numbering.id? directory = some outer ∧ outer < id ∧
      survey.numbering.level? outer = some level ∧ survey.numbering.level? id = some (level + 1) ∧
      outer ∉ survey.nodes.map (·.1)
  nodes {id : Id} {node : Node} : (id, node) ∈ survey.nodes → survey.Records id node

/-- Different keys have different numbers. -/
theorem IsCoherent.eq_of_id? {survey : Survey} (coherent : survey.IsCoherent) {first second : String} {id : Id}
    (numbered : survey.numbering.id? first = some id) (also : survey.numbering.id? second = some id) :
    first = second := by
  rw [Numbering.id?, Table.lookup_eq_some_iff coherent.unique] at numbered also
  obtain ⟨place, here⟩ := List.mem_iff_getElem?.mp numbered
  obtain ⟨other, there⟩ := List.mem_iff_getElem?.mp also
  have number : id = place + 1 := coherent.numbers here
  have otherNumber : id = other + 1 := coherent.numbers there
  obtain rfl : place = other := Nat.succ.inj (number.symm.trans otherNumber)
  exact congrArg Prod.fst (Option.some.inj (here.symm.trans there))

/-! ## Visits and what they leave -/

/-- Each visit to an entry of a directory below the root comes after a visit to that directory. -/
def ParentsFirst (visits : List Visit) : Prop :=
  ∀ before visit after, visits = before ++ visit :: after → visit.names.dropLast ≠ [] →
    visit.names.dropLast ∈ before.map Visit.names

/-- The node of a visited file, with the number that its directory has in the survey. -/
def nodeOf (survey : Survey) (visit : Visit) (id : Id) : Node :=
  .fresh id (keyOf visit.names) (visit.names.length - 1)
    (if visit.names.length - 1 = 0 then none else survey.numbering.id? (keyOf visit.names.dropLast))
    (Source.owner? (keyOf visit.names) survey.settings.moduleMarker)

/-- A survey after some visits has their levels, and its nodes are those of visits. -/
structure HasRecorded (survey : Survey) (visits : List Visit) : Prop where
  levels : survey.numbering.levels = (visits.zipIdx 1).map fun entry => (entry.2, entry.1.names.length - 1)
  nodes {id : Id} {node : Node} : (id, node) ∈ survey.nodes →
    ∃ visit, (visit, id) ∈ visits.zipIdx 1 ∧ node = survey.nodeOf visit id

variable {survey : Survey} {visits : List Visit}

theorem ParentsFirst.of_append {more : List Visit} (ordered : ParentsFirst (visits ++ more)) :
    ParentsFirst visits := by
  rintro before visit after rfl
  exact ordered before visit (after ++ more) (by simp)

/-- A visit keeps the numbers of the keys that were met before. -/
theorem HasVisited.id?_visit (visited : survey.HasVisited visits) {visit : Visit}
    (new : keyOf visit.names ∉ visits.map fun visit => keyOf visit.names) {names : List Name}
    (old : names ∈ visits.map Visit.names) :
    (survey.visit visit).numbering.id? (keyOf names) = survey.numbering.id? (keyOf names) := by
  have known : keyOf names ∈ survey.numbering.ids.map (·.1) := by
    obtain ⟨other, member, rfl⟩ := List.mem_map.mp old
    rw [visited.keys]
    exact List.mem_map.mpr ⟨other, member, rfl⟩
  obtain ⟨id, found⟩ := Table.exists_lookup_iff.mpr known
  have numbering : (survey.visit visit).numbering.ids =
      survey.numbering.ids ++ [(keyOf visit.names, visits.length + 1)] := by
    simp only [Survey.visit, visited.number_of_new new]
    split <;> rfl
  rw [Numbering.id?, Numbering.id?, numbering, List.lookup_append, found, Option.some_or]

/-- What was recorded of a visited file stays right, since its directory had its number already. -/
theorem HasVisited.nodeOf_visit (visited : survey.HasVisited visits) {visit : Visit}
    (new : keyOf visit.names ∉ visits.map fun visit => keyOf visit.names) {other : Visit}
    (holder : other.names.dropLast ≠ [] → other.names.dropLast ∈ visits.map Visit.names) (id : Id) :
    (survey.visit visit).nodeOf other id = survey.nodeOf other id := by
  rw [nodeOf, nodeOf, visit_settings]
  split
  case isTrue => rfl
  case isFalse deep =>
    have below : other.names.dropLast ≠ [] := by
      rw [← List.length_pos_iff, List.length_dropLast]
      omega
    rw [visited.id?_visit new (holder below)]

theorem HasRecorded.visit (recorded : survey.HasRecorded visits) (visited : survey.HasVisited visits)
    {visit : Visit} (new : keyOf visit.names ∉ visits.map fun visit => keyOf visit.names)
    (ordered : ParentsFirst visits) : (survey.visit visit).HasRecorded (visits ++ [visit]) := by
  have entries : (visits ++ [visit]).zipIdx 1 = visits.zipIdx 1 ++ [(visit, visits.length + 1)] := by
    rw [List.zipIdx_append, List.zipIdx_singleton, Nat.add_comm]
  constructor
  · simp only [Survey.visit, visited.number_of_new new, entries, List.map_append, ← recorded.levels]
    split <;> rfl
  · intro id node member
    have same : (id, node) = (visits.length + 1, (survey.visit visit).nodeOf visit (visits.length + 1)) ∨
        (id, node) ∈ survey.nodes := by
      revert member
      simp only [nodeOf, Survey.visit, visited.number_of_new new]
      split
      · exact .inr
      · exact Table.mem_of_mem_putInOrder
    rw [entries]
    rcases same with here | old
    · cases here
      exact ⟨visit, by simp, rfl⟩
    · obtain ⟨other, place, rfl⟩ := recorded.nodes old
      refine ⟨other, List.mem_append_left _ place, ?_⟩
      obtain ⟨before, after, parts⟩ := List.append_of_mem (List.fst_mem_of_mem_zipIdx place)
      apply Eq.symm
      apply visited.nodeOf_visit new
      intro below
      have earlier := ordered before other after parts below
      rw [parts, List.map_append]
      exact List.mem_append_left _ earlier

/-- Visits to different entries, each after the visit to its directory, are recorded. -/
theorem hasRecorded_foldl (workspace : Workspace) {visits : List Visit}
    (different : (visits.map fun visit => keyOf visit.names).Nodup) (ordered : ParentsFirst visits) :
    (visits.foldl Survey.visit (start workspace)).HasRecorded visits := by
  induction visits using List.reverseRecOn with
  | nil => exact ⟨rfl, fun member => nomatch member⟩
  | append_singleton rest visit ih =>
    rw [List.map_append, List.nodup_append] at different
    rw [List.foldl_append]
    have visited := hasVisited_foldl workspace different.1
    apply (ih different.1 ordered.of_append).visit visited _ ordered.of_append
    intro member
    exact different.2.2 _ member _ List.mem_cons_self rfl

/-! ## The survey of a walk -/

section Walk

variable {fs : FileSystem} {root : Location} {entry : Entry}

/-- A walk visits a directory before what it holds. -/
theorem parentsFirst_walk (sound : entry.IsSound) {skips : Name → Bool} : ParentsFirst (entry.walk skips) := by
  intro before visit after parts below
  obtain ⟨name, names⟩ : ∃ name, visit.names = visit.names.dropLast ++ [name] :=
    ⟨_, (List.dropLast_append_getLast fun none => below (by simp [none])).symm⟩
  have sorted : (entry.walk skips).Pairwise (·.names < ·.names) := Entry.pairwise_walk sound
  have member : visit ∈ entry.walk skips := by simp [parts]
  obtain ⟨-, kept, last, way, -⟩ := (Entry.mem_walk_iff sound).mp member
  rw [names] at way kept
  obtain ⟨children, outer⟩ := Entry.exists_directory_of_get?_append (by simp) way
  have outerMember : ⟨visit.names.dropLast, true⟩ ∈ entry.walk skips :=
    (Entry.mem_walk_iff sound).mpr
      ⟨below, fun name inside => kept name (List.mem_append_left _ inside), _, outer, rfl⟩
  have less : visit.names.dropLast < visit.names := by
    conv_rhs => rw [names]
    exact lt_append (by simp)
  -- The visits from this one on are to names that do not come before it.
  rw [parts] at outerMember sorted
  rcases List.mem_append.mp outerMember with earlier | later
  · exact List.mem_map.mpr ⟨_, earlier, rfl⟩
  · have behind := (List.pairwise_cons.mp (List.pairwise_append.mp sorted).2.1).1
    rcases List.mem_cons.mp later with same | later
    · have equal : visit.names.dropLast = visit.names := congrArg Visit.names same
      rw [equal] at less
      exact absurd less (lt_irrefl _)
    · exact absurd (less.trans (behind _ later)) (lt_irrefl _)

/-- What holds something that is kept is kept as well, and is a directory. -/
theorem exists_isKept_of_append {settings : Settings} {key outer : String} {more : List Name}
    (kept : IsKept fs root settings key entry) (way : namesOf key = namesOf outer ++ more) (some : more ≠ []) :
    ∃ children, IsKept fs root settings outer (.directory children) := by
  obtain ⟨here, noneIgnored⟩ := kept
  rw [way, ← List.append_assoc] at here
  obtain ⟨children, directory⟩ := Entry.exists_directory_of_get?_append some here
  refine ⟨children, directory, ?_⟩
  intro name inside
  exact noneIgnored name (way ▸ List.mem_append_left _ inside)

variable (visited : survey.HasVisited (entry.walk survey.settings.isIgnored))
  (recorded : survey.HasRecorded (entry.walk survey.settings.isIgnored)) (sound : fs.tree.IsSound)
  (here : fs.get? root = some entry)

include visited sound here

theorem HasVisited.unique : Table.HasUniqueKeys survey.numbering.ids := by
  rw [Table.HasUniqueKeys, visited.keys]
  exact nodup_keys_of_walk (sound.of_get? here).1

include recorded

theorem HasRecorded.levels_eq :
    survey.numbering.levels = survey.numbering.ids.map fun entry => (entry.2, slashes entry.1) := by
  rw [recorded.levels, visited.ids, List.map_map]
  apply List.map_congr_left
  rintro ⟨visit, id⟩ place
  have names : namesOf (keyOf visit.names) = visit.names :=
    namesOf_keyOf_of_mem_walk (sound.of_get? here).1 (List.fst_mem_of_mem_zipIdx place)
  have depth := slashes_add_one (keyOf visit.names)
  rw [names] at depth
  exact Prod.ext rfl (by dsimp only [Function.comp_apply]; omega)

/-- The level of a numbered key is how many slashes it has. -/
theorem HasRecorded.level?_of_id? {key : String} {id : Id} (numbered : survey.numbering.id? key = some id) :
    survey.numbering.level? id = some (slashes key) := by
  have unique : Table.HasUniqueKeys survey.numbering.levels := by
    rw [Table.HasUniqueKeys, recorded.levels, List.map_map]
    show (((entry.walk survey.settings.isIgnored).zipIdx 1).map Prod.snd).Nodup
    rw [List.zipIdx_map_snd]
    exact List.nodup_range'
  rw [Numbering.level?, Table.lookup_eq_some_iff unique, recorded.levels_eq visited sound here]
  rw [Numbering.id?, Table.lookup_eq_some_iff (visited.unique sound here)] at numbered
  exact List.mem_map.mpr ⟨_, numbered, rfl⟩

theorem HasRecorded.held {key directory : String} {id : Id} (holds : IsHeldBy key directory)
    (numbered : survey.numbering.id? key = some id) :
    ∃ outer level, survey.numbering.id? directory = some outer ∧ outer < id ∧
      survey.numbering.level? outer = some level ∧ survey.numbering.level? id = some (level + 1) ∧
      outer ∉ survey.nodes.map (·.1) := by
  have enumerates := visited.enumerates sound here
  obtain ⟨name, names⟩ := isHeldBy_iff.mp holds
  obtain ⟨last, kept⟩ := (enumerates.keys key).mp ⟨id, numbered⟩
  obtain ⟨children, outerKept⟩ := exists_isKept_of_append kept names (by simp)
  obtain ⟨outer, outerNumbered⟩ := (enumerates.keys directory).mpr ⟨_, outerKept⟩
  have depth : slashes key = slashes directory + 1 := by
    have first := slashes_add_one key
    have second := slashes_add_one directory
    rw [names, List.length_append, List.length_singleton] at first
    omega
  refine ⟨outer, slashes directory, outerNumbered, ?_, ?_, ?_, ?_⟩
  · rw [enumerates.order outerNumbered numbered, Utf8.map_encode_lt_iff, names]
    exact lt_append (by simp)
  · exact recorded.level?_of_id? visited sound here outerNumbered
  · rw [← depth]
    exact recorded.level?_of_id? visited sound here numbered
  · intro member
    obtain ⟨⟨number, node⟩, inside, rfl⟩ := List.mem_map.mp member
    obtain ⟨other, otherKept, isFile, -⟩ := (enumerates.nodes directory).mp ⟨_, node, outerNumbered, inside⟩
    obtain rfl : other = .directory children := Option.some.inj (otherKept.here.symm.trans outerKept.here)
    cases isFile

/-- The nodes say what the tables say. -/
theorem HasRecorded.records {id : Id} {node : Node} (member : (id, node) ∈ survey.nodes) :
    survey.Records id node := by
  have soundHere := (sound.of_get? here).1
  have enumerates := visited.enumerates sound here
  obtain ⟨visit, place, rfl⟩ := recorded.nodes member
  have names : namesOf (keyOf visit.names) = visit.names :=
    namesOf_keyOf_of_mem_walk soundHere (List.fst_mem_of_mem_zipIdx place)
  have numbered : survey.numbering.id? (keyOf visit.names) = some id :=
    (visited.id?_eq_some_iff (nodup_keys_of_walk soundHere)).mpr ⟨visit, place, rfl⟩
  have depth := slashes_add_one (keyOf visit.names)
  rw [names] at depth
  constructor
  case sameId => rfl
  case numbered => exact numbered
  case level =>
    rw [recorded.level?_of_id? visited sound here numbered]
    simp only [nodeOf, Node.fresh, Option.some.injEq]
    omega
  case atTop =>
    intro noSlash
    have top : visit.names.length - 1 = 0 := by
      have none : slashes (keyOf visit.names) = 0 := List.count_eq_zero.mpr noSlash
      omega
    simp [nodeOf, Node.fresh, top]
  case held =>
    intro directory holds
    obtain ⟨outer, level, outerNumbered, -⟩ := recorded.held visited sound here holds numbered
    obtain ⟨name, parts⟩ := isHeldBy_iff.mp holds
    have parts : visit.names = namesOf directory ++ [name] := names.symm.trans parts
    refine ⟨outer, outerNumbered, ?_⟩
    have deep : visit.names.length - 1 ≠ 0 := by
      have some := List.length_pos_iff.mpr (namesOf_ne_nil directory)
      rw [parts, List.length_append, List.length_singleton]
      omega
    rw [nodeOf, if_neg deep, parts, List.dropLast_concat, keyOf_namesOf, outerNumbered]
    rfl
  case owned =>
    intro owner owned
    obtain ⟨more, way⟩ := Source.exists_names_of_owner? (show Source.owner? (keyOf visit.names) _ = _ from owned)
    obtain ⟨last, kept⟩ := (enumerates.keys _).mp ⟨id, numbered⟩
    rcases List.eq_nil_or_concat more with rfl | ⟨_, _, rfl⟩
    · -- The file is its own module.
      rw [List.append_nil] at way
      have same : keyOf visit.names = owner := by rw [← keyOf_namesOf owner, ← way, keyOf_namesOf]
      exact ⟨id, same ▸ numbered, Nat.le_refl _⟩
    · obtain ⟨children, ownerKept⟩ := exists_isKept_of_append kept way (by simp)
      obtain ⟨number, ownerNumbered⟩ := (enumerates.keys owner).mpr ⟨_, ownerKept⟩
      refine ⟨number, ownerNumbered, Nat.le_of_lt ?_⟩
      rw [enumerates.order ownerNumbered numbered, Utf8.map_encode_lt_iff, way]
      exact lt_append (by simp)

theorem HasRecorded.isCoherent : survey.IsCoherent where
  unique := visited.unique sound here
  numbers := by
    intro place entry there
    rw [visited.ids, List.getElem?_map, Option.map_eq_some_iff] at there
    obtain ⟨⟨visit, number⟩, there, rfl⟩ := there
    obtain ⟨-, rfl⟩ := by simpa using there
    exact Nat.add_comm _ _
  levels := recorded.levels_eq visited sound here
  held := recorded.held visited sound here
  nodes := recorded.records visited sound here

end Walk

end Survey

namespace Workspace

variable {workspace : Workspace} {fs : FileSystem} {survey : Survey}

/-- The survey of a walk has the numbers, the levels and the nodes of the visits. -/
theorem hasVisited_and_hasRecorded_of_survey (sound : fs.tree.IsSound) (surveyed : workspace.survey fs = .ok survey) :
    ∃ location entry, fs.resolve .follow workspace.root = .ok (.found location entry) ∧
      fs.get? location = some entry ∧ survey.settings = workspace.settings ∧
      survey.HasVisited (entry.walk survey.settings.isIgnored) ∧
      survey.HasRecorded (entry.walk survey.settings.isIgnored) := by
  obtain ⟨location, entry, resolved, here, settings, made⟩ := exists_walk_of_survey surveyed
  have soundHere := (sound.of_get? here).1
  have different := @nodup_keys_of_walk _ soundHere survey.settings.isIgnored
  have visited := Survey.hasVisited_foldl workspace different
  have recorded := Survey.hasRecorded_foldl workspace different (Survey.parentsFirst_walk soundHere)
  rw [← made] at visited recorded
  exact ⟨location, entry, resolved, here, settings, visited, recorded⟩

/-- The tables and the nodes of every survey that succeeds fit together. -/
theorem survey_is_coherent (sound : fs.tree.IsSound) (surveyed : workspace.survey fs = .ok survey) :
    survey.IsCoherent := by
  obtain ⟨_, _, -, here, -, visited, recorded⟩ := hasVisited_and_hasRecorded_of_survey sound surveyed
  exact recorded.isCoherent visited sound here

end Workspace

/-! A tree with a module: its file lies two levels below the root, and its directory owns it. -/

/-- A directory of modules with one module, a file in the module, and a file outside of all modules. -/
def modularFiles : FileSystem where
  tree := .directory [("p".toList, .directory
    [("modules".toList, .directory [("m".toList, .directory [("b.js".toList, .file [])])]),
      ("a.js".toList, .file [])])]
  workingDirectory := []

theorem survey_is_coherent_of_modularFiles :
    modularFiles.tree.IsSound ∧ ∃ survey : Survey,
      Workspace.survey ⟨.ofString "/p", .standard⟩ modularFiles = .ok survey ∧
        survey.numbering.ids = [("a.js", 1), ("modules", 2), ("modules/m", 3), ("modules/m/b.js", 4)] ∧
          survey.nodes = [(1, .fresh 1 "a.js" 0 none none),
            (4, .fresh 4 "modules/m/b.js" 2 (some 3) (some "modules/m"))] ∧ survey.IsCoherent := by
  have sound : modularFiles.tree.IsSound := by decide +kernel
  obtain ⟨survey, surveyed, ids, nodes⟩ : ∃ survey : Survey,
      Workspace.survey ⟨.ofString "/p", .standard⟩ modularFiles = .ok survey ∧
        survey.numbering.ids = [("a.js", 1), ("modules", 2), ("modules/m", 3), ("modules/m/b.js", 4)] ∧
          survey.nodes = [(1, .fresh 1 "a.js" 0 none none),
            (4, .fresh 4 "modules/m/b.js" 2 (some 3) (some "modules/m"))] :=
    ⟨_, rfl, by decide +kernel, by decide +kernel⟩
  exact ⟨sound, survey, surveyed, ids, nodes, Workspace.survey_is_coherent sound surveyed⟩

end ImportAtlas
