import ImportAtlas.Proofs.FileSystem.Walk
import ImportAtlas.Proofs.FileSystem.Resolve
import ImportAtlas.Proofs.Graph.Numbering
import ImportAtlas.Proofs.List.Extensions
import ImportAtlas.Proofs.Path.Key
import ImportAtlas.Proofs.Settings
import ImportAtlas.Proofs.Text.Order

/-! # What is numbered, and in which order

A survey gives a number to each entry below the root that no ignored name leads to, and a node to each
source file among them. The numbers follow the lexicographic order of the names on the way to the
entries, which differs from the order of the keys as texts: there the slash would count as a
character. So what a directory holds is numbered right after the directory.
-/

namespace ImportAtlas

/-- An entry below the root of a source tree that is not left out: its key consists of the names on the
way to it, which leads through directories only, and none of them is ignored. -/
structure IsKept (fs : FileSystem) (root : Location) (settings : Settings) (key : String) (entry : Entry) :
    Prop where
  here : fs.get? (root ++ namesOf key) = some entry
  noneIgnored : ∀ name ∈ namesOf key, String.ofList name ∉ settings.ignoredNames

/-- Whether a key names an entry below that of another key. -/
def IsBelow (base key : String) : Prop :=
  ∃ more, more ≠ [] ∧ namesOf key = namesOf base ++ more

namespace Survey

/-- A node stands under the number of a key. -/
def HasNode (survey : Survey) (key : String) : Prop :=
  ∃ id node, survey.numbering.id? key = some id ∧ (id, node) ∈ survey.nodes

/-- A survey of what is kept below a root. -/
structure Enumerates (survey : Survey) (fs : FileSystem) (root : Location) : Prop where
  /-- The entries that are kept have numbers, and nothing else does. -/
  keys (key : String) :
    (∃ id, survey.numbering.id? key = some id) ↔ ∃ entry, IsKept fs root survey.settings key entry
  /-- Those that are no directories and have the ending of a source file have nodes. -/
  nodes (key : String) : survey.HasNode key ↔
    ∃ entry, IsKept fs root survey.settings key entry ∧ entry.isDirectory = false ∧
      survey.settings.HasSourceEnding ((namesOf key).getLast (namesOf_ne_nil key))
  /-- Numbers increase with the bytes of the names on the way, name by name. -/
  order {first second : String} {i j : Id} : survey.numbering.id? first = some i →
    survey.numbering.id? second = some j →
      (i < j ↔ (namesOf first).map Utf8.encode < (namesOf second).map Utf8.encode)
  /-- The numbers of what lies below an entry are the next ones after its own. -/
  block {base : String} {id : Id} : survey.numbering.id? base = some id →
    ∃ last, ∀ other, id < other ∧ other ≤ last ↔
      ∃ key, survey.numbering.id? key = some other ∧ IsBelow base key

end Survey

/-! ## Visits and keys -/

section Visits

variable {fs : FileSystem} {root : Location} {entry : Entry} {settings : Settings}

theorem namesOf_keyOf_of_mem_walk (sound : entry.IsSound) {skips : Name → Bool} {visit : Visit}
    (member : visit ∈ entry.walk skips) : namesOf (keyOf visit.names) = visit.names := by
  obtain ⟨nonempty, -, last, way, -⟩ := (Entry.mem_walk_iff sound).mp member
  exact namesOf_keyOf nonempty fun name inside => ((sound.of_get? way).2 name inside).noSlash

/-- A walk meets different keys, as it meets different names on the way. -/
theorem nodup_keys_of_walk (sound : entry.IsSound) {skips : Name → Bool} :
    ((entry.walk skips).map fun visit => keyOf visit.names).Nodup := by
  rw [List.nodup_iff_pairwise_ne, List.pairwise_map]
  apply (Entry.pairwise_walk sound).imp_of_mem
  intro first second atFirst atSecond less same
  have names := congrArg namesOf same
  rw [namesOf_keyOf_of_mem_walk sound atFirst, namesOf_keyOf_of_mem_walk sound atSecond] at names
  exact lt_irrefl _ (names ▸ less)

/-- A walk meets what is kept. -/
theorem mem_walk_iff_isKept (sound : fs.tree.IsSound) (here : fs.get? root = some entry) {key : String}
    {kind : Bool} : ⟨namesOf key, kind⟩ ∈ entry.walk settings.isIgnored ↔
      ∃ last, IsKept fs root settings key last ∧ last.isDirectory = kind := by
  have way := FileSystem.get?_append here
  rw [Entry.mem_walk_iff (sound.of_get? here).1]
  constructor
  · rintro ⟨-, kept, last, found, isKind⟩
    refine ⟨last, ⟨(way _).trans found, ?_⟩, isKind⟩
    intro name inside
    exact Settings.isIgnored_eq_false_iff.mp (kept name inside)
  · rintro ⟨last, ⟨found, kept⟩, isKind⟩
    refine ⟨namesOf_ne_nil key, ?_, last, (way _).symm.trans found, isKind⟩
    intro name inside
    exact Settings.isIgnored_eq_false_iff.mpr (kept name inside)

/-- The number of a key is that of the visit to its names. -/
theorem Survey.HasVisited.id?_walk_iff {survey : Survey} {skips : Name → Bool}
    (visited : survey.HasVisited (entry.walk skips)) (sound : entry.IsSound) {key : String} {id : Id} :
    survey.numbering.id? key = some id ↔ ∃ kind, (⟨namesOf key, kind⟩, id) ∈ (entry.walk skips).zipIdx 1 := by
  rw [visited.id?_eq_some_iff (nodup_keys_of_walk sound)]
  constructor
  · rintro ⟨visit, member, rfl⟩
    rw [namesOf_keyOf_of_mem_walk sound (List.fst_mem_of_mem_zipIdx member)]
    exact ⟨visit.isDirectory, member⟩
  · rintro ⟨kind, member⟩
    exact ⟨_, member, keyOf_namesOf key⟩

/-- The number of a key is one more than the place of its names among those of all visits. -/
theorem Survey.HasVisited.id?_walk_iff_place {survey : Survey} {skips : Name → Bool}
    (visited : survey.HasVisited (entry.walk skips)) (sound : entry.IsSound) {key : String} {id : Id} :
    survey.numbering.id? key = some id ↔
      ∃ place, id = place + 1 ∧ ((entry.walk skips).map Visit.names)[place]? = some (namesOf key) := by
  rw [visited.id?_walk_iff sound]
  simp only [List.getElem?_map, Option.map_eq_some_iff]
  constructor
  · rintro ⟨kind, member⟩
    obtain ⟨positive, there⟩ := List.mk_mem_zipIdx_iff_le_and_getElem?_sub.mp member
    exact ⟨id - 1, (Nat.sub_add_cancel positive).symm, _, there, rfl⟩
  · rintro ⟨place, rfl, ⟨names, kind⟩, there, rfl⟩
    refine ⟨kind, ?_⟩
    rw [Nat.add_comm]
    exact List.mk_add_mem_zipIdx_iff_getElem?.mpr there

end Visits

/-! ## The survey of a walk -/

section Walk

variable {fs : FileSystem} {root : Location} {entry : Entry} {survey : Survey}
  (visited : survey.HasVisited (entry.walk survey.settings.isIgnored)) (sound : fs.tree.IsSound)
  (here : fs.get? root = some entry)

include visited sound here

theorem Survey.HasVisited.exists_id?_iff (key : String) :
    (∃ id, survey.numbering.id? key = some id) ↔ ∃ last, IsKept fs root survey.settings key last := by
  simp only [visited.id?_walk_iff (sound.of_get? here).1]
  constructor
  · rintro ⟨id, kind, member⟩
    obtain ⟨last, kept, -⟩ := (mem_walk_iff_isKept sound here).mp (List.fst_mem_of_mem_zipIdx member)
    exact ⟨last, kept⟩
  · rintro ⟨last, kept⟩
    obtain ⟨place, there⟩ := List.mem_iff_getElem?.mp ((mem_walk_iff_isKept sound here).mpr ⟨last, kept, rfl⟩)
    exact ⟨1 + place, _, List.mk_add_mem_zipIdx_iff_getElem?.mpr there⟩

theorem Survey.HasVisited.hasNode_iff (key : String) : survey.HasNode key ↔
    ∃ last, IsKept fs root survey.settings key last ∧ last.isDirectory = false ∧
      survey.settings.HasSourceEnding ((namesOf key).getLast (namesOf_ne_nil key)) := by
  have soundHere := (sound.of_get? here).1
  have name : (namesOf key).getLast?.getD [] = (namesOf key).getLast (namesOf_ne_nil key) := by
    rw [List.getLast?_eq_some_getLast (namesOf_ne_nil key), Option.getD_some]
  constructor
  · rintro ⟨id, node, numbered, member⟩
    obtain ⟨kind, visit⟩ := (visited.id?_walk_iff soundHere).mp numbered
    obtain ⟨other, same, isFile, isSource⟩ := (visited.nodes id).mp (List.mem_map.mpr ⟨_, member, rfl⟩)
    obtain rfl : ⟨namesOf key, kind⟩ = other := by
      rw [List.mk_mem_zipIdx_iff_le_and_getElem?_sub] at visit same
      exact Option.some.inj (visit.2.symm.trans same.2)
    obtain ⟨last, kept, isKind⟩ := (mem_walk_iff_isKept sound here).mp (List.fst_mem_of_mem_zipIdx visit)
    rw [name] at isSource
    exact ⟨last, kept, isKind.trans isFile, Settings.isSource_iff.mp isSource⟩
  · rintro ⟨last, kept, isFile, isSource⟩
    obtain ⟨place, there⟩ := List.mem_iff_getElem?.mp ((mem_walk_iff_isKept sound here).mpr ⟨last, kept, isFile⟩)
    have visit := @List.mk_add_mem_zipIdx_iff_getElem? _ 1 place _ _ |>.mpr there
    have makesNode : survey.settings.MakesNode ⟨namesOf key, false⟩ :=
      ⟨rfl, by rw [name]; exact Settings.isSource_iff.mpr isSource⟩
    obtain ⟨⟨id, node⟩, member, same⟩ := List.mem_map.mp ((visited.nodes _).mpr ⟨_, visit, makesNode⟩)
    cases same
    exact ⟨_, node, (visited.id?_walk_iff soundHere).mpr ⟨_, visit⟩, member⟩

/-- A survey of a walk enumerates what is kept. -/
theorem Survey.HasVisited.enumerates : survey.Enumerates fs root := by
  have soundHere := (sound.of_get? here).1
  have sorted : ((entry.walk survey.settings.isIgnored).map Visit.names).Pairwise (· < ·) :=
    List.pairwise_map.mpr (Entry.pairwise_walk soundHere)
  refine ⟨visited.exists_id?_iff sound here, visited.hasNode_iff sound here, ?order, ?block⟩
  case order =>
    intro first second i j atFirst atSecond
    obtain ⟨place, rfl, firstPlace⟩ := (visited.id?_walk_iff_place soundHere).mp atFirst
    obtain ⟨later, rfl, secondPlace⟩ := (visited.id?_walk_iff_place soundHere).mp atSecond
    rw [Utf8.map_encode_lt_iff, ← lt_iff_of_places sorted firstPlace secondPlace]
    exact Nat.add_lt_add_iff_right
  case block =>
    intro base id numbered
    obtain ⟨start, rfl, here⟩ := (visited.id?_walk_iff_place soundHere).mp numbered
    obtain ⟨last, extensions⟩ := exists_last_extension sorted here
    refine ⟨last + 1, fun other => ⟨?_, ?_⟩⟩
    · rintro ⟨after, early⟩
      obtain ⟨place, rfl⟩ := Nat.exists_eq_succ_of_ne_zero (Nat.ne_zero_of_lt after)
      obtain ⟨more, some, there⟩ :=
        (extensions place).mp ⟨Nat.lt_of_succ_lt_succ after, Nat.le_of_succ_le_succ early⟩
      rw [List.getElem?_map, Option.map_eq_some_iff] at there
      obtain ⟨visit, there, names⟩ := there
      have key := namesOf_keyOf_of_mem_walk soundHere (List.mem_of_getElem? there)
      refine ⟨keyOf visit.names, (visited.id?_walk_iff_place soundHere).mpr ⟨place, rfl, ?_⟩, more, some, ?_⟩
      · rw [List.getElem?_map, there, key]
        rfl
      · rw [key, names]
    · rintro ⟨key, atKey, more, some, names⟩
      obtain ⟨place, rfl, there⟩ := (visited.id?_walk_iff_place soundHere).mp atKey
      obtain ⟨after, early⟩ := (extensions place).mpr ⟨more, some, names ▸ there⟩
      exact ⟨Nat.succ_lt_succ after, Nat.succ_le_succ early⟩

end Walk

namespace Workspace

variable {workspace : Workspace} {fs : FileSystem} {survey : Survey}

/-- The root of a workspace is the path of the location that it leads to. -/
theorem locate_of_ofPath (sound : fs.tree.IsSound) {path : Path} {settings : Settings} {location : Location}
    {entry : Entry} (made : Workspace.ofPath fs path settings = .ok workspace)
    (leads : fs.resolve .follow workspace.root = .ok (.found location entry)) :
    fs.locate path = .ok location ∧ workspace.root = Path.ofNames location := by
  unfold Workspace.ofPath at made
  split at made
  · cases made
  rename_i canonical located
  dsimp only at made
  split at made
  · cases made
    unfold FileSystem.locate at located
    split at located
    case h_1 _ last resolved =>
      cases located
      have same := FileSystem.place_of_resolve_ofNames sound (FileSystem.isIn_of_resolve resolved)
        (FileSystem.ne_link_of_resolve (by simp) resolved) leads
      cases same
      refine ⟨?_, rfl⟩
      rw [FileSystem.locate, resolved]
    case h_2 => cases located
    case h_3 => cases located
  · cases made

/-- A survey that succeeds has visited what lies at the location that the root leads to. -/
theorem exists_walk_of_survey (surveyed : workspace.survey fs = .ok survey) :
    ∃ location entry, fs.resolve .follow workspace.root = .ok (.found location entry) ∧
      fs.get? location = some entry ∧ survey.settings = workspace.settings ∧
      survey = (entry.walk survey.settings.isIgnored).foldl Survey.visit (.start workspace) := by
  obtain ⟨entry, leads, made⟩ := visits_of_survey surveyed
  have settings : survey.settings = workspace.settings := made ▸ Survey.foldl_visit_settings _ _
  unfold FileSystem.entryAt at leads
  split at leads
  case h_1 location last resolved =>
    cases leads
    exact ⟨location, entry, resolved, FileSystem.isIn_of_resolve resolved, settings, by rw [settings]; exact made⟩
  case h_2 => cases leads
  case h_3 => cases leads

/-- A survey that succeeds enumerates what is kept below the location that the root of the workspace
leads to, which is that of the path it was made for. -/
theorem survey_enumerates (sound : fs.tree.IsSound) (surveyed : workspace.survey fs = .ok survey) :
    ∃ location entry, fs.resolve .follow workspace.root = .ok (.found location entry) ∧
      (∀ path, Workspace.ofPath fs path workspace.settings = .ok workspace →
        fs.locate path = .ok location ∧ workspace.root = Path.ofNames location) ∧
      survey.settings = workspace.settings ∧ survey.Enumerates fs location := by
  obtain ⟨location, entry, resolved, here, settings, made⟩ := exists_walk_of_survey surveyed
  have visited : survey.HasVisited (entry.walk survey.settings.isIgnored) := by
    conv => arg 1; rw [made]
    exact Survey.hasVisited_foldl workspace (nodup_keys_of_walk (sound.of_get? here).1)
  exact ⟨location, entry, resolved, fun path made => locate_of_ofPath sound made resolved, settings,
    visited.enumerates sound here⟩

end Workspace

/-! A tree whose keys are not numbered in their order as texts: the hyphen comes before the slash, but the
file behind it comes after the directory. -/

/-- A directory, what it holds, a file whose name goes on with a hyphen, a link and an ignored directory. -/
def crossedFiles : FileSystem where
  tree := .directory [("p".toList, .directory
    [("l.ts".toList, .link (.ofString "a")), ("a-b.js".toList, .file []),
      ("node_modules".toList, .directory [("x.js".toList, .file [])]),
      ("a".toList, .directory [("z.js".toList, .file [])])])]
  workingDirectory := ["p".toList]

theorem survey_enumerates_of_crossedFiles :
    crossedFiles.tree.IsSound ∧ ∃ workspace survey,
      Workspace.ofPath crossedFiles (.ofString "a/..") .standard = .ok workspace ∧
        workspace.survey crossedFiles = .ok survey ∧
          survey.numbering.ids = [("a", 1), ("a/z.js", 2), ("a-b.js", 3), ("l.ts", 4)] ∧
            survey.Enumerates crossedFiles ["p".toList] := by
  have one (name : Name) (valid : Entry.IsName name) :
      (Entry.directory [(name, .file [])]).IsSound :=
    .directory (by simp) (by simpa using valid) (by simpa using .file [])
  have sound : crossedFiles.tree.IsSound := by
    refine .directory (by decide) (by decide) ?_
    rw [List.forall_mem_singleton]
    refine .directory (by decide) (by decide) ?_
    simp only [List.forall_mem_cons]
    exact ⟨.link _, .file _, one _ (by decide), one _ (by decide), by simp⟩
  have made : Workspace.ofPath crossedFiles (.ofString "a/..") .standard =
      .ok ⟨.ofString "/p", .standard⟩ := by
    decide +kernel
  obtain ⟨survey, surveyed, ids⟩ : ∃ survey : Survey,
      Workspace.survey ⟨.ofString "/p", .standard⟩ crossedFiles = .ok survey ∧
        survey.numbering.ids = [("a", 1), ("a/z.js", 2), ("a-b.js", 3), ("l.ts", 4)] :=
    ⟨_, rfl, by decide +kernel⟩
  obtain ⟨location, entry, -, canonical, -, enumerates⟩ := Workspace.survey_enumerates sound surveyed
  have located : crossedFiles.locate (.ofString "a/..") = .ok ["p".toList] := by decide +kernel
  obtain ⟨leads, -⟩ := canonical _ made
  obtain rfl := Except.ok.inj (located.symm.trans leads)
  exact ⟨sound, _, survey, made, surveyed, ids, enumerates⟩

end ImportAtlas
