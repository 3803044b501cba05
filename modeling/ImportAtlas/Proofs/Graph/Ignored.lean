import ImportAtlas.Proofs.Graph.Build

/-! # Ignored directories do not show

Looking up a specifier tries paths inside ignored directories like any others, and what lies there decides
which of them are found. But all paths that are tried together have their last segment below one directory.
Either this lies at or below an ignored entry, and then none of these paths names a node, so that it does
not matter which of them is found; or what the paths settle at lies outside, and the same of them are found
whatever the ignored directories hold.
-/

namespace ImportAtlas

/-- Whether a location is that of an ignored entry below the root, or lies inside of one. -/
def ReachesIgnored (root : Location) (settings : Settings) (location : Location) : Prop :=
  ∃ before name after, String.ofList name ∈ settings.ignoredNames ∧ location = root ++ before ++ name :: after

/-- Whether a location lies strictly inside an ignored entry below the root. -/
def IsInsideIgnored (root : Location) (settings : Settings) (location : Location) : Prop :=
  ∃ before name after, after ≠ [] ∧ String.ofList name ∈ settings.ignoredNames ∧
    location = root ++ before ++ name :: after

/-- Trees in which the same shows of everything that does not lie inside an ignored entry. -/
def AgreeOutsideIgnored (root : Location) (settings : Settings) (fs other : FileSystem) : Prop :=
  ∀ location, ¬IsInsideIgnored root settings location →
    (fs.get? location).map Entry.surface = (other.get? location).map Entry.surface

section Locations

variable {root : Location} {settings : Settings} {location : Location}

theorem IsInsideIgnored.reaches (inside : IsInsideIgnored root settings location) :
    ReachesIgnored root settings location := by
  obtain ⟨before, name, after, -, ignored, parts⟩ := inside
  exact ⟨before, name, after, ignored, parts⟩

theorem ReachesIgnored.append (reaches : ReachesIgnored root settings location) (more : Location) :
    ReachesIgnored root settings (location ++ more) := by
  obtain ⟨before, name, after, ignored, rfl⟩ := reaches
  exact ⟨before, name, after ++ more, ignored, by simp⟩

theorem isInsideIgnored_concat_iff {name : Name} :
    IsInsideIgnored root settings (location ++ [name]) ↔ ReachesIgnored root settings location := by
  constructor
  · rintro ⟨before, other, after, some, ignored, parts⟩
    obtain ⟨inner, last, rfl⟩ := (List.eq_nil_or_concat after).resolve_left some
    rw [List.concat_eq_append, ← List.cons_append, ← List.append_assoc] at parts
    exact ⟨before, other, inner, ignored, (List.append_inj' parts rfl).1⟩
  · rintro ⟨before, other, after, ignored, rfl⟩
    exact ⟨before, other, after ++ [name], by simp, ignored, by simp⟩

theorem ReachesIgnored.of_dropLast (reaches : ReachesIgnored root settings location.dropLast) :
    ReachesIgnored root settings location := by
  have further := reaches.append (location.drop (location.length - 1))
  rwa [List.dropLast_eq_take, List.take_append_drop] at further

/-- Where the segments of a path settle from a place outside of all ignored entries lies in none of them. -/
theorem not_isInsideIgnored_settleStep (outside : ¬ReachesIgnored root settings location) (segment : List Char) :
    ¬IsInsideIgnored root settings (Path.settleStep location segment) := by
  intro inside
  apply outside
  rw [Path.settleStep] at inside
  rcases Path.component?_cases segment with idle | dots | stands
  · rw [idle] at inside
    exact inside.reaches
  · rw [dots] at inside
    exact inside.reaches.of_dropLast
  · rw [stands] at inside
    exact isInsideIgnored_concat_iff.mp inside

/-- The root, and whatever is kept below it, lies in no ignored entry. -/
theorem not_reachesIgnored_append {names : List Name}
    (kept : ∀ name ∈ names, String.ofList name ∉ settings.ignoredNames) :
    ¬ReachesIgnored root settings (root ++ names) := by
  rintro ⟨before, name, after, ignored, parts⟩
  rw [List.append_assoc] at parts
  obtain rfl := List.append_cancel_left parts
  exact kept name (by simp) ignored

end Locations

namespace AgreeOutsideIgnored

variable {root : Location} {settings : Settings} {fs other : FileSystem}
  (agree : AgreeOutsideIgnored root settings fs other)

include agree

variable (sound : fs.tree.IsSound) (otherSound : other.tree.IsSound) (free : fs.tree.IsLinkFree)
  (otherFree : other.tree.IsLinkFree)

include sound otherSound free otherFree

/-- The same is seen by a path whose names lead to no ignored entry. -/
theorem seen_eq {manner : Manner} (looks : manner.Looks) {names : List Name}
    (plain : ∀ name ∈ names, Path.IsPlain name) {segment : List Char} (noSlash : '/' ∉ segment)
    (outside : ¬ReachesIgnored root settings names) :
    fs.seen manner (Path.ofNames (names ++ [segment])) = other.seen manner (Path.ofNames (names ++ [segment])) := by
  have way : fs.ClearWay ([] ++ names) segment :=
    FileSystem.clearWay_append (Entry.get?_nil fs.tree) free plain noSlash
  have otherWay : other.ClearWay ([] ++ names) segment :=
    FileSystem.clearWay_append (Entry.get?_nil other.tree) otherFree plain noSlash
  apply FileSystem.seen_ofNames_concat_congr looks sound otherSound way otherWay
  · exact Entry.directory_iff_of_surface (agree _ fun inside => outside inside.reaches)
  · exact Entry.map_kind_of_surface (agree _ (not_isInsideIgnored_settleStep outside segment))
  · exact fun _ _ _ => Iff.rfl

theorem leadsToDirectory_eq (plain : ∀ name ∈ root, Path.IsPlain name) :
    fs.leadsToDirectory (Path.ofNames root) = other.leadsToDirectory (Path.ofNames root) := by
  have outside : ¬ReachesIgnored root settings root.dropLast := by
    intro reaches
    have notBelow := @not_reachesIgnored_append root settings [] (by simp)
    rw [List.append_nil] at notBelow
    exact notBelow reaches.of_dropLast
  rw [FileSystem.leadsToDirectory_eq, FileSystem.leadsToDirectory_eq, Source.Lookup.ofNames_eq_concat root,
    agree.seen_eq sound otherSound free otherFree (.inl rfl) (Path.isPlain_dropLast plain)
      (Source.Lookup.noSlash_getLast? plain) outside]

omit free otherFree in
/-- The walks below the root are the same. -/
theorem walk_eq {entry otherEntry : Entry} (here : fs.get? root = some entry)
    (otherHere : other.get? root = some otherEntry) :
    entry.walk settings.isIgnored = otherEntry.walk settings.isIgnored := by
  apply Entry.walk_congr (sound.of_get? here).1 (otherSound.of_get? otherHere).1
  intro names nonempty kept
  have outside : ¬IsInsideIgnored root settings (root ++ names) := by
    intro inside
    apply not_reachesIgnored_append _ inside.reaches
    intro name member
    exact Settings.isIgnored_eq_false_iff.mp (kept name member)
  have same := Entry.map_isDirectory_of_surface (agree _ outside)
  rwa [FileSystem.get?_append here, FileSystem.get?_append otherHere] at same

end AgreeOutsideIgnored

/-! ## Lookups -/

namespace Survey

variable {survey : Survey} {fs other : FileSystem} {root : Location}

/-- No path that goes on from an ignored entry names a node. -/
theorem Covers.nodeAt?_of_reachesIgnored (covers : survey.Covers fs root) (sound : fs.tree.IsSound)
    {names : List Name} (plain : ∀ name ∈ names, Path.IsPlain name) {segment : List Char} (noSlash : '/' ∉ segment)
    (reaches : ReachesIgnored root survey.settings names) :
    survey.nodeAt? (Path.ofNames (names ++ [segment])) = none := by
  obtain ⟨before, name, after, ignored, rfl⟩ := reaches
  rw [Option.eq_none_iff_forall_ne_some]
  intro id found
  rw [List.append_assoc root, List.append_assoc root] at found
  obtain ⟨notUp, key, entry, way, kept, -⟩ := covers.exists_isKept_of_nodeAt? sound
    (fun other member => plain other (by rw [List.append_assoc]; exact List.mem_append_right _ member)) noSlash found
  apply kept.noneIgnored name _ ignored
  rw [way, Path.settleStep]
  rcases Path.component?_cases segment with idle | dots | stands
  · rw [idle]
    simp
  · exact absurd dots notUp
  · rw [stands]
    simp

variable (agree : AgreeOutsideIgnored root survey.settings fs other) (covers : survey.Covers fs root)
  (sound : fs.tree.IsSound) (otherSound : other.tree.IsSound) (free : fs.tree.IsLinkFree)
  (otherFree : other.tree.IsLinkFree) (plainEndings : survey.settings.lookup.HasPlainEndings)

include agree covers sound otherSound free otherFree plainEndings

/-- What ignored directories hold does not change which node a specifier names. -/
theorem bind_find?_of_agree {directory : List Name} (plain : ∀ name ∈ directory, Path.IsPlain name)
    {specifier : List Char} (isLocal : Source.isLocal specifier = true) :
    (survey.settings.lookup.find? fs (Path.ofNames directory) specifier).bind survey.nodeAt? =
      (survey.settings.lookup.find? other (Path.ofNames directory) specifier).bind survey.nodeAt? := by
  have settled := Path.isPlain_settle plain
    fun segment (member : segment ∈ Path.segments specifier) => Path.noSlash_of_mem_segments member
  rw [Source.Lookup.find?_ofNames plain isLocal, Source.Lookup.find?_ofNames plain isLocal]
  generalize Path.settle directory (Path.segments specifier) = names at settled
  have plainOuter := Path.isPlain_dropLast settled
  by_cases outer : ReachesIgnored root survey.settings names.dropLast
  · have nothing (fs : FileSystem) :
        (survey.settings.lookup.atPath? fs (Path.ofNames names)).bind survey.nodeAt? = none := by
      apply Source.Lookup.bind_atPath?_ofNames_eq_none settled plainEndings
      · intro segment noSlash
        exact covers.nodeAt?_of_reachesIgnored sound plainOuter noSlash outer
      · intro segment noSlash
        exact covers.nodeAt?_of_reachesIgnored sound settled noSlash outer.of_dropLast
    rw [nothing, nothing]
  · apply Source.Lookup.bind_atPath?_ofNames_congr settled plainEndings settled rfl
    · intro ending noSlash
      have noSlashAdded : '/' ∉ names.getLast?.getD [] ++ ending := by
        rw [List.mem_append, not_or]
        exact ⟨Source.Lookup.noSlash_getLast? settled, noSlash⟩
      refine ⟨?_, rfl⟩
      intro manner looks
      exact agree.seen_eq sound otherSound free otherFree looks plainOuter noSlashAdded outer
    · by_cases inner : ReachesIgnored root survey.settings names
      · right
        intro segment noSlash
        have nothing := covers.nodeAt?_of_reachesIgnored sound settled noSlash inner
        exact ⟨nothing, nothing⟩
      · left
        intro segment noSlash
        exact ⟨agree.seen_eq sound otherSound free otherFree (.inl rfl) settled noSlash inner, rfl⟩

/-- What ignored directories hold does not change what a file comes to. -/
theorem scan_of_agree {id : Id} {node : Node} (member : (id, node) ∈ survey.nodes) :
    survey.scan fs node.key = survey.scan other node.key := by
  obtain ⟨children, here⟩ := covers.here
  obtain ⟨content, kept, -⟩ := covers.exists_file here (free.of_get? here) member
  have outside : ¬IsInsideIgnored root survey.settings (root ++ namesOf node.key) :=
    fun inside => not_reachesIgnored_append kept.noneIgnored inside.reaches
  apply covers.scan_eq sound otherSound kept (Entry.file_of_surface (agree _ outside) kept.here)
  intro specifier isLocal
  rw [covers.directoryOf_eq sound kept]
  exact bind_find?_of_agree agree covers sound otherSound free otherFree plainEndings
    (isPlain_directory_of_isKept sound kept) isLocal

end Survey

/-- What lies inside ignored directories below the root never shows: of two trees without links that are the
same elsewhere, and in which the path leads to one root, the same graph is built with the same count of
unresolved specifiers, or both builds fail alike. -/
theorem buildGraph_ignores_contents {fs other : FileSystem} {path : Path} {settings : Settings}
    (sound : fs.tree.IsSound) (otherSound : other.tree.IsSound) (free : fs.tree.IsLinkFree)
    (otherFree : other.tree.IsLinkFree) (plainEndings : settings.lookup.HasPlainEndings)
    (sameRoot : ∀ root, fs.locate path = .ok root ↔ other.locate path = .ok root)
    (agree : ∀ root, fs.locate path = .ok root → AgreeOutsideIgnored root settings fs other) :
    buildGraph fs path settings = buildGraph other path settings := by
  cases located : fs.locate path with
  | error cause =>
    cases otherLocated : other.locate path with
    | error otherCause => rw [buildGraph_of_locate_error located, buildGraph_of_locate_error otherLocated]
    | ok root =>
      rw [(sameRoot root).mpr otherLocated] at located
      cases located
  | ok root =>
    have otherLocated := (sameRoot root).mp located
    have agree := agree root located
    obtain ⟨entry, here, -⟩ := exists_entry_of_locate located
    have leads := agree.leadsToDirectory_eq sound otherSound free otherFree (sound.isPlain here)
    rw [buildGraph_of_locate located, buildGraph_of_locate otherLocated, ← leads]
    split
    case isFalse => rfl
    case isTrue success =>
      obtain ⟨children, there, resolved⟩ := exists_directory_of_leads sound located success
      obtain ⟨otherChildren, otherThere, otherResolved⟩ :=
        exists_directory_of_leads otherSound otherLocated (leads ▸ success)
      have surveys : Workspace.survey ⟨Path.ofNames root, settings⟩ fs =
          Workspace.survey ⟨Path.ofNames root, settings⟩ other := by
        rw [survey_of_resolve resolved, survey_of_resolve otherResolved,
          agree.walk_eq sound otherSound there otherThere]
      rw [← surveys]
      cases surveyed : Workspace.survey ⟨Path.ofNames root, settings⟩ fs with
      | error failure => rfl
      | ok survey =>
        obtain ⟨rfl, covers⟩ := Survey.covers_of_survey sound located success surveyed
        apply Survey.connect_congr rfl rfl
        intro entry member
        exact Survey.scan_of_agree agree covers sound otherSound free otherFree plainEndings member

/-! A file that imports its neighbour and something out of an ignored directory, which may hold anything. -/

def packageImport : Bytes :=
  Utf8.encode "import x from './node_modules/x'; import b from './b';".toList

/-- The root `/p` with an ignored directory of which the children are given. -/
def packagedFiles (packages : List (Name × Entry)) : FileSystem where
  tree := .directory [("p".toList, .directory
    [("node_modules".toList, .directory packages), ("a.js".toList, .file packageImport), ("b.js".toList, .file [])])]
  workingDirectory := []

/-- Below a name that is not ignored, all such trees are the same. -/
theorem agreeOutsideIgnored_packagedFiles (packages others : List (Name × Entry)) :
    AgreeOutsideIgnored ["p".toList] .standard (packagedFiles packages) (packagedFiles others) := by
  have child (top : Name) (children : List (Name × Entry)) (first : Name) (rest : Location) :
      (Entry.directory [(top, .directory children)]).get? (first :: rest) =
        if top = first then (Entry.directory children).get? rest else none := by
    rw [Entry.get?_directory, Entry.child?]
    split <;> rfl
  have inner (second : Name) (rest : Location) (outside : "node_modules".toList ≠ second) :
      ((packagedFiles packages).tree.get? ("p".toList :: second :: rest)) =
        (packagedFiles others).tree.get? ("p".toList :: second :: rest) := by
    rw [packagedFiles, packagedFiles, child, child, if_pos rfl, if_pos rfl, Entry.get?_directory,
      Entry.get?_directory, Entry.child?_cons_of_ne outside, Entry.child?_cons_of_ne outside]
  intro location outside
  rcases location with _ | ⟨first, rest⟩
  · rfl
  by_cases top : "p".toList = first
  · subst top
    rcases rest with _ | ⟨second, rest⟩
    · rfl
    by_cases ignored : "node_modules".toList = second
    · subst ignored
      cases rest with
      | nil => rfl
      | cons third rest => exact absurd ⟨[], "node_modules".toList, third :: rest, by simp, by decide, rfl⟩ outside
    · exact congrArg (Option.map Entry.surface) (inner second rest ignored)
  · rw [FileSystem.get?, FileSystem.get?, packagedFiles, packagedFiles, child, child, if_neg top, if_neg top]

/-- The specifier is found as a file in one of the trees, as a directory with an index file in the other. -/
theorem buildGraph_ignores_contents_of_packagedFiles :
    (packagedFiles [("x.js".toList, .file [])]).pathExists (.ofString "/p/node_modules/x.js") = true ∧
    (packagedFiles [("x".toList, .directory [("index.js".toList, .file [])])]).pathExists
      (.ofString "/p/node_modules/x.js") = false ∧
    buildGraph (packagedFiles [("x.js".toList, .file [])]) (.ofString "/p") .standard =
      buildGraph (packagedFiles [("x".toList, .directory [("index.js".toList, .file [])])]) (.ofString "/p")
        .standard := by
  have located : (packagedFiles [("x.js".toList, .file [])]).locate (.ofString "/p") = .ok ["p".toList] := by
    decide +kernel
  have otherLocated : (packagedFiles [("x".toList, .directory [("index.js".toList, .file [])])]).locate
      (.ofString "/p") = .ok ["p".toList] := by
    decide +kernel
  refine ⟨by decide +kernel, by decide +kernel, ?_⟩
  apply buildGraph_ignores_contents
  · decide +kernel
  · decide +kernel
  · decide +kernel
  · decide +kernel
  · exact ⟨by decide, by decide⟩
  · intro root
    rw [located, otherLocated]
  · intro root leads
    obtain rfl := Except.ok.inj (located.symm.trans leads)
    exact agreeOutsideIgnored_packagedFiles _ _

end ImportAtlas
