import ImportAtlas.Proofs.FileSystem.Overwriting
import ImportAtlas.Proofs.Graph.Build

/-! # Building again after a file was written

A build reads source files only. So after a file was written that is none, a build that succeeded still does.
Its graph can be another one: the new file is numbered like any entry, and a specifier can come to mean it. But
writing over the file once it is there changes no kind of entry, and then the graph stays the same.
-/

namespace ImportAtlas

open FileSystem (HasDirectory IsWritten)

/-- A file that is no source file was written in a directory of a tree without links, and the tree after that. -/
structure WritesBeside (settings : Settings) (fs after : FileSystem) (holder : Location) (name : Name)
    (content : Bytes) : Prop extends IsWritten fs after (holder ++ [name]) content where
  noSource : settings.isSource name = false
  sound : fs.tree.IsSound
  soundAfter : after.tree.IsSound
  free : fs.tree.IsLinkFree
  freeAfter : after.tree.IsLinkFree

namespace WritesBeside

variable {settings : Settings} {fs after : FileSystem} {holder root : Location} {name : Name} {content : Bytes}
  {path : Path} {connected : Connected} {survey later : Survey}
  (writes : WritesBeside settings fs after holder name content)

include writes

/-- No source file is written. -/
theorem ne_of_hasSourceEnding {key : String}
    (source : settings.HasSourceEnding ((namesOf key).getLast (namesOf_ne_nil key))) :
    root ++ namesOf key ≠ holder ++ [name] := by
  intro same
  have last := congrArg List.getLast? same
  rw [List.getLast?_append_of_ne_nil _ (namesOf_ne_nil key), List.getLast?_concat,
    List.getLast?_eq_some_getLast (namesOf_ne_nil key)] at last
  rw [Option.some.inj last, ← Settings.isSource_iff, writes.noSource] at source
  exact Bool.false_ne_true source

/-- The source files are the same before and after, with the same content. -/
theorem isKept_iff {key : String} {text : Bytes}
    (source : settings.HasSourceEnding ((namesOf key).getLast (namesOf_ne_nil key))) :
    IsKept after root settings key (.file text) ↔ IsKept fs root settings key (.file text) := by
  have elsewhere : root ++ namesOf key ≠ holder ++ [name] := writes.ne_of_hasSourceEnding source
  have same := writes.elsewhere _ elsewhere
  constructor
  · intro kept
    exact ⟨Entry.file_of_surface same kept.here, kept.noneIgnored⟩
  · intro kept
    exact ⟨Entry.file_of_surface same.symm kept.here, kept.noneIgnored⟩

/-- A root that was found is found still. -/
theorem leads (located : fs.locate path = .ok root) (leads : fs.leadsToDirectory (Path.ofNames root) = true) :
    after.locate path = .ok root ∧ after.leadsToDirectory (Path.ofNames root) = true := by
  obtain ⟨children, here, resolved⟩ := exists_directory_of_leads writes.sound located leads
  obtain ⟨below, resolvedAfter⟩ := writes.resolve_directory writes.free (by decide) resolved
  refine ⟨writes.locate_directory writes.free located ⟨children, here⟩, ?_⟩
  rw [FileSystem.leadsToDirectory, FileSystem.entryAt, resolvedAfter]
  rfl

/-- A walk visits no directory that it did not visit before. -/
theorem mem_walk_of_isDirectory {skips : Name → Bool} {children below : List (Name × Entry)} {visit : Visit}
    (here : fs.get? root = some (.directory children)) (hereAfter : after.get? root = some (.directory below))
    (isDirectory : visit.isDirectory = true) (member : visit ∈ (Entry.directory below).walk skips) :
    visit ∈ (Entry.directory children).walk skips := by
  rw [Entry.mem_walk_iff (writes.soundAfter.of_get? hereAfter).1] at member
  obtain ⟨nonempty, kept, entry, there, kind⟩ := member
  rw [isDirectory, Entry.isDirectory_eq, decide_eq_true_iff, Entry.kind_eq_directory_iff] at kind
  obtain ⟨inner, rfl⟩ := kind
  have directory : after.HasDirectory (root ++ visit.names) :=
    ⟨inner, (FileSystem.get?_append hereAfter visit.names).trans there⟩
  obtain ⟨outer, before⟩ := (writes.hasDirectory_iff _).mp directory
  rw [FileSystem.get?_append here] at before
  rw [Entry.mem_walk_iff (writes.sound.of_get? here).1]
  exact ⟨nonempty, kept, _, before, by rw [isDirectory]; rfl⟩

/-- A survey fails at directories only, so it succeeds still. -/
theorem exists_survey (located : fs.locate path = .ok root)
    (leads : fs.leadsToDirectory (Path.ofNames root) = true)
    (surveyed : Workspace.survey ⟨Path.ofNames root, settings⟩ fs = .ok survey) :
    ∃ later, Workspace.survey ⟨Path.ofNames root, settings⟩ after = .ok later := by
  obtain ⟨locatedAfter, leadsAfter⟩ := writes.leads located leads
  obtain ⟨children, here, resolved⟩ := exists_directory_of_leads writes.sound located leads
  obtain ⟨below, hereAfter, resolvedAfter⟩ := exists_directory_of_leads writes.soundAfter locatedAfter leadsAfter
  rw [survey_of_resolve resolved] at surveyed
  split at surveyed
  case isTrue => cases surveyed
  case isFalse listed =>
    rw [survey_of_resolve resolvedAfter, if_neg]
    · exact ⟨_, rfl⟩
    · intro long
      obtain ⟨visit, member, long⟩ := List.any_eq_true.mp long
      have isDirectory : visit.isDirectory = true := (Bool.and_eq_true_iff.mp long).1
      have before := writes.mem_walk_of_isDirectory here hereAfter isDirectory member
      exact listed (List.any_eq_true.mpr ⟨visit, before, long⟩)

/-- All source files can be read still. -/
theorem exists_connect (covers : survey.Covers fs root) (uses : survey.settings = settings)
    (coversLater : later.Covers after root) (usesLater : later.settings = settings)
    (success : survey.connect fs = .ok connected) :
    ∃ connectedLater, later.connect after = .ok connectedLater := by
  obtain ⟨children, here⟩ := coversLater.here
  have readable := Survey.exists_connect_eq_ok_iff.mp ⟨connected, success⟩
  apply Survey.exists_connect_eq_ok_iff.mpr
  rintro ⟨id, node⟩ member
  obtain ⟨text, keptAfter, source⟩ := coversLater.exists_file here (writes.freeAfter.of_get? here) member
  rw [usesLater] at keptAfter source
  have kept := (writes.isKept_iff source).mp keptAfter
  rw [← uses] at kept source
  obtain ⟨otherId, before, inSurvey, sameKey⟩ := covers.exists_node kept source
  obtain ⟨bytes, read⟩ := readable _ inSurvey
  rw [sameKey, covers.readBytes_filePath writes.sound kept] at read
  rw [coversLater.readBytes_filePath writes.soundAfter keptAfter]
  split at read
  case isTrue fits => exact ⟨text, if_pos fits⟩
  case isFalse => cases read

/-- A build that succeeded still does. -/
theorem exists_buildGraph (built : buildGraph fs path settings = .ok connected) :
    ∃ connectedLater, buildGraph after path settings = .ok connectedLater := by
  obtain ⟨root, survey, located, leads, surveyed, success⟩ := exists_survey_of_buildGraph built
  obtain ⟨locatedAfter, leadsAfter⟩ := writes.leads located leads
  obtain ⟨later, surveyedAfter⟩ := writes.exists_survey located leads surveyed
  obtain ⟨uses, covers⟩ := Survey.covers_of_survey writes.sound located leads surveyed
  obtain ⟨usesLater, coversLater⟩ :=
    Survey.covers_of_survey writes.soundAfter locatedAfter leadsAfter surveyedAfter
  rw [buildGraph_of_locate locatedAfter, if_pos leadsAfter, surveyedAfter]
  exact writes.exists_connect covers uses coversLater usesLater success

/-- A build after a file was written over makes the same graph. -/
theorem buildGraph_eq {old : Bytes} (there : fs.get? (holder ++ [name]) = some (.file old))
    (built : buildGraph fs path settings = .ok connected) : buildGraph after path settings = .ok connected := by
  obtain ⟨root, survey, located, leads, surveyed, success⟩ := exists_survey_of_buildGraph built
  obtain ⟨locatedAfter, leadsAfter⟩ := writes.leads located leads
  obtain ⟨children, here, resolved⟩ := exists_directory_of_leads writes.sound located leads
  obtain ⟨below, hereAfter, resolvedAfter⟩ := exists_directory_of_leads writes.soundAfter locatedAfter leadsAfter
  obtain ⟨rfl, covers⟩ := Survey.covers_of_survey writes.sound located leads surveyed
  have alike := writes.isLike there
  have walks : (Entry.directory below).walk survey.settings.isIgnored =
      (Entry.directory children).walk survey.settings.isIgnored := by
    apply Entry.walk_congr (writes.soundAfter.of_get? hereAfter).1 (writes.sound.of_get? here).1
    intro names _ _
    rw [← FileSystem.get?_append here, ← FileSystem.get?_append hereAfter]
    exact Entry.map_isDirectory_of_kind (alike.kinds _).symm
  have surveyedAfter : Workspace.survey ⟨Path.ofNames root, survey.settings⟩ after = .ok survey := by
    rw [survey_of_resolve resolvedAfter, walks, ← surveyed, survey_of_resolve resolved]
  rw [buildGraph_of_locate locatedAfter, if_pos leadsAfter, surveyedAfter, ← success]
  refine (Survey.connect_congr rfl rfl ?_).symm
  rintro ⟨id, node⟩ member
  obtain ⟨text, kept, source⟩ := covers.exists_file here (writes.free.of_get? here) member
  apply covers.scan_eq writes.sound writes.soundAfter kept ((writes.isKept_iff source).mpr kept).here
  intro specifier _
  rw [Source.Lookup.find?_eq_of_seen alike.seen_eq]

end WritesBeside

end ImportAtlas
