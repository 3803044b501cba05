import ImportAtlas.FileSystem.Operations
import ImportAtlas.Proofs.FileSystem.Resolve
import ImportAtlas.Proofs.Path.Clean

/-! # What is found where no link is met

Where there are no links, a path of names with any segment at its end leads to where the segment settles.
It does so if the names lead to a directory and neither the path nor one of its names is too long. The
length is that of the path as it is spelled, so a place can be out of reach by one path and within reach
by another.
-/

namespace ImportAtlas

/-- A path is only looked at: nothing is made, and it is handed over as a whole. -/
def Manner.Looks (manner : Manner) : Prop :=
  manner = .follow ∨ manner = .keep

namespace FileSystem

/-- The path with the given segments is short enough to be handed over, and so is each of its names. -/
structure Fits (segments : List (List Char)) : Prop where
  path : byteLength (Path.ofNames segments).chars < pathLimit
  names : ∀ segment ∈ segments, byteLength segment ≤ nameLimit

instance (segments : List (List Char)) : Decidable (Fits segments) :=
  decidable_of_iff (byteLength (Path.ofNames segments).chars < pathLimit ∧
      ∀ segment ∈ segments, byteLength segment ≤ nameLimit)
    ⟨fun ⟨path, names⟩ => ⟨path, names⟩, fun fits => ⟨fits.path, fits.names⟩⟩

theorem byteLength_append (first second : List Char) :
    byteLength (first ++ second) = byteLength first + byteLength second := by
  simp [byteLength, Utf8.encode]

theorem length_le_byteLength (text : List Char) : text.length ≤ byteLength text := by
  induction text with
  | nil => exact Nat.zero_le _
  | cons c rest ih =>
    have positive : 0 < (String.utf8EncodeChar c).length := by
      rw [String.length_utf8EncodeChar]
      exact Char.utf8Size_pos c
    have parts : byteLength (c :: rest) = (String.utf8EncodeChar c).length + byteLength rest := by
      simp [byteLength, Utf8.encode]
    rw [List.length_cons, parts]
    omega

theorem fits_concat_iff {names : List Name} {segment : List Char} : Fits (names ++ [segment]) ↔
    byteLength (Path.ofNames (names ++ [segment])).chars < pathLimit ∧
      (∀ name ∈ names, byteLength name ≤ nameLimit) ∧ byteLength segment ≤ nameLimit := by
  have parts : (∀ name ∈ names ++ [segment], byteLength name ≤ nameLimit) ↔
      (∀ name ∈ names, byteLength name ≤ nameLimit) ∧ byteLength segment ≤ nameLimit := by
    rw [List.forall_mem_append, List.forall_mem_singleton]
  exact ⟨fun ⟨path, short⟩ => ⟨path, parts.mp short⟩, fun ⟨path, short⟩ => ⟨path, parts.mpr short⟩⟩

/-- A path with a shorter last segment fits as well. -/
theorem Fits.of_byteLength_le {names : List Name} {longer segment : List Char} (fits : Fits (names ++ [longer]))
    (shorter : byteLength segment ≤ byteLength longer) : Fits (names ++ [segment]) := by
  obtain ⟨before, spelled⟩ := Path.exists_ofSegments_concat names
  obtain ⟨path, shortNames, short⟩ := fits_concat_iff.mp fits
  apply fits_concat_iff.mpr
  rw [Path.ofNames, spelled, ← List.cons_append, byteLength_append] at path ⊢
  exact ⟨by omega, shortNames, Nat.le_trans shorter short⟩

/-- No location on the way to a place, the place included, is that of a link. -/
def IsClear (fs : FileSystem) (names : Location) : Prop :=
  ∀ before after, names = before ++ after → ∀ target, fs.get? before ≠ some (.link target)

/-- A path of names with a segment at the end, on which no link is met. -/
structure ClearWay (fs : FileSystem) (names : List Name) (segment : List Char) : Prop where
  plain : ∀ name ∈ names, Path.IsPlain name
  noSlash : '/' ∉ segment
  clear : fs.IsClear names
  noLink (target : Path) : fs.get? (Path.settleStep names segment) ≠ some (.link target)

variable {fs : FileSystem} {manner : Manner} {jump : Location → List Step → Except Cause Place}

/-- Below an entry without links no link is met. -/
theorem isClear_append {base : Location} {entry : Entry} (here : fs.get? base = some entry)
    (free : entry.IsLinkFree) (more : Location) : fs.IsClear (base ++ more) := by
  intro before after parts target link
  rcases List.append_eq_append_iff.mp parts with ⟨inner, rfl, -⟩ | ⟨outer, rfl, -⟩
  · -- The place is at the base or below it.
    rw [get?_append here] at link
    exact (free.of_get? link).ne_link target rfl
  · rcases List.eq_nil_or_concat outer with rfl | ⟨_, _, rfl⟩
    · rw [List.append_nil, link] at here
      exact free.ne_link target (Option.some.inj here).symm
    · obtain ⟨children, directory⟩ := Entry.exists_directory_of_get?_append (by simp) here
      exact nomatch directory.symm.trans link

/-- The way to an entry without links meets none. -/
theorem isClear_of_isLinkFree {location : Location} {entry : Entry} (here : fs.get? location = some entry)
    (free : entry.IsLinkFree) : fs.IsClear location := by
  have clear := isClear_append here free []
  rwa [List.append_nil] at clear

/-- No link is met on a path to something below an entry without links, whatever its last segment is. -/
theorem clearWay_append {base more : Location} {entry : Entry} (here : fs.get? base = some entry)
    (free : entry.IsLinkFree) (plain : ∀ name ∈ base ++ more, Path.IsPlain name) {segment : List Char}
    (noSlash : '/' ∉ segment) : fs.ClearWay (base ++ more) segment := by
  have clear : fs.IsClear (base ++ more) := isClear_append here free more
  refine ⟨plain, noSlash, clear, ?_⟩
  rw [Path.settleStep]
  rcases Path.component?_cases segment with idle | dots | stands
  · rw [idle]
    exact clear (base ++ more) [] (by simp)
  · rw [dots]
    exact clear _ _ (List.prefix_iff_eq_append.mp (List.dropLast_prefix _)).symm
  · rw [stands]
    dsimp only
    rw [List.append_assoc]
    exact isClear_append here free (more ++ [segment]) _ [] (by simp)

theorem isTooLong_of_looks (looks : manner.Looks) (holder : Location) (name : Name) :
    isTooLong manner holder name = decide (byteLength name > nameLimit) := by
  rcases looks with rfl | rfl <;> simp [isTooLong]

/-- Names that lead to a directory are followed there, unless one of them is too long. -/
theorem followWith_directory (looks : manner.Looks) {base names : Location} {rest : List Step}
    (here : ∃ children, fs.get? (base ++ names) = some (.directory children)) :
    fs.followWith manner jump base (names.map Step.name ++ rest) =
      if ∀ name ∈ names, byteLength name ≤ nameLimit then fs.followWith manner jump (base ++ names) rest
      else .error .nameTooLong := by
  induction names generalizing base with
  | nil => simp
  | cons name names ih =>
    obtain ⟨children, directory⟩ := Entry.exists_directory_of_directory here
    rw [List.append_cons] at here ⊢
    obtain ⟨below, next⟩ := Entry.exists_directory_of_directory here
    have next : fs.get? (base ++ [name]) = some (.directory below) := next
    have makesNothing : manner ≠ .create := by rcases looks with rfl | rfl <;> decide
    rw [List.map_cons, List.cons_append, followWith_name directory, if_neg fun create => makesNothing create.1,
      isTooLong_of_looks looks, next, ih here]
    by_cases long : byteLength name > nameLimit
    · have tooLong : ¬∀ other ∈ name :: names, byteLength other ≤ nameLimit := by
        intro short
        exact absurd (short name List.mem_cons_self) (Nat.not_le_of_gt long)
      rw [if_pos (decide_eq_true long), if_neg tooLong]
    · have same : (∀ other ∈ name :: names, byteLength other ≤ nameLimit) ↔
          ∀ other ∈ names, byteLength other ≤ nameLimit := by
        rw [List.forall_mem_cons]
        exact and_iff_right (Nat.le_of_not_gt long)
      rw [if_neg (by simpa using long), if_congr same rfl rfl]

/-- Names that lead on have led to a directory. -/
theorem exists_directory_of_followWith_names {base names last : Location} {entry : Entry} {step : Step}
    {rest : List Step}
    (clear : ∀ before after, names = before ++ after → ∀ target, fs.get? (base ++ before) ≠ some (.link target))
    (success : fs.followWith manner jump base (names.map Step.name ++ step :: rest) = .ok (.found last entry)) :
    ∃ children, fs.get? (base ++ names) = some (.directory children) := by
  induction names generalizing base with
  | nil =>
    rw [List.append_nil]
    exact exists_directory_of_followWith success
  | cons name names ih =>
    obtain ⟨children, directory⟩ := exists_directory_of_followWith success
    obtain ⟨-, -, leads⟩ := (followWith_name_eq_ok_iff directory).mp success
    rw [List.append_cons]
    cases leads with
    | kept link => exact absurd link (clear [name] names rfl _)
    | jumped link => exact absurd link (clear [name] names rfl _)
    | passed _ _ success =>
      apply ih _ success
      intro before after parts target
      rw [← List.append_cons]
      exact clear (name :: before) after (by rw [parts, List.cons_append]) target

/-- What the last segment of a path asks for, idle segments, two dots and names apart. -/
theorem lastStep_cases (segment : List Char) :
    ((segment = [] ∨ segment = ['.']) ∧ (lastStep segment = .slash ∨ lastStep segment = .here)) ∨
      (segment = ['.', '.'] ∧ lastStep segment = .up) ∨
      (Path.component? segment = some (.name segment) ∧ lastStep segment = .name segment) := by
  rw [lastStep, Path.step?, Path.component?]
  by_cases empty : segment = []
  · exact .inl ⟨.inl empty, .inl (by rw [if_pos empty]; rfl)⟩
  by_cases dot : segment = ['.']
  · exact .inl ⟨.inr dot, .inr (by rw [if_neg empty, if_pos dot]; rfl)⟩
  by_cases dots : segment = ['.', '.']
  · exact .inr (.inl ⟨dots, by rw [if_neg empty, if_neg dot, if_pos dots]; rfl⟩)
  · refine .inr (.inr ⟨?_, ?_⟩)
    · rw [if_neg (not_or.mpr ⟨empty, dot⟩), if_neg dots]
    · rw [if_neg empty, if_neg dot, if_neg dots]
      rfl

/-- The last segment of a path leads from a directory to where it settles. -/
theorem followWith_lastStep (looks : manner.Looks) {location : Location}
    (here : ∃ children, fs.get? location = some (.directory children)) {segment : List Char}
    (noLink : ∀ target, fs.get? (Path.settleStep location segment) ≠ some (.link target)) :
    fs.followWith manner jump location [lastStep segment] =
      if byteLength segment ≤ nameLimit then
        match fs.get? (Path.settleStep location segment) with
        | some entry => .ok (.found (Path.settleStep location segment) entry)
        | none => .ok (.vacant location segment)
      else .error .nameTooLong := by
  obtain ⟨children, directory⟩ := here
  rcases lastStep_cases segment with ⟨idle, step⟩ | ⟨rfl, step⟩ | ⟨stands, step⟩
  · have stays : Path.settleStep location segment = location := by rw [Path.settleStep, Path.component?, if_pos idle]
    have short : byteLength segment ≤ nameLimit := by rcases idle with rfl | rfl <;> decide
    rw [stays, if_pos short]
    rcases step with step | step <;> simp only [step, followWith, directory]
  · obtain ⟨above, parent⟩ := Entry.exists_directory_dropLast directory
    have parent : fs.get? location.dropLast = some (.directory above) := parent
    have climbs : Path.settleStep location ['.', '.'] = location.dropLast := rfl
    have short : byteLength ['.', '.'] ≤ nameLimit := by decide
    rw [climbs, if_pos short]
    simp only [step, followWith, directory, parent]
  · have goesOn : Path.settleStep location segment = location ++ [segment] := by rw [Path.settleStep, stands]
    have makesNothing : manner ≠ .create := by rcases looks with rfl | rfl <;> decide
    rw [goesOn] at noLink ⊢
    rw [step, followWith_name directory, if_neg fun create => makesNothing create.1, isTooLong_of_looks looks]
    by_cases short : byteLength segment ≤ nameLimit
    · rw [if_pos short, if_neg (by simpa using short)]
      cases found : fs.get? (location ++ [segment]) with
      | none => simp
      | some entry =>
        cases entry with
        | link target => exact absurd found (noLink target)
        | file content => rw [followWith, found]
        | directory children => rw [followWith, found]
    · rw [if_neg short, if_pos (by simpa using short)]

/-! ## Paths of names -/

section Paths

variable (looks : manner.Looks) (sound : fs.tree.IsSound)

theorem noNull_ofNames {segments : List (List Char)} (noNull : ∀ segment ∈ segments, '\x00' ∉ segment) :
    '\x00' ∉ (Path.ofNames segments).chars := by
  intro null
  rcases List.mem_cons.mp null with slash | inside
  · cases slash
  · rcases Path.mem_ofSegments inside with slash | ⟨segment, member, here⟩
    · cases slash
    · exact noNull segment member here

/-- A segment that settles somewhere holds no null character, as no name does. -/
theorem noNull_of_get?_settleStep {names : Location} {segment : List Char} {entry : Entry}
    (sound : fs.tree.IsSound) (found : fs.get? (Path.settleStep names segment) = some entry) :
    '\x00' ∉ segment := by
  rcases lastStep_cases segment with ⟨rfl | rfl, -⟩ | ⟨rfl, -⟩ | ⟨stands, -⟩
  · decide
  · decide
  · decide
  · rw [Path.settleStep, stands] at found
    exact ((sound.of_get? found).2 segment (by simp)).noNull

include looks sound

/-- In a directory that is there, a path leads to where its last segment settles, unless it is too long. -/
theorem resolve_in_directory {names : Location} (here : ∃ children, fs.get? names = some (.directory children))
    {segment : List Char} (noSlash : '/' ∉ segment) (noNull : '\x00' ∉ segment)
    (noLink : ∀ target, fs.get? (Path.settleStep names segment) ≠ some (.link target)) :
    fs.resolve manner (Path.ofNames (names ++ [segment])) =
      if Fits (names ++ [segment]) then
        match fs.get? (Path.settleStep names segment) with
        | some entry => .ok (.found (Path.settleStep names segment) entry)
        | none => .ok (.vacant names segment)
      else .error .nameTooLong := by
  obtain ⟨children, directory⟩ := here
  have allNoNull : ∀ name ∈ names ++ [segment], '\x00' ∉ name := by
    rw [List.forall_mem_append, List.forall_mem_singleton]
    exact ⟨fun name member => ((sound.of_get? directory).2 name member).noNull, noNull⟩
  have handedOver : manner ≠ .locate := by rcases looks with rfl | rfl <;> decide
  have start : fs.startOf (Path.ofNames (names ++ [segment])) = [] := rfl
  have someChars : (Path.ofNames (names ++ [segment])).chars ≠ [] := List.cons_ne_nil _ _
  rw [resolve, if_neg (noNull_ofNames allNoNull), if_neg someChars, start, linkLimit, follow,
    steps_ofNames_concat (sound.isPlain directory) noSlash]
  by_cases long : byteLength (Path.ofNames (names ++ [segment])).chars ≥ pathLimit
  · rw [if_pos ⟨handedOver, long⟩, if_neg fun fits => absurd fits.path (Nat.not_lt_of_ge long)]
  rw [if_neg fun tooLong => long tooLong.2, followWith_directory looks ⟨children, directory⟩, List.nil_append,
    followWith_lastStep looks ⟨children, directory⟩ noLink]
  have fits : Fits (names ++ [segment]) ↔
      (∀ name ∈ names, byteLength name ≤ nameLimit) ∧ byteLength segment ≤ nameLimit :=
    fits_concat_iff.trans (and_iff_right (Nat.lt_of_not_ge long))
  by_cases shortNames : ∀ name ∈ names, byteLength name ≤ nameLimit
  · have same : Fits (names ++ [segment]) ↔ byteLength segment ≤ nameLimit := fits.trans (and_iff_right shortNames)
    rw [if_pos shortNames, if_congr same rfl rfl]
  · rw [if_neg shortNames, if_neg fun both => shortNames (fits.mp both).1]

omit looks sound in
theorem entryAt_eq_ok_iff {path : Path} {entry : Entry} :
    fs.entryAt manner path = .ok entry ↔ ∃ location, fs.resolve manner path = .ok (.found location entry) := by
  rw [entryAt]
  split
  case h_1 location last resolved => simp [resolved, eq_comm]
  case h_2 parent name resolved => simp [resolved]
  case h_3 cause failed => simp [failed]

/-- What is found by a path on which no link is met. -/
theorem entryAt_ofNames_concat_iff {names : List Name} {segment : List Char} (way : fs.ClearWay names segment)
    {entry : Entry} : fs.entryAt manner (Path.ofNames (names ++ [segment])) = .ok entry ↔
      (∃ children, fs.get? names = some (.directory children)) ∧
        fs.get? (Path.settleStep names segment) = some entry ∧ Fits (names ++ [segment]) := by
  obtain ⟨plain, noSlash, clear, noLink⟩ := way
  rw [entryAt_eq_ok_iff]
  constructor
  · rintro ⟨location, success⟩
    obtain ⟨accepted, followed⟩ := resolve_eq_ok_iff.mp success
    have start : fs.startOf (Path.ofNames (names ++ [segment])) = [] := rfl
    rw [start, linkLimit, follow, steps_ofNames_concat plain noSlash] at followed
    have clearFromRoot : ∀ before after, names = before ++ after →
        ∀ target, fs.get? ([] ++ before) ≠ some (.link target) := clear
    have directory : ∃ children, fs.get? names = some (.directory children) :=
      exists_directory_of_followWith_names clearFromRoot followed
    have noNull : '\x00' ∉ segment := by
      intro inside
      obtain ⟨before, spelled⟩ := Path.exists_ofSegments_concat names
      apply accepted.noNull
      rw [Path.ofNames, spelled]
      exact List.mem_cons_of_mem _ (List.mem_append_right _ inside)
    rw [resolve_in_directory looks sound directory noSlash noNull noLink] at success
    split at success
    case isTrue fits =>
      split at success
      case h_1 last found =>
        cases success
        exact ⟨directory, found, fits⟩
      case h_2 => cases success
    case isFalse => cases success
  · rintro ⟨directory, found, fits⟩
    refine ⟨Path.settleStep names segment, ?_⟩
    rw [resolve_in_directory looks sound directory noSlash (noNull_of_get?_settleStep sound found) noLink,
      if_pos fits, found]

/-- What is at a location is found at the path of the location, if that is short enough. -/
theorem entryAt_ofNames_iff {names : List Name} (plain : ∀ name ∈ names, Path.IsPlain name)
    (clear : fs.IsClear names) {entry : Entry} :
    fs.entryAt manner (Path.ofNames names) = .ok entry ↔
      (∃ children, fs.get? [] = some (.directory children)) ∧ fs.get? names = some entry ∧ Fits names := by
  rcases List.eq_nil_or_concat names with rfl | ⟨before, last, rfl⟩
  · have rootPath : Path.ofNames [] = Path.ofNames ([] ++ [[]]) := rfl
    have fits : Fits ([] ++ [[]]) ↔ Fits [] := iff_of_true (by decide) (by decide)
    have stays : Path.settleStep [] [] = [] := rfl
    have way : fs.ClearWay [] [] := ⟨plain, List.not_mem_nil, clear, clear [] [] rfl⟩
    rw [rootPath, entryAt_ofNames_concat_iff looks sound way, fits, stays]
  · rw [List.concat_eq_append] at plain clear ⊢
    have here := plain last (by simp)
    have goesOn : Path.settleStep before last = before ++ [last] := Path.settleStep_of_isPlain here
    have way : fs.ClearWay before last := by
      refine ⟨fun name member => plain name (List.mem_append_left _ member), here.noSlash, ?_, ?_⟩
      · intro first more parts
        exact clear first (more ++ [last]) (by rw [parts, List.append_assoc])
      · rw [goesOn]
        exact clear (before ++ [last]) [] (by simp)
    rw [entryAt_ofNames_concat_iff looks sound way, goesOn]
    apply and_congr_left
    rintro ⟨found, -⟩
    obtain ⟨children, above, -⟩ := Entry.exists_directory_of_get? found
    exact iff_of_true ⟨children, above⟩ (Entry.exists_directory_root above)

omit looks

/-- Reading the file at a location fails only if its path is too long. -/
theorem readBytes_ofNames_of_file {names : Location} (nonempty : names ≠ []) {content : Bytes}
    (here : fs.get? names = some (.file content)) :
    fs.readBytes (Path.ofNames names) = if Fits names then .ok content else .error .nameTooLong := by
  obtain ⟨before, last, rfl⟩ := (List.eq_nil_or_concat names).resolve_left nonempty
  rw [List.concat_eq_append] at here ⊢
  have valid := (sound.of_get? here).2 last (by simp)
  obtain ⟨children, directory, -⟩ := Entry.exists_directory_of_get? here
  have goesOn : Path.settleStep before last = before ++ [last] := Path.settleStep_of_isPlain valid.isPlain
  have noLink : ∀ target, fs.get? (Path.settleStep before last) ≠ some (.link target) := by
    rw [goesOn, here]
    exact fun target same => nomatch same
  rw [readBytes, entryAt, resolve_in_directory (.inl rfl) sound ⟨children, directory⟩ valid.noSlash valid.noNull
    noLink, goesOn, here]
  split_ifs <;> rfl

end Paths

/-! ## What is seen

The tests of a path depend on nothing but the kind of entry that the path leads to. -/

/-- The kind of the entry that a path leads to. -/
def seen (fs : FileSystem) (manner : Manner) (path : Path) : Option Entry.Kind :=
  (fs.entryAt manner path).toOption.map Entry.kind

section Tests

variable {path : Path}

theorem seen_eq_some_iff {kind : Entry.Kind} :
    fs.seen manner path = some kind ↔ ∃ entry, fs.entryAt manner path = .ok entry ∧ entry.kind = kind := by
  rw [seen]
  cases fs.entryAt manner path <;> simp [Except.toOption]

theorem pathExists_eq : fs.pathExists path = (fs.seen .follow path).isSome := by
  rw [pathExists, seen]
  cases fs.entryAt .follow path <;> rfl

theorem leadsToDirectory_eq : fs.leadsToDirectory path = decide (fs.seen .follow path = some .directory) := by
  rw [leadsToDirectory, seen]
  cases fs.entryAt .follow path with
  | ok entry => simp [Except.toOption, Entry.isDirectory_eq]
  | error cause => rfl

theorem isPlainDirectory_eq : fs.isPlainDirectory path = decide (fs.seen .keep path = some .directory) := by
  rw [isPlainDirectory, seen]
  cases fs.entryAt .keep path with
  | ok entry => simp [Except.toOption, Entry.isDirectory_eq]
  | error cause => rfl

theorem isPlainFile_eq : fs.isPlainFile path = decide (fs.seen .keep path = some .file) := by
  rw [isPlainFile, seen]
  cases fs.entryAt .keep path with
  | ok entry => cases entry <;> simp [Except.toOption, Entry.isFile, Entry.kind]
  | error cause => rfl

end Tests

/-- Two paths show the same if their directories are there alike, and their last segments settle at entries
of one kind, within reach by both paths or by neither. -/
theorem seen_ofNames_concat_congr (looks : manner.Looks) {other : FileSystem} (sound : fs.tree.IsSound)
    (otherSound : other.tree.IsSound) {names otherNames : List Name} {segment : List Char}
    (way : fs.ClearWay names segment) (otherWay : other.ClearWay otherNames segment)
    (directory : (∃ children, fs.get? names = some (.directory children)) ↔
      ∃ children, other.get? otherNames = some (.directory children))
    (settled : (fs.get? (Path.settleStep names segment)).map Entry.kind =
      (other.get? (Path.settleStep otherNames segment)).map Entry.kind)
    (fits : ∀ entry, (∃ children, fs.get? names = some (.directory children)) →
      fs.get? (Path.settleStep names segment) = some entry →
        (Fits (names ++ [segment]) ↔ Fits (otherNames ++ [segment]))) :
    fs.seen manner (Path.ofNames (names ++ [segment])) =
      other.seen manner (Path.ofNames (otherNames ++ [segment])) := by
  apply Option.ext
  intro kind
  rw [seen_eq_some_iff, seen_eq_some_iff]
  simp only [entryAt_ofNames_concat_iff looks sound way, entryAt_ofNames_concat_iff looks otherSound otherWay]
  constructor
  · rintro ⟨entry, ⟨here, found, fit⟩, rfl⟩
    rw [found] at settled
    obtain ⟨otherEntry, otherFound, same⟩ := Option.map_eq_some_iff.mp settled.symm
    exact ⟨otherEntry, ⟨directory.mp here, otherFound, (fits entry here found).mp fit⟩, same⟩
  · rintro ⟨otherEntry, ⟨here, otherFound, fit⟩, rfl⟩
    rw [otherFound] at settled
    obtain ⟨entry, found, same⟩ := Option.map_eq_some_iff.mp settled
    exact ⟨entry, ⟨directory.mpr here, found, (fits entry (directory.mpr here) found).mpr fit⟩, same⟩

end FileSystem

end ImportAtlas
