import ImportAtlas.Proofs.FileSystem.Operations
import ImportAtlas.Proofs.Settings.Field
import ImportAtlas.Proofs.Toml.Document
import ImportAtlas.Proofs.Toml.Layout

/-! # What a settings file settles

A settings file gives items to some fields, each once and in any order, between empty lines, comments and whatever
else is no field. Loading it gives the defaults with these fields replaced. If one field is given a value of another
type, loading fails, whatever else the file says, and the defaults hold for all fields.
-/

namespace ImportAtlas.Settings

/-! ## Settings files -/

/-- Whether a text is complete by itself and begins no table. -/
def HoldsNoHeader (text : List Char) : Prop :=
  ∃ lines : List Toml.Line, Toml.tells? text = some lines ∧ ∀ header, .header header ∉ lines

/-- Whether texts, each complete by itself, make a document in which nothing has the name of a field. -/
def AreForeign (texts : List (List Char)) : Prop :=
  ∃ (lines : List Toml.Line) (document : Toml.Document),
    Toml.Tell texts lines ∧ Toml.Document.ofLines? lines = some document ∧
      (∀ member ∈ document.members, ∀ field : Field, member.1 ≠ field.name.toList) ∧
        ∀ header ∈ document.headers, ∀ field : Field, header.key.head? ≠ some field.name.toList

/-- The lines of a file that makes some choices. Other texts may stand between them, and tables after the last one. -/
inductive Gives : List Choice → List (List Char) → List (List Char) → Prop
  | rest (others : List (List Char)) : Gives [] others others
  | empty {choices : List Choice} {others lines : List (List Char)} {line : List Char}
      (isEmptyLine : Toml.IsEmptyLine line) (more : Gives choices others lines) : Gives choices others (line :: lines)
  | choice {choices : List Choice} {others lines : List (List Char)} {line : List Char} (choice : Choice)
      (isEntry : Toml.IsEntry line choice.field.name.toList choice.value) (more : Gives choices others lines) :
      Gives (choice :: choices) others (line :: lines)
  | other {choices : List Choice} {others lines : List (List Char)} {text : List Char}
      (holdsNoHeader : HoldsNoHeader text) (more : Gives choices others lines) :
      Gives choices (text :: others) (text :: lines)

/-- A line that gives a field what it does not take. -/
inductive IsWrong : Toml.Line → Prop
  | value {field : Field} {value : Toml.Value} (misfits : ∀ item : field.Item, value ≠ field.value item) :
      IsWrong (.entry [field.name.toList] value)
  | table {field : Field} {below : Toml.KeyPart} {key : List Toml.KeyPart} {value : Toml.Value} :
      IsWrong (.entry (field.name.toList :: below :: key) value)
  | header {field : Field} {key : List Toml.KeyPart} {isArray : Bool} :
      IsWrong (.header ⟨field.name.toList :: key, isArray⟩)

/-- A text that gives a field what it does not take: an entry of a known form, or anything that is read as such. -/
inductive Misgives : List Char → Prop
  | entry {text : List Char} {field : Field} {value : Toml.Value}
      (isEntry : Toml.IsEntry text field.name.toList value)
      (misfits : ∀ item : field.Item, value ≠ field.value item) : Misgives text
  | line {text : List Char} {line : Toml.Line} (tells : Toml.tells? text = some [line]) (isWrong : IsWrong line) :
      Misgives text

/-! ## Files that are read -/

/-- Whether a name is that of no field. -/
def isForeign (name : Toml.KeyPart) : Bool :=
  !fieldNames.contains (String.ofList name)

variable {choices : List Choice} {others lines : List (List Char)} {name : Toml.KeyPart}

theorem isForeign_iff : isForeign name = true ↔ ∀ field : Field, name ≠ field.name.toList := by
  have isName (field : Field) : field.name = String.ofList name ↔ name = field.name.toList := by
    constructor
    · intro same
      rw [same, String.toList_ofList]
    · rintro rfl
      rw [String.ofList_toList]
  rw [isForeign, Bool.not_eq_true', List.contains_eq_mem, decide_eq_false_iff_not, Field.mem_fieldNames_iff]
  simp [isName]

theorem isForeign_name (field : Field) : isForeign field.name.toList = false := by
  rw [Bool.eq_false_iff]
  intro foreign
  exact isForeign_iff.mp foreign field rfl

theorem isMisplaced_eq_false_iff {header : Toml.Header} :
    isMisplaced header = false ↔ ∀ field : Field, header.key.head? ≠ some field.name.toList := by
  obtain ⟨key, isArray⟩ := header
  cases key with
  | nil => exact ⟨fun _ _ => nofun, fun _ => rfl⟩
  | cons name key =>
    have foreign : isForeign name = true ↔ ∀ field : Field, name ≠ field.name.toList := isForeign_iff
    rw [isForeign, Bool.not_eq_true'] at foreign
    simpa [isMisplaced] using foreign

/-- The choices of a file do not depend on what else it says. -/
theorem Gives.exists_foldlM (gives : Gives choices others lines) {told : List Toml.Line}
    {document foreign : Toml.Document} (tell : Toml.Tell others told) (noSections : document.sections = [])
    (adds : told.foldlM Toml.Document.add? (document.only isForeign) = some foreign)
    (areForeign : ∀ member ∈ foreign.members, isForeign member.1 = true) :
    ∃ (toldAll : List Toml.Line) (whole : Toml.Document),
      Toml.Tell lines toldAll ∧ toldAll.foldlM Toml.Document.add? document = some whole ∧
        whole.only isForeign = foreign ∧
          Toml.only (fun name => !isForeign name) whole.members =
            Toml.only (fun name => !isForeign name) document.members ++ choices.map Choice.entry := by
  induction gives generalizing told document with
  | rest others =>
    obtain ⟨whole, addsAll, isForeign, kept⟩ := Toml.Document.exists_foldlM_of_only adds areForeign
    exact ⟨told, whole, tell, addsAll, isForeign, by rw [kept, List.map_nil, List.append_nil]⟩
  | empty isEmptyLine more ih =>
    obtain ⟨toldAll, whole, tellAll, addsAll, isForeign, kept⟩ := ih tell noSections adds
    exact ⟨.blank :: toldAll, whole, .cons (Toml.tells?_of_isEmptyLine isEmptyLine) tellAll, addsAll, isForeign, kept⟩
  | @choice choices others lines line choice isEntry more ih =>
    obtain ⟨members, sections⟩ := document
    obtain rfl : sections = [] := noSections
    have isChosen := isForeign_name choice.field
    have unseen : Toml.Document.only isForeign ⟨members ++ [choice.entry], []⟩ = .only isForeign ⟨members, []⟩ :=
      congrArg (Toml.Document.mk · []) (Toml.only_concat_of_other isChosen)
    rw [← unseen] at adds
    obtain ⟨toldAll, whole, tellAll, addsAll, isForeign, kept⟩ := ih tell rfl adds
    refine ⟨.entry [choice.field.name.toList] choice.value :: toldAll, whole,
      .cons (Toml.tells?_of_isEntry isEntry) tellAll, addsAll, isForeign, ?_⟩
    rw [kept, Choice.entry, Toml.only_concat (by rw [isChosen]; rfl), List.append_assoc]
    rfl
  | @other choices others lines text holdsNoHeader more ih =>
    obtain ⟨here, tells, noHeader⟩ := holdsNoHeader
    cases tell with
    | @cons _ _ _ later tellsHere tellLater =>
      obtain rfl := Option.some.inj (tellsHere.symm.trans tells)
      rw [List.foldlM_append] at adds
      obtain ⟨middle, addsHere, addsLater⟩ := Option.bind_eq_some_iff.mp adds
      have areForeignHere : ∀ member ∈ middle.members, isForeign member.1 = true := by
        intro member isMember
        obtain ⟨value, kept, -⟩ := Toml.Document.keeps_of_foldlM addsLater member isMember
        exact areForeign (member.1, value) kept
      obtain ⟨next, addsNext, rfl, keptHere⟩ := Toml.Document.exists_foldlM_of_only addsHere areForeignHere
      have noSectionsNext := Toml.Document.sections_of_foldlM noHeader noSections addsNext
      obtain ⟨toldAll, whole, tellAll, addsAll, isForeign, kept⟩ := ih tellLater noSectionsNext addsLater
      refine ⟨_, whole, .cons tells tellAll, ?_, isForeign, by rw [kept, keptHere]⟩
      rw [List.foldlM_append, addsNext]
      exact addsAll

/-- A field is read from the entries of all fields alone. -/
theorem field?_only (field : Field) (members : Toml.Members) (default : field.Item) :
    field? (Toml.only (fun name => !isForeign name) members) field.name field.read? default =
      field? members field.name field.read? default := by
  have same : (Toml.only (fun name => !isForeign name) members).filter (fun member => member.1 == field.name.toList) =
      members.filter fun member => member.1 == field.name.toList := by
    rw [Toml.only, List.filter_filter]
    refine List.filter_congr ?_
    intro member _
    by_cases named : member.1 = field.name.toList
    · rw [named, isForeign_name]
      simp
    · simp [named]
  rw [field?, field?, same]

theorem Gives.read? (gives : Gives choices others lines) (once : (choices.map Choice.field).Nodup)
    (foreign : AreForeign others) {content : List Char} (isContent : Toml.IsContentOf lines content) :
    read? content = some (settled choices) := by
  obtain ⟨told, document, tell, made, noField, noTable⟩ := foreign
  obtain ⟨adds, sound⟩ := Option.filter_eq_some_iff.mp made
  have areForeign : ∀ member ∈ document.members, isForeign member.1 = true :=
    fun member isMember => isForeign_iff.mpr (noField member isMember)
  obtain ⟨toldAll, whole, tellAll, addsAll, rfl, kept⟩ :=
    gives.exists_foldlM tell (rfl : Toml.Document.empty.sections = []) adds areForeign
  have soundWhole : whole.areHeadersSound = true := sound
  have madeWhole : Toml.Document.ofLines? toldAll = some whole := by
    rw [Toml.Document.ofLines?, addsAll, Option.filter_some, if_pos soundWhole]
  rw [Settings.read?, tellAll.parse? isContent, madeWhole, Option.bind_some, ofDocument?_eq_some_iff]
  constructor
  · rw [List.any_eq_false]
    intro header isHeader
    rw [isMisplaced_eq_false_iff.mpr (noTable header isHeader)]
    exact Bool.false_ne_true
  · intro field
    rw [← field?_only, kept]
    exact field?_map_entry once standard

/-! ## Files that are refused -/

/-- Whether some field of a document cannot be read. -/
def IsSpoilt (document : Toml.Document) : Prop :=
  (∃ (field : Field) (value : Toml.Value),
    (field.name.toList, value) ∈ document.members ∧ ∀ item : field.Item, value ≠ field.value item) ∨
      ∃ header ∈ document.headers, isMisplaced header = true

theorem IsSpoilt.ofDocument? {document : Toml.Document} (isSpoilt : IsSpoilt document) :
    ofDocument? document = none := by
  rw [Option.eq_none_iff_forall_ne_some]
  intro settings made
  obtain ⟨sound, reads⟩ := ofDocument?_eq_some_iff.mp made
  rcases isSpoilt with ⟨field, value, given, misfits⟩ | ⟨header, isHeader, misplaced⟩
  · cases (field?_eq_none given misfits _).symm.trans (reads field)
  · exact List.any_eq_false.mp sound header isHeader misplaced

/-- No field takes a table. -/
theorem ne_value_of_table (field : Field) (extensible : Bool) (members : Toml.Members) (item : field.Item) :
    .table extensible members ≠ field.value item := by
  cases field <;> exact nofun

theorem IsWrong.isSpoilt {line : Toml.Line} (isWrong : IsWrong line) {document after : Toml.Document}
    (noSections : document.sections = []) (added : document.add? line = some after) : IsSpoilt after := by
  cases isWrong with
  | @value field value misfits =>
    obtain ⟨shown, given, ⟨-, rfl⟩ | ⟨inner, rfl⟩⟩ := Toml.Document.exists_mem_of_add? noSections added
    · exact .inl ⟨field, _, given, misfits⟩
    · exact .inl ⟨field, _, given, ne_value_of_table field _ _⟩
  | @table field below key value =>
    obtain ⟨shown, given, ⟨isLast, -⟩ | ⟨inner, rfl⟩⟩ := Toml.Document.exists_mem_of_add? noSections added
    · cases isLast
    · exact .inl ⟨field, _, given, ne_value_of_table field _ _⟩
  | @header field key isArray =>
    cases added
    refine .inr ⟨⟨field.name.toList :: key, isArray⟩, by simp [Toml.Document.headers], ?_⟩
    rw [← Bool.not_eq_false, isMisplaced_eq_false_iff]
    exact fun noField => noField field rfl

/-- Nothing mends a field. -/
theorem IsSpoilt.foldlM {document after : Toml.Document} (isSpoilt : IsSpoilt document) {told : List Toml.Line}
    (adds : told.foldlM Toml.Document.add? document = some after) : IsSpoilt after := by
  rcases isSpoilt with ⟨field, value, given, misfits⟩ | ⟨header, isHeader, misplaced⟩
  · obtain ⟨last, kept, rfl | ⟨inner, rfl⟩⟩ := Toml.Document.keeps_of_foldlM adds _ given
    · exact .inl ⟨field, _, kept, misfits⟩
    · exact .inl ⟨field, _, kept, ne_value_of_table field _ _⟩
  · exact .inr ⟨header, (Toml.Document.headers_prefix_of_foldlM adds).subset isHeader, misplaced⟩

theorem Misgives.exists_line {text : List Char} (misgives : Misgives text) :
    ∃ line : Toml.Line, Toml.tells? text = some [line] ∧ IsWrong line := by
  cases misgives with
  | entry isEntry misfits => exact ⟨_, Toml.tells?_of_isEntry isEntry, .value misfits⟩
  | line tells isWrong => exact ⟨_, tells, isWrong⟩

/-- The lines of a file that makes choices and begins no table say something each. -/
theorem Gives.exists_tell (gives : Gives choices others lines) (noTables : ∀ text ∈ others, HoldsNoHeader text) :
    ∃ told : List Toml.Line, Toml.Tell lines told ∧ ∀ header, .header header ∉ told := by
  induction gives with
  | rest others =>
    induction others with
    | nil => exact ⟨[], .nil, fun _ => List.not_mem_nil⟩
    | cons text others ih =>
      obtain ⟨⟨here, tells, noHeaderHere⟩, later⟩ := List.forall_mem_cons.mp noTables
      obtain ⟨told, tell, noHeader⟩ := ih later
      exact ⟨here ++ told, .cons tells tell, fun header => by simp [noHeaderHere, noHeader]⟩
  | empty isEmptyLine more ih =>
    obtain ⟨told, tell, noHeader⟩ := ih noTables
    exact ⟨_, .cons (Toml.tells?_of_isEmptyLine isEmptyLine) tell, fun header => by simp [noHeader]⟩
  | choice choice isEntry more ih =>
    obtain ⟨told, tell, noHeader⟩ := ih noTables
    exact ⟨_, .cons (Toml.tells?_of_isEntry isEntry) tell, fun header => by simp [noHeader]⟩
  | other holdsNoHeader more ih =>
    obtain ⟨here, tells, noHeaderHere⟩ := holdsNoHeader
    obtain ⟨told, tell, noHeader⟩ := ih (List.forall_mem_cons.mp noTables).2
    exact ⟨here ++ told, .cons tells tell, fun header => by simp [noHeaderHere, noHeader]⟩

/-- A file is refused if it gives a field what it does not take, whatever comes after. -/
theorem Gives.read?_of_misgives (gives : Gives choices others lines) (noTables : ∀ text ∈ others, HoldsNoHeader text)
    {wrong content : List Char} (misgives : Misgives wrong) {after : List (List Char)}
    (isContent : Toml.IsContentOf (lines ++ wrong :: after) content) : Settings.read? content = none := by
  obtain ⟨told, tell, noHeader⟩ := gives.exists_tell noTables
  obtain ⟨line, tells, isWrong⟩ := misgives.exists_line
  have tellWrong : Toml.Tell (lines ++ [wrong]) (told ++ [line]) := tell.append (.cons tells .nil)
  rw [← List.singleton_append, ← List.append_assoc] at isContent
  rw [Settings.read?]
  rcases tellWrong.parse?_append (by simp) isContent with nothing | ⟨later, parsed⟩
  · rw [nothing]
    rfl
  · rw [parsed, Option.bind_eq_none_iff]
    intro document made
    obtain ⟨adds, -⟩ := Option.filter_eq_some_iff.mp made
    rw [List.append_assoc, List.foldlM_append] at adds
    obtain ⟨before, addsBefore, adds⟩ := Option.bind_eq_some_iff.mp adds
    obtain ⟨spoilt, addsWrong, addsLater⟩ := Option.bind_eq_some_iff.mp adds
    have noSections := Toml.Document.sections_of_foldlM noHeader rfl addsBefore
    exact ((isWrong.isSpoilt noSections addsWrong).foldlM addsLater).ofDocument?

/-! ## Loading -/

variable {fs : FileSystem} {path : Path} {content : List Char}

/-- Loading reads the text that a file holds. -/
theorem load_of_encoded (stored : fs.readBytes path = .ok (Utf8.encode content)) :
    load fs path = (read? content).elim (.error (.settings path)) .ok := by
  rw [load, FileSystem.readText_of_encoded stored]
  dsimp only
  cases read? content <;> rfl

theorem loadOrStandard_of_readBytes {bytes : Bytes} (stored : fs.readBytes path = .ok bytes) :
    loadOrStandard fs path =
      match load fs path with
      | .ok settings => (settings, [])
      | .error failure => (standard, [⟨.warning, "ignoring config file", [("error", failure.message)]⟩]) := by
  rw [loadOrStandard]
  exact if_pos (FileSystem.pathExists_of_readBytes stored)

/-- All choices can be written. -/
theorem exists_gives (choices : List Choice) : ∃ lines, Gives choices [] lines := by
  induction choices with
  | nil => exact ⟨[], .rest []⟩
  | cons choice choices ih =>
    obtain ⟨lines, gives⟩ := ih
    obtain ⟨shown, writes⟩ : ∃ shown, Toml.Writes shown choice.value := by
      obtain ⟨field, item⟩ := choice
      cases field with
      | ignoredNames | sourceEndings | lookupEndings =>
        obtain ⟨inner, lists⟩ := Toml.exists_lists (List.map String.toList item)
        exact ⟨_, .array lists⟩
      | indexName | moduleMarker | snapshotName =>
        obtain ⟨raw, spells⟩ := Toml.exists_spells (String.toList item)
        exact ⟨_, .text spells⟩
    have nonempty : choice.field.name.toList ≠ [] := by cases choice.field <;> decide
    have bare : choice.field.name.toList.all Toml.isBareChar = true := by cases choice.field <;> decide
    exact ⟨_, .choice choice (Toml.isEntry_of_word _ nonempty bare writes) gives⟩

/-- Entries of other names than those of the fields are foreign, however many there are. -/
theorem areForeign_of_isEntry {texts : List (List Char)}
    (entries : ∀ text ∈ texts, ∃ (name : Toml.KeyPart) (value : Toml.Value),
      Toml.IsEntry text name value ∧ ∀ field : Field, name ≠ field.name.toList) : AreForeign texts := by
  have told : ∃ members : Toml.Members, Toml.Tell texts (members.map fun member => .entry [member.1] member.2) ∧
      ∀ member ∈ members, ∀ field : Field, member.1 ≠ field.name.toList := by
    induction texts with
    | nil => exact ⟨[], .nil, List.forall_mem_nil _⟩
    | cons text texts ih =>
      obtain ⟨⟨name, value, isEntry, noField⟩, later⟩ := List.forall_mem_cons.mp entries
      obtain ⟨members, tell, noFieldLater⟩ := ih later
      exact ⟨(name, value) :: members, .cons (Toml.tells?_of_isEntry isEntry) tell,
        List.forall_mem_cons.mpr ⟨noField, noFieldLater⟩⟩
  obtain ⟨members, tell, noField⟩ := told
  refine ⟨_, ⟨members, []⟩, tell, ?_, noField, List.forall_mem_nil _⟩
  rw [Toml.Document.ofLines?, Toml.Document.empty, Toml.Document.foldlM_add?_entries]
  rfl

/-- A settings file settles the fields that it gives something to, and nothing else does: all choices can be written,
in any order and among anything that is no field, and are loaded as the defaults with these fields replaced. A file
that gives one field what it does not take is refused, and then the defaults hold as they are. -/
theorem load_settled_or_refused :
    (∀ choices : List Choice, ∃ lines, Gives choices [] lines) ∧
      (∀ texts : List (List Char),
        (∀ text ∈ texts, ∃ (name : Toml.KeyPart) (value : Toml.Value),
          Toml.IsEntry text name value ∧ ∀ field : Field, name ≠ field.name.toList) → AreForeign texts) ∧
      ∀ (fs : FileSystem) (path : Path) (choices : List Choice) (others lines : List (List Char)) (content : List Char),
        Gives choices others lines → fs.readBytes path = .ok (Utf8.encode content) →
          ((choices.map Choice.field).Nodup → AreForeign others → Toml.IsContentOf lines content →
              load fs path = .ok (settled choices) ∧ loadOrStandard fs path = (settled choices, [])) ∧
            ∀ (wrong : List Char) (after : List (List Char)),
              (∀ text ∈ others, HoldsNoHeader text) → Misgives wrong →
                Toml.IsContentOf (lines ++ wrong :: after) content →
                  load fs path = .error (.settings path) ∧ (loadOrStandard fs path).1 = standard := by
  refine ⟨exists_gives, fun _ => areForeign_of_isEntry, ?_⟩
  intro fs path choices others lines content gives stored
  constructor
  · intro once foreign isContent
    have loaded : load fs path = .ok (settled choices) := by
      rw [load_of_encoded stored, gives.read? once foreign isContent]
      rfl
    exact ⟨loaded, by rw [loadOrStandard_of_readBytes stored, loaded]⟩
  · intro wrong after noTables misgives isContent
    have refused : load fs path = .error (.settings path) := by
      rw [load_of_encoded stored, gives.read?_of_misgives noTables misgives isContent]
      rfl
    exact ⟨refused, by rw [loadOrStandard_of_readBytes stored, refused]⟩

/-- A directory that holds a settings file, seen from inside. -/
def settingsFile (content : List Char) : FileSystem :=
  .holding [['w'], fileName.toList] (Utf8.encode content)

theorem readBytes_settingsFile (content : List Char) :
    (settingsFile content).readBytes (.ofString fileName) = .ok (Utf8.encode content) :=
  rfl

/-- A file that gives two fields and has a table in which a name is that of a field. -/
def layout : List (List Char) :=
  ["# layout".toList, "index_file = \"m\\u00e9\"".toList, "colour = true".toList,
    "ignored_dirs = [\"a\", # b\n\"\\\"\"]".toList, "[tool]".toList, "index_file = 7".toList]

/-- What is no field in it. -/
def foreignTexts : List (List Char) :=
  ["colour = true".toList, "[tool]".toList, "index_file = 7".toList]

/-- A file that gives one field a text and another one a number. -/
def spoilt : List (List Char) :=
  ["index_file = \"m\\u00e9\"".toList, "output_file = 42".toList, "ignored_dirs = []".toList]

theorem load_settled_or_refused_of_layout :
    load (settingsFile ('\uFEFF' :: Toml.withReturns (Toml.joined layout))) (.ofString fileName) =
        .ok { standard with indexName := "mé", ignoredNames := ["a", "\""] } ∧
      loadOrStandard (settingsFile ('\uFEFF' :: Toml.withReturns (Toml.joined layout))) (.ofString fileName) =
        ({ standard with indexName := "mé", ignoredNames := ["a", "\""] }, []) ∧
      load (settingsFile (Toml.withReturns (Toml.joined spoilt))) (.ofString fileName) =
        .error (.settings (.ofString fileName)) ∧
      (loadOrStandard (settingsFile (Toml.withReturns (Toml.joined spoilt))) (.ofString fileName)).1 = standard := by
  have index : Toml.IsEntry "index_file = \"m\\u00e9\"".toList "index_file".toList (.text "mé".toList) := by
    have number : Toml.Spells "\\u00e9".toList "é".toList :=
      @Toml.Spells.number 'u' 'é' ['0', '0', 'e', '9'] [] [] (.inl rfl) (by decide) .nil
    have spells : Toml.Spells "m\\u00e9".toList "mé".toList :=
      .plain (by decide) (by decide) (by decide) (by decide) number
    exact Toml.isEntry_of_word "index_file".toList (by decide) (by decide) (.text spells)
  have ignored : Toml.IsEntry "ignored_dirs = [\"a\", # b\n\"\\\"\"]".toList "ignored_dirs".toList
      (arrayOf ["a", "\""]) := by
    have letter : Toml.Spells "a".toList "a".toList := .plain (by decide) (by decide) (by decide) (by decide) .nil
    have quote : Toml.Spells "\\\"".toList "\"".toList := .letter (by decide) .nil
    have spacing : Toml.IsSpacing " # b\n".toList :=
      .blank (.inl rfl) (@Toml.IsSpacing.comment [' ', 'b'] [] (by decide) .nil)
    have lists : Toml.Lists "\"a\", # b\n\"\\\"\"".toList ["a".toList, "\"".toList] :=
      .cons .nil letter .nil (.last spacing quote .nil)
    exact Toml.isEntry_of_word "ignored_dirs".toList (by decide) (by decide) (.array lists)
  have colour : Toml.IsEntry "colour = true".toList "colour".toList .scalar :=
    Toml.isEntry_of_word "colour".toList (by decide) (by decide) (.truth (.inl rfl))
  have header : Toml.tells? "[tool]".toList = some [.header ⟨["tool".toList], false⟩] := rfl
  have inTable : Toml.IsEntry "index_file = 7".toList "index_file".toList .scalar :=
    Toml.isEntry_of_word "index_file".toList (by decide) (by decide) (@Toml.Writes.number 7 (by decide))
  have output : Toml.IsEntry "output_file = 42".toList Field.snapshotName.name.toList .scalar :=
    Toml.isEntry_of_word "output_file".toList (by decide) (by decide) (@Toml.Writes.number 42 (by decide))
  have plain : HoldsNoHeader "colour = true".toList := ⟨_, Toml.tells?_of_isEntry colour, by simp⟩
  have gives : Gives [⟨.indexName, "mé"⟩, ⟨.ignoredNames, ["a", "\""]⟩] foreignTexts layout :=
    .empty (.mk (List.forall_mem_nil _) (.comment (by decide))) <|
      .choice _ index <| .other plain <| .choice _ ignored <| .rest _
  have foreign : AreForeign foreignTexts :=
    ⟨_, ⟨[("colour".toList, .scalar)], [(⟨["tool".toList], false⟩, [("index_file".toList, .scalar)])]⟩,
      .cons (Toml.tells?_of_isEntry colour) (.cons header (.cons (Toml.tells?_of_isEntry inTable) .nil)), rfl,
      List.forall_mem_singleton.mpr (isForeign_iff.mp (by decide)),
      List.forall_mem_singleton.mpr (isMisplaced_eq_false_iff.mp (by decide))⟩
  have loaded := (load_settled_or_refused.2.2 _ (.ofString fileName) _ _ _ _ gives
    (readBytes_settingsFile ('\uFEFF' :: Toml.withReturns (Toml.joined layout)))).1
  have first : Gives [⟨.indexName, "mé"⟩] [] ["index_file = \"m\\u00e9\"".toList] := .choice _ index (.rest [])
  have misgives : Misgives "output_file = 42".toList := .entry output fun name same => nomatch same
  have refused := (load_settled_or_refused.2.2 _ (.ofString fileName) _ _ _ _ first
    (readBytes_settingsFile (Toml.withReturns (Toml.joined spoilt)))).2
  obtain ⟨settles, settlesLeniently⟩ :=
    loaded (by decide) foreign (.marked (Toml.withBreaks_withReturns (by decide)))
  obtain ⟨fails, fallsBack⟩ := refused _ ["ignored_dirs = []".toList] (List.forall_mem_nil _) misgives
    (.plain (Toml.withBreaks_withReturns (by decide)))
  exact ⟨settles, settlesLeniently, fails, fallsBack⟩

end ImportAtlas.Settings
