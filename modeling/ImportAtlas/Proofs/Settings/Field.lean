import ImportAtlas.Settings.File

/-! # Fields of settings

Settings have six fields. Each has a name in settings files and takes texts or lists of texts, and reading it gives
back what it was given, or its default where it was given nothing. A project chooses what to give to which fields.
-/

namespace ImportAtlas.Settings

/-- What a project can settle. -/
inductive Field where
  | ignoredNames
  | sourceEndings
  | lookupEndings
  | indexName
  | moduleMarker
  | snapshotName
deriving DecidableEq, Repr

/-- The value that a file gives for some texts. -/
def arrayOf (texts : List String) : Toml.Value :=
  .array ((texts.map String.toList).map .text)

theorem text?_eq_some_iff {value : Toml.Value} {text : String} : text? value = some text ↔ value = .text text.toList := by
  constructor
  · intro read
    cases value with
    | text chars =>
      obtain rfl : String.ofList chars = text := Option.some.inj read
      rw [String.toList_ofList]
    | _ => cases read
  · rintro rfl
    exact congrArg some String.ofList_toList

theorem mapM_text?_eq_some_iff {items : List Toml.Value} {texts : List String} :
    items.mapM text? = some texts ↔ items = (texts.map String.toList).map .text := by
  induction items generalizing texts with
  | nil =>
    rw [List.mapM_nil]
    cases texts <;> simp
  | cons item items ih =>
    simp only [List.mapM_cons, Option.bind_eq_bind, Option.bind_eq_some_iff, text?_eq_some_iff, ih]
    cases texts <;> simp

theorem texts?_eq_some_iff {value : Toml.Value} {texts : List String} :
    texts? value = some texts ↔ value = arrayOf texts := by
  cases value with
  | array items => simp [texts?, mapM_text?_eq_some_iff, arrayOf]
  | _ => simp [texts?, arrayOf]

namespace Field

/-- What a field holds. -/
abbrev Item : Field → Type
  | ignoredNames | sourceEndings | lookupEndings => List String
  | indexName | moduleMarker | snapshotName => String

/-- The name of a field in settings files. -/
def name : Field → String
  | ignoredNames => "ignored_dirs"
  | sourceEndings => "source_extensions"
  | lookupEndings => "resolve_extensions"
  | indexName => "index_file"
  | moduleMarker => "root_module_segment"
  | snapshotName => "output_file"

def get (settings : Settings) : (field : Field) → field.Item
  | ignoredNames => settings.ignoredNames
  | sourceEndings => settings.sourceEndings
  | lookupEndings => settings.lookupEndings
  | indexName => settings.indexName
  | moduleMarker => settings.moduleMarker
  | snapshotName => settings.snapshotName

/-- The settings with a field replaced. -/
def set (settings : Settings) : (field : Field) → field.Item → Settings
  | ignoredNames, names => { settings with ignoredNames := names }
  | sourceEndings, endings => { settings with sourceEndings := endings }
  | lookupEndings, endings => { settings with lookupEndings := endings }
  | indexName, name => { settings with indexName := name }
  | moduleMarker, name => { settings with moduleMarker := name }
  | snapshotName, name => { settings with snapshotName := name }

/-- The value that a file gives for an item. -/
def value : (field : Field) → field.Item → Toml.Value
  | ignoredNames, texts | sourceEndings, texts | lookupEndings, texts => arrayOf texts
  | indexName, text | moduleMarker, text | snapshotName, text => .text text.toList

/-- The item that a value stands for. -/
def read? : (field : Field) → Toml.Value → Option field.Item
  | ignoredNames | sourceEndings | lookupEndings => texts?
  | indexName | moduleMarker | snapshotName => text?

variable {field other : Field} {settings : Settings}

theorem read?_eq_some_iff {value : Toml.Value} {item : field.Item} :
    field.read? value = some item ↔ value = field.value item := by
  cases field with
  | ignoredNames | sourceEndings | lookupEndings => exact texts?_eq_some_iff
  | indexName | moduleMarker | snapshotName => exact text?_eq_some_iff

theorem get_set (item : field.Item) : field.get (field.set settings item) = item := by
  cases field <;> rfl

theorem get_set_of_ne (differs : field ≠ other) (item : other.Item) :
    field.get (other.set settings item) = field.get settings := by
  cases field <;> cases other <;> first | rfl | exact absurd rfl differs

theorem name_injective : Function.Injective name := by
  intro field other same
  cases field <;> cases other <;> first | rfl | exact absurd same (by decide)

theorem mem_fieldNames_iff {text : String} : text ∈ fieldNames ↔ ∃ field : Field, field.name = text := by
  constructor
  · intro member
    simp only [fieldNames, List.mem_cons, List.not_mem_nil, or_false] at member
    rcases member with rfl | rfl | rfl | rfl | rfl | rfl
    · exact ⟨ignoredNames, rfl⟩
    · exact ⟨sourceEndings, rfl⟩
    · exact ⟨lookupEndings, rfl⟩
    · exact ⟨indexName, rfl⟩
    · exact ⟨moduleMarker, rfl⟩
    · exact ⟨snapshotName, rfl⟩
  · rintro ⟨field, rfl⟩
    cases field <;> decide

end Field

/-- An item for a field. -/
structure Choice where
  field : Field
  item : field.Item

namespace Choice

def settle (settings : Settings) (choice : Choice) : Settings :=
  choice.field.set settings choice.item

/-- The value that a file gives for a choice. -/
def value (choice : Choice) : Toml.Value :=
  choice.field.value choice.item

/-- The entry that stands for a choice. -/
def entry (choice : Choice) : Toml.KeyPart × Toml.Value :=
  (choice.field.name.toList, choice.value)

end Choice

/-- The defaults with the chosen fields replaced. -/
def settled (choices : List Choice) : Settings :=
  choices.foldl Choice.settle standard

/-! ## Reading fields -/

variable {field : Field} {settings : Settings} {choices : List Choice} {members : Toml.Members}

theorem get_foldl_settle (absent : field ∉ choices.map Choice.field) :
    field.get (choices.foldl Choice.settle settings) = field.get settings := by
  induction choices generalizing settings with
  | nil => rfl
  | cons choice choices ih =>
    rw [List.map_cons, List.mem_cons, not_or] at absent
    rw [List.foldl_cons, ih absent.2]
    exact Field.get_set_of_ne absent.1 choice.item

/-- A field is read as the item that was chosen for it, or as its default. -/
theorem field?_map_entry (once : (choices.map Choice.field).Nodup) (settings : Settings) :
    field? (choices.map Choice.entry) field.name field.read? (field.get settings) =
      some (field.get (choices.foldl Choice.settle settings)) := by
  induction choices generalizing settings with
  | nil => rfl
  | cons choice choices ih =>
    rw [List.map_cons, List.nodup_cons] at once
    rw [List.map_cons, List.foldl_cons]
    by_cases same : choice.field = field
    · subst same
      have noOther : (choices.map Choice.entry).filter (fun member => member.1 == choice.field.name.toList) = [] := by
        rw [List.filter_eq_nil_iff, List.forall_mem_map]
        intro other isOther named
        have sameName := Field.name_injective (String.toList_inj.mp (eq_of_beq named))
        exact once.1 (sameName ▸ List.mem_map_of_mem isOther)
      have alone : (choice.entry :: choices.map Choice.entry).filter
          (fun member => member.1 == choice.field.name.toList) = [choice.entry] := by
        rw [List.filter_cons, noOther]
        exact if_pos (beq_self_eq_true _)
      rw [get_foldl_settle once.1, field?, alone]
      exact Field.read?_eq_some_iff.mpr (congrArg choice.field.value (Field.get_set choice.item).symm)
    · have passed : (choice.entry :: choices.map Choice.entry).filter (fun member => member.1 == field.name.toList) =
          (choices.map Choice.entry).filter fun member => member.1 == field.name.toList := by
        rw [List.filter_cons]
        exact if_neg fun named => same (Field.name_injective (String.toList_inj.mp (eq_of_beq named)))
      have unchanged : field.get (choice.settle settings) = field.get settings :=
        Field.get_set_of_ne (fun isField => same isField.symm) choice.item
      rw [← ih once.2, unchanged, field?, field?, passed]

/-- A field is not read if it is given a value of another type. -/
theorem field?_eq_none {value : Toml.Value} (given : (field.name.toList, value) ∈ members)
    (misfits : ∀ item : field.Item, value ≠ field.value item) (default : field.Item) :
    field? members field.name field.read? default = none := by
  have isGiven : (field.name.toList, value) ∈ members.filter fun member => member.1 == field.name.toList :=
    List.mem_filter.mpr ⟨given, beq_self_eq_true _⟩
  rw [field?]
  split
  case h_1 nothing =>
    rw [nothing] at isGiven
    cases isGiven
  case h_2 member alone =>
    rw [alone, List.mem_singleton] at isGiven
    rw [← isGiven, Option.eq_none_iff_forall_ne_some]
    intro item read
    exact misfits item (Field.read?_eq_some_iff.mp read)
  case h_3 => rfl

/-- A document makes settings if none of its tables stands in the place of a field and every field can be read. -/
theorem ofDocument?_eq_some_iff {document : Toml.Document} :
    ofDocument? document = some settings ↔ document.headers.any isMisplaced = false ∧
      ∀ field : Field, field? document.members field.name field.read? (field.get standard) = some (field.get settings) := by
  constructor
  · intro made
    rw [ofDocument?] at made
    split at made
    case isTrue => cases made
    case isFalse sound =>
      refine ⟨by simpa using sound, ?_⟩
      simp only [Option.bind_eq_bind, Option.bind_eq_some_iff, Option.pure_def] at made
      obtain ⟨_, readNames, _, readSources, _, readLookups, _, readIndex, _, readMarker, _, readSnapshot, same⟩ := made
      cases same
      intro field
      cases field with
      | ignoredNames => exact readNames
      | sourceEndings => exact readSources
      | lookupEndings => exact readLookups
      | indexName => exact readIndex
      | moduleMarker => exact readMarker
      | snapshotName => exact readSnapshot
  · rintro ⟨sound, reads⟩
    rw [ofDocument?, sound, if_neg Bool.false_ne_true]
    simp only [Option.bind_eq_bind, Option.bind_eq_some_iff, Option.pure_def]
    exact ⟨_, reads .ignoredNames, _, reads .sourceEndings, _, reads .lookupEndings, _, reads .indexName,
      _, reads .moduleMarker, _, reads .snapshotName, rfl⟩

end ImportAtlas.Settings
