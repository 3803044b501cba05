import ImportAtlas.Proofs.Toml.Line

/-! # Entries of some names

An entry depends on earlier ones only if they begin with the same name. So the entries of some names are the same in
a document with others and in one without them. No later line removes an entry: it stays as it is, or it is a table
and gets more entries.
-/

namespace ImportAtlas.Toml

/-! ## Members -/

section Members

variable {chosen : KeyPart → Bool} {members middle after : Members} {name : KeyPart} {key : List KeyPart}
  {value : Value}

/-- The entries of the chosen names. -/
def only (chosen : KeyPart → Bool) (members : Members) : Members :=
  members.filter fun member => chosen member.1

theorem lookup_only (isChosen : chosen name = true) : (only chosen members).lookup name = members.lookup name := by
  induction members with
  | nil => rfl
  | cons member members ih =>
    obtain ⟨other, old⟩ := member
    by_cases same : name = other
    · subst same
      simp [only, isChosen]
    · have differs : (name == other) = false := by simpa using same
      rw [only] at ih
      cases kept : chosen other <;> simp [only, kept, List.lookup_cons, differs, ih]

theorem only_replaceFirst (isChosen : chosen name = true) :
    only chosen (insert?.replaceFirst members name value) = insert?.replaceFirst (only chosen members) name value := by
  induction members with
  | nil => rfl
  | cons member members ih =>
    obtain ⟨other, old⟩ := member
    rw [only, only] at ih
    by_cases same : other = name
    · subst same
      simp [only, insert?.replaceFirst, isChosen]
    · cases kept : chosen other <;> simp [only, insert?.replaceFirst, same, kept, ih]

theorem only_replaceFirst_of_other (isOther : chosen name = false) :
    only chosen (insert?.replaceFirst members name value) = only chosen members := by
  induction members with
  | nil => rfl
  | cons member members ih =>
    obtain ⟨other, old⟩ := member
    rw [only, only] at ih
    by_cases same : other = name
    · subst same
      simp [only, insert?.replaceFirst, isOther]
    · cases kept : chosen other <;> simp [only, insert?.replaceFirst, same, kept, ih]

theorem only_concat (isChosen : chosen name = true) :
    only chosen (members ++ [(name, value)]) = only chosen members ++ [(name, value)] := by
  simp [only, isChosen]

theorem only_concat_of_other (isOther : chosen name = false) :
    only chosen (members ++ [(name, value)]) = only chosen members := by
  simp [only, isOther]

/-- What inserting an entry can do. -/
theorem insert?_cons_eq_some (inserted : insert? members (name :: key) value = some after) :
    (key = [] ∧ after = members ++ [(name, value)]) ∨
      (∃ inner, after = members ++ [(name, .table true inner)]) ∨
      ∃ old inner, members.lookup name = some old ∧
        after = insert?.replaceFirst members name (.table true inner) := by
  cases key with
  | nil =>
    cases inserted
    exact .inl ⟨rfl, rfl⟩
  | cons next key =>
    rw [insert?.eq_3 _ _ _ _ (List.cons_ne_nil _ _)] at inserted
    split at inserted
    case h_1 =>
      obtain ⟨inner, -, rfl⟩ := Option.map_eq_some_iff.mp inserted
      exact .inr (.inl ⟨inner, rfl⟩)
    case h_2 old found =>
      obtain ⟨inner, -, rfl⟩ := Option.map_eq_some_iff.mp inserted
      exact .inr (.inr ⟨_, inner, found, rfl⟩)
    case h_3 => cases inserted

/-- An entry is inserted among those of the chosen names as among all. -/
theorem only_insert? (isChosen : ∀ name ∈ key.head?, chosen name = true) :
    (insert? members key value).map (only chosen) = insert? (only chosen members) key value := by
  rcases key with _ | ⟨name, _ | ⟨next, key⟩⟩
  · rfl
  · exact congrArg some (only_concat (isChosen name rfl))
  · have isNameChosen := isChosen name rfl
    rw [insert?.eq_3 _ _ _ _ (List.cons_ne_nil _ _), insert?.eq_3 _ _ _ _ (List.cons_ne_nil _ _),
      lookup_only isNameChosen]
    split
    · simp [Function.comp_def, only_concat isNameChosen]
    · simp [Function.comp_def, only_replaceFirst isNameChosen]
    · rfl

theorem only_of_insert? (isOther : ∀ name ∈ key.head?, chosen name = false)
    (inserted : insert? members key value = some after) : only chosen after = only chosen members := by
  cases key with
  | nil => cases inserted
  | cons name key =>
    have isNameOther := isOther name rfl
    obtain ⟨-, rfl⟩ | ⟨inner, rfl⟩ | ⟨old, inner, -, rfl⟩ := insert?_cons_eq_some inserted
    · exact only_concat_of_other isNameOther
    · exact only_concat_of_other isNameOther
    · exact only_replaceFirst_of_other isNameOther

/-- Whether all entries stay, unless they are tables now that keys with periods add to. -/
def Keeps (members after : Members) : Prop :=
  ∀ member ∈ members, ∃ value, (member.1, value) ∈ after ∧ (value = member.2 ∨ ∃ inner, value = .table true inner)

theorem Keeps.refl (members : Members) : Keeps members members :=
  fun member isMember => ⟨member.2, isMember, .inl rfl⟩

theorem Keeps.trans (first : Keeps members middle) (second : Keeps middle after) : Keeps members after := by
  intro member isMember
  obtain ⟨value, kept, same | table⟩ := first member isMember
  · rw [same] at kept
    exact second _ kept
  · obtain ⟨last, stays, same | table⟩ := second _ kept
    · rw [same] at stays
      exact ⟨value, stays, .inr table⟩
    · exact ⟨last, stays, .inr table⟩

theorem mem_replaceFirst_of_lookup {old : Value} (found : members.lookup name = some old) :
    (name, value) ∈ insert?.replaceFirst members name value := by
  induction members with
  | nil => cases found
  | cons member members ih =>
    obtain ⟨other, shown⟩ := member
    rw [insert?.replaceFirst]
    split
    · exact List.mem_cons_self
    case isFalse differs =>
      have noMatch : (name == other) = false := by simpa using fun same : name = other => differs same.symm
      rw [List.lookup_cons, noMatch] at found
      exact List.mem_cons_of_mem _ (ih found)

theorem keeps_replaceFirst (inner : Members) :
    Keeps members (insert?.replaceFirst members name (.table true inner)) := by
  induction members with
  | nil => exact List.forall_mem_nil _
  | cons member members ih =>
    obtain ⟨other, old⟩ := member
    rw [insert?.replaceFirst]
    split
    case isTrue same =>
      rw [same, Keeps, List.forall_mem_cons]
      refine ⟨⟨_, List.mem_cons_self, .inr ⟨inner, rfl⟩⟩, ?_⟩
      exact fun member isMember => ⟨member.2, List.mem_cons_of_mem _ isMember, .inl rfl⟩
    case isFalse =>
      rw [Keeps, List.forall_mem_cons]
      refine ⟨⟨old, List.mem_cons_self, .inl rfl⟩, ?_⟩
      intro member isMember
      obtain ⟨value, kept, stays⟩ := ih member isMember
      exact ⟨value, List.mem_cons_of_mem _ kept, stays⟩

theorem keeps_concat (member : KeyPart × Value) : Keeps members (members ++ [member]) :=
  fun other isMember => ⟨other.2, List.mem_append_left _ isMember, .inl rfl⟩

theorem keeps_of_insert? (inserted : insert? members key value = some after) : Keeps members after := by
  cases key with
  | nil => cases inserted
  | cons name key =>
    obtain ⟨-, rfl⟩ | ⟨inner, rfl⟩ | ⟨old, inner, -, rfl⟩ := insert?_cons_eq_some inserted
    · exact keeps_concat _
    · exact keeps_concat _
    · exact keeps_replaceFirst inner

/-- An entry stands under the first name of its key. -/
theorem exists_mem_of_insert? (inserted : insert? members (name :: key) value = some after) :
    ∃ shown, (name, shown) ∈ after ∧ ((key = [] ∧ shown = value) ∨ ∃ inner, shown = .table true inner) := by
  obtain ⟨isLast, rfl⟩ | ⟨inner, rfl⟩ | ⟨old, inner, found, rfl⟩ := insert?_cons_eq_some inserted
  · exact ⟨value, List.mem_append_right _ List.mem_cons_self, .inl ⟨isLast, rfl⟩⟩
  · exact ⟨_, List.mem_append_right _ List.mem_cons_self, .inr ⟨inner, rfl⟩⟩
  · exact ⟨_, mem_replaceFirst_of_lookup found, .inr ⟨inner, rfl⟩⟩

end Members

/-! ## Documents -/

namespace Document

variable {chosen : KeyPart → Bool} {document middle after : Document} {line : Line} {lines : List Line}

/-- The document without the entries before the first header that are of other names. -/
def only (chosen : KeyPart → Bool) (document : Document) : Document :=
  { document with members := Toml.only chosen document.members }

/-- Whether a line gives no other than the chosen names to the entries before the first header. -/
def IsAbout (chosen : KeyPart → Bool) (document : Document) : Line → Prop
  | .entry key _ => document.sections = [] → ∀ name ∈ key.head?, chosen name = true
  | _ => True

theorem isAbout_only : (document.only chosen).IsAbout chosen line ↔ document.IsAbout chosen line := by
  cases line <;> exact Iff.rfl

theorem only_add? (isAbout : document.IsAbout chosen line) :
    (document.add? line).map (only chosen) = (document.only chosen).add? line := by
  obtain ⟨members, sections⟩ := document
  cases line with
  | blank => rfl
  | header => rfl
  | entry key value =>
    cases sections with
    | nil =>
      have inserted : (insert? members key value).map (Toml.only chosen) =
          insert? (Toml.only chosen members) key value := only_insert? (isAbout rfl)
      simp only [add?, only]
      rw [← inserted]
      simp [Function.comp_def, only]
    | cons first earlier =>
      simp only [add?, only]
      simp [Function.comp_def, only]

/-- Entries of the chosen names leave all others alone. -/
theorem only_of_add? (isAbout : document.IsAbout chosen line) (added : document.add? line = some after) :
    Toml.only (fun name => !chosen name) after.members = Toml.only (fun name => !chosen name) document.members := by
  obtain ⟨members, sections⟩ := document
  cases line with
  | blank => cases added; rfl
  | header => cases added; rfl
  | entry key value =>
    cases sections with
    | nil =>
      obtain ⟨inserted, inserts, rfl⟩ := Option.map_eq_some_iff.mp added
      exact only_of_insert? (fun name first => by rw [isAbout rfl name first]; rfl) inserts
    | cons first earlier =>
      obtain ⟨inserted, -, rfl⟩ := Option.map_eq_some_iff.mp added
      rfl

/-- An entry before the first header stands under the first name of its key. -/
theorem exists_mem_of_add? {name : KeyPart} {key : List KeyPart} {value : Value} (noSections : document.sections = [])
    (added : document.add? (.entry (name :: key) value) = some after) :
    ∃ shown, (name, shown) ∈ after.members ∧ ((key = [] ∧ shown = value) ∨ ∃ inner, shown = .table true inner) := by
  obtain ⟨members, sections⟩ := document
  obtain rfl : sections = [] := noSections
  rw [add?] at added
  obtain ⟨inserted, inserts, rfl⟩ := Option.map_eq_some_iff.mp added
  exact exists_mem_of_insert? inserts

theorem keeps_of_add? (added : document.add? line = some after) : Keeps document.members after.members := by
  obtain ⟨members, sections⟩ := document
  cases line with
  | blank => cases added; exact .refl _
  | header => cases added; exact .refl _
  | entry key value =>
    cases sections with
    | nil =>
      obtain ⟨inserted, inserts, rfl⟩ := Option.map_eq_some_iff.mp added
      exact keeps_of_insert? inserts
    | cons first earlier =>
      obtain ⟨inserted, -, rfl⟩ := Option.map_eq_some_iff.mp added
      exact .refl _

theorem keeps_of_foldlM (added : lines.foldlM add? document = some after) :
    Keeps document.members after.members := by
  induction lines generalizing document with
  | nil => cases added; exact .refl _
  | cons line lines ih =>
    obtain ⟨middle, addsLine, addsLines⟩ := Option.bind_eq_some_iff.mp added
    exact (keeps_of_add? addsLine).trans (ih addsLines)

/-- Entries of single names stand one after another. -/
theorem foldlM_add?_entries (earlier members : Members) :
    (members.map fun member => Line.entry [member.1] member.2).foldlM add? ⟨earlier, []⟩ =
      some ⟨earlier ++ members, []⟩ := by
  induction members generalizing earlier with
  | nil =>
    rw [List.append_nil]
    rfl
  | cons member members ih =>
    have added : add? ⟨earlier, []⟩ (.entry [member.1] member.2) = some ⟨earlier ++ [member], []⟩ := rfl
    rw [List.map_cons, List.foldlM_cons, added]
    exact (ih (earlier ++ [member])).trans (by rw [List.append_assoc]; rfl)

/-- Headers stay in their order. -/
theorem headers_prefix_of_add? (added : document.add? line = some after) : document.headers <+: after.headers := by
  obtain ⟨members, sections⟩ := document
  cases line with
  | blank => cases added; exact List.prefix_rfl
  | header header =>
    cases added
    rw [headers, headers, List.reverse_cons, List.map_append]
    exact List.prefix_append _ _
  | entry key value =>
    cases sections with
    | nil =>
      obtain ⟨inserted, -, rfl⟩ := Option.map_eq_some_iff.mp added
      exact List.prefix_rfl
    | cons first earlier =>
      obtain ⟨inserted, -, rfl⟩ := Option.map_eq_some_iff.mp added
      rw [headers, headers, List.reverse_cons, List.reverse_cons, List.map_append, List.map_append]
      exact List.prefix_rfl

theorem headers_prefix_of_foldlM (added : lines.foldlM add? document = some after) :
    document.headers <+: after.headers := by
  induction lines generalizing document with
  | nil => cases added; exact List.prefix_rfl
  | cons line lines ih =>
    obtain ⟨middle, addsLine, addsLines⟩ := Option.bind_eq_some_iff.mp added
    exact (headers_prefix_of_add? addsLine).trans (ih addsLines)

/-- Only headers begin tables. -/
theorem sections_of_foldlM (noHeader : ∀ header, .header header ∉ lines) (noSections : document.sections = [])
    (added : lines.foldlM add? document = some after) : after.sections = [] := by
  induction lines generalizing document with
  | nil => cases added; exact noSections
  | cons line lines ih =>
    obtain ⟨middle, addsLine, addsLines⟩ := Option.bind_eq_some_iff.mp added
    refine ih (fun header later => noHeader header (List.mem_cons_of_mem _ later)) ?_ addsLines
    obtain ⟨members, sections⟩ := document
    obtain rfl : sections = [] := noSections
    cases line with
    | blank => cases addsLine; rfl
    | header header => exact absurd List.mem_cons_self (noHeader header)
    | entry key value =>
      obtain ⟨inserted, -, rfl⟩ := Option.map_eq_some_iff.mp addsLine
      rfl

/-- A line is about the chosen names if nothing else has got an entry in the end. -/
theorem isAbout_of_foldlM (addsLine : document.add? line = some middle)
    (addsLines : lines.foldlM add? middle = some after)
    (areChosen : ∀ member ∈ after.members, chosen member.1 = true) : document.IsAbout chosen line := by
  cases line with
  | blank => trivial
  | header => trivial
  | entry key value =>
    intro noSections name first
    obtain ⟨key, rfl⟩ := List.head?_eq_some_iff.mp first
    obtain ⟨shown, isMember, -⟩ := exists_mem_of_add? noSections addsLine
    obtain ⟨kept, isKept, -⟩ := keeps_of_foldlM addsLines _ isMember
    exact areChosen _ isKept

/-- Lines that make entries of the chosen names only make the same entries next to others. -/
theorem exists_foldlM_of_only (adds : lines.foldlM add? (document.only chosen) = some after)
    (areChosen : ∀ member ∈ after.members, chosen member.1 = true) :
    ∃ whole : Document, lines.foldlM add? document = some whole ∧ whole.only chosen = after ∧
      Toml.only (fun name => !chosen name) whole.members = Toml.only (fun name => !chosen name) document.members := by
  induction lines generalizing document with
  | nil =>
    cases adds
    exact ⟨document, rfl, rfl, rfl⟩
  | cons line lines ih =>
    obtain ⟨middle, addsLine, addsLines⟩ := Option.bind_eq_some_iff.mp adds
    have isAbout := isAbout_only.mp (isAbout_of_foldlM addsLine addsLines areChosen)
    rw [← only_add? isAbout] at addsLine
    obtain ⟨next, added, rfl⟩ := Option.map_eq_some_iff.mp addsLine
    obtain ⟨whole, addsAll, isAfter, others⟩ := ih addsLines
    refine ⟨whole, ?_, isAfter, others.trans (only_of_add? isAbout added)⟩
    rw [List.foldlM_cons, added]
    exact addsAll

end Document

end ImportAtlas.Toml
