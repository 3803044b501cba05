import ImportAtlas.Json.Record
import ImportAtlas.Proofs.Json.Text
import ImportAtlas.Proofs.List.Traversal
import Mathlib.Data.List.Nodup
import Mathlib.Data.List.Perm.Basic

/-! # Records survive in JSON

A record is written as an object with the names of its fields in their order. As no name is
repeated, each field is found again. The fields are found in any other form of the record as well: in
an object, their order and members with other names do not matter. An object that repeats a field or
lacks one does not pass for a record.
-/

namespace ImportAtlas.Json

/-- The member of an object for a field and its value. -/
def memberOf (entry : String × Json) : List Char × Json :=
  (escape entry.1.toList, entry.2)

/-- Whether a JSON value is a form of a record with some fields and values. -/
inductive IsFormOf (entries : List (String × Json)) (optional : List String) : Json → Prop
  /-- All values in the order of the fields. -/
  | array : IsFormOf entries optional (.array (entries.map (·.2)))
  /-- The fields in any order, without some of the optional ones that are null, and members with other names among
  them. -/
  | object {kept : List (String × Json)} {others members : List (List Char × Json)} (known : kept.Sublist entries)
      (complete : ∀ entry ∈ entries, entry ∉ kept → entry.1 ∈ optional ∧ entry.2 = .null)
      (unknown : ∀ member ∈ others, ∃ name, unescape? member.1 = some name ∧ ∀ entry ∈ entries, name ≠ entry.1.toList)
      (order : members.Perm (kept.map memberOf ++ others)) : IsFormOf entries optional (.object members)

/-- Whether a member of an object is read with its name decoded. -/
def Decodes (member read : List Char × Json) : Prop :=
  unescape? member.1 = some read.1 ∧ member.2 = read.2

/-- How many members of an object have the name of a field. -/
def occurrences (field : String) (members : List (List Char × Json)) : Nat :=
  members.countP fun member => unescape? member.1 = some field.toList

/-- Whether the members of an object repeat a field of a record, or lack one that is not optional. -/
def AreSpoilt (fields optional : List String) (members : List (List Char × Json)) : Prop :=
  ∃ field ∈ fields, 2 ≤ occurrences field members ∨ field ∉ optional ∧ occurrences field members = 0

variable {entries : List (String × Json)} {fields optional : List String} {field : String} {json value : Json}
  {members others decoded : List (List Char × Json)} {values : List (Option Json)}

/-- The object of all fields in their order is a form of a record. -/
theorem isFormOf_map_memberOf : IsFormOf entries optional (.object (entries.map memberOf)) := by
  refine .object (.refl _) (fun entry field dropped => absurd field dropped) (List.forall_mem_nil _) ?_
  rw [List.append_nil]

/-! ## Fields -/

theorem decodeNames?_eq_some_iff : decodeNames? members = some decoded ↔ List.Forall₂ Decodes members decoded := by
  have decodes (member read : List Char × Json) :
      (unescape? member.1).map (·, member.2) = some read ↔ Decodes member read := by
    simp [Decodes, Prod.ext_iff]
  simp only [decodeNames?, mapM_eq_some_iff, decodes]

theorem field?_of_perm (order : members.Perm others) (field : String) : field? members field = field? others field := by
  have same := order.filter fun member => member.1 == field.toList
  unfold field?
  match members.filter _, others.filter _, same with
  | [], _, same => rw [List.nil_perm.mp same]
  | [_], _, same => rw [List.singleton_perm.mp same]
  | _ :: _ :: _, [], same => cases same.eq_nil
  | _ :: _ :: _, [_], same => cases List.perm_singleton.mp same
  | _ :: _ :: _, _ :: _ :: _, _ => rfl

/-- Members with other names do not matter. -/
theorem field?_append_others (unknown : ∀ member ∈ others, member.1 ≠ field.toList) :
    field? (members ++ others) field = field? members field := by
  have none : others.filter (fun member => member.1 == field.toList) = [] := by
    simpa [List.filter_eq_nil_iff] using unknown
  rw [field?, List.filter_append, none, List.append_nil, field?]

theorem field?_of_notMem (absent : ∀ member ∈ members, member.1 ≠ field.toList) : field? members field = some none := by
  have none : members.filter (fun member => member.1 == field.toList) = [] := by
    simpa [List.filter_eq_nil_iff] using absent
  rw [field?, none]

private theorem filter_name (unique : (members.map (·.1)).Nodup) {name : List Char}
    (member : (name, value) ∈ members) : members.filter (fun member => member.1 == name) = [(name, value)] := by
  induction members with
  | nil => cases member
  | cons first rest ih =>
    obtain ⟨new, unique⟩ := List.nodup_cons.mp unique
    rcases List.mem_cons.mp member with rfl | member
    · rw [List.filter_cons_of_pos (by simp), List.filter_eq_nil_iff.mpr]
      intro other inside same
      rw [beq_iff_eq] at same
      exact new (List.mem_map.mpr ⟨other, inside, same⟩)
    · rw [List.filter_cons_of_neg, ih unique member]
      intro same
      rw [beq_iff_eq] at same
      exact new (List.mem_map.mpr ⟨_, member, same.symm⟩)

/-- A field that stands among the members once has its value there. -/
theorem field?_of_mem (unique : (members.map (·.1)).Nodup) (member : (field.toList, value) ∈ members) :
    field? members field = some (some value) := by
  rw [field?, filter_name unique member]

/-- What is read for a field is the value of any member with its name. -/
theorem eq_some_of_field? {read : Option Json} (found : field? members field = some read)
    (member : (field.toList, value) ∈ members) : read = some value := by
  have inside : (field.toList, value) ∈ members.filter fun member => member.1 == field.toList :=
    List.mem_filter.mpr ⟨member, beq_self_eq_true field.toList⟩
  unfold field? at found
  split at found <;> cases found
  case h_1 none =>
    rw [none] at inside
    cases inside
  case h_2 one =>
    rw [one, List.mem_singleton] at inside
    rw [← inside]

/-! ## Records -/

/-- What is read for a field: its value, or nothing if it is optional and null. -/
def IsReadAs (optional : List String) (entry : String × Json) (read : Option Json) : Prop :=
  read = some entry.2 ∨ read = none ∧ entry.1 ∈ optional ∧ entry.2 = .null

/-- A field that is not optional is read. -/
theorem IsReadAs.eq_some {read : Option Json} (readAs : IsReadAs optional (field, value) read)
    (required : field ∉ optional) : read = some value :=
  readAs.resolve_right fun missing => required missing.2.1

/-- Members with other names are read under names that are no fields. -/
private theorem exists_decoded_of_unknown
    (unknown : ∀ member ∈ others, ∃ name, unescape? member.1 = some name ∧ ∀ entry ∈ entries, name ≠ entry.1.toList) :
    ∃ decoded, List.Forall₂ Decodes others decoded ∧
      ∀ entry ∈ entries, ∀ member ∈ decoded, member.1 ≠ entry.1.toList := by
  induction others with
  | nil => exact ⟨[], .nil, fun _ _ => List.forall_mem_nil _⟩
  | cons member others ih =>
    obtain ⟨⟨name, here, other⟩, later⟩ := List.forall_mem_cons.mp unknown
    obtain ⟨decoded, decodes, apart⟩ := ih later
    refine ⟨(name, member.2) :: decoded, .cons ⟨here, rfl⟩ decodes, fun entry field => ?_⟩
    exact List.forall_mem_cons.mpr ⟨other entry field, apart entry field⟩

/-- The fields of a record are found again among those that are kept. -/
private theorem exists_field?_of_kept {kept : List (String × Json)} (unique : (entries.map (·.1)).Nodup)
    (known : kept.Sublist entries)
    (complete : ∀ entry ∈ entries, entry ∉ kept → entry.1 ∈ optional ∧ entry.2 = .null) :
    ∀ entry ∈ entries, ∃ read, field? (kept.map fun entry => (entry.1.toList, entry.2)) entry.1 = some read ∧
      IsReadAs optional entry read := by
  intro entry field
  by_cases inside : entry ∈ kept
  · have named : ((kept.map fun entry => (entry.1.toList, entry.2)).map (·.1)).Nodup := by
      have apart : ((kept.map (·.1)).map String.toList).Nodup :=
        (unique.sublist (known.map _)).map fun _ _ => String.toList_inj.mp
      rw [List.map_map] at apart ⊢
      exact apart
    exact ⟨some entry.2, field?_of_mem named (List.mem_map.mpr ⟨entry, inside, rfl⟩), .inl rfl⟩
  · have absent : ∀ member ∈ kept.map fun entry => (entry.1.toList, entry.2), member.1 ≠ entry.1.toList := by
      intro member inKept same
      obtain ⟨other, otherKept, rfl⟩ := List.mem_map.mp inKept
      have name := String.toList_inj.mp same
      exact inside (List.inj_on_of_nodup_map unique (known.subset otherKept) field name ▸ otherKept)
    exact ⟨none, field?_of_notMem absent, .inr ⟨rfl, complete entry field inside⟩⟩

/-- A record is recovered from each of its forms. -/
theorem IsFormOf.exists_record? (form : IsFormOf entries optional json) (unique : (entries.map (·.1)).Nodup) :
    ∃ values, json.record? (entries.map (·.1)) = some values ∧ List.Forall₂ (IsReadAs optional) entries values := by
  cases form with
  | array =>
    refine ⟨(entries.map (·.2)).map some, ?_, ?_⟩
    · rw [record?, if_pos (by rw [List.length_map, List.length_map])]
    · rw [List.map_map, List.forall₂_map_right_iff, List.forall₂_same]
      exact fun entry _ => .inl rfl
  | @object kept others members known complete unknown order =>
    obtain ⟨othersDecoded, othersDecode, apart⟩ := exists_decoded_of_unknown unknown
    have keptDecode : List.Forall₂ Decodes (kept.map memberOf) (kept.map fun entry => (entry.1.toList, entry.2)) := by
      rw [List.forall₂_map_left_iff, List.forall₂_map_right_iff, List.forall₂_same]
      exact fun entry _ => ⟨unescape?_escape entry.1.toList, rfl⟩
    -- The members are read in their own order, which does not matter for finding the fields.
    obtain ⟨decoded, decodes, reordered⟩ := List.perm_comp_forall₂ order (List.rel_append keptDecode othersDecode)
    have found (entry : String × Json) (field : entry ∈ entries) :
        ∃ read, field? decoded entry.1 = some read ∧ IsReadAs optional entry read := by
      rw [field?_of_perm reordered, field?_append_others (apart entry field)]
      exact exists_field?_of_kept unique known complete entry field
    obtain ⟨values, read⟩ := exists_forall₂ found
    refine ⟨values, ?_, read.imp fun _ _ both => both.2⟩
    rw [record?, decodeNames?_eq_some_iff.mpr decodes, Option.bind_eq_bind, Option.bind_some, mapM_eq_some_iff,
      List.forall₂_map_left_iff]
    exact read.imp fun _ _ both => both.1

/-- A record is recovered from the object of its fields. -/
theorem record?_object {entries : List (String × Json)} (unique : (entries.map (·.1)).Nodup) :
    record? (entries.map (·.1)) (.object (entries.map fun entry => (escape entry.1.toList, entry.2))) =
      some (entries.map fun entry => some entry.2) := by
  have form : IsFormOf entries [] (.object (entries.map memberOf)) := isFormOf_map_memberOf
  obtain ⟨values, read, related⟩ := form.exists_record? unique
  have whole : List.Forall₂ (fun entry value => some entry.2 = value) entries values :=
    related.imp fun entry value readAs => (readAs.eq_some List.not_mem_nil).symm
  rw [← List.forall₂_map_left_iff (f := fun entry : String × Json => some entry.2), List.forall₂_eq_eq_eq] at whole
  rw [whole]
  exact read

/-! ## Spoilt objects -/

/-- What is read for a field stands in the object once, and the object lacks the field if nothing is read for it. -/
theorem occurrences_of_field? (decodes : List.Forall₂ Decodes members decoded) {read : Option Json}
    (found : field? decoded field = some read) : occurrences field members = read.toList.length := by
  have counts : occurrences field members = (decoded.filter fun member => member.1 == field.toList).length := by
    rw [← List.countP_eq_length_filter]
    clear found
    induction decodes with
    | nil => rfl
    | @cons member read members decoded here _ ih =>
      rw [occurrences, List.countP_cons, List.countP_cons, ← occurrences, ih, here.1]
      simp
  rw [counts]
  unfold field? at found
  split at found <;> cases found
  case h_1 none => rw [none]; rfl
  case h_2 one => rw [one]; rfl

/-- Reading an object as a record counts the fields of the object. -/
theorem occurrences_of_record? (read : record? fields (.object members) = some values) :
    List.Forall₂ (fun field value => occurrences field members = value.toList.length) fields values := by
  obtain ⟨decoded, decodes, found⟩ := Option.bind_eq_some_iff.mp read
  exact (mapM_eq_some_iff.mp found).imp fun field value => occurrences_of_field? (decodeNames?_eq_some_iff.mp decodes)

/-- No spoilt object is read as a record in which only optional fields are missing. -/
theorem AreSpoilt.exists_missing (spoilt : AreSpoilt fields optional members)
    (read : record? fields (.object members) = some values) :
    ∃ field, (field, none) ∈ fields.zip values ∧ field ∉ optional := by
  obtain ⟨field, member, bad⟩ := spoilt
  obtain ⟨value, beside, count⟩ := exists_mem_zip_of_forall₂ (occurrences_of_record? read) member
  cases value with
  | none =>
    rw [Option.toList_none, List.length_nil] at count
    rcases bad with twice | ⟨required, -⟩
    · omega
    · exact ⟨field, beside, required⟩
  | some value =>
    rw [Option.toList_some, List.length_singleton] at count
    omega

/-- A member of an object that is read as a record has what is read for its field. -/
theorem eq_some_of_record? (read : record? fields (.object members) = some values) {raw : List Char}
    (member : (raw, value) ∈ members) (named : unescape? raw = some field.toList) {found : Option Json}
    (beside : (field, found) ∈ fields.zip values) : found = some value := by
  obtain ⟨decoded, decodes, all⟩ := Option.bind_eq_some_iff.mp read
  have here := List.forall₂_zip (mapM_eq_some_iff.mp all) beside
  obtain ⟨⟨_, _⟩, inside, decoded, rfl⟩ := exists_mem_of_forall₂ (decodeNames?_eq_some_iff.mp decodes) member
  cases named.symm.trans decoded
  exact eq_some_of_field? here inside

end ImportAtlas.Json
