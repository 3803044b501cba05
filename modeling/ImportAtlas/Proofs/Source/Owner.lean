import ImportAtlas.Proofs.List.Starts
import ImportAtlas.Proofs.Path.Key
import ImportAtlas.Source.Owner

/-! # Modules own what lies below them

The owning module of a file is named by the first segments of its key: those before the first marker, the marker
and the one segment after it. So it is the file itself or a directory on the way to it, it owns itself, and it
owns whatever else lies below it. Only where the marker is the last segment does the owning module end with it,
and then nothing below it is owned by it.
-/

namespace ImportAtlas.Source

/-- Whether the segments `owner` are those of `key` up to the first marker and the one after it, or up to the
marker where it is the last segment of `key`. -/
def IsOwner (marker : List Char) (key owner : List (List Char)) : Prop :=
  ∃ before after, key = before ++ marker :: after ∧ marker ∉ before ∧
    (after = [] ∧ owner = before ++ [marker] ∨
      ∃ next more, after = next :: more ∧ owner = before ++ [marker, next])

/-- Whether segments go on after the first marker among them. -/
def GoesOnAfter (marker : List Char) (segments : List (List Char)) : Prop :=
  ∃ before next more, segments = before ++ marker :: next :: more ∧ marker ∉ before

/-! ## Segments -/

section Segments

variable {marker : List Char} {key owner before after : List (List Char)}

theorem ownerSegments?_append (absent : marker ∉ before) (rest : List (List Char)) :
    ownerSegments? marker (before ++ rest) = (ownerSegments? marker rest).map (before ++ ·) := by
  induction before with
  | nil => exact Option.map_id'.symm
  | cons segment before ih =>
    rw [List.mem_cons, not_or] at absent
    rw [List.cons_append, ownerSegments?, if_neg (Ne.symm absent.1), ih absent.2, Option.map_map]
    rfl

theorem ownerSegments?_of_first (absent : marker ∉ before) (after : List (List Char)) :
    ownerSegments? marker (before ++ marker :: after) = some (before ++ marker :: after.take 1) := by
  rw [ownerSegments?_append absent, ownerSegments?, if_pos rfl, Option.map_some]

theorem ownerSegments?_eq_none_iff : ownerSegments? marker key = none ↔ marker ∉ key := by
  constructor
  · intro unowned member
    obtain ⟨before, after, rfl, absent⟩ := List.eq_append_cons_of_mem member
    rw [ownerSegments?_of_first absent] at unowned
    cases unowned
  · intro absent
    have searched := ownerSegments?_append absent []
    rwa [List.append_nil] at searched

theorem ownerSegments?_eq_some_iff : ownerSegments? marker key = some owner ↔ IsOwner marker key owner := by
  constructor
  · intro found
    have member : marker ∈ key := by
      apply Decidable.byContradiction
      intro absent
      cases (ownerSegments?_eq_none_iff.mpr absent).symm.trans found
    obtain ⟨before, after, rfl, absent⟩ := List.eq_append_cons_of_mem member
    rw [ownerSegments?_of_first absent] at found
    obtain rfl := Option.some.inj found
    refine ⟨before, after, rfl, absent, ?_⟩
    cases after with
    | nil => exact .inl ⟨rfl, rfl⟩
    | cons next more => exact .inr ⟨next, more, rfl, rfl⟩
  · rintro ⟨before, after, rfl, absent, ⟨rfl, rfl⟩ | ⟨next, more, rfl, rfl⟩⟩
    · exact ownerSegments?_of_first absent []
    · exact ownerSegments?_of_first absent (next :: more)

theorem IsOwner.exists_append (owned : IsOwner marker key owner) : owner ≠ [] ∧ ∃ more, key = owner ++ more := by
  obtain ⟨before, after, rfl, -, ⟨rfl, rfl⟩ | ⟨next, more, rfl, rfl⟩⟩ := owned
  · exact ⟨by simp, [], by simp⟩
  · exact ⟨by simp, more, by simp⟩

/-- An owning module owns itself. -/
theorem IsOwner.self (owned : IsOwner marker key owner) : IsOwner marker owner owner := by
  obtain ⟨before, after, -, absent, ⟨rfl, rfl⟩ | ⟨next, more, rfl, rfl⟩⟩ := owned
  · exact ⟨before, [], rfl, absent, .inl ⟨rfl, rfl⟩⟩
  · exact ⟨before, [next], rfl, absent, .inr ⟨next, [], rfl, rfl⟩⟩

/-- There is one first marker only, so what follows it is all that does. -/
theorem goesOnAfter_iff (absent : marker ∉ before) : GoesOnAfter marker (before ++ marker :: after) ↔ after ≠ [] := by
  constructor
  · rintro ⟨earlier, next, more, same, alsoAbsent⟩ rfl
    have others {segments : List (List Char)} (absent : marker ∉ segments) :
        ∀ segment ∈ segments, (segment != marker) = true :=
      fun segment member => bne_iff_ne.mpr fun same => absent (same ▸ member)
    have stops (rest : List (List Char)) : ∀ segment ∈ (marker :: rest).head?, (segment != marker) = false := by
      intro segment first
      obtain rfl := Option.some.inj first
      exact bne_self_eq_false marker
    have rests := (start_unique (others absent) (stops _) (others alsoAbsent) (stops _) same).2
    cases rests
  · intro nonempty
    obtain ⟨next, more, rfl⟩ := List.exists_cons_of_ne_nil nonempty
    exact ⟨before, next, more, rfl, absent⟩

/-- What lies below an owning module is owned by it if the module goes on after its first marker, and by something
else if the marker is its last segment. -/
theorem IsOwner.append_iff (owned : IsOwner marker key owner) {below : List (List Char)} (nonempty : below ≠ []) :
    IsOwner marker (owner ++ below) owner ↔ GoesOnAfter marker owner := by
  obtain ⟨before, after, -, absent, ⟨-, rfl⟩ | ⟨next, more, -, rfl⟩⟩ := owned
  · rw [goesOnAfter_iff absent, ← ownerSegments?_eq_some_iff, List.append_assoc, List.singleton_append,
      ownerSegments?_of_first absent]
    simp [nonempty]
  · rw [goesOnAfter_iff absent, ← ownerSegments?_eq_some_iff, List.append_assoc, List.cons_append,
      ownerSegments?_of_first absent]
    simp

end Segments

/-! ## Keys -/

variable {key marker owner : String}

theorem namesOf_append_slash (first second : String) :
    namesOf (first ++ "/" ++ second) = namesOf first ++ namesOf second := by
  have slash : "/".toList = ['/'] := rfl
  rw [namesOf, String.toList_append, String.toList_append, slash, List.append_assoc, List.singleton_append,
    Path.segments_append_slash]
  rfl

theorem owner?_eq_some_iff : owner? key marker = some owner ↔ IsOwner marker.toList (namesOf key) (namesOf owner) := by
  rw [owner?, Option.map_eq_some_iff]
  constructor
  · rintro ⟨segments, found, rfl⟩
    have owned := ownerSegments?_eq_some_iff.mp found
    obtain ⟨nonempty, more, names⟩ := owned.exists_append
    have noSlash : ∀ segment ∈ segments, '/' ∉ segment := by
      intro segment member
      have inside : segment ∈ Path.segments key.toList := names ▸ List.mem_append_left _ member
      exact Path.noSlash_of_mem_segments inside
    rwa [← keyOf, namesOf_keyOf nonempty noSlash]
  · intro owned
    exact ⟨namesOf owner, ownerSegments?_eq_some_iff.mpr owned, keyOf_namesOf owner⟩

/-- The key of a file goes on from that of its owning module. -/
theorem exists_names_of_owner? (owned : owner? key marker = some owner) :
    ∃ more, namesOf key = namesOf owner ++ more :=
  (owner?_eq_some_iff.mp owned).exists_append.2

/-- A file has an owning module unless no segment of its key is the marker. The module is a start of the key that
ends between two segments, and its last segment is the one right after the first marker, or the marker where that
is the last segment of the key. The module owns itself, and it owns all that lies below it just if it goes on
after its first marker. -/
theorem owner?_names_module (key marker : String) :
    (owner? key marker = none ↔ marker.toList ∉ namesOf key) ∧
      ∀ owner, owner? key marker = some owner →
        (key = owner ∨ ∃ rest, key = owner ++ "/" ++ rest) ∧
          IsOwner marker.toList (namesOf key) (namesOf owner) ∧
          owner? owner marker = some owner ∧
          (GoesOnAfter marker.toList (namesOf owner) ↔
            ∀ rest, owner? (owner ++ "/" ++ rest) marker = some owner) := by
  refine ⟨Option.map_eq_none_iff.trans ownerSegments?_eq_none_iff, ?_⟩
  intro owner found
  have owned := owner?_eq_some_iff.mp found
  refine ⟨?_, owned, owner?_eq_some_iff.mpr owned.self, ?_⟩
  · obtain ⟨-, more, names⟩ := owned.exists_append
    rw [← keyOf_namesOf key, names]
    cases more with
    | nil => exact .inl (by rw [List.append_nil, keyOf_namesOf])
    | cons next more =>
      refine .inr ⟨keyOf (next :: more), ?_⟩
      rw [keyOf, Path.ofSegments_append (namesOf_ne_nil owner) (List.cons_ne_nil _ _), ← List.singleton_append,
        ← List.append_assoc, String.ofList_append, String.ofList_append, ← keyOf, keyOf_namesOf]
      rfl
  · have below (rest : String) :
        owner? (owner ++ "/" ++ rest) marker = some owner ↔ GoesOnAfter marker.toList (namesOf owner) := by
      rw [owner?_eq_some_iff, namesOf_append_slash, owned.append_iff (namesOf_ne_nil rest)]
    constructor
    · intro goesOn rest
      exact (below rest).mpr goesOn
    · intro all
      exact (below "").mp (all "")

-- A marker right after the first one is the module that this one holds.
example : owner? "a//m/m/b/" "m" = some "a//m/m" := by cbv

end ImportAtlas.Source
