import ImportAtlas.Graph.Table
import ImportAtlas.Proofs.List.FirstPlaces
import Mathlib.Data.List.Nodup
import Mathlib.Data.List.Pairwise

/-! # Tables with unique keys

A table in which each key stands once is determined by its entries. Putting a value under a number
keeps the numbers in their order, so tables that were made that way have unique keys, and entries
that are in order already are a table as they are. Of entries that repeat a key, the table holds the
last, and it is found in the place of the first or in the order of the numbers.
-/

namespace ImportAtlas.Table

variable {κ ν : Type}

/-- Each key stands in the table once. -/
def HasUniqueKeys (table : List (κ × ν)) : Prop :=
  (table.map (·.1)).Nodup

/-- The keys of the table increase, so each of them stands in it once. -/
def IsSorted (table : List (Nat × ν)) : Prop :=
  (table.map (·.1)).Pairwise (· < ·)

theorem IsSorted.hasUniqueKeys {table : List (Nat × ν)} (sorted : IsSorted table) :
    HasUniqueKeys table :=
  sorted.imp fun before => Nat.ne_of_lt before

/-- Looking a key up finds the entry that has it. -/
theorem lookup_eq_some_iff [DecidableEq κ] {table : List (κ × ν)} (unique : HasUniqueKeys table)
    {key : κ} {value : ν} : table.lookup key = some value ↔ (key, value) ∈ table := by
  induction table with
  | nil => simp
  | cons entry rest ih =>
    obtain ⟨other, old⟩ := entry
    obtain ⟨new, unique⟩ := List.nodup_cons.mp unique
    rw [List.lookup_cons, List.mem_cons]
    by_cases same : key = other
    · subst same
      have absent : (key, value) ∉ rest := fun member => new (List.mem_map.mpr ⟨_, member, rfl⟩)
      simp [absent, eq_comm]
    · have differs : (key == other) = false := beq_false_of_ne same
      rw [differs]
      simp [same, ih unique]

theorem exists_lookup_iff [DecidableEq κ] {table : List (κ × ν)} {key : κ} :
    (∃ value, table.lookup key = some value) ↔ key ∈ table.map (·.1) := by
  rw [← Option.isSome_iff_exists, List.lookup_isSome_iff, List.mem_map]
  exact exists_congr fun entry => and_congr_right fun _ => beq_iff_eq.trans eq_comm

theorem lookup_eq_none_iff [DecidableEq κ] {table : List (κ × ν)} {key : κ} :
    table.lookup key = none ↔ key ∉ table.map (·.1) := by
  rw [← exists_lookup_iff, ← Option.isSome_iff_exists, Option.not_isSome_iff_eq_none]

theorem lookup_map_value {μ : Type} [BEq κ] (table : List (κ × ν)) (change : ν → μ) (key : κ) :
    (table.map fun entry => (entry.1, change entry.2)).lookup key = (table.lookup key).map change := by
  induction table with
  | nil => rfl
  | cons entry rest ih =>
    obtain ⟨other, value⟩ := entry
    rw [List.map_cons, List.lookup_cons, List.lookup_cons]
    cases key == other with
    | true => rfl
    | false => exact ih

theorem put_of_new [DecidableEq κ] {table : List (κ × ν)} {key : κ} (new : key ∉ table.map (·.1))
    (value : ν) : put table key value = table ++ [(key, value)] := by
  induction table with
  | nil => rfl
  | cons entry rest ih =>
    rw [List.map_cons, List.mem_cons, not_or] at new
    simp only [put, if_neg (Ne.symm new.1), ih new.2, List.cons_append]

private theorem foldl_put [DecidableEq κ] (entries table : List (κ × ν))
    (unique : HasUniqueKeys (table ++ entries)) :
    entries.foldl (fun table entry => put table entry.1 entry.2) table = table ++ entries := by
  induction entries generalizing table with
  | nil => simp
  | cons entry rest ih =>
    have new : entry.1 ∉ table.map (·.1) := by
      intro member
      rw [HasUniqueKeys, List.map_append, List.nodup_append] at unique
      exact unique.2.2 _ member _ List.mem_cons_self rfl
    rw [List.foldl_cons, put_of_new new, ih]
    · simp
    · simpa using unique

/-- Entries with different keys make a table as they are. -/
theorem ofList_of_unique [DecidableEq κ] {entries : List (κ × ν)} (unique : HasUniqueKeys entries) :
    ofList entries = entries :=
  foldl_put entries [] unique

theorem mem_putInOrder_keys {table : List (Nat × ν)} {key other : Nat} {value : ν} :
    other ∈ (putInOrder table key value).map (·.1) ↔ other = key ∨ other ∈ table.map (·.1) := by
  induction table with
  | nil => simp [putInOrder]
  | cons entry rest ih =>
    obtain ⟨first, old⟩ := entry
    unfold putInOrder
    split_ifs with before same
    · rw [List.map_cons, List.mem_cons, ih, List.map_cons, List.mem_cons]
      tauto
    · subst same
      simp
    · simp

theorem mem_of_mem_putInOrder {table : List (Nat × ν)} {key : Nat} {value : ν} {entry : Nat × ν}
    (member : entry ∈ putInOrder table key value) : entry = (key, value) ∨ entry ∈ table := by
  induction table with
  | nil => exact .inl (List.mem_singleton.mp member)
  | cons first rest ih =>
    unfold putInOrder at member
    split_ifs at member
    · rcases List.mem_cons.mp member with rfl | member
      · exact .inr List.mem_cons_self
      · exact (ih member).imp_right (List.mem_cons_of_mem _)
    · exact (List.mem_cons.mp member).imp_right (List.mem_cons_of_mem _)
    · exact List.mem_cons.mp member

/-- Putting a value keeps the order of the keys. -/
theorem IsSorted.putInOrder {table : List (Nat × ν)} (sorted : IsSorted table) (key : Nat) (value : ν) :
    IsSorted (putInOrder table key value) := by
  induction table with
  | nil => exact List.pairwise_singleton _ _
  | cons entry rest ih =>
    obtain ⟨first, old⟩ := entry
    obtain ⟨least, sorted⟩ := List.pairwise_cons.mp sorted
    unfold Table.putInOrder
    split_ifs with before same
    · apply List.Pairwise.cons _ (ih sorted)
      intro other member
      rcases mem_putInOrder_keys.mp member with rfl | member
      · exact before
      · exact least other member
    · subst same
      exact List.pairwise_cons.mpr ⟨least, sorted⟩
    · apply List.Pairwise.cons _ (.cons least sorted)
      intro other member
      rcases List.mem_cons.mp member with rfl | member
      · dsimp only; omega
      · have := least other member
        dsimp only at this ⊢
        omega

/-- A value under a key beyond all others goes to the end. -/
theorem putInOrder_of_greatest {table : List (Nat × ν)} {key : Nat}
    (greatest : ∀ other ∈ table.map (·.1), other < key) (value : ν) :
    putInOrder table key value = table ++ [(key, value)] := by
  induction table with
  | nil => rfl
  | cons entry rest ih =>
    rw [List.map_cons] at greatest
    have before : entry.1 < key := greatest entry.1 List.mem_cons_self
    simp only [putInOrder, if_pos before, List.cons_append]
    rw [ih fun other member => greatest other (List.mem_cons_of_mem _ member)]

private theorem foldl_putInOrder (entries table : List (Nat × ν)) (sorted : IsSorted (table ++ entries)) :
    entries.foldl (fun table entry => putInOrder table entry.1 entry.2) table = table ++ entries := by
  induction entries generalizing table with
  | nil => simp
  | cons entry rest ih =>
    have greatest : ∀ other ∈ table.map (·.1), other < entry.1 := by
      intro other member
      rw [IsSorted, List.map_append, List.pairwise_append] at sorted
      exact sorted.2.2 _ member _ List.mem_cons_self
    rw [List.foldl_cons, putInOrder_of_greatest greatest, ih]
    · simp
    · simpa using sorted

/-- Entries with increasing keys make a table in order as they are. -/
theorem inOrder_of_sorted {entries : List (Nat × ν)} (sorted : IsSorted entries) :
    inOrder entries = entries :=
  foldl_putInOrder entries [] sorted

/-! ## Repeated keys -/

/-- Under each key, the table holds the last of the values that the entries have for it, and nothing
else. -/
def HoldsLast [DecidableEq κ] (entries table : List (κ × ν)) : Prop :=
  ∀ key, table.lookup key = entries.reverse.lookup key

section Put

variable [DecidableEq κ] {entries table : List (κ × ν)}

theorem lookup_cons (table : List (κ × ν)) (key other : κ) (value : ν) :
    ((key, value) :: table).lookup other = if other = key then some value else table.lookup other := by
  rw [List.lookup_cons]
  by_cases same : other = key
  · rw [if_pos same, beq_iff_eq.mpr same]
  · rw [if_neg same, beq_false_of_ne same]

/-- What a table holds was listed. -/
theorem HoldsLast.subset (holds : HoldsLast entries table) (unique : HasUniqueKeys table) : table ⊆ entries := by
  rintro ⟨key, value⟩ member
  have found := (holds key).symm.trans ((lookup_eq_some_iff unique).mpr member)
  obtain ⟨before, after, split, -⟩ := List.lookup_eq_some_iff.mp found
  rw [← List.mem_reverse, split]
  exact List.mem_append_right before List.mem_cons_self

theorem put_keys_of_old {key : κ} (old : key ∈ table.map (·.1)) (value : ν) :
    (put table key value).map (·.1) = table.map (·.1) := by
  induction table with
  | nil => cases old
  | cons entry rest ih =>
    unfold put
    by_cases same : entry.1 = key
    · simp [same]
    · have later := (List.mem_cons.mp old).resolve_left (Ne.symm same)
      simp [same, ih later]

theorem lookup_put (table : List (κ × ν)) (key other : κ) (value : ν) :
    (put table key value).lookup other = if other = key then some value else table.lookup other := by
  induction table with
  | nil => exact lookup_cons [] key other value
  | cons entry rest ih =>
    obtain ⟨first, old⟩ := entry
    unfold put
    by_cases here : first = key
    · subst here
      rw [if_pos rfl, lookup_cons, lookup_cons]
      split <;> rfl
    · rw [if_neg here, lookup_cons, lookup_cons, ih]
      by_cases there : other = first
      · rw [if_pos there, if_neg (there ▸ here), if_pos there]
      · rw [if_neg there, if_neg there]

/-- One more entry asks for putting its value. -/
theorem HoldsLast.concat (holds : HoldsLast entries table) {entry : κ × ν} {more : List (κ × ν)}
    (puts : ∀ other, more.lookup other = if other = entry.1 then some entry.2 else table.lookup other) :
    HoldsLast (entries ++ [entry]) more := by
  intro other
  rw [puts, holds, List.reverse_append, List.reverse_singleton, List.singleton_append, lookup_cons]

/-- A table of entries has every key in its first place, with its last value. -/
theorem ofList_spec (entries : List (κ × ν)) :
    FirstPlaces (entries.map (·.1)) ((ofList entries).map (·.1)) ∧ HoldsLast entries (ofList entries) := by
  induction entries using List.reverseRecOn with
  | nil => exact ⟨.nil, fun _ => rfl⟩
  | append_singleton entries entry ih =>
    obtain ⟨places, holds⟩ := ih
    have step : ofList (entries ++ [entry]) = put (ofList entries) entry.1 entry.2 := by
      rw [ofList, List.foldl_concat, ← ofList]
    rw [step]
    refine ⟨?_, holds.concat fun other => lookup_put _ _ _ _⟩
    rw [List.map_append, List.map_singleton]
    by_cases old : entry.1 ∈ entries.map (·.1)
    · rw [put_keys_of_old ((places.mem_iff _).mpr old)]
      exact places.append_old old
    · rw [put_of_new (mt (places.mem_iff _).mp old), List.map_append, List.map_singleton]
      exact places.append_new old

end Put

theorem lookup_putInOrder {table : List (Nat × ν)} (sorted : IsSorted table) (key other : Nat) (value : ν) :
    (putInOrder table key value).lookup other = if other = key then some value else table.lookup other := by
  induction table with
  | nil => exact lookup_cons [] key other value
  | cons entry rest ih =>
    obtain ⟨first, old⟩ := entry
    obtain ⟨-, sorted⟩ := List.pairwise_cons.mp sorted
    unfold putInOrder
    by_cases before : first < key
    · rw [if_pos before, lookup_cons, lookup_cons, ih sorted]
      by_cases there : other = first
      · rw [if_pos there, if_neg (there ▸ Nat.ne_of_lt before), if_pos there]
      · rw [if_neg there, if_neg there]
    · rw [if_neg before]
      by_cases here : first = key
      · subst here
        rw [if_pos rfl, lookup_cons, lookup_cons]
        split <;> rfl
      · rw [if_neg here, lookup_cons]

/-- A table in order has the keys of its entries in order, each with its last value. -/
theorem inOrder_spec (entries : List (Nat × ν)) :
    IsSorted (inOrder entries) ∧ HoldsLast entries (inOrder entries) := by
  induction entries using List.reverseRecOn with
  | nil => exact ⟨.nil, fun _ => rfl⟩
  | append_singleton entries entry ih =>
    obtain ⟨sorted, holds⟩ := ih
    have step : inOrder (entries ++ [entry]) = putInOrder (inOrder entries) entry.1 entry.2 := by
      rw [inOrder, List.foldl_concat, ← inOrder]
    rw [step]
    exact ⟨sorted.putInOrder entry.1 entry.2, holds.concat fun other => lookup_putInOrder sorted _ _ _⟩

end ImportAtlas.Table
