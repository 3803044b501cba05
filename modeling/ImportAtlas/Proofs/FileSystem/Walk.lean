import ImportAtlas.FileSystem.Walk
import ImportAtlas.Proofs.FileSystem.Entry
import Mathlib.Data.Char
import Mathlib.Data.List.Lex

/-! # What walks visit

A walk below a sound entry visits exactly the entries that a way without skipped names leads to, and
visits them in the lexicographic order of these ways, in which a directory comes before what it
holds.
-/

namespace ImportAtlas

/-! ## Sorting by name -/

section Sorting

variable {α : Type} {item other : Name × α} {items : List (Name × α)}

theorem mem_insertByName : other ∈ insertByName item items ↔ other = item ∨ other ∈ items := by
  induction items with
  | nil => simp [insertByName]
  | cons first rest ih =>
    rw [insertByName]
    split
    · rw [List.mem_cons, ih, List.mem_cons]
      tauto
    · simp

theorem mem_sortByName : other ∈ sortByName items ↔ other ∈ items := by
  induction items with
  | nil => rfl
  | cons first rest ih => rw [sortByName, List.foldr_cons, mem_insertByName, ← sortByName, ih, List.mem_cons]

theorem pairwise_insertByName (sorted : items.Pairwise (·.1 < ·.1)) (new : item.1 ∉ items.map (·.1)) :
    (insertByName item items).Pairwise (·.1 < ·.1) := by
  induction items with
  | nil => exact List.pairwise_singleton _ _
  | cons first rest ih =>
    obtain ⟨least, sorted⟩ := List.pairwise_cons.mp sorted
    rw [List.map_cons, List.mem_cons, not_or] at new
    rw [insertByName]
    split
    case isTrue before =>
      apply List.Pairwise.cons _ (ih sorted new.2)
      intro other member
      rcases mem_insertByName.mp member with rfl | member
      · exact before
      · exact least other member
    case isFalse behind =>
      have before : item.1 < first.1 := lt_of_le_of_ne (not_lt.mp behind) new.1
      apply List.Pairwise.cons _ (.cons least sorted)
      intro other member
      rcases List.mem_cons.mp member with rfl | member
      · exact before
      · exact before.trans (least other member)

/-- Sorting puts items of different names into the order of these names. -/
theorem pairwise_sortByName (unique : (items.map (·.1)).Nodup) :
    (sortByName items).Pairwise (·.1 < ·.1) := by
  induction items with
  | nil => exact .nil
  | cons first rest ih =>
    obtain ⟨new, unique⟩ := List.nodup_cons.mp unique
    refine pairwise_insertByName (ih unique) fun member => new ?_
    obtain ⟨other, inside, same⟩ := List.mem_map.mp member
    exact List.mem_map.mpr ⟨other, mem_sortByName.mp inside, same⟩

end Sorting

namespace Entry

/-! ## The visits of a directory -/

/-- The visits of a child and of what lies below it. -/
def visitsUnder (skips : Name → Bool) (name : Name) (entry : Entry) : List Visit :=
  ⟨[name], entry.isDirectory⟩ :: (entry.walk skips).map (Visit.under name)

theorem walkChildren_eq (skips : Name → Bool) (children : List (Name × Entry)) :
    walkChildren skips children =
      (children.filter fun child => !skips child.1).map fun child =>
        (child.1, visitsUnder skips child.1 child.2) := by
  induction children with
  | nil => rfl
  | cons child rest ih =>
    obtain ⟨name, entry⟩ := child
    rw [walkChildren, ih]
    cases skipped : skips name <;> simp [skipped, visitsUnder]

variable {skips : Name → Bool} {visit : Visit}

theorem mem_walk_directory {children : List (Name × Entry)} :
    visit ∈ (directory children).walk skips ↔
      ∃ name entry, (name, entry) ∈ children ∧ skips name = false ∧ visit ∈ visitsUnder skips name entry := by
  rw [walk, List.mem_flatMap]
  simp only [mem_sortByName, walkChildren_eq, List.mem_map, List.mem_filter, Bool.not_eq_true']
  constructor
  · rintro ⟨_, ⟨⟨name, entry⟩, ⟨member, kept⟩, rfl⟩, inside⟩
    exact ⟨name, entry, member, kept, inside⟩
  · rintro ⟨name, entry, member, kept, inside⟩
    exact ⟨_, ⟨(name, entry), ⟨member, kept⟩, rfl⟩, inside⟩

theorem mem_visitsUnder {name : Name} {entry : Entry} :
    visit ∈ visitsUnder skips name entry ↔
      visit = ⟨[name], entry.isDirectory⟩ ∨ ∃ inner ∈ entry.walk skips, visit = inner.under name := by
  rw [visitsUnder, List.mem_cons, List.mem_map]
  apply or_congr_right
  constructor
  · rintro ⟨inner, inside, rfl⟩
    exact ⟨inner, inside, rfl⟩
  · rintro ⟨inner, inside, rfl⟩
    exact ⟨inner, inside, rfl⟩

/-! ## Whole walks -/

/-- A walk visits what a way without skipped names leads to, and nothing else. -/
theorem mem_walk_iff {tree : Entry} (sound : tree.IsSound) :
    visit ∈ tree.walk skips ↔
      visit.names ≠ [] ∧ (∀ name ∈ visit.names, skips name = false) ∧
        ∃ entry, tree.get? visit.names = some entry ∧ entry.isDirectory = visit.isDirectory := by
  obtain ⟨names, isDirectory⟩ := visit
  induction sound generalizing names isDirectory with
  | file content =>
    cases names with
    | nil => simp [walk]
    | cons name rest => simp [walk, get?]
  | link target =>
    cases names with
    | nil => simp [walk]
    | cons name rest => simp [walk, get?]
  | directory unique _ _ ih =>
    rw [mem_walk_directory]
    constructor
    · rintro ⟨name, entry, member, kept, inside⟩
      have found := (child?_eq_some_iff unique).mpr member
      rcases mem_visitsUnder.mp inside with same | ⟨⟨inner, innerDirectory⟩, below, same⟩
      · cases same
        exact ⟨by simp, by simpa using kept, entry, by simp [found], rfl⟩
      · cases same
        obtain ⟨-, keptBelow, last, way, kind⟩ := (ih _ member inner innerDirectory).mp below
        have keptAll : ∀ other ∈ name :: inner, skips other = false :=
          List.forall_mem_cons.mpr ⟨kept, keptBelow⟩
        exact ⟨by simp, keptAll, last, by simp [found, way], kind⟩
    · rintro ⟨nonempty, kept, last, way, kind⟩
      obtain ⟨name, rest, rfl⟩ := List.exists_cons_of_ne_nil nonempty
      obtain ⟨keptHere, keptBelow⟩ := List.forall_mem_cons.mp kept
      rw [get?_directory] at way
      obtain ⟨entry, found, way⟩ := Option.bind_eq_some_iff.mp way
      have member := (child?_eq_some_iff unique).mp found
      refine ⟨name, entry, member, keptHere, mem_visitsUnder.mpr ?_⟩
      cases rest with
      | nil =>
        obtain rfl : entry = last := by simpa using way
        exact .inl (by rw [kind])
      | cons next rest =>
        have below : ⟨next :: rest, isDirectory⟩ ∈ entry.walk skips := by
          apply (ih _ member _ _).mpr
          exact ⟨by simp, keptBelow, last, way, kind⟩
        exact .inr ⟨_, below, rfl⟩

private theorem exists_names_of_mem_visitsUnder {name : Name} {entry : Entry}
    (inside : visit ∈ visitsUnder skips name entry) : ∃ rest, visit.names = name :: rest := by
  rcases mem_visitsUnder.mp inside with rfl | ⟨inner, -, rfl⟩
  · exact ⟨[], rfl⟩
  · exact ⟨inner.names, rfl⟩

private theorem pairwise_visitsUnder {name : Name} {entry : Entry} (sound : entry.IsSound)
    (sorted : (entry.walk skips).Pairwise (·.names < ·.names)) :
    (visitsUnder skips name entry).Pairwise (·.names < ·.names) := by
  apply List.Pairwise.cons
  · intro visit member
    obtain ⟨inner, below, rfl⟩ := List.mem_map.mp member
    obtain ⟨next, rest, names⟩ := List.exists_cons_of_ne_nil ((mem_walk_iff sound).mp below).1
    simp only [Visit.under, names]
    exact List.Lex.cons List.Lex.nil
  · apply List.pairwise_map.mpr
    exact sorted.imp fun less => List.Lex.cons less

/-- A walk visits entries in the order of the ways to them. -/
theorem pairwise_walk {tree : Entry} (sound : tree.IsSound) :
    (tree.walk skips).Pairwise (·.names < ·.names) := by
  induction sound with
  | file content => exact .nil
  | link target => exact .nil
  | @directory children unique names sound ih =>
    have kept : ((walkChildren skips children).map (·.1)).Nodup := by
      rw [walkChildren_eq, List.map_map]
      exact unique.sublist (List.filter_sublist.map _)
    rw [walk, List.pairwise_flatMap]
    constructor
    · intro block member
      rw [mem_sortByName, walkChildren_eq] at member
      obtain ⟨child, inside, rfl⟩ := List.mem_map.mp member
      have isChild := List.mem_of_mem_filter inside
      exact pairwise_visitsUnder (sound _ isChild) (ih _ isChild)
    · refine (pairwise_sortByName kept).imp_of_mem ?_
      intro first second atFirst atSecond less visit inFirst later inSecond
      rw [mem_sortByName, walkChildren_eq] at atFirst atSecond
      obtain ⟨child, -, rfl⟩ := List.mem_map.mp atFirst
      obtain ⟨other, -, rfl⟩ := List.mem_map.mp atSecond
      obtain ⟨rest, names⟩ := exists_names_of_mem_visitsUnder inFirst
      obtain ⟨otherRest, otherNames⟩ := exists_names_of_mem_visitsUnder inSecond
      rw [names, otherNames]
      exact List.Lex.rel less

/-- Walks are equal if the same ways without skipped names lead to something, and to directories alike. -/
theorem walk_congr {tree other : Entry} (sound : tree.IsSound) (otherSound : other.IsSound)
    (agree : ∀ names, names ≠ [] → (∀ name ∈ names, skips name = false) →
      (tree.get? names).map isDirectory = (other.get? names).map isDirectory) :
    tree.walk skips = other.walk skips := by
  have different {entry : Entry} (sound : entry.IsSound) : (entry.walk skips).Nodup := by
    rw [List.nodup_iff_pairwise_ne]
    apply (pairwise_walk sound).imp
    rintro first second less rfl
    exact lt_irrefl _ less
  apply @List.Perm.eq_of_pairwise _ (·.names < ·.names)
  · intro first second _ _ less greater
    exact absurd (less.trans greater) (lt_irrefl _)
  · exact pairwise_walk sound
  · exact pairwise_walk otherSound
  · rw [List.perm_ext_iff_of_nodup (different sound) (different otherSound)]
    intro visit
    rw [mem_walk_iff sound, mem_walk_iff otherSound]
    apply and_congr_right
    intro nonempty
    apply and_congr_right
    intro kept
    have same := agree visit.names nonempty kept
    rw [← Option.map_eq_some_iff, ← Option.map_eq_some_iff, same]

end Entry

end ImportAtlas
