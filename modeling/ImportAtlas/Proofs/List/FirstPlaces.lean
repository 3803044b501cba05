import Mathlib.Data.List.Induction
import Mathlib.Data.List.Nodup

/-! # The first places of the members of a list

Erasing repetitions from a list keeps every member once, and orders the members by the places where
they first occur. `FirstPlaces` says this without the algorithm, and determines the result.
-/

namespace ImportAtlas

variable {α : Type} [DecidableEq α]

/-- `once` holds the members of `all`, each once, in the order in which they first occur there. -/
structure FirstPlaces (all once : List α) : Prop where
  nodup : once.Nodup
  mem_iff (item : α) : item ∈ once ↔ item ∈ all
  ordered : once.Pairwise fun first second => all.idxOf first < all.idxOf second

namespace FirstPlaces

theorem nil : FirstPlaces ([] : List α) [] := ⟨.nil, fun _ => .rfl, .nil⟩

/-- What is appended comes after the first places of all members. -/
theorem ordered_append {all once : List α} (places : FirstPlaces all once) (more : List α) :
    once.Pairwise fun first second => (all ++ more).idxOf first < (all ++ more).idxOf second := by
  apply places.ordered.imp_of_mem
  intro first second atFirst atSecond before
  rwa [List.idxOf_append_of_mem ((places.mem_iff first).mp atFirst),
    List.idxOf_append_of_mem ((places.mem_iff second).mp atSecond)]

/-- A member that occurred before has its place already. -/
theorem append_old {all once : List α} (places : FirstPlaces all once) {item : α} (old : item ∈ all) :
    FirstPlaces (all ++ [item]) once where
  nodup := places.nodup
  mem_iff other := by
    rw [places.mem_iff, List.mem_append, List.mem_singleton]
    constructor
    · exact .inl
    · rintro (member | rfl)
      · exact member
      · exact old
  ordered := places.ordered_append [item]

/-- A new member comes after all others. -/
theorem append_new {all once : List α} (places : FirstPlaces all once) {item : α} (new : item ∉ all) :
    FirstPlaces (all ++ [item]) (once ++ [item]) where
  nodup := by
    apply List.nodup_append.mpr
    refine ⟨places.nodup, List.nodup_singleton item, ?_⟩
    intro first atFirst second atSecond same
    rw [List.mem_singleton.mp atSecond] at same
    exact new ((places.mem_iff _).mp (same ▸ atFirst))
  mem_iff other := by simp only [List.mem_append, places.mem_iff]
  ordered := by
    apply List.pairwise_append.mpr
    refine ⟨places.ordered_append [item], List.pairwise_singleton _ _, ?_⟩
    intro first atFirst second atSecond
    have known : first ∈ all := (places.mem_iff first).mp atFirst
    have early : all.idxOf first < all.length := List.idxOf_lt_length_of_mem known
    rw [List.mem_singleton.mp atSecond, List.idxOf_append_of_mem known, List.idxOf_append_of_notMem new]
    omega

/-- The members of a list without repetitions are at their first places. -/
theorem of_nodup {items : List α} (nodup : items.Nodup) : FirstPlaces items items where
  nodup := nodup
  mem_iff _ := .rfl
  ordered := by
    rw [List.pairwise_iff_getElem]
    intro first second _ _ before
    rwa [nodup.idxOf_getElem, nodup.idxOf_getElem]

/-- Only one list holds the members at their first places. -/
theorem unique {all once other : List α} (places : FirstPlaces all once)
    (others : FirstPlaces all other) : once = other := by
  have same : once.Perm other := (List.perm_ext_iff_of_nodup places.nodup others.nodup).mpr
    fun item => (places.mem_iff item).trans (others.mem_iff item).symm
  apply same.eq_of_pairwise _ places.ordered others.ordered
  intro first second _ _ before after
  omega

end FirstPlaces

/-- Erasing repetitions keeps the first place of every member. -/
theorem firstPlaces_eraseDups (items : List α) : FirstPlaces items items.eraseDups := by
  induction items using List.reverseRecOn with
  | nil => exact .nil
  | append_singleton rest item ih =>
    rw [List.eraseDups_append]
    by_cases old : item ∈ rest
    · simpa [List.removeAll, old] using ih.append_old old
    · simpa [List.removeAll, old, List.eraseDups_cons] using ih.append_new old

/-- A list without repetitions stays as it is. -/
theorem eraseDups_of_nodup {items : List α} (nodup : items.Nodup) : items.eraseDups = items :=
  (firstPlaces_eraseDups items).unique (.of_nodup nodup)

end ImportAtlas
