import Mathlib.Data.List.Lex
import Mathlib.Data.Nat.Find
import Mathlib.Order.Lattice

/-! # Extensions in increasing lists

In the lexicographic order everything between a list and one of its extensions is an extension of it
too. So the extensions of a member of an increasing list stand right behind it, with nothing between
them.
-/

namespace ImportAtlas

variable {α : Type} [LinearOrder α]

/-- What lies between a list and one of its extensions is an extension as well. -/
theorem exists_extension_of_between {base middle rest : List α} (above : base < middle)
    (below : middle < base ++ rest) : ∃ more, more ≠ [] ∧ middle = base ++ more := by
  induction base generalizing middle with
  | nil =>
    refine ⟨middle, ?_, rfl⟩
    rintro rfl
    exact List.not_lt_nil _ above
  | cons item base ih =>
    cases middle with
    | nil => exact absurd above (List.not_lt_nil _)
    | cons other middle =>
      rw [List.cons_append, List.cons_lt_cons_iff] at below
      rw [List.cons_lt_cons_iff] at above
      rcases above with less | ⟨rfl, above⟩
      · rcases below with greater | ⟨rfl, -⟩
        · exact absurd greater (lt_asymm less)
        · exact absurd less (lt_irrefl _)
      · rcases below with less | ⟨-, below⟩
        · exact absurd less (lt_irrefl _)
        · obtain ⟨more, some, rfl⟩ := ih above below
          exact ⟨more, some, rfl⟩

theorem lt_append {base more : List α} (nonempty : more ≠ []) : base < base ++ more := by
  obtain ⟨item, rest, rfl⟩ := List.exists_cons_of_ne_nil nonempty
  have behind : base ++ [] < base ++ item :: rest := List.append_left_lt List.Lex.nil
  rwa [List.append_nil] at behind

/-- Whether the member of a list at some place is an extension of `base`. -/
def IsExtensionAt (all : List (List α)) (base : List α) (place : Nat) : Prop :=
  ∃ more, more ≠ [] ∧ all[place]? = some (base ++ more)

private theorem lt_of_places {all : List (List α)} (sorted : all.Pairwise (· < ·)) {first second : List α}
    {before after : Nat} (here : all[before]? = some first) (there : all[after]? = some second)
    (ordered : before < after) : first < second := by
  obtain ⟨_, rfl⟩ := List.getElem?_eq_some_iff.mp here
  obtain ⟨_, rfl⟩ := List.getElem?_eq_some_iff.mp there
  exact List.pairwise_iff_getElem.mp sorted before after _ _ ordered

/-- Members of an increasing list stand in it in their own order. -/
theorem lt_iff_of_places {all : List (List α)} (sorted : all.Pairwise (· < ·)) {first second : List α}
    {before after : Nat} (here : all[before]? = some first) (there : all[after]? = some second) :
    before < after ↔ first < second := by
  refine ⟨lt_of_places sorted here there, ?_⟩
  intro less
  by_contra late
  rcases Nat.lt_or_eq_of_le (Nat.le_of_not_lt late) with behind | rfl
  · exact lt_asymm less (lt_of_places sorted there here behind)
  · obtain rfl : first = second := Option.some.inj (here.symm.trans there)
    exact lt_irrefl _ less

/-- The extensions of a member of an increasing list are the members from right behind it up to some
place. -/
theorem exists_last_extension {all : List (List α)} (sorted : all.Pairwise (· < ·)) {base : List α}
    {start : Nat} (here : all[start]? = some base) :
    ∃ last, ∀ place, start < place ∧ place ≤ last ↔ IsExtensionAt all base place := by
  classical
  let last := Nat.findGreatest (IsExtensionAt all base) all.length
  refine ⟨last, ?_⟩
  intro place
  constructor
  · rintro ⟨after, early⟩
    have positive : last ≠ 0 := by omega
    obtain ⟨more, some, there⟩ : IsExtensionAt all base last := Nat.findGreatest_of_ne_zero rfl positive
    rcases Nat.lt_or_eq_of_le early with between | equal
    · have inside : place < all.length := by
        have := (List.getElem?_eq_some_iff.mp there).1
        omega
      have found := List.getElem?_eq_getElem inside
      obtain ⟨more, some, extension⟩ := exists_extension_of_between
        (lt_of_places sorted here found after) (lt_of_places sorted found there between)
      exact ⟨more, some, by rw [found, extension]⟩
    · exact ⟨more, some, equal ▸ there⟩
  · rintro ⟨more, some, there⟩
    have inside := (List.getElem?_eq_some_iff.mp there).1
    exact ⟨(lt_iff_of_places sorted here there).mpr (lt_append some),
      Nat.le_findGreatest (by omega) ⟨more, some, there⟩⟩

end ImportAtlas
