import Mathlib.Data.List.TakeWhile

/-! # The longest start of one kind

Where a list goes on with a member of another kind, taking its first members of one kind takes those before it,
so that the parts of the list can be told apart.
-/

namespace ImportAtlas

section Start

variable {α : Type} {p : α → Bool} {first rest : List α} (all : ∀ item ∈ first, p item = true)
  (stops : ∀ item ∈ rest.head?, p item = false)

include all stops

theorem takeWhile_append_stop : (first ++ rest).takeWhile p = first := by
  rw [List.takeWhile_append_of_pos all]
  cases rest with
  | nil => rw [List.takeWhile_nil, List.append_nil]
  | cons item rest => rw [List.takeWhile_cons_of_neg (by simp [stops item rfl]), List.append_nil]

theorem dropWhile_append_stop : (first ++ rest).dropWhile p = rest := by
  rw [List.dropWhile_append_of_pos all]
  cases rest with
  | nil => rfl
  | cons item rest => rw [List.dropWhile_cons_of_neg (by simp [stops item rfl])]

/-- The members of one kind at the start of a list can be told from what follows them. -/
theorem start_unique {other more : List α} (otherAll : ∀ item ∈ other, p item = true)
    (otherStops : ∀ item ∈ more.head?, p item = false) (same : first ++ rest = other ++ more) :
    first = other ∧ rest = more := by
  have heads := congrArg (List.takeWhile p) same
  rw [takeWhile_append_stop all stops, takeWhile_append_stop otherAll otherStops] at heads
  subst heads
  exact ⟨rfl, List.append_cancel_left same⟩

end Start

end ImportAtlas
