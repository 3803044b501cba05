import Mathlib.Data.List.Forall2

/-! # Traversing a list with an operation that may fail

A traversal answers with the results of all items, in their order, or with the failure of one of
them. Which items it looked at after a failure does not show.
-/

namespace ImportAtlas

variable {ε α β : Type}

/-- A traversal succeeds exactly if it does so on each item. -/
theorem mapM_eq_ok_iff {f : α → Except ε β} {items : List α} {results : List β} :
    items.mapM f = .ok results ↔ List.Forall₂ (fun item result => f item = .ok result) items results := by
  induction items generalizing results with
  | nil =>
    simp only [List.mapM_nil, List.forall₂_nil_left_iff]
    exact ⟨fun equal => (Except.ok.inj equal).symm, fun equal => equal ▸ rfl⟩
  | cons item rest ih =>
    rw [List.mapM_cons]
    cases first : f item with
    | error failure =>
      constructor
      · intro success
        cases success
      · intro related
        cases related with
        | cons head _ => simp [first] at head
    | ok result =>
      cases others : rest.mapM f with
      | error failure =>
        constructor
        · intro success
          simp [bind, Except.bind] at success
        · intro related
          cases related with
          | cons _ tail => simp [ih.mpr tail] at others
      | ok tail =>
        constructor
        · intro success
          cases success
          exact .cons first (ih.mp others)
        · intro related
          cases related with
          | cons head related =>
            have same := ih.mpr related
            rw [others] at same
            cases same
            cases first.symm.trans head
            rfl

/-- A traversal that fails does so with the failure of one of its items. -/
theorem exists_of_mapM_eq_error {f : α → Except ε β} {items : List α} {failure : ε}
    (failed : items.mapM f = .error failure) : ∃ item ∈ items, f item = .error failure := by
  induction items with
  | nil => cases failed
  | cons item rest ih =>
    rw [List.mapM_cons] at failed
    cases first : f item with
    | error other =>
      rw [first] at failed
      cases failed
      exact ⟨item, List.mem_cons_self, first⟩
    | ok result =>
      cases others : rest.mapM f with
      | error other =>
        rw [first, others] at failed
        cases failed
        obtain ⟨culprit, member, failed⟩ := ih others
        exact ⟨culprit, List.mem_cons_of_mem _ member, failed⟩
      | ok tail =>
        rw [first, others] at failed
        cases failed

/-- Traversals with operations that agree on every item agree. -/
theorem mapM_congr_of_mem {f g : α → Except ε β} {items : List α} (agree : ∀ item ∈ items, f item = g item) :
    items.mapM f = items.mapM g := by
  induction items with
  | nil => rfl
  | cons item rest ih =>
    obtain ⟨here, later⟩ := List.forall_mem_cons.mp agree
    rw [List.mapM_cons, List.mapM_cons, here, ih later]

/-- A traversal that may find nothing succeeds exactly if it finds something for each item. -/
theorem mapM_eq_some_iff {f : α → Option β} {items : List α} {results : List β} :
    items.mapM f = some results ↔ List.Forall₂ (fun item result => f item = some result) items results := by
  induction items generalizing results with
  | nil =>
    rw [List.mapM_nil, List.forall₂_nil_left_iff]
    exact Option.some_inj.trans eq_comm
  | cons item rest ih =>
    simp only [List.mapM_cons, List.forall₂_cons_left_iff, ← ih, Option.bind_eq_bind, Option.bind_eq_some_iff,
      Option.pure_def, Option.some.injEq, eq_comm (b := results), exists_and_left]

/-- A traversal that finds a result for every item answers with these results. -/
theorem mapM_map_eq_some {γ : Type} {f : β → Option γ} {write : α → β} {result : α → γ} {items : List α}
    (found : ∀ item ∈ items, f (write item) = some (result item)) :
    (items.map write).mapM f = some (items.map result) := by
  induction items with
  | nil => rfl
  | cons item rest ih =>
    obtain ⟨here, others⟩ := List.forall_mem_cons.mp found
    rw [List.map_cons, List.mapM_cons, here, ih others]
    rfl

/-- Reading back what was written for each item recovers the items. -/
theorem mapM_of_inverse {read : β → Option α} {write : α → β} {items : List α}
    (inverse : ∀ item ∈ items, read (write item) = some item) :
    (items.map write).mapM read = some items :=
  (mapM_map_eq_some inverse).trans (by rw [List.map_id'])

/-- Each item of the first list is related to some item of the second. -/
theorem exists_mem_of_forall₂ {relation : α → β → Prop} {items : List α} {results : List β}
    (related : List.Forall₂ relation items results) {item : α} (member : item ∈ items) :
    ∃ result ∈ results, relation item result := by
  induction related with
  | nil => cases member
  | cons here _ ih =>
    rcases List.mem_cons.mp member with rfl | member
    · exact ⟨_, List.mem_cons_self, here⟩
    · obtain ⟨result, found, there⟩ := ih member
      exact ⟨result, List.mem_cons_of_mem _ found, there⟩

/-- If each item is related to something, all of them are. -/
theorem exists_forall₂ {relation : α → β → Prop} {items : List α}
    (related : ∀ item ∈ items, ∃ result, relation item result) : ∃ results, List.Forall₂ relation items results := by
  induction items with
  | nil => exact ⟨[], .nil⟩
  | cons item rest ih =>
    obtain ⟨⟨result, here⟩, others⟩ := List.forall_mem_cons.mp related
    obtain ⟨results, later⟩ := ih others
    exact ⟨result :: results, .cons here later⟩

/-- Each item of the first list has one beside it in the second. -/
theorem exists_mem_zip_of_forall₂ {relation : α → β → Prop} {items : List α} {results : List β}
    (related : List.Forall₂ relation items results) {item : α} (member : item ∈ items) :
    ∃ result, (item, result) ∈ items.zip results ∧ relation item result := by
  induction related with
  | nil => cases member
  | cons here _ ih =>
    rcases List.mem_cons.mp member with rfl | member
    · exact ⟨_, List.mem_cons_self, here⟩
    · obtain ⟨result, found, there⟩ := ih member
      exact ⟨result, List.mem_cons_of_mem _ found, there⟩

/-- What is related to the items in two steps, of which the second is an operation. -/
theorem forall₂_iff_exists_map {γ : Type} {relation : α → γ → Prop} {step : α → β → Prop} {operation : β → γ}
    (steps : ∀ item result, relation item result ↔ ∃ middle, step item middle ∧ result = operation middle)
    {items : List α} {results : List γ} :
    List.Forall₂ relation items results ↔
      ∃ middles, List.Forall₂ step items middles ∧ results = middles.map operation := by
  constructor
  · intro related
    induction related with
    | nil => exact ⟨[], .nil, rfl⟩
    | cons here _ ih =>
      obtain ⟨middle, first, rfl⟩ := (steps _ _).mp here
      obtain ⟨middles, later, rfl⟩ := ih
      exact ⟨middle :: middles, .cons first later, rfl⟩
  · rintro ⟨middles, related, rfl⟩
    rw [List.forall₂_map_right_iff]
    exact related.imp fun item middle first => (steps _ _).mpr ⟨middle, first, rfl⟩

end ImportAtlas
