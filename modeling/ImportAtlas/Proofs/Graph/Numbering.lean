import ImportAtlas.Proofs.Graph.Survey
import Mathlib.Data.List.Induction

/-! # Numbers count visits

A survey whose visits meet different entries gives each of them the next number, and makes a node
under the number of each source file.
-/

namespace ImportAtlas

/-- Whether a visited entry gets a node. -/
def Settings.MakesNode (settings : Settings) (visit : Visit) : Prop :=
  visit.isDirectory = false ∧ settings.isSource (visit.names.getLast?.getD [])

namespace Survey

/-- A survey after some visits: the entries are numbered from one in the order of the visits, and
the source files among them have nodes under their numbers. -/
structure HasVisited (survey : Survey) (visits : List Visit) : Prop where
  next : survey.numbering.next = visits.length + 1
  ids : survey.numbering.ids = (visits.zipIdx 1).map fun entry => (keyOf entry.1.names, entry.2)
  nodes (id : Id) : id ∈ survey.nodes.map (·.1) ↔
    ∃ visit, (visit, id) ∈ visits.zipIdx 1 ∧ survey.settings.MakesNode visit

namespace HasVisited

variable {survey : Survey} {visits : List Visit}

theorem keys (visited : survey.HasVisited visits) :
    survey.numbering.ids.map (·.1) = visits.map fun visit => keyOf visit.names := by
  rw [visited.ids, List.map_map]
  calc (visits.zipIdx 1).map (fun entry => keyOf entry.1.names)
    _ = ((visits.zipIdx 1).map Prod.fst).map fun visit => keyOf visit.names := by rw [List.map_map]; rfl
    _ = visits.map fun visit => keyOf visit.names := by rw [List.zipIdx_map_fst]

/-- An entry that was not met before gets the next number. -/
theorem number_of_new (visited : survey.HasVisited visits) {names : List Name}
    (new : keyOf names ∉ visits.map fun visit => keyOf visit.names) (level : Nat) :
    survey.numbering.number (keyOf names) level =
      (visits.length + 1, {
        next := visits.length + 2
        ids := survey.numbering.ids ++ [(keyOf names, visits.length + 1)]
        levels := survey.numbering.levels ++ [(visits.length + 1, level)] }) := by
  have unknown : survey.numbering.id? (keyOf names) = none := by
    rw [Numbering.id?, ← Option.not_isSome_iff_eq_none, Option.isSome_iff_exists, Table.exists_lookup_iff,
      visited.keys]
    exact new
  rw [Numbering.number, unknown, visited.next]

/-- One visit more, to an entry that was not met before. -/
theorem visit (visited : survey.HasVisited visits) {visit : Visit}
    (new : keyOf visit.names ∉ visits.map fun visit => keyOf visit.names) :
    (survey.visit visit).HasVisited (visits ++ [visit]) := by
  have number := visited.number_of_new new
  have entries : (visits ++ [visit]).zipIdx 1 = visits.zipIdx 1 ++ [(visit, visits.length + 1)] := by
    rw [List.zipIdx_append, List.zipIdx_singleton, Nat.add_comm]
  refine ⟨?_, ?_, ?_⟩
  · simp only [Survey.visit, number]
    split <;> simp
  · simp only [Survey.visit, number, entries, List.map_append, ← visited.ids]
    split <;> rfl
  · intro id
    rw [visit_settings, entries]
    simp only [List.mem_append, List.mem_singleton, or_and_right, exists_or, ← visited.nodes,
      Survey.visit, number]
    split
    case isTrue plain =>
      have noNode : ¬survey.settings.MakesNode visit := by
        rintro ⟨file, source⟩
        simp [file, source] at plain
      simp [noNode]
    case isFalse source =>
      have makesNode : survey.settings.MakesNode visit := by simpa [Settings.MakesNode] using source
      rw [Table.mem_putInOrder_keys, or_comm]
      simp [makesNode]

end HasVisited

theorem hasVisited_start (workspace : Workspace) : (start workspace).HasVisited [] where
  next := rfl
  ids := rfl
  nodes id := by simp [start]

/-- Visits to different entries leave no entry out. -/
theorem hasVisited_foldl (workspace : Workspace) {visits : List Visit}
    (different : (visits.map fun visit => keyOf visit.names).Nodup) :
    (visits.foldl Survey.visit (start workspace)).HasVisited visits := by
  induction visits using List.reverseRecOn with
  | nil => exact hasVisited_start workspace
  | append_singleton rest visit ih =>
    rw [List.map_append, List.nodup_append] at different
    rw [List.foldl_append]
    apply (ih different.1).visit
    intro member
    exact different.2.2 _ member _ List.mem_cons_self rfl

namespace HasVisited

variable {survey : Survey} {visits : List Visit}

/-- The number of an entry is its place among the visits. -/
theorem id?_eq_some_iff (visited : survey.HasVisited visits)
    (different : (visits.map fun visit => keyOf visit.names).Nodup) {key : String} {id : Id} :
    survey.numbering.id? key = some id ↔ ∃ visit, (visit, id) ∈ visits.zipIdx 1 ∧ keyOf visit.names = key := by
  have unique : Table.HasUniqueKeys survey.numbering.ids := by rwa [Table.HasUniqueKeys, visited.keys]
  rw [Numbering.id?, Table.lookup_eq_some_iff unique, visited.ids, List.mem_map]
  constructor
  · rintro ⟨⟨visit, _⟩, member, same⟩
    cases same
    exact ⟨visit, member, rfl⟩
  · rintro ⟨visit, member, rfl⟩
    exact ⟨_, member, rfl⟩

end HasVisited

end Survey

end ImportAtlas
