import ImportAtlas.Graph.Snapshot
import ImportAtlas.Proofs.Graph.Table
import ImportAtlas.Proofs.List.FirstPlaces

/-! # Numberings under requests

However keys are numbered and the numbering is asked in between, its numbers count the different keys in the
order in which they are first met. A key keeps its number and the level it was first met on, and numbering it
again changes nothing. So every answer can be read off the requests before it, and no later request takes it
back.
-/

namespace ImportAtlas.Numbering

/-- What a numbering is asked. -/
inductive Request where
  /-- The number of a key that is met on a level. -/
  | number (key : String) (level : Nat)
  | id? (key : String)
  | level? (id : Id)
  | size
  | isEmpty
  /-- The numbers of all keys, and the levels of all numbers. -/
  | tables
deriving DecidableEq, Repr

/-- What a numbering answers. -/
inductive Answer where
  | number (id : Id)
  | id? (id : Option Id)
  | level? (level : Option Nat)
  | size (count : Nat)
  | isEmpty (value : Bool)
  | tables (ids : List (String × Id)) (levels : List (Id × Nat))
deriving DecidableEq, Repr

/-- The answer to a request. -/
def answer (numbering : Numbering) : Request → Answer
  | .number key level => .number (numbering.number key level).1
  | .id? key => .id? (numbering.id? key)
  | .level? id => .level? (numbering.level? id)
  | .size => .size numbering.size
  | .isEmpty => .isEmpty numbering.isEmpty
  | .tables => .tables numbering.ids numbering.levels

/-- The numbering after a request. -/
def after (numbering : Numbering) : Request → Numbering
  | .number key level => (numbering.number key level).2
  | _ => numbering

/-- The numbering after some requests. -/
def afterAll (numbering : Numbering) (requests : List Request) : Numbering :=
  requests.foldl after numbering

/-- The answers to requests that come one after the other. -/
def answers (numbering : Numbering) : List Request → List Answer
  | [] => []
  | request :: rest => numbering.answer request :: (numbering.after request).answers rest

/-- The keys that requests number, each with the level it is met on, repetitions included. -/
def encounters (requests : List Request) : List (String × Nat) :=
  requests.filterMap fun
    | .number key level => some (key, level)
    | _ => none

/-- Whether tables hold what has been met: the keys in the order in which they were first met, numbered from
one, and under each number the level that its key was first met on. -/
structure Records (met : List (String × Nat)) (ids : List (String × Id)) (levels : List (Id × Nat)) : Prop where
  places : FirstPlaces (met.map (·.1)) (ids.map (·.1))
  numbers : ids.map (·.2) = List.range' 1 ids.length
  levelNumbers : levels.map (·.1) = ids.map (·.2)
  firstLevels : ∀ entry ∈ ids, levels.lookup entry.2 = met.lookup entry.1

/-- Whether an answer is right for a request. The keys of all requests come in `order`, and `met` tells which of
them were met before this request, and on which levels. -/
def IsRight (order : List String) (met : List (String × Nat)) : Request → Answer → Prop
  | .number key _, answer => ∃ place, order[place]? = some key ∧ answer = .number (place + 1)
  | .id? key, answer =>
    (∃ place, order[place]? = some key ∧ key ∈ met.map (·.1) ∧ answer = .id? (some (place + 1))) ∨
      key ∉ met.map (·.1) ∧ answer = .id? none
  | .level? id, answer =>
    (∃ place key level, order[place]? = some key ∧ id = place + 1 ∧ met.lookup key = some level ∧
        answer = .level? (some level)) ∨
      (∀ place key, order[place]? = some key → key ∈ met.map (·.1) → id ≠ place + 1) ∧ answer = .level? none
  | .size, answer => ∃ keys, FirstPlaces (met.map (·.1)) keys ∧ answer = .size keys.length
  | .isEmpty, answer => answer = .isEmpty met.isEmpty
  | .tables, answer => ∃ ids levels, Records met ids levels ∧ answer = .tables ids levels

variable {numbering : Numbering} {met : List (String × Nat)} {ids : List (String × Id)}
  {levels : List (Id × Nat)} {key : String} {id : Id}

/-! ## Tables -/

namespace Records

theorem nil : Records [] [] [] :=
  ⟨.nil, rfl, rfl, List.forall_mem_nil _⟩

theorem unique (records : Records met ids levels) : Table.HasUniqueKeys ids :=
  records.places.nodup

theorem mem_keys_iff (records : Records met ids levels) : key ∈ ids.map (·.1) ↔ key ∈ met.map (·.1) :=
  records.places.mem_iff key

theorem isEmpty_eq (records : Records met ids levels) : ids.isEmpty = met.isEmpty := by
  have same : ids.map (·.1) = [] ↔ met.map (·.1) = [] := by
    simp only [List.eq_nil_iff_forall_not_mem, records.mem_keys_iff]
  rwa [List.map_eq_nil_iff, List.map_eq_nil_iff, ← List.isEmpty_iff, ← List.isEmpty_iff, ← Bool.eq_iff_iff] at same

/-- The entry at a place has the number of the place, counted from one. -/
theorem mem_iff (records : Records met ids levels) :
    (key, id) ∈ ids ↔ ∃ place, (ids.map (·.1))[place]? = some key ∧ id = place + 1 := by
  have number (place : Nat) (entry : String × Id) (there : ids[place]? = some entry) : entry.2 = place + 1 := by
    have inside := (List.getElem?_eq_some_iff.mp there).1
    have counted : (ids.map (·.2))[place]? = some entry.2 := by rw [List.getElem?_map, there, Option.map_some]
    rw [records.numbers, List.getElem?_range' inside, Nat.one_mul, Nat.add_comm] at counted
    exact (Option.some.inj counted).symm
  rw [List.mem_iff_getElem?]
  constructor
  · rintro ⟨place, there⟩
    exact ⟨place, by rw [List.getElem?_map, there, Option.map_some], number place _ there⟩
  · rintro ⟨place, there, rfl⟩
    rw [List.getElem?_map, Option.map_eq_some_iff] at there
    obtain ⟨⟨_, other⟩, there, rfl⟩ := there
    exact ⟨place, by rw [there, ← number place _ there]⟩

/-- A key that was met before is recorded already. -/
theorem append_old (records : Records met ids levels) (old : key ∈ met.map (·.1)) (level : Nat) :
    Records (met ++ [(key, level)]) ids levels where
  places := by
    rw [List.map_append]
    exact records.places.append_old old
  numbers := records.numbers
  levelNumbers := records.levelNumbers
  firstLevels := by
    intro entry member
    have known : entry.1 ∈ met.map (·.1) := records.mem_keys_iff.mp (List.mem_map_of_mem member)
    obtain ⟨first, found⟩ := Table.exists_lookup_iff.mpr known
    rw [records.firstLevels entry member, List.lookup_append, found, Option.some_or]

/-- A new key gets the next number. -/
theorem append_new (records : Records met ids levels) (new : key ∉ met.map (·.1)) (level : Nat) :
    Records (met ++ [(key, level)]) (ids ++ [(key, ids.length + 1)]) (levels ++ [(ids.length + 1, level)]) where
  places := by
    rw [List.map_append, List.map_append]
    exact records.places.append_new new
  numbers := by
    rw [List.map_append, records.numbers, List.length_append, List.length_singleton, List.range'_1_concat,
      Nat.add_comm 1]
    rfl
  levelNumbers := by
    rw [List.map_append, List.map_append, records.levelNumbers]
    rfl
  firstLevels := by
    intro entry member
    rcases List.mem_append.mp member with old | last
    · have known : entry.1 ∈ met.map (·.1) := records.mem_keys_iff.mp (List.mem_map_of_mem old)
      obtain ⟨first, found⟩ := Table.exists_lookup_iff.mpr known
      rw [List.lookup_append, List.lookup_append, records.firstLevels entry old, found, Option.some_or,
        Option.some_or]
    · obtain rfl := List.mem_singleton.mp last
      have unmet : met.lookup key = none := Table.lookup_eq_none_iff.mpr new
      have unused : levels.lookup (ids.length + 1) = none := by
        rw [Table.lookup_eq_none_iff, records.levelNumbers, records.numbers, List.mem_range'_1]
        omega
      simp [List.lookup_append, unmet, unused]

end Records

/-! ## Requests -/

/-- A numbering after keys were met: its tables record them, and the next number is one more than there are. -/
structure HasMet (numbering : Numbering) (met : List (String × Nat)) : Prop where
  next : numbering.next = numbering.ids.length + 1
  records : Records met numbering.ids numbering.levels

theorem hasMet_empty : empty.HasMet [] :=
  ⟨rfl, .nil⟩

/-- A key that is numbered is met, has the number that was answered, and leaves all others their numbers. -/
theorem HasMet.number (hasMet : numbering.HasMet met) (key : String) (level : Nat) :
    (numbering.number key level).2.HasMet (met ++ [(key, level)]) ∧
      (key, (numbering.number key level).1) ∈ (numbering.number key level).2.ids ∧
      numbering.ids <+: (numbering.number key level).2.ids := by
  obtain ⟨next, records⟩ := hasMet
  rw [Numbering.number]
  cases known : numbering.id? key with
  | some id =>
    have recorded : (key, id) ∈ numbering.ids := (Table.lookup_eq_some_iff records.unique).mp known
    have old : key ∈ met.map (·.1) := records.mem_keys_iff.mp (List.mem_map_of_mem recorded)
    exact ⟨⟨next, records.append_old old level⟩, recorded, List.prefix_refl _⟩
  | none =>
    have new : key ∉ met.map (·.1) := mt records.mem_keys_iff.mpr (Table.lookup_eq_none_iff.mp known)
    refine ⟨⟨?_, ?_⟩, ?_, List.prefix_append _ _⟩
    · simp [next]
    · rw [next]
      exact records.append_new new level
    · exact List.mem_append_right _ (List.mem_singleton_self _)

theorem HasMet.after (hasMet : numbering.HasMet met) (request : Request) :
    (numbering.after request).HasMet (met ++ encounters [request]) ∧
      numbering.ids <+: (numbering.after request).ids := by
  cases request with
  | number key level =>
    obtain ⟨hasMet, -, kept⟩ := hasMet.number key level
    exact ⟨hasMet, kept⟩
  | _ => exact ⟨(List.append_nil met).symm ▸ hasMet, List.prefix_refl _⟩

/-- Whatever is asked, the numbering keeps what it has recorded. -/
theorem HasMet.afterAll (hasMet : numbering.HasMet met) (requests : List Request) :
    (numbering.afterAll requests).HasMet (met ++ encounters requests) ∧
      numbering.ids <+: (numbering.afterAll requests).ids := by
  induction requests generalizing numbering met with
  | nil => exact ⟨(List.append_nil met).symm ▸ hasMet, List.prefix_refl _⟩
  | cons request rest ih =>
    obtain ⟨hasMetOne, keptOne⟩ := hasMet.after request
    obtain ⟨hasMetAll, keptAll⟩ := ih hasMetOne
    have split : encounters (request :: rest) = encounters [request] ++ encounters rest :=
      List.filterMap_append (l := [request])
    rw [split, ← List.append_assoc]
    exact ⟨hasMetAll, keptOne.trans keptAll⟩

/-- Numbering a key again changes nothing. -/
theorem HasMet.number_of_old (hasMet : numbering.HasMet met) (old : key ∈ met.map (·.1)) (level : Nat) :
    (numbering.number key level).2 = numbering := by
  obtain ⟨id, known⟩ := Table.exists_lookup_iff.mpr (hasMet.records.mem_keys_iff.mpr old)
  have known : numbering.id? key = some id := known
  rw [Numbering.number, known]

theorem answers_append (numbering : Numbering) (before rest : List Request) :
    numbering.answers (before ++ rest) =
      numbering.answers before ++ (numbering.afterAll before).answers rest := by
  induction before generalizing numbering with
  | nil => rfl
  | cons request before ih =>
    rw [List.cons_append, answers, ih]
    rfl

theorem length_answers (numbering : Numbering) (requests : List Request) :
    (numbering.answers requests).length = requests.length := by
  induction requests generalizing numbering with
  | nil => rfl
  | cons request rest ih => rw [answers, List.length_cons, ih, List.length_cons]

/-- An answer is right if the numbers that it tells are kept. -/
theorem HasMet.isRight_answer (hasMet : numbering.HasMet met) (request : Request) {all : List (String × Id)}
    (unique : Table.HasUniqueKeys all) (kept : (numbering.after request).ids <+: all) :
    IsRight (all.map (·.1)) met request (numbering.answer request) := by
  have later {place : Nat} {key : String} (there : ((numbering.after request).ids.map (·.1))[place]? = some key) :
      (all.map (·.1))[place]? = some key := by
    obtain ⟨more, rfl⟩ := kept
    rw [List.map_append, List.getElem?_append_left (List.getElem?_eq_some_iff.mp there).1, there]
  have records := hasMet.records
  cases request with
  | number key level =>
    obtain ⟨⟨-, recordsAfter⟩, member, -⟩ := hasMet.number key level
    obtain ⟨place, there, number⟩ := recordsAfter.mem_iff.mp member
    exact ⟨place, later there, congrArg Answer.number number⟩
  | id? key =>
    cases known : numbering.id? key with
    | some id =>
      have recorded := (Table.lookup_eq_some_iff records.unique).mp known
      obtain ⟨place, there, rfl⟩ := records.mem_iff.mp recorded
      have old := records.mem_keys_iff.mp (List.mem_map_of_mem recorded)
      exact .inl ⟨place, later there, old, congrArg Answer.id? known⟩
    | none =>
      have new : key ∉ met.map (·.1) := mt records.mem_keys_iff.mpr (Table.lookup_eq_none_iff.mp known)
      exact .inr ⟨new, congrArg Answer.id? known⟩
  | level? id =>
    cases known : numbering.level? id with
    | some level =>
      have numbered : id ∈ numbering.ids.map (·.2) :=
        records.levelNumbers ▸ Table.exists_lookup_iff.mp ⟨level, known⟩
      obtain ⟨⟨key, _⟩, member, rfl⟩ := List.mem_map.mp numbered
      obtain ⟨place, there, number⟩ := records.mem_iff.mp member
      have first : met.lookup key = some level := (records.firstLevels _ member).symm.trans known
      exact .inl ⟨place, key, level, later there, number, first, congrArg Answer.level? known⟩
    | none =>
      refine .inr ⟨?_, congrArg Answer.level? known⟩
      rintro place key there old rfl
      -- The key has one place only, so its number is the one that was asked for.
      obtain ⟨⟨_, id⟩, member, rfl⟩ := List.mem_map.mp (records.mem_keys_iff.mpr old)
      obtain ⟨recordedPlace, recorded, rfl⟩ := records.mem_iff.mp member
      obtain rfl : recordedPlace = place :=
        (List.getElem?_inj (List.getElem?_eq_some_iff.mp (later recorded)).1 unique).mp
          ((later recorded).trans there.symm)
      obtain ⟨level, found⟩ := Table.exists_lookup_iff.mpr old
      cases known.symm.trans ((records.firstLevels _ member).trans found)
  | size => exact ⟨_, records.places, congrArg Answer.size (List.length_map _).symm⟩
  | isEmpty => exact congrArg Answer.isEmpty records.isEmpty_eq
  | tables => exact ⟨_, _, records, rfl⟩

/-- Every answer is right, whatever was asked before it and is asked after it. Here the keys that are numbered
come in one order for all requests, that in which they are first met; numbering a key again leaves the numbering
as it was; and as long as there are fewer keys than numbers to give, no number reaches the limit. -/
theorem answers_are_right (requests : List Request) :
    ∃ order, FirstPlaces ((encounters requests).map (·.1)) order ∧
      (empty.answers requests).length = requests.length ∧
      (∀ before request rest, requests = before ++ request :: rest →
        ∃ answer, (empty.answers requests)[before.length]? = some answer ∧
          IsRight order (encounters before) request answer) ∧
      (∀ before key level rest, requests = before ++ .number key level :: rest →
        key ∈ (encounters before).map (·.1) →
        empty.afterAll (before ++ [.number key level]) = empty.afterAll before) ∧
      (empty.afterAll requests).next = order.length + 1 ∧
      (order.length < idLimit - 1 → (empty.afterAll requests).next < idLimit ∧
        ∀ entry ∈ (empty.afterAll requests).ids, entry.2 < (empty.afterAll requests).next) := by
  have hasMet (requests : List Request) : (empty.afterAll requests).HasMet (encounters requests) :=
    (hasMet_empty.afterAll requests).1
  have records := (hasMet requests).records
  have next : (empty.afterAll requests).next = ((empty.afterAll requests).ids.map (·.1)).length + 1 := by
    rw [(hasMet requests).next, List.length_map]
  refine ⟨(empty.afterAll requests).ids.map (·.1), records.places, length_answers _ _, ?_, ?_, next, ?_⟩
  · rintro before request rest rfl
    have kept := ((hasMet before).after request).1.afterAll rest |>.2
    have whole : empty.afterAll (before ++ request :: rest) =
        ((empty.afterAll before).after request).afterAll rest := List.foldl_append
    refine ⟨(empty.afterAll before).answer request, ?_, ?_⟩
    · have atEnd := Nat.le_of_eq (length_answers empty before)
      rw [answers_append, List.getElem?_append_right atEnd, length_answers, Nat.sub_self]
      rfl
    · exact (hasMet before).isRight_answer request records.unique (whole ▸ kept)
  · rintro before key level rest rfl old
    rw [afterAll, List.foldl_concat, ← afterAll]
    exact (hasMet before).number_of_old old level
  · intro few
    rw [next]
    refine ⟨Nat.add_lt_of_lt_sub few, ?_⟩
    rintro ⟨key, id⟩ member
    obtain ⟨place, there, rfl⟩ := records.mem_iff.mp member
    exact Nat.succ_lt_succ (List.getElem?_eq_some_iff.mp there).1

-- A key that is met again on another level keeps its number and its level.
example :
    empty.answers [.isEmpty, .number "b" 3, .id? "a", .number "a" 0, .number "b" 1, .level? 1, .level? 3, .tables] =
      [.isEmpty true, .number 1, .id? none, .number 2, .number 1, .level? (some 3), .level? none,
        .tables [("b", 1), ("a", 2)] [(1, 3), (2, 0)]] := by
  decide

end ImportAtlas.Numbering
