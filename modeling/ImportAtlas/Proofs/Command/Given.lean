import ImportAtlas.Command.Arguments
import Mathlib.Data.List.Nodup

/-! # What is given

After a subcommand, options and an operand are given one after the other, and a draft takes each of them for its
slot. What is given for a slot that is taken already is refused, and nothing else is. A draft remembers exactly
what it has taken, so it does not matter in which order that was.
-/

namespace ImportAtlas.Command

/-- An option, with the path that it calls for, or an operand. -/
inductive Given where
  | flag (choice : Choice)
  | valued (choice : Choice) (path : Argument)
  | operand (path : Argument)
deriving DecidableEq, Repr

/-- What is given once at most: each of the options, and an operand. -/
abbrev Slot := Option Choice

namespace Given

def slot : Given → Slot
  | flag choice => some choice
  | valued choice _ => some choice
  | operand _ => none

/-- Whether something can be given as it is. -/
def IsSound : Given → Prop
  | flag choice => choice = .verbose ∨ choice = .image
  | valued choice path => choice.takesPath = true ∧ path ≠ []
  | operand path => path ≠ []

end Given

namespace Draft

/-- Takes one thing more. -/
def take (draft : Draft) : Given → Except Refusal Draft
  | .flag choice => draft.raise choice
  | .valued choice path => draft.set choice path
  | .operand path => draft.setOperand path

/-- What a draft has taken for a slot. -/
def taken? (draft : Draft) : Slot → Option Given
  | some .verbose => if draft.verbose then some (.flag .verbose) else none
  | some .image => if draft.image then some (.flag .image) else none
  | some .output => draft.output.map (.valued .output ·.chars)
  | some .settings => draft.settings.map (.valued .settings ·.chars)
  | some _ => none
  | none => draft.operand.map (.operand ·.chars)

def slots : List Slot :=
  [some .verbose, some .image, some .output, some .settings, none]

/-- What a draft has taken. -/
def givens (draft : Draft) : List Given :=
  slots.filterMap draft.taken?

/-- The draft with one thing more. -/
def adding (draft : Draft) : Given → Draft
  | .flag .verbose => { draft with verbose := true }
  | .flag .image => { draft with image := true }
  | .valued .output path => { draft with output := some ⟨path⟩ }
  | .valued .settings path => { draft with settings := some ⟨path⟩ }
  | .operand path => { draft with operand := some ⟨path⟩ }
  | _ => draft

@[simp]
theorem givens_empty : empty.givens = [] :=
  rfl

/-! ## What a draft remembers -/

section Memory

variable {draft other : Draft} {slot : Slot} {given : Given}

theorem slot_of_taken? (isTaken : draft.taken? slot = some given) : given.slot = slot := by
  rcases slot with _ | choice
  · obtain ⟨path, -, rfl⟩ := Option.map_eq_some_iff.mp isTaken
    rfl
  · cases choice
    case verbose => cases (Option.ite_none_right_eq_some.mp isTaken).2; rfl
    case image => cases (Option.ite_none_right_eq_some.mp isTaken).2; rfl
    case output =>
      obtain ⟨path, -, rfl⟩ := Option.map_eq_some_iff.mp isTaken
      rfl
    case settings =>
      obtain ⟨path, -, rfl⟩ := Option.map_eq_some_iff.mp isTaken
      rfl
    all_goals cases isTaken

theorem mem_slots_of_taken? (isTaken : draft.taken? slot = some given) : slot ∈ slots := by
  rcases slot with _ | choice
  · decide
  · cases choice
    case help => cases isTaken
    case version => cases isTaken
    all_goals decide

theorem mem_givens : given ∈ draft.givens ↔ draft.taken? given.slot = some given := by
  rw [givens, List.mem_filterMap]
  constructor
  · rintro ⟨slot, -, isTaken⟩
    rwa [slot_of_taken? isTaken]
  · intro isTaken
    exact ⟨given.slot, mem_slots_of_taken? isTaken, isTaken⟩

theorem slot_mem_givens : slot ∈ draft.givens.map Given.slot ↔ (draft.taken? slot).isSome = true := by
  rw [List.mem_map, Option.isSome_iff_exists]
  constructor
  · rintro ⟨given, member, rfl⟩
    exact ⟨given, mem_givens.mp member⟩
  · rintro ⟨given, isTaken⟩
    obtain rfl := slot_of_taken? isTaken
    exact ⟨given, mem_givens.mpr isTaken, rfl⟩

/-- No slot of a draft is taken twice. -/
theorem nodup_slots (draft : Draft) : (draft.givens.map Given.slot).Nodup := by
  have nodup : draft.givens.Nodup := by
    apply List.Nodup.filterMap _ (by decide)
    intro slot other given here there
    exact (slot_of_taken? here).symm.trans (slot_of_taken? there)
  apply nodup.map_on
  intro given member other otherMember same
  have isTaken := mem_givens.mp member
  rw [same, mem_givens.mp otherMember] at isTaken
  exact (Option.some.inj isTaken).symm

/-- Drafts that have taken the same are the same. -/
theorem eq_of_perm (same : draft.givens.Perm other.givens) : draft = other := by
  have taken (slot : Slot) : draft.taken? slot = other.taken? slot := by
    apply Option.ext
    intro given
    constructor
    · intro isTaken
      obtain rfl := slot_of_taken? isTaken
      exact mem_givens.mp (same.subset (mem_givens.mpr isTaken))
    · intro isTaken
      obtain rfl := slot_of_taken? isTaken
      exact mem_givens.mp (same.symm.subset (mem_givens.mpr isTaken))
  have flags {first second : Bool} {given : Given}
      (same : (if first then some given else none) = if second then some given else none) : first = second := by
    cases first <;> cases second <;> first | rfl | cases same
  have paths {first second : Option Path} {make : Argument → Given} (injective : Function.Injective make)
      (same : first.map (make ·.chars) = second.map (make ·.chars)) : first = second := by
    apply Option.map_injective _ same
    rintro ⟨_⟩ ⟨_⟩ equal
    exact congrArg Path.mk (injective equal)
  cases draft
  cases other
  congr
  · exact flags (taken (some .verbose))
  · exact flags (taken (some .image))
  · exact paths (fun _ _ => by rintro ⟨⟩; rfl) (taken (some .output))
  · exact paths (fun _ _ => by rintro ⟨⟩; rfl) (taken (some .settings))
  · exact paths (fun _ _ => by rintro ⟨⟩; rfl) (taken none)

end Memory

/-! ## Taking one thing after the other -/

section Taking

variable {given : Given} (sound : given.IsSound) (draft : Draft)

include sound

/-- A slot that is free is filled, and one that is taken is not. -/
theorem take_eq :
    draft.take given = if (draft.taken? given.slot).isSome then .error .usage else .ok (draft.adding given) := by
  obtain ⟨verbose, image, output, settings, operand⟩ := draft
  cases given with
  | flag choice => rcases sound with rfl | rfl <;> cases verbose <;> cases image <;> rfl
  | valued choice path =>
    obtain ⟨takesPath, nonempty⟩ := sound
    cases choice
    case output => cases output <;> simp [take, set, fill?, nonempty, taken?, Given.slot, adding]
    case settings => cases settings <;> simp [take, set, fill?, nonempty, taken?, Given.slot, adding]
    all_goals cases takesPath
  | operand path =>
    have nonempty : path ≠ [] := sound
    cases operand <;> simp [take, setOperand, fill?, nonempty, taken?, Given.slot, adding]

theorem taken?_adding (slot : Slot) :
    (draft.adding given).taken? slot = if slot = given.slot then some given else draft.taken? slot := by
  cases given with
  | flag choice => rcases sound with rfl | rfl <;> rcases slot with _ | ⟨⟨⟩⟩ <;> rfl
  | valued choice path =>
    obtain ⟨takesPath, -⟩ := sound
    cases choice
    case output => rcases slot with _ | ⟨⟨⟩⟩ <;> rfl
    case settings => rcases slot with _ | ⟨⟨⟩⟩ <;> rfl
    all_goals cases takesPath
  | operand path => rcases slot with _ | ⟨⟨⟩⟩ <;> rfl

theorem givens_adding (free : draft.taken? given.slot = none) :
    (draft.adding given).givens.Perm (given :: draft.givens) := by
  have isNew : given ∉ draft.givens := by
    rw [mem_givens, free]
    simp
  have nodup : (given :: draft.givens).Nodup := List.nodup_cons.mpr ⟨isNew, List.Nodup.of_map _ draft.nodup_slots⟩
  rw [List.perm_ext_iff_of_nodup (List.Nodup.of_map _ (draft.adding given).nodup_slots) nodup]
  intro found
  rw [List.mem_cons, mem_givens, mem_givens, taken?_adding sound]
  split
  case isTrue same =>
    rw [same, free]
    simp [eq_comm]
  case isFalse differs =>
    have other : found ≠ given := fun same => differs (congrArg Given.slot same)
    simp [other]

end Taking

/-- All that is given is taken, in any order, unless there are two things for one slot. -/
theorem foldlM_take {givens : List Given} (sound : ∀ given ∈ givens, given.IsSound) (draft : Draft) :
    (((draft.givens ++ givens).map Given.slot).Nodup →
      ∃ after, givens.foldlM take draft = .ok after ∧ after.givens.Perm (draft.givens ++ givens)) ∧
    (¬((draft.givens ++ givens).map Given.slot).Nodup → givens.foldlM take draft = .error .usage) := by
  induction givens generalizing draft with
  | nil =>
    rw [List.append_nil]
    exact ⟨fun _ => ⟨draft, rfl, .refl _⟩, fun repeats => absurd draft.nodup_slots repeats⟩
  | cons given givens ih =>
    obtain ⟨here, later⟩ := List.forall_mem_cons.mp sound
    rw [List.foldlM_cons, take_eq here]
    cases isTaken : draft.taken? given.slot with
    | none =>
      have next := (givens_adding here draft isTaken).append_right givens
      have all : ((draft.adding given).givens ++ givens).Perm (draft.givens ++ given :: givens) :=
        next.trans List.perm_middle.symm
      rw [← (all.map Given.slot).nodup_iff]
      obtain ⟨succeeds, fails⟩ := ih later (draft.adding given)
      refine ⟨fun nodup => ?_, fails⟩
      obtain ⟨after, success, same⟩ := succeeds nodup
      exact ⟨after, success, same.trans all⟩
    | some other =>
      have repeats : ¬((draft.givens ++ given :: givens).map Given.slot).Nodup := by
        intro nodup
        rw [List.map_append, List.nodup_append] at nodup
        have member : given.slot ∈ draft.givens.map Given.slot := by
          rw [slot_mem_givens, isTaken]
          rfl
        exact nodup.2.2 _ member _ List.mem_cons_self rfl
      exact ⟨fun nodup => absurd nodup repeats, fun _ => rfl⟩

end Draft

end ImportAtlas.Command
