import ImportAtlas.Proofs.Command.Given
import ImportAtlas.Proofs.List.Starts

/-! # Spellings of a command line

What is given can be spelled in several ways: the option for more log lines by its word or its letter, the path of
an option after its word or its letter, with letters put together, and an operand among the options or after two
hyphens. A `Line` is a command line that is made in such ways, with what follows the subcommand in any order. It
is understood as what it gives, whatever its spelling, and refused if it gives something twice.
-/

namespace ImportAtlas.Command

/-! ## Lines -/

/-- A way to ask for more log lines. -/
inductive Loudness where
  | word
  /-- The letter once and some more times. -/
  | letters (more : Nat)
deriving DecidableEq, Repr

namespace Loudness

def argument : Loudness → Argument
  | word => '-' :: '-' :: Choice.verbose.word.toList
  | letters more => '-' :: List.replicate (more + 1) 'v'

/-- How often more log lines are asked for. -/
def count : Loudness → Nat
  | word => 1
  | letters more => more + 1

end Loudness

/-- A way to give an option and its path. The letter of an option can follow that for more log lines, which then
is there some times. -/
inductive Style where
  /-- The word, and the path as the next argument. -/
  | word
  /-- The word, an equals sign and the path. -/
  | wordEquals
  /-- The letter, and the path as the next argument. -/
  | letter (louder : Nat)
  /-- The letter, an equals sign and the path. -/
  | letterEquals (louder : Nat)
  /-- The letter and the path. -/
  | letterJoined (louder : Nat)
deriving DecidableEq, Repr

namespace Style

/-- The letters of an option with those before it. -/
def letters (louder : Nat) (choice : Choice) : List Char :=
  List.replicate louder 'v' ++ choice.letter?.toList

def arguments (choice : Choice) (path : Argument) : Style → List Argument
  | word => ['-' :: '-' :: choice.word.toList, path]
  | wordEquals => ['-' :: '-' :: (choice.word.toList ++ '=' :: path)]
  | letter louder => ['-' :: letters louder choice, path]
  | letterEquals louder => ['-' :: (letters louder choice ++ '=' :: path)]
  | letterJoined louder => ['-' :: (letters louder choice ++ path)]

/-- How often a way to give an option asks for more log lines. -/
def louder : Style → Nat
  | word | wordEquals => 0
  | letter louder | letterEquals louder | letterJoined louder => louder

end Style

/-- What is put after a subcommand. -/
inductive Item where
  | louder (loudness : Loudness)
  | image
  | valued (style : Style) (choice : Choice) (path : Argument)
  | operand (path : Argument)
deriving DecidableEq, Repr

/-- A path that is not taken for an option where it stands alone. -/
def IsValue (path : Argument) : Prop :=
  path ≠ [] ∧ path.head? ≠ some '-'

instance : DecidablePred IsValue := fun path =>
  inferInstanceAs (Decidable (path ≠ [] ∧ path.head? ≠ some '-'))

namespace Item

def arguments : Item → List Argument
  | louder loudness => [loudness.argument]
  | image => ['-' :: '-' :: Choice.image.word.toList]
  | valued style choice path => style.arguments choice path
  | operand path => [path]

/-- What an item gives. -/
def givens : Item → List Given
  | louder loudness => List.replicate loudness.count (.flag .verbose)
  | image => [.flag .image]
  | valued style choice path => List.replicate style.louder (.flag .verbose) ++ [.valued choice path]
  | operand path => [.operand path]

/-- Whether an item may follow a subcommand. -/
def IsSound (action : Action) : Item → Prop
  | louder _ => True
  | image => .image ∈ action.choices
  | valued style choice path => choice.takesPath = true ∧ choice ∈ action.choices ∧ IsValue path ∧
      (style = .letterJoined style.louder → path.head? ≠ some '=')
  | operand path => IsValue path

instance (action : Action) : DecidablePred (IsSound action)
  | louder _ => inferInstanceAs (Decidable True)
  | image => inferInstanceAs (Decidable (.image ∈ action.choices))
  | valued style choice path => inferInstanceAs (Decidable (choice.takesPath = true ∧ choice ∈ action.choices ∧
      IsValue path ∧ (style = .letterJoined style.louder → path.head? ≠ some '=')))
  | operand path => inferInstanceAs (Decidable (IsValue path))

end Item

/-- A command line with a subcommand. -/
structure Line where
  /-- How more log lines are asked for before the subcommand. -/
  before : List Loudness
  action : Action
  items : List Item
  /-- The operands after two hyphens, if there are two hyphens. -/
  operands : Option (List Argument)
deriving DecidableEq, Repr

namespace Line

/-- The arguments after the items. -/
def ending (line : Line) : List Argument :=
  match line.operands with
  | none => []
  | some operands => ['-', '-'] :: operands

def arguments (line : Line) : List Argument :=
  line.before.map Loudness.argument ++
    line.action.word.toList :: (line.items.flatMap Item.arguments ++ line.ending)

/-- How often more log lines are asked for before the subcommand. -/
def loudness (line : Line) : Nat :=
  line.before.foldr (·.count + ·) 0

/-- What a line gives after the subcommand. -/
def givens (line : Line) : List Given :=
  line.items.flatMap Item.givens ++ (line.operands.getD []).map .operand

structure IsSound (line : Line) : Prop where
  items : ∀ item ∈ line.items, item.IsSound line.action
  operands : ∀ path ∈ line.operands.getD [], path ≠ []

/-- Whether a line asks for more log lines before the subcommand or not, and gives what a draft has taken. -/
structure Spells (line : Line) (early : Bool) (draft : Draft) : Prop where
  early : line.loudness = early.toNat
  given : line.givens.Perm draft.givens

/-- Whether a line asks for more log lines several times before the subcommand, or gives several things for one
slot after it. -/
def Repeats (line : Line) : Prop :=
  2 ≤ line.loudness ∨ ¬(line.givens.map Given.slot).Nodup

end Line

/-! ## Words and letters -/

section Lookup

variable {choices : List Choice} {choice : Choice}

theorem word_injective {other : Choice} (same : choice.word.toList = other.word.toList) : choice = other := by
  revert same
  cases choice <;> cases other <;> decide

theorem letter_injective {letter : Char} {other : Choice} (here : choice.letter? = some letter)
    (there : other.letter? = some letter) : choice = other := by
  rw [← there] at here
  revert here
  cases choice <;> cases other <;> decide

theorem ofWord?_word (member : choice ∈ choices) : Choice.ofWord? choices choice.word.toList = some choice := by
  cases found : Choice.ofWord? choices choice.word.toList with
  | none =>
    rw [Choice.ofWord?, List.find?_eq_none] at found
    exact absurd (beq_self_eq_true _) (found choice member)
  | some other =>
    rw [Choice.ofWord?] at found
    have isWord := List.find?_some found
    rw [word_injective (eq_of_beq isWord)]

theorem ofLetter?_letter (member : choice ∈ choices) {letter : Char} (isLetter : choice.letter? = some letter) :
    Choice.ofLetter? choices letter = some choice := by
  cases found : Choice.ofLetter? choices letter with
  | none =>
    rw [Choice.ofLetter?, List.find?_eq_none] at found
    exact absurd (beq_iff_eq.mpr isLetter) (found choice member)
  | some other =>
    rw [Choice.ofLetter?] at found
    have isOther := List.find?_some found
    rw [letter_injective (eq_of_beq isOther) isLetter]

theorem exists_letter (takesPath : choice.takesPath = true) : ∃ letter, choice.letter? = some letter := by
  cases choice <;> first | exact ⟨_, rfl⟩ | cases takesPath

theorem noEquals_word (choice : Choice) : ∀ c ∈ choice.word.toList, (c != '=') = true := by
  rw [← List.all_eq_true]
  cases choice <;> decide

theorem word_ne_nil (choice : Choice) : choice.word.toList ≠ [] := by
  cases choice <;> decide

theorem verbose_mem_choices (action : Action) : .verbose ∈ action.choices := by
  cases action <;> decide

end Lookup

/-! ## Reading what an item is spelled as -/

private theorem map_eq_bind {α β : Type} (f : α → β) (result : Except Refusal α) :
    result.map f = result >>= fun value => pure (f value) := by
  cases result <;> rfl

section Reading

variable {choices : List Choice} {choice : Choice} (draft : Draft)

theorem readWord_word (member : choice ∈ choices) : draft.readWord choices choice.word.toList =
    if choice.takesPath then .ok (draft, .pathOf choice) else (draft.raise choice).map (·, .anything) := by
  have noMore : ∀ c ∈ ([] : List Char).head?, (c != '=') = false := by simp
  have word := takeWhile_append_stop (noEquals_word choice) noMore
  have after := dropWhile_append_stop (noEquals_word choice) noMore
  rw [List.append_nil] at word after
  rw [Draft.readWord, word, after, ofWord?_word member]

theorem readWord_equals (member : choice ∈ choices) (takesPath : choice.takesPath = true) (path : Argument) :
    draft.readWord choices (choice.word.toList ++ '=' :: path) = (draft.set choice path).map (·, .anything) := by
  have equals : ∀ c ∈ ('=' :: path).head?, (c != '=') = false := by simp
  rw [Draft.readWord, takeWhile_append_stop (noEquals_word choice) equals,
    dropWhile_append_stop (noEquals_word choice) equals, ofWord?_word member]
  simp only [takesPath, if_true]

/-- Letters for more log lines are taken, and reading goes on after them. -/
theorem readLetters_replicate (member : .verbose ∈ choices) (count : Nat) (rest : List Char) :
    draft.readLetters choices (List.replicate count 'v' ++ rest) =
      (List.replicate count (.flag .verbose)).foldlM Draft.take draft >>= fun draft =>
        draft.readLetters choices rest := by
  induction count generalizing draft with
  | zero => rfl
  | succ count ih =>
    rw [List.replicate_succ, List.replicate_succ, List.cons_append, Draft.readLetters, ofLetter?_letter member rfl,
      List.foldlM_cons]
    dsimp only
    rw [if_neg (by decide), Draft.take]
    cases draft.raise .verbose with
    | error refusal => rfl
    | ok draft => exact ih draft

section Letter

variable (member : choice ∈ choices) (takesPath : choice.takesPath = true)

include member takesPath

theorem readLetters_alone :
    draft.readLetters choices choice.letter?.toList = pure (draft, .pathOf choice) := by
  obtain ⟨letter, isLetter⟩ := exists_letter takesPath
  simp only [isLetter, Option.toList_some, Draft.readLetters, ofLetter?_letter member isLetter, takesPath, if_true]
  rfl

theorem readLetters_equals (path : Argument) :
    draft.readLetters choices (choice.letter?.toList ++ '=' :: path) = (draft.set choice path).map (·, .anything) := by
  obtain ⟨letter, isLetter⟩ := exists_letter takesPath
  simp only [isLetter, Option.toList_some, List.singleton_append, Draft.readLetters, ofLetter?_letter member isLetter,
    takesPath, if_true]

theorem readLetters_joined {path : Argument} (nonempty : path ≠ []) (noEquals : path.head? ≠ some '=') :
    draft.readLetters choices (choice.letter?.toList ++ path) = (draft.set choice path).map (·, .anything) := by
  obtain ⟨letter, isLetter⟩ := exists_letter takesPath
  simp only [isLetter, Option.toList_some, List.singleton_append, Draft.readLetters, ofLetter?_letter member isLetter,
    takesPath, if_true]
  split
  case h_1 => exact absurd rfl nonempty
  case h_2 => exact absurd rfl noEquals
  case h_3 => rfl

end Letter

end Reading

/-! ## Steps -/

section Steps

variable {choices : List Choice} (draft : Draft)

theorem step_word {text : List Char} (nonempty : text ≠ []) :
    step choices (draft, .anything) ('-' :: '-' :: text) = draft.readWord choices text := by
  obtain ⟨c, text, rfl⟩ := List.exists_cons_of_ne_nil nonempty
  rfl

theorem step_letters {letters : List Char} (nonempty : letters ≠ []) (noHyphen : letters.head? ≠ some '-') :
    step choices (draft, .anything) ('-' :: letters) = draft.readLetters choices letters := by
  obtain ⟨c, letters, rfl⟩ := List.exists_cons_of_ne_nil nonempty
  have differs : c ≠ '-' := fun same => noHyphen (congrArg some same)
  simp [step, isOption, readOption, differs]

theorem isOption_of_isValue {path : Argument} (isValue : IsValue path) : isOption path = false := by
  rw [isOption, beq_eq_false_iff_ne.mpr isValue.2, Bool.false_and]

theorem step_operand {path : Argument} (isValue : IsValue path) :
    step choices (draft, .anything) path = (draft.setOperand path).map (·, .anything) := by
  have notHyphens : path ≠ ['-', '-'] := by
    rintro rfl
    exact isValue.2 rfl
  rw [step, if_neg notHyphens, isOption_of_isValue isValue]
  rfl

theorem step_pathOf {path : Argument} (isValue : IsValue path) (choice : Choice) :
    step choices (draft, .pathOf choice) path = (draft.set choice path).map (·, .anything) := by
  rw [step, isOption_of_isValue isValue]
  rfl

/-- An argument that asks for more log lines is taken, before a subcommand as after it. -/
theorem readOption_loudness (member : .verbose ∈ choices) (loudness : Loudness) :
    readOption draft choices loudness.argument =
      ((List.replicate loudness.count (.flag .verbose)).foldlM Draft.take draft).map (·, .anything) := by
  cases loudness with
  | word =>
    have word := readWord_word draft member
    rw [if_neg (by decide)] at word
    rw [Loudness.argument, readOption, word, Loudness.count, List.replicate_one, List.foldlM_cons]
    simp only [List.foldlM_nil, bind_pure, Draft.take]
  | letters more =>
    have letters := readLetters_replicate draft member (more + 1) []
    rw [List.append_nil] at letters
    have isLetters : readOption draft choices (Loudness.letters more).argument =
        draft.readLetters choices (List.replicate (more + 1) 'v') := rfl
    rw [isLetters, letters, Loudness.count]
    cases (List.replicate (more + 1) (Given.flag .verbose)).foldlM Draft.take draft <;> rfl

theorem step_loudness (member : .verbose ∈ choices) (loudness : Loudness) :
    step choices (draft, .anything) loudness.argument =
      ((List.replicate loudness.count (.flag .verbose)).foldlM Draft.take draft).map (·, .anything) := by
  rw [← readOption_loudness draft member]
  cases loudness <;> rfl

/-- The letters before that of an option are taken, and then the option is read. -/
theorem step_letters_append {choice : Choice} (takesPath : choice.takesPath = true) (member : .verbose ∈ choices)
    (louder : Nat) (rest : List Char) :
    step choices (draft, .anything) ('-' :: (Style.letters louder choice ++ rest)) =
      (List.replicate louder (.flag .verbose)).foldlM Draft.take draft >>= fun draft =>
        draft.readLetters choices (choice.letter?.toList ++ rest) := by
  have notEmpty : Style.letters louder choice ++ rest ≠ [] ∧
      (Style.letters louder choice ++ rest).head? ≠ some '-' := by
    cases louder with
    | zero =>
      cases choice
      case output => exact ⟨List.cons_ne_nil _ _, by simp [Style.letters, Choice.letter?]⟩
      case settings => exact ⟨List.cons_ne_nil _ _, by simp [Style.letters, Choice.letter?]⟩
      all_goals cases takesPath
    | succ louder => exact ⟨List.cons_ne_nil _ _, by simp [Style.letters, List.replicate_succ]⟩
  rw [step_letters draft notEmpty.1 notEmpty.2, Style.letters, List.append_assoc, readLetters_replicate draft member]

end Steps

/-! ## Items -/

section Items

variable {action : Action} {item : Item} (sound : item.IsSound action) (draft : Draft)

include sound

/-- The arguments of an item have what it gives taken. -/
theorem foldlM_step_arguments : item.arguments.foldlM (step action.choices) (draft, .anything) =
    (item.givens.foldlM Draft.take draft).map (·, .anything) := by
  have verbose := verbose_mem_choices action
  cases item with
  | louder loudness =>
    simp only [Item.arguments, Item.givens, List.foldlM_cons, List.foldlM_nil, bind_pure, step_loudness _ verbose]
  | image =>
    have image (draft : Draft) : draft.readWord action.choices Choice.image.word.toList =
        (draft.raise .image).map (·, .anything) := by
      rw [readWord_word draft sound, if_neg (by decide)]
    simp only [Item.arguments, Item.givens, List.foldlM_cons, List.foldlM_nil, bind_pure, Draft.take,
      step_word _ (word_ne_nil .image), image]
  | valued style choice path =>
    obtain ⟨takesPath, member, isValue, noEquals⟩ := sound
    simp only [Item.arguments, Item.givens, List.foldlM_append, List.foldlM_cons, List.foldlM_nil, bind_pure,
      Draft.take, map_eq_bind]
    cases style with
    | word =>
      have word : step action.choices (draft, .anything) ('-' :: '-' :: choice.word.toList) =
          pure (draft, .pathOf choice) := by
        rw [step_word draft (word_ne_nil choice), readWord_word draft member, if_pos takesPath]
        rfl
      simp only [Style.arguments, Style.louder, List.replicate_zero, List.foldlM_cons, List.foldlM_nil, word, pure_bind,
        step_pathOf _ isValue, bind_pure, map_eq_bind]
    | wordEquals =>
      have nonempty : choice.word.toList ++ '=' :: path ≠ [] := by simp
      simp only [Style.arguments, Style.louder, List.replicate_zero, List.foldlM_cons, List.foldlM_nil,
        step_word _ nonempty, readWord_equals _ member takesPath, pure_bind, bind_pure, map_eq_bind]
    | letter louder =>
      have letters := step_letters_append draft takesPath verbose louder []
      rw [List.append_nil, List.append_nil] at letters
      simp only [Style.arguments, Style.louder, List.foldlM_cons, List.foldlM_nil, letters,
        readLetters_alone _ member takesPath, step_pathOf _ isValue, bind_assoc, pure_bind, bind_pure, map_eq_bind]
    | letterEquals louder =>
      simp only [Style.arguments, Style.louder, List.foldlM_cons, List.foldlM_nil,
        step_letters_append _ takesPath verbose, readLetters_equals _ member takesPath, bind_assoc, bind_pure,
        map_eq_bind]
    | letterJoined louder =>
      simp only [Style.arguments, Style.louder, List.foldlM_cons, List.foldlM_nil,
        step_letters_append _ takesPath verbose, readLetters_joined _ member takesPath isValue.1 (noEquals rfl),
        bind_assoc, bind_pure, map_eq_bind]
  | operand path =>
    simp only [Item.arguments, Item.givens, List.foldlM_cons, List.foldlM_nil, bind_pure, Draft.take,
      step_operand _ sound]

end Items

theorem foldlM_step_flatMap {action : Action} {items : List Item} (sound : ∀ item ∈ items, item.IsSound action)
    (draft : Draft) : (items.flatMap Item.arguments).foldlM (step action.choices) (draft, .anything) =
      ((items.flatMap Item.givens).foldlM Draft.take draft).map (·, .anything) := by
  induction items generalizing draft with
  | nil => rfl
  | cons item items ih =>
    obtain ⟨here, later⟩ := List.forall_mem_cons.mp sound
    rw [List.flatMap_cons, List.flatMap_cons, List.foldlM_append, List.foldlM_append, foldlM_step_arguments here]
    cases item.givens.foldlM Draft.take draft with
    | error refusal => rfl
    | ok draft => exact ih later draft

/-- After two hyphens everything is an operand. -/
theorem foldlM_step_operands (choices : List Choice) (operands : List Argument) (draft : Draft) :
    operands.foldlM (step choices) (draft, .operand) =
      ((operands.map Given.operand).foldlM Draft.take draft).map (·, .operand) := by
  induction operands generalizing draft with
  | nil => rfl
  | cons path operands ih =>
    rw [List.map_cons, List.foldlM_cons, List.foldlM_cons, step, Draft.take]
    cases draft.setOperand path with
    | error refusal => rfl
    | ok draft => exact ih draft

theorem Item.IsSound.of_mem_givens {action : Action} {item : Item} (sound : item.IsSound action) {given : Given}
    (member : given ∈ item.givens) : given.IsSound := by
  cases item with
  | louder loudness =>
    rw [List.eq_of_mem_replicate member]
    exact .inl rfl
  | image =>
    rw [List.mem_singleton.mp member]
    exact .inr rfl
  | valued style choice path =>
    obtain ⟨takesPath, -, isValue, -⟩ := sound
    rcases List.mem_append.mp member with louder | here
    · rw [List.eq_of_mem_replicate louder]
      exact .inl rfl
    · rw [List.mem_singleton.mp here]
      exact ⟨takesPath, isValue.1⟩
  | operand path =>
    rw [List.mem_singleton.mp member]
    exact sound.1

/-! ## The whole line -/

theorem ofArgument?_word (action : Action) : Action.ofArgument? action.word.toList = some action := by
  cases action <;> decide

theorem ofArgument?_hyphen (text : List Char) : Action.ofArgument? ('-' :: text) = none := by
  rw [Action.ofArgument?, List.find?_eq_none]
  intro action _ same
  have first : action.word.toList.head? = some '-' := congrArg List.head? (eq_of_beq same)
  revert first
  cases action <;> decide

theorem readFrom_loudness (draft : Draft) (loudness : Loudness) (arguments : List Argument) :
    readFrom draft (loudness.argument :: arguments) =
      (List.replicate loudness.count (.flag .verbose)).foldlM Draft.take draft >>= fun draft =>
        readFrom draft arguments := by
  obtain ⟨text, isHyphen⟩ : ∃ text, loudness.argument = '-' :: text := by cases loudness <;> exact ⟨_, rfl⟩
  have noAction : Action.ofArgument? loudness.argument = none := by rw [isHyphen, ofArgument?_hyphen]
  have noHelp : loudness.argument ≠ helpWord := by
    rw [isHyphen]
    intro same
    have first : some '-' = helpWord.head? := congrArg List.head? same
    revert first
    decide
  have option : isOption loudness.argument = true := by cases loudness <;> rfl
  rw [readFrom, noAction]
  dsimp only
  rw [if_neg noHelp, option, readOption_loudness draft (by decide)]
  cases (List.replicate loudness.count (Given.flag .verbose)).foldlM Draft.take draft <;> rfl

/-- Where no option waits for its path at the end, the draft is what was read. -/
theorem readAfter_of_foldlM {choices : List Choice} {arguments : List Argument} {result : Except Refusal Draft}
    {expected : Expected} (complete : ∀ choice, expected ≠ .pathOf choice)
    (read : arguments.foldlM (step choices) (Draft.empty, .anything) = result.map (·, expected)) :
    readAfter choices arguments = result := by
  rw [readAfter, read]
  cases result with
  | error refusal => rfl
  | ok draft =>
    cases expected with
    | anything => rfl
    | pathOf choice => exact absurd rfl (complete choice)
    | operand => rfl

namespace Line

variable {line : Line}

/-- The arguments after the subcommand are read as what they give. -/
theorem readAfter_arguments (sound : line.IsSound) :
    readAfter line.action.choices (line.items.flatMap Item.arguments ++ line.ending) =
      line.givens.foldlM Draft.take Draft.empty := by
  have items := foldlM_step_flatMap sound.items Draft.empty
  rw [ending, givens]
  cases line.operands with
  | none =>
    apply readAfter_of_foldlM (by simp : ∀ choice, Expected.anything ≠ .pathOf choice)
    rw [List.append_nil, items, Option.getD_none, List.map_nil, List.append_nil]
  | some operands =>
    apply readAfter_of_foldlM (by simp : ∀ choice, Expected.operand ≠ .pathOf choice)
    rw [List.foldlM_append, items, Option.getD_some, List.foldlM_append]
    cases (line.items.flatMap Item.givens).foldlM Draft.take Draft.empty with
    | error refusal => rfl
    | ok draft => exact foldlM_step_operands line.action.choices operands draft

/-- The arguments before the subcommand are read as often as they ask for more log lines. -/
theorem readFrom_arguments (line : Line) (draft : Draft) : readFrom draft line.arguments =
    (List.replicate line.loudness (.flag .verbose)).foldlM Draft.take draft >>= fun draft =>
      (readAfter line.action.choices (line.items.flatMap Item.arguments ++ line.ending)).map fun later =>
        ⟨draft.verbose || later.verbose, ofDraft line.action later⟩ := by
  obtain ⟨before, action, items, operands⟩ := line
  induction before generalizing draft with
  | nil =>
    change readFrom draft (action.word.toList :: _) = _
    rw [readFrom, ofArgument?_word]
    rfl
  | cons loudness before ih =>
    have count : (Line.mk (loudness :: before) action items operands).loudness =
      loudness.count + (Line.mk before action items operands).loudness := rfl
    change readFrom draft (loudness.argument :: (Line.mk before action items operands).arguments) = _
    rw [readFrom_loudness, count, List.replicate_add, List.foldlM_append, bind_assoc]
    simp only [ih]
    rfl

theorem IsSound.of_mem_givens (sound : line.IsSound) : ∀ given ∈ line.givens, given.IsSound := by
  rw [givens, List.forall_mem_append]
  constructor
  · intro given member
    obtain ⟨item, itemMember, inItem⟩ := List.mem_flatMap.mp member
    exact (sound.items item itemMember).of_mem_givens inItem
  · intro given member
    obtain ⟨path, pathMember, rfl⟩ := List.mem_map.mp member
    exact sound.operands path pathMember

end Line

/-- More log lines can be asked for once. -/
theorem foldlM_take_replicate (count : Nat) : (List.replicate count (.flag .verbose)).foldlM Draft.take Draft.empty =
    if 2 ≤ count then .error .usage else .ok { Draft.empty with verbose := decide (count = 1) } := by
  match count with
  | 0 => rfl
  | 1 => rfl
  | count + 2 =>
    rw [if_pos (Nat.le_add_left 2 count)]
    rfl

/-- A line is understood as what it gives, and refused if it gives something twice. -/
theorem ofArguments_of_line (line : Line) (sound : line.IsSound) :
    (∀ early draft, line.Spells early draft → Invocation.ofArguments line.arguments =
      .ok ⟨early || draft.verbose, ofDraft line.action draft⟩) ∧
    (line.Repeats → Invocation.ofArguments line.arguments = .error .usage) ∧
    (¬line.Repeats → ∃ early draft, line.Spells early draft) := by
  have read := line.readFrom_arguments Draft.empty
  rw [Line.readAfter_arguments sound, foldlM_take_replicate] at read
  obtain ⟨taken, refused⟩ := Draft.foldlM_take sound.of_mem_givens Draft.empty
  rw [Draft.givens_empty, List.nil_append] at taken refused
  refine ⟨?_, ?_, ?_⟩
  · rintro early draft ⟨count, same⟩
    have few : ¬2 ≤ line.loudness := by
      have small := Bool.toNat_le early
      omega
    obtain ⟨after, success, perm⟩ := taken ((same.map Given.slot).nodup_iff.mpr draft.nodup_slots)
    obtain rfl := Draft.eq_of_perm (perm.trans same)
    rw [if_neg few, success, count] at read
    rw [Invocation.ofArguments, read]
    cases early <;> rfl
  · intro repeats
    rw [Invocation.ofArguments, read]
    split
    case isTrue => rfl
    case isFalse few =>
      rw [refused (repeats.resolve_left few)]
      rfl
  · intro fits
    rw [Line.Repeats, not_or, not_not, Nat.not_le] at fits
    obtain ⟨few, nodup⟩ := fits
    obtain ⟨after, -, perm⟩ := taken nodup
    refine ⟨decide (line.loudness = 1), after, ?_, perm.symm⟩
    rcases Nat.lt_succ_iff_lt_or_eq.mp few with none | once
    · rw [Nat.lt_one_iff.mp none]
      rfl
    · rw [once]
      rfl

/-- Letters together with a path, the flag on both sides, and an operand that looks like an option; then the same
with another path for the option. -/
theorem ofArguments_of_two_lines :
    let line : Line := ⟨[.letters 0], .render, [.valued (.letterJoined 1) .output ['v'], .image], some [['-', 'x']]⟩
    let longer : Line := { line with items := .valued .wordEquals .output ['w'] :: line.items }
    line.arguments = ["-v", "render", "-vov", "--png", "--", "-x"].map String.toList ∧
      longer.arguments = ["-v", "render", "--output=w", "-vov", "--png", "--", "-x"].map String.toList ∧
      line.Spells true ⟨true, true, some ⟨['v']⟩, none, some ⟨['-', 'x']⟩⟩ ∧ longer.Repeats ∧
      Invocation.ofArguments line.arguments = .ok ⟨true, .render ⟨['-', 'x']⟩ (some ⟨['v']⟩) true⟩ ∧
      Invocation.ofArguments longer.arguments = .error .usage := by
  intro line longer
  have sound : line.IsSound := ⟨by decide, by decide⟩
  have longerSound : longer.IsSound := ⟨by decide, by decide⟩
  have spells : line.Spells true ⟨true, true, some ⟨['v']⟩, none, some ⟨['-', 'x']⟩⟩ := ⟨by decide, by decide⟩
  have repeats : longer.Repeats := .inr (by decide)
  exact ⟨by decide, by decide, spells, repeats, (ofArguments_of_line line sound).1 true _ spells,
    (ofArguments_of_line longer longerSound).2.1 repeats⟩

end ImportAtlas.Command
