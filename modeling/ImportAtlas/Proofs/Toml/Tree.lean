import ImportAtlas.Toml.Tree

/-! # Grouping part by part

Tokens are taken one at a time while brackets open and close. What is shown here lets them be taken in larger pieces:
the tokens of a part make its trees wherever they stand, and those between two brackets make one tree. Lines that
are complete do not matter to the lines after them.
-/

namespace ImportAtlas.Toml

namespace Grouping

variable {grouping next : Grouping} {token : Token} {tokens first second : List Token}

theorem takeAll_cons : grouping.takeAll (token :: tokens) = (grouping.take token).bind (·.takeAll tokens) :=
  rfl

theorem takeAll_append : grouping.takeAll (first ++ second) = (grouping.takeAll first).bind (·.takeAll second) :=
  List.foldlM_append

end Grouping

/-! ## Lines before others -/

/-- A frame with more parts before its own, given last first. -/
def Frame.after (earlier : List (List Tree)) (frame : Frame) : Frame :=
  { frame with parts := frame.parts ++ earlier }

/-- Frames with more parts before those of the outermost one. -/
def outermostAfter (earlier : List (List Tree)) : List Frame → List Frame
  | [] => []
  | [frame] => [frame.after earlier]
  | frame :: next :: outer => frame :: outermostAfter earlier (next :: outer)

namespace Grouping

variable {grouping next : Grouping} {token : Token} {tokens first second : List Token}
  {earlier : List (List Tree)}

/-- A grouping with more lines before its own. -/
def after (earlier : List (List Tree)) : Grouping → Grouping
  | ⟨inner, []⟩ => ⟨inner.after earlier, []⟩
  | ⟨inner, frame :: outer⟩ => ⟨inner, outermostAfter earlier (frame :: outer)⟩

theorem close_after (grouping : Grouping) (enclosure : Enclosure) (tree : List (List Tree) → Tree) :
    (grouping.after earlier).close enclosure tree = (grouping.close enclosure tree).map (after earlier) := by
  obtain ⟨inner, outer⟩ := grouping
  rcases outer with _ | ⟨frame, _ | ⟨other, outer⟩⟩
  · rfl
  all_goals
    rw [close, close]
    dsimp only
    rw [apply_ite (Option.map (after earlier))]
    rfl

/-- A token is taken alike, whatever lines came before. -/
theorem take_after (grouping : Grouping) (token : Token) :
    (grouping.after earlier).take token = (grouping.take token).map (after earlier) := by
  cases token with
  | closeBracket => exact close_after grouping _ _
  | closeBrace => exact close_after grouping _ _
  | openBracket => obtain ⟨inner, _ | ⟨frame, outer⟩⟩ := grouping <;> rfl
  | openBrace => obtain ⟨inner, _ | ⟨frame, outer⟩⟩ := grouping <;> rfl
  | _ =>
    obtain ⟨inner, _ | ⟨frame, outer⟩⟩ := grouping
    all_goals
      simp only [take]
      rw [apply_ite (Option.map (after earlier))]
      rfl

theorem takeAll_after (grouping : Grouping) (tokens : List Token) :
    (grouping.after earlier).takeAll tokens = (grouping.takeAll tokens).map (after earlier) := by
  induction tokens generalizing grouping with
  | nil => rfl
  | cons token tokens ih =>
    rw [takeAll_cons, takeAll_cons, take_after]
    cases grouping.take token with
    | none => rfl
    | some next => exact ih next

theorem finish?_after (grouping : Grouping) :
    (grouping.after earlier).finish? = grouping.finish?.map (earlier.reverse ++ ·) := by
  obtain ⟨inner, outer⟩ := grouping
  rcases outer with _ | ⟨frame, _ | ⟨other, outer⟩⟩
  · simp [after, finish?, Frame.after, Frame.allParts]
  · rfl
  · rfl

/-- What encloses everything. -/
def outermost (grouping : Grouping) : Enclosure :=
  ((grouping.inner :: grouping.outer).getLast (List.cons_ne_nil _ _)).enclosure

theorem outermost_close {enclosure : Enclosure} {tree : List (List Tree) → Tree}
    (closed : grouping.close enclosure tree = some next) : next.outermost = grouping.outermost := by
  obtain ⟨inner, outer⟩ := grouping
  rcases outer with _ | ⟨frame, outer⟩
  · cases closed
  · rw [close] at closed
    dsimp only at closed
    split at closed
    · cases closed
      cases outer <;> rfl
    · cases closed

theorem outermost_take (taken : grouping.take token = some next) : next.outermost = grouping.outermost := by
  cases token with
  | closeBracket => exact outermost_close taken
  | closeBrace => exact outermost_close taken
  | openBracket => cases taken; rfl
  | openBrace => cases taken; rfl
  | _ =>
    simp only [take] at taken
    split at taken
    all_goals
      cases taken
      obtain ⟨inner, outer⟩ := grouping
      cases outer <;> rfl

theorem outermost_takeAll (taken : grouping.takeAll tokens = some next) : next.outermost = grouping.outermost := by
  induction tokens generalizing grouping with
  | nil => cases taken; rfl
  | cons token tokens ih =>
    obtain ⟨middle, takes, takesRest⟩ := Option.bind_eq_some_iff.mp taken
    rw [ih takesRest, outermost_take takes]

end Grouping

/-- The lines of two token lists with a line break between them are those of the first and those of the second. -/
theorem lines?_append_newline {first second : List Token} {lines : List (List Tree)}
    (complete : lines? first = some lines) :
    lines? (first ++ .newline :: second) = (lines? second).map (lines ++ ·) := by
  obtain ⟨⟨frame, outer⟩, taken, finished⟩ := Option.bind_eq_some_iff.mp complete
  rw [Grouping.finish?] at finished
  split at finished
  case isFalse => cases finished
  case isTrue closed =>
    obtain rfl : outer = [] := List.isEmpty_iff.mp closed
    obtain rfl : frame.allParts = lines := Option.some.inj finished
    have isDocument : frame.enclosure = .document := Grouping.outermost_takeAll taken
    have breaks : (Grouping.mk frame []).take .newline =
        some (Grouping.start.after (frame.current.reverse :: frame.parts)) := by
      simp only [Grouping.take, isDocument, Enclosure.separator, if_true]
      rw [Frame.split, isDocument]
      rfl
    rw [lines?, Grouping.takeAll_append, taken, Option.bind_some, Grouping.takeAll_cons, breaks, Option.bind_some,
      Grouping.takeAll_after, lines?]
    cases Grouping.start.takeAll second with
    | none => rfl
    | some grouping => exact Grouping.finish?_after grouping

/-! ## Trees -/

/-- A token that is no bracket and separates nothing. -/
inductive Token.IsLeaf : Token → Prop
  | blanks (run : List Char) : IsLeaf (.blanks run)
  | equals : IsLeaf .equals
  | bare (word : List Char) : IsLeaf (.bare word)
  | text (chars : List Char) (multiline : Bool) : IsLeaf (.text chars multiline)

/-- Whether tokens make some trees, one after another, in any part of an enclosure. -/
def Groups (enclosure : Enclosure) (tokens : List Token) (trees : List Tree) : Prop :=
  ∀ (parts : List (List Tree)) (current : List Tree) (outer : List Frame),
    Grouping.takeAll ⟨⟨enclosure, parts, current⟩, outer⟩ tokens =
      some ⟨⟨enclosure, parts, trees.reverse ++ current⟩, outer⟩

/-- Whether tokens make some parts of an array. -/
def Fills (tokens : List Token) (parts : List (List Tree)) : Prop :=
  ∀ (earlier : List (List Tree)) (outer : List Frame), ∃ frame : Frame,
    Grouping.takeAll ⟨⟨.brackets, earlier, []⟩, outer⟩ tokens = some ⟨frame, outer⟩ ∧
      frame.enclosure = .brackets ∧ frame.allParts = earlier.reverse ++ parts

variable {enclosure : Enclosure} {tokens first second : List Token} {trees : List Tree}
  {parts : List (List Tree)}

theorem Groups.nil : Groups enclosure [] [] :=
  fun _ _ _ => rfl

theorem Groups.append {firstTrees secondTrees : List Tree} (groupsFirst : Groups enclosure first firstTrees)
    (groupsSecond : Groups enclosure second secondTrees) :
    Groups enclosure (first ++ second) (firstTrees ++ secondTrees) := by
  intro parts current outer
  rw [Grouping.takeAll_append, groupsFirst, Option.bind_some, groupsSecond, List.reverse_append, List.append_assoc]

theorem Groups.leaf {token : Token} (isLeaf : token.IsLeaf) : Groups enclosure [token] [.token token] := by
  intro parts current outer
  cases isLeaf <;> cases enclosure <;> rfl

theorem Groups.cons {token : Token} (isLeaf : token.IsLeaf) (more : Groups enclosure tokens trees) :
    Groups enclosure (token :: tokens) (.token token :: trees) :=
  (Groups.leaf isLeaf).append more

/-- Line breaks are as good as blanks between brackets. -/
theorem Groups.newline : Groups .brackets [.newline] [.token .newline] :=
  fun _ _ _ => rfl

/-- Tokens without a line break outside of brackets are one line. -/
theorem Groups.lines? (groups : Groups .document tokens trees) : Toml.lines? tokens = some [trees] := by
  rw [Toml.lines?, Grouping.start, Frame.start, groups]
  simp [Grouping.finish?, Frame.allParts]

theorem Fills.last (groups : Groups .brackets tokens trees) : Fills tokens [trees] := by
  intro earlier outer
  refine ⟨_, groups earlier [] outer, rfl, ?_⟩
  simp [Frame.allParts]

theorem Fills.cons (groups : Groups .brackets first trees) (more : Fills second parts) :
    Fills (first ++ .comma :: second) (trees :: parts) := by
  intro earlier outer
  obtain ⟨frame, taken, isBrackets, all⟩ := more (trees :: earlier) outer
  have splits : Grouping.take ⟨⟨.brackets, earlier, trees.reverse ++ []⟩, outer⟩ .comma =
      some ⟨⟨.brackets, trees :: earlier, []⟩, outer⟩ := by
    simp [Grouping.take, Enclosure.separator, Frame.split]
  refine ⟨frame, ?_, isBrackets, by rw [all, List.reverse_cons, List.append_assoc, List.singleton_append]⟩
  rw [Grouping.takeAll_append, groups, Option.bind_some, Grouping.takeAll_cons, splits]
  exact taken

/-- An array is one tree, wherever it stands. -/
theorem Fills.groups (fills : Fills tokens parts) :
    Groups enclosure (.openBracket :: (tokens ++ [.closeBracket])) [.brackets parts] := by
  intro earlier current outer
  obtain ⟨frame, taken, isBrackets, all⟩ := fills [] (⟨enclosure, earlier, current⟩ :: outer)
  have closes : Grouping.take ⟨frame, ⟨enclosure, earlier, current⟩ :: outer⟩ .closeBracket =
      some ⟨⟨enclosure, earlier, .brackets parts :: current⟩, outer⟩ := by
    rw [Grouping.take, Grouping.close]
    dsimp only
    rw [if_pos isBrackets, all]
    rfl
  have opens : Grouping.take ⟨⟨enclosure, earlier, current⟩, outer⟩ .openBracket =
      some ⟨⟨.brackets, [], []⟩, ⟨enclosure, earlier, current⟩ :: outer⟩ := rfl
  rw [Grouping.takeAll_cons, opens, Option.bind_some, Grouping.takeAll_append, taken, Option.bind_some,
    Grouping.takeAll_cons, closes]
  rfl

end ImportAtlas.Toml
