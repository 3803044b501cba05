import ImportAtlas.Proofs.Toml.Line

/-! # Files made of lines

A file holds lines with breaks of either kind between them, and maybe a byte order mark in front. Neither the mark
nor the kind of the breaks matters, and every piece that is complete by itself says in the file what it says alone.
-/

namespace ImportAtlas.Toml

/-- The text of some lines, each of which may be more than one if it has breaks of its own. -/
def joined (texts : List (List Char)) : List Char :=
  ['\n'].intercalate texts

/-- Whether texts say some lines, each text by itself. -/
inductive Tell : List (List Char) → List Line → Prop
  | nil : Tell [] []
  | cons {text : List Char} {texts : List (List Char)} {here later : List Line} (tells : tells? text = some here)
      (more : Tell texts later) : Tell (text :: texts) (here ++ later)

/-- A text with line breaks of either kind in the places of line feeds. -/
inductive WithBreaks : List Char → List Char → Prop
  | nil : WithBreaks [] []
  | char {c : Char} {text content : List Char} (noFeed : c ≠ '\n') (noReturn : c ≠ '\r')
      (more : WithBreaks text content) : WithBreaks (c :: text) (c :: content)
  | feed {text content : List Char} (more : WithBreaks text content) : WithBreaks ('\n' :: text) ('\n' :: content)
  | returnFeed {text content : List Char} (more : WithBreaks text content) :
      WithBreaks ('\n' :: text) ('\r' :: '\n' :: content)

/-- What a file with some lines can hold. -/
inductive IsContentOf (texts : List (List Char)) : List Char → Prop
  | plain {content : List Char} (breaks : WithBreaks (joined texts) content) : IsContentOf texts content
  | marked {content : List Char} (breaks : WithBreaks (joined texts) content) : IsContentOf texts ('\uFEFF' :: content)

variable {text content : List Char} {first second texts : List (List Char)} {lines here later : List Line}

theorem joined_cons {texts : List (List Char)} (nonempty : texts ≠ []) :
    joined (text :: texts) = text ++ '\n' :: joined texts := by
  obtain ⟨next, texts, rfl⟩ := List.exists_cons_of_ne_nil nonempty
  rw [joined, List.intercalate_cons_cons, List.append_assoc]
  rfl

theorem joined_singleton : joined [text] = text :=
  List.intercalate_singleton

theorem joined_append (nonemptyFirst : first ≠ []) (nonemptySecond : second ≠ []) :
    joined (first ++ second) = joined first ++ '\n' :: joined second := by
  induction first with
  | nil => exact absurd rfl nonemptyFirst
  | cons text texts ih =>
    cases texts with
    | nil => rw [List.singleton_append, joined_cons nonemptySecond, joined_singleton]
    | cons next texts =>
      have inhabited : next :: texts ++ second ≠ [] := List.cons_ne_nil _ _
      rw [List.cons_append, joined_cons inhabited, ih (List.cons_ne_nil _ _), joined_cons (List.cons_ne_nil _ _),
        List.append_assoc, List.cons_append]

theorem Tell.append (tellFirst : Tell first here) (tellSecond : Tell second later) :
    Tell (first ++ second) (here ++ later) := by
  induction tellFirst with
  | nil => exact tellSecond
  | cons tells more ih =>
    rw [List.append_assoc]
    exact .cons tells ih

/-- Lines that are complete by themselves say the same when they are joined. -/
theorem Tell.tells?_joined (tell : Tell texts lines) (nonempty : texts ≠ []) : tells? (joined texts) = some lines := by
  induction tell with
  | nil => exact absurd rfl nonempty
  | @cons text texts here later tells more ih =>
    cases texts with
    | nil =>
      cases more
      rw [joined_singleton, tells, List.append_nil]
    | cons next texts =>
      rw [joined_cons (List.cons_ne_nil _ _), tells?_append tells, ih (List.cons_ne_nil _ _)]
      rfl

theorem foldBreaks_of_withBreaks (breaks : WithBreaks text content) : foldBreaks content = text := by
  induction breaks with
  | nil => rfl
  | char noFeed noReturn more ih =>
    rw [foldBreaks.eq_2 _ _ fun rest isReturn => absurd isReturn noReturn, ih]
  | feed more ih =>
    rw [foldBreaks.eq_2 _ _ fun rest isReturn => absurd isReturn (by decide), ih]
  | returnFeed more ih => rw [foldBreaks, ih]

/-- A text with a carriage return in front of every line feed. -/
def withReturns (text : List Char) : List Char :=
  text.flatMap fun c => if c = '\n' then ['\r', '\n'] else [c]

theorem withBreaks_withReturns (noReturn : '\r' ∉ text) : WithBreaks text (withReturns text) := by
  induction text with
  | nil => exact .nil
  | cons c text ih =>
    rw [List.mem_cons, not_or] at noReturn
    rw [withReturns, List.flatMap_cons]
    split
    case isTrue isFeed =>
      rw [isFeed]
      exact .returnFeed (ih noReturn.2)
    case isFalse noFeed => exact .char noFeed (Ne.symm noReturn.1) (ih noReturn.2)

/-- A text that says something does not begin with a byte order mark. -/
theorem ne_mark_of_tells? (tells : tells? text = some lines) : ∀ c ∈ text.head?, c ≠ '\uFEFF' := by
  rintro c starts rfl
  cases text with
  | nil => cases starts
  | cons c text =>
    cases starts
    cases tells

theorem dropMark_of_withBreaks (breaks : WithBreaks text content) (noMark : ∀ c ∈ text.head?, c ≠ '\uFEFF') :
    dropMark content = content := by
  cases breaks with
  | nil => rfl
  | char => exact dropMark.eq_2 _ fun rest same => noMark _ rfl (List.cons.inj same).1
  | feed => rfl
  | returnFeed => rfl

private theorem parse?_of_isContentOf (isContent : IsContentOf texts content)
    (noMark : ∀ c ∈ (joined texts).head?, c ≠ '\uFEFF') :
    Document.parse? content = (tells? (joined texts)).bind Document.ofLines? := by
  rw [parse?_eq]
  cases isContent with
  | plain breaks => rw [dropMark_of_withBreaks breaks noMark, foldBreaks_of_withBreaks breaks]
  | marked breaks => rw [dropMark, foldBreaks_of_withBreaks breaks]

/-- The document in a file is that of the lines in it. -/
theorem Tell.parse? (tell : Tell texts lines) (isContent : IsContentOf texts content) :
    Document.parse? content = Document.ofLines? lines := by
  rcases List.eq_nil_or_concat texts with rfl | ⟨_, _, rfl⟩
  · cases tell
    exact parse?_of_isContentOf isContent (by rintro _ ⟨⟩)
  · have tells := tell.tells?_joined (by simp)
    rw [parse?_of_isContentOf isContent (ne_mark_of_tells? tells), tells]
    rfl

/-- The document in a file begins as its first lines say, or there is none. -/
theorem Tell.parse?_append (tell : Tell first here) (nonempty : first ≠ [])
    (isContent : IsContentOf (first ++ second) content) :
    Document.parse? content = none ∨ ∃ later, Document.parse? content = Document.ofLines? (here ++ later) := by
  by_cases atEnd : second = []
  · subst atEnd
    rw [List.append_nil] at isContent
    exact .inr ⟨[], by rw [tell.parse? isContent, List.append_nil]⟩
  · have tells := tell.tells?_joined nonempty
    have noMark : ∀ c ∈ (joined first ++ '\n' :: joined second).head?, c ≠ '\uFEFF' := by
      have starts := ne_mark_of_tells? tells
      cases written : joined first with
      | nil =>
        rintro _ ⟨⟩
        decide
      | cons =>
        rw [written] at starts
        exact starts
    rw [← joined_append nonempty atEnd] at noMark
    rw [parse?_of_isContentOf isContent noMark, joined_append nonempty atEnd, tells?_append tells]
    cases tells? (joined second) with
    | none => exact .inl rfl
    | some later => exact .inr ⟨later, rfl⟩

end ImportAtlas.Toml
