import ImportAtlas.Text.Blank

/-! # Import statements

An import statement is the word `import`, blanks, a clause on one line, blanks, the word `from`,
blanks, and a specifier between quotes, optionally followed by a semicolon. Statements are found by
their shape alone: comments and strings are not recognised, the two quotes of a specifier may
differ, and forms such as re-exports or bare `import './x'` have another shape.

Where a text can be read in several ways, the search settles it in this order: the statement starts
as early as possible, the blanks after `import` are as many as possible, the clause is as short as
possible, and the specifier ends at the first quote. The search for the next statement continues
after the last one, so statements do not overlap.

Each step of the search answers with the specifier and the text that follows the statement.
-/

namespace ImportAtlas.Source

open Text (isBlank)

/-- A specifier that was found, and the text after its statement. -/
abbrev Found := List Char × List Char

/-- The text after a word that it starts with. -/
def afterWord? : List Char → List Char → Option (List Char)
  | [], text => some text
  | _ :: _, [] => none
  | w :: word, c :: text => if c = w then afterWord? word text else none

/-- Both kinds of quotes open and close a specifier. -/
def isQuote (c : Char) : Bool :=
  c == '\'' || c == '"'

/-- The text up to the first quote on the line, and the text after that quote. -/
def untilQuote? : List Char → Option Found
  | [] => none
  | c :: text =>
    if isQuote c then some ([], text)
    else if c = '\n' then none
    else (untilQuote? text).map fun found => (c :: found.1, found.2)

/-- The text without a semicolon at its start. -/
def dropSemicolon : List Char → List Char
  | ';' :: text => text
  | text => text

/-- Reads a quoted specifier and the semicolon after it. -/
def quoted? : List Char → Option Found
  | c :: text =>
    if isQuote c then (untilQuote? text).map fun found => (found.1, dropSemicolon found.2) else none
  | [] => none

/-- The text after one or more blanks, all of those at the start. -/
def afterBlanks? : List Char → Option (List Char)
  | c :: text => if isBlank c then some (text.dropWhile isBlank) else none
  | [] => none

/-- Reads the word `from`, blanks and a quoted specifier. -/
def source? (text : List Char) : Option Found := do
  let text ← afterWord? ['f', 'r', 'o', 'm'] text
  let text ← afterBlanks? text
  quoted? text

/-- Reads blanks, the word `from`, blanks and a quoted specifier. -/
def origin? (text : List Char) : Option Found :=
  (afterBlanks? text).bind source?

/-- Reads a clause and its origin, with the shortest clause that an origin follows. -/
def clause? : List Char → Option Found
  | [] => none
  | c :: text =>
    (origin? (c :: text)).or (if c = '\n' then none else clause? text)

/-- Reads blanks, a clause and its origin, with as many blanks as possible. If no clause follows all
of the blanks, the clause is empty and the last of them stands before the word `from`, so that there
have to be two. -/
def afterImport? : List Char → Option Found
  | b :: c :: text =>
    if isBlank b then
      if isBlank c then
        let rest := text.dropWhile isBlank
        (clause? rest).or (source? rest)
      else clause? (c :: text)
    else none
  | _ => none

/-- Reads a whole import statement at the start of a text. -/
def statement? (text : List Char) : Option Found :=
  (afterWord? ['i', 'm', 'p', 'o', 'r', 't'] text).bind afterImport?

section Length

/-! Each step leaves a shorter text, so the search ends. -/

theorem length_of_afterWord? {word text rest : List Char} (h : afterWord? word text = some rest) :
    text.length = word.length + rest.length := by
  induction word generalizing text with
  | nil => cases h; simp
  | cons w word ih =>
    cases text with
    | nil => simp [afterWord?] at h
    | cons c text =>
      simp only [afterWord?, Option.ite_none_right_eq_some] at h
      have := ih h.2
      simp only [List.length_cons]
      omega

theorem length_of_untilQuote? {text : List Char} {found : Found} (h : untilQuote? text = some found) :
    found.2.length < text.length := by
  induction text generalizing found with
  | nil => simp [untilQuote?] at h
  | cons c text ih =>
    unfold untilQuote? at h
    split at h
    · cases h; simp
    · split at h
      · simp at h
      · obtain ⟨inner, found_inner, rfl⟩ := Option.map_eq_some_iff.mp h
        have := ih found_inner
        simp only [List.length_cons]
        omega

theorem length_dropSemicolon_le (text : List Char) : (dropSemicolon text).length ≤ text.length := by
  unfold dropSemicolon
  split <;> simp

theorem length_of_quoted? {text : List Char} {found : Found} (h : quoted? text = some found) :
    found.2.length < text.length := by
  unfold quoted? at h
  split at h
  · split at h
    · obtain ⟨inner, found_inner, rfl⟩ := Option.map_eq_some_iff.mp h
      have := length_of_untilQuote? found_inner
      have := length_dropSemicolon_le inner.2
      simp only [List.length_cons]
      omega
    · simp at h
  · simp at h

theorem length_of_afterBlanks? {text rest : List Char} (h : afterBlanks? text = some rest) :
    rest.length < text.length := by
  unfold afterBlanks? at h
  split at h
  · split at h
    · cases h
      rename_i c text _
      have := (List.dropWhile_sublist (l := text) isBlank).length_le
      simp only [List.length_cons]
      omega
    · simp at h
  · simp at h

theorem length_of_source? {text : List Char} {found : Found} (h : source? text = some found) :
    found.2.length < text.length := by
  simp only [source?, Option.bind_eq_bind, Option.bind_eq_some_iff] at h
  obtain ⟨one, atWord, two, atBlanks, atQuote⟩ := h
  have := length_of_afterWord? atWord
  have := length_of_afterBlanks? atBlanks
  have := length_of_quoted? atQuote
  omega

theorem length_of_origin? {text : List Char} {found : Found} (h : origin? text = some found) :
    found.2.length < text.length := by
  obtain ⟨rest, atBlanks, atSource⟩ := Option.bind_eq_some_iff.mp h
  exact Nat.lt_trans (length_of_source? atSource) (length_of_afterBlanks? atBlanks)

theorem length_of_clause? {text : List Char} {found : Found} (h : clause? text = some found) :
    found.2.length < text.length := by
  induction text with
  | nil => simp [clause?] at h
  | cons c text ih =>
    simp only [clause?, Option.or_eq_some_iff, Option.ite_none_left_eq_some] at h
    rcases h with here | ⟨_, _, later⟩
    · exact length_of_origin? here
    · exact Nat.lt_trans (ih later) (by simp)

theorem length_of_afterImport? {text : List Char} {found : Found}
    (h : afterImport? text = some found) : found.2.length < text.length := by
  unfold afterImport? at h
  split at h
  · rename_i b c text
    simp only [Option.ite_none_right_eq_some] at h
    have shorter := (List.dropWhile_sublist (l := text) isBlank).length_le
    simp only [List.length_cons]
    obtain ⟨_, h⟩ := h
    split at h
    · rcases Option.or_eq_some_iff.mp h with clause | ⟨_, source⟩
      · have := length_of_clause? clause
        omega
      · have := length_of_source? source
        omega
    · have := length_of_clause? h
      simp only [List.length_cons] at this
      omega
  · simp at h

theorem length_of_statement? {text : List Char} {found : Found} (h : statement? text = some found) :
    found.2.length < text.length := by
  obtain ⟨rest, atWord, atRest⟩ := Option.bind_eq_some_iff.mp h
  have := length_of_afterWord? atWord
  have := length_of_afterImport? atRest
  omega

end Length

/-- The specifiers of the import statements in a source text, in order, repetitions included. -/
def specifiers : List Char → List (List Char)
  | [] => []
  | c :: text =>
    match _ : statement? (c :: text) with
    | some (specifier, rest) => specifier :: specifiers rest
    | none => specifiers text
termination_by text => text.length
decreasing_by
  · exact length_of_statement? ‹_›
  · simp

/-- A specifier names a place in the source tree, and not a package, if it starts with a dot. -/
def isLocal (specifier : List Char) : Bool :=
  specifier.head? == some '.'

end ImportAtlas.Source
