import ImportAtlas.Proofs.Toml.Scalar
import ImportAtlas.Proofs.Toml.Token
import ImportAtlas.Proofs.Toml.Tree
import ImportAtlas.Proofs.Toml.Value

/-! # Lines that say what they should

A text is read line after line. What its first lines say depends on nothing behind them, as long as they close their
brackets and quotes. A line that is written by the rules for entries says that the name has the value, and one that
is empty or a comment says nothing.
-/

namespace ImportAtlas.Toml

/-! ## Lines one after another -/

/-- What a text says line by line, if line feeds are its only line breaks. -/
def tells? (text : List Char) : Option (List Line) :=
  ((Lexer.between.tokens? text).bind lines?).bind fun lines => lines.mapM line?

theorem parse?_eq (text : List Char) :
    Document.parse? text = (tells? (foldBreaks (dropMark text))).bind Document.ofLines? := by
  rw [tells?, Option.bind_assoc, Option.bind_assoc]
  rfl

/-- What a text says stays the same in front of other lines. -/
theorem tells?_append {first second : List Char} {lines : List Line} (tells : tells? first = some lines) :
    tells? (first ++ '\n' :: second) = (tells? second).map (lines ++ ·) := by
  obtain ⟨treeLines, grouped, read⟩ := Option.bind_eq_some_iff.mp tells
  obtain ⟨tokens, scanned, grouped⟩ := Option.bind_eq_some_iff.mp grouped
  rw [tells?, Lexer.tokens?_append_newline Lexer.isSound_between scanned, tells?]
  cases Lexer.between.tokens? second with
  | none => rfl
  | some more =>
    rw [Option.map_some, Option.bind_some, lines?_append_newline grouped, Option.bind_some]
    cases lines? more with
    | none => rfl
    | some moreLines =>
      rw [Option.map_some, Option.bind_some, Option.bind_some, List.mapM_append, read]
      cases moreLines.mapM line? <;> rfl

theorem tells?_of_groups {text : List Char} {tokens : List Token} {trees : List Tree} {line : Line}
    (scanned : Lexer.between.tokens? text = some tokens) (groups : Groups .document tokens trees)
    (read : line? trees = some line) : tells? text = some [line] := by
  rw [tells?, scanned, Option.bind_some, groups.lines?, Option.bind_some, List.mapM_cons, read]
  rfl

/-! ## Gaps -/

theorem groups_blankTokens {enclosure : Enclosure} (blanks : List Char) :
    Groups enclosure (blankTokens blanks) ((blankTokens blanks).map .token) := by
  rw [blankTokens]
  split
  · exact .nil
  · exact .leaf (.blanks _)

theorem areGaps_blankTokens (blanks : List Char) : AreGaps false ((blankTokens blanks).map .token) := by
  rw [blankTokens]
  split
  · exact List.forall_mem_nil _
  · exact List.forall_mem_singleton.mpr rfl

theorem groups_gaps {gaps : List Token} (areGaps : ∀ token ∈ gaps, token.IsGap) :
    Groups .brackets gaps (gaps.map .token) := by
  induction gaps with
  | nil => exact .nil
  | cons gap gaps ih =>
    obtain ⟨here, later⟩ := List.forall_mem_cons.mp areGaps
    cases here with
    | blanks run => exact .cons (.blanks run) (ih later)
    | newline => exact Groups.newline.append (ih later)

theorem areGaps_map_token {gaps : List Token} (areGaps : ∀ token ∈ gaps, token.IsGap) :
    AreGaps true (gaps.map .token) := by
  rw [AreGaps, List.forall_mem_map]
  intro gap member
  cases areGaps gap member <;> rfl

/-! ## Where tokens end -/

/-- A character that no word or text goes on with. -/
def IsBoundary (c : Char) : Prop :=
  isBareChar c = false ∧ c ≠ '"' ∧ c ≠ '\''

instance (c : Char) : Decidable (IsBoundary c) :=
  inferInstanceAs (Decidable (_ ∧ _))

variable {holds : Char → Prop} {first rest : List Char}

private theorem forall_head?_append (here : ∀ c ∈ first.head?, holds c) (later : ∀ c ∈ rest.head?, holds c) :
    ∀ c ∈ (first ++ rest).head?, holds c := by
  cases first with
  | nil => exact later
  | cons => exact here

theorem isBoundary_of_areBlanks {blanks : List Char} (areBlanks : AreBlanks blanks) :
    ∀ c ∈ blanks.head?, IsBoundary c := by
  intro c starts
  rcases areBlanks c (List.mem_of_mem_head? starts) with rfl | rfl <;> decide

theorem isBoundary_of_isSpacing {spacing : List Char} (isSpacing : IsSpacing spacing) :
    ∀ c ∈ spacing.head?, IsBoundary c := by
  rintro c starts
  cases isSpacing with
  | nil => cases starts
  | blank blank =>
    cases starts
    rcases blank with rfl | rfl <;> decide
  | newline => cases starts; decide
  | comment => cases starts; decide

theorem isBoundary_of_isRemark {remark : List Char} (isRemark : IsRemark remark) :
    ∀ c ∈ remark.head?, IsBoundary c ∧ isSpace c = false := by
  intro c starts
  cases isRemark with
  | nil => cases starts
  | comment => cases starts; decide

theorem isSpace_of_isBareChar {c : Char} (bare : isBareChar c = true) : isSpace c = false := by
  rw [Bool.eq_false_iff]
  intro space
  rcases Lexer.isSpace_iff.mp space with rfl | rfl
  all_goals cases bare

private theorem noSpace_of_bare {word : List Char} (nonempty : word ≠ []) (bare : ∀ c ∈ word, isBareChar c = true) :
    ∀ c ∈ (word ++ rest).head?, isSpace c = false := by
  obtain ⟨first, word, rfl⟩ := List.exists_cons_of_ne_nil nonempty
  rintro _ ⟨⟩
  exact isSpace_of_isBareChar (bare first List.mem_cons_self)

/-! ## Names and values -/

theorem Names.noSpace {key : List Char} {name : KeyPart} (names : Names key name) :
    ∀ c ∈ (key ++ rest).head?, isSpace c = false := by
  cases names with
  | bare nonempty bare => exact noSpace_of_bare nonempty bare
  | quoted | literal =>
    rintro _ ⟨⟩
    rfl

/-- What writes a name is scanned as one token. -/
theorem Names.tokens? {key : List Char} {name : KeyPart} (names : Names key name)
    (ends : ∀ c ∈ rest.head?, IsBoundary c) :
    ∃ token : Token, token.IsLeaf ∧ IsName (.token token) name ∧
      Lexer.between.tokens? (key ++ rest) = (Lexer.between.tokens? rest).map (token :: ·) := by
  cases names with
  | bare nonempty bare =>
    exact ⟨_, .bare _, .bare _, Lexer.tokens?_bare nonempty bare fun c next => (ends c next).1⟩
  | quoted spells =>
    exact ⟨_, .text _ _, .text _, Lexer.tokens?_quoted spells fun c next => (ends c next).2.1⟩
  | literal visible noQuote =>
    refine ⟨_, .text _ _, .text _, ?_⟩
    rw [List.cons_append, List.append_assoc]
    exact Lexer.tokens?_literal visible noQuote fun c next => (ends c next).2.2

/-- A text in its quotes and the spacing around it are scanned as an item of an array. -/
theorem tokens?_item {before raw text after : List Char} (spaceBefore : IsSpacing before) (spells : Spells raw text)
    (spaceAfter : IsSpacing after) (ends : ∀ c ∈ rest.head?, IsBoundary c ∧ isSpace c = false) :
    ∃ (tokens : List Token) (trees : List Tree),
      Lexer.between.tokens? (before ++ (quoted raw ++ (after ++ rest))) =
          (Lexer.between.tokens? rest).map (tokens ++ ·) ∧
        Groups .brackets tokens trees ∧
        ∀ parts : List (List Tree), items? (trees :: parts) = (items? parts).map (.text text :: ·) := by
  have textEnds : ∀ c ∈ (after ++ rest).head?, c ≠ '"' :=
    forall_head?_append (fun c next => (isBoundary_of_isSpacing spaceAfter c next).2.1)
      fun c next => (ends c next).1.2.1
  have textStarts : ∀ c ∈ (quoted raw ++ (after ++ rest)).head?, isSpace c = false := by
    rintro _ ⟨⟩
    rfl
  obtain ⟨gapsAfter, areGapsAfter, scannedAfter⟩ :=
    Lexer.tokens?_spacing spaceAfter fun c next => (ends c next).2
  obtain ⟨gapsBefore, areGapsBefore, scannedBefore⟩ := Lexer.tokens?_spacing spaceBefore textStarts
  refine ⟨gapsBefore ++ .text text false :: gapsAfter,
    gapsBefore.map .token ++ .token (.text text false) :: gapsAfter.map .token, ?_, ?_, ?_⟩
  · rw [scannedBefore, Lexer.tokens?_quoted spells textEnds, scannedAfter]
    simp [Function.comp_def]
  · exact (groups_gaps areGapsBefore).append (.cons (.text text false) (groups_gaps areGapsAfter))
  · exact fun parts => items?_text (areGaps_map_token areGapsBefore) (areGaps_map_token areGapsAfter)

/-- What stands between the brackets of an array is scanned as parts that hold its items. -/
theorem Lists.tokens? {inner : List Char} {texts : List (List Char)} (lists : Lists inner texts) (rest : List Char) :
    ∃ (tokens : List Token) (parts : List (List Tree)),
      Lexer.between.tokens? (inner ++ ']' :: rest) = (Lexer.between.tokens? (']' :: rest)).map (tokens ++ ·) ∧
        Fills tokens parts ∧ items? parts = some (texts.map .text) := by
  induction lists with
  | nil isSpacing =>
    have bracket : ∀ c ∈ (']' :: rest).head?, isSpace c = false := by
      rintro _ ⟨⟩
      rfl
    obtain ⟨gaps, areGaps, scanned⟩ := Lexer.tokens?_spacing isSpacing bracket
    exact ⟨gaps, _, scanned, .last (groups_gaps areGaps), items?_gaps (areGaps_map_token areGaps)⟩
  | @last before raw text after spaceBefore spells spaceAfter =>
    have bracket : ∀ c ∈ (']' :: rest).head?, IsBoundary c ∧ isSpace c = false := by
      rintro _ ⟨⟩
      decide
    obtain ⟨tokens, trees, scanned, groups, items⟩ := tokens?_item spaceBefore spells spaceAfter bracket
    refine ⟨tokens, [trees], ?_, .last groups, ?_⟩
    · rwa [List.append_assoc, List.append_assoc]
    · rw [items, items?]
      rfl
  | @cons before raw text after inner texts spaceBefore spells spaceAfter more ih =>
    obtain ⟨moreTokens, parts, scannedMore, fills, itemsMore⟩ := ih
    have comma : ∀ c ∈ (',' :: (inner ++ ']' :: rest)).head?, IsBoundary c ∧ isSpace c = false := by
      rintro _ ⟨⟩
      decide
    obtain ⟨tokens, trees, scanned, groups, items⟩ := tokens?_item spaceBefore spells spaceAfter comma
    refine ⟨tokens ++ .comma :: moreTokens, trees :: parts, ?_, .cons groups fills, ?_⟩
    · rw [List.append_assoc, List.append_assoc, List.append_assoc, List.cons_append, scanned,
        Lexer.tokens?_of_token .between rfl, scannedMore]
      simp [Function.comp_def]
    · rw [items, itemsMore]
      rfl

theorem Writes.isWord {shown : List Char} (writes : Writes shown .scalar) :
    shown ≠ [] ∧ (∀ c ∈ shown, isBareChar c = true) ∧ isScalar [.bare shown] = true := by
  cases writes with
  | truth known =>
    refine ⟨by rcases known with rfl | rfl <;> decide, List.all_eq_true.mp ?_, isScalar_of_truth known⟩
    rcases known with rfl | rfl <;> decide
  | number fits =>
    refine ⟨Numeral.write_ne_nil _, ?_, isScalar_write fits⟩
    intro c member
    have digit := Numeral.isDigit_of_mem_write member
    simp [isBareChar, Char.isAlphanum, digit]

theorem Writes.noSpace {shown : List Char} {value : Value} (writes : Writes shown value) :
    ∀ c ∈ (shown ++ rest).head?, isSpace c = false := by
  have word (isScalar : Writes shown .scalar) : ∀ c ∈ (shown ++ rest).head?, isSpace c = false :=
    noSpace_of_bare isScalar.isWord.1 isScalar.isWord.2.1
  cases writes with
  | text | array =>
    rintro _ ⟨⟩
    rfl
  | truth known => exact word (.truth known)
  | number fits => exact word (.number fits)

/-- What writes a value is scanned as the tree of this value. -/
theorem Writes.tokens? {shown : List Char} {value : Value} (writes : Writes shown value)
    (ends : ∀ c ∈ rest.head?, IsBoundary c) :
    ∃ (tokens : List Token) (tree : Tree),
      Lexer.between.tokens? (shown ++ rest) = (Lexer.between.tokens? rest).map (tokens ++ ·) ∧
        Groups .document tokens [tree] ∧ tree.isGap false = false ∧ value? false [tree] = some value := by
  have noGaps : AreGaps false [] := List.forall_mem_nil _
  have word (writesScalar : Writes shown .scalar) :
      ∃ (tokens : List Token) (tree : Tree),
        Lexer.between.tokens? (shown ++ rest) = (Lexer.between.tokens? rest).map (tokens ++ ·) ∧
          Groups .document tokens [tree] ∧ tree.isGap false = false ∧ value? false [tree] = some .scalar := by
    obtain ⟨nonempty, bare, isScalar⟩ := writesScalar.isWord
    refine ⟨[.bare shown], _, ?_, .leaf (.bare _), rfl, value?_word isScalar noGaps⟩
    exact Lexer.tokens?_bare nonempty bare fun c next => (ends c next).1
  cases writes with
  | @text raw text spells =>
    refine ⟨[.text text false], _, ?_, .leaf (.text _ _), rfl, value?_text noGaps⟩
    exact Lexer.tokens?_quoted spells fun c next => (ends c next).2.1
  | array lists =>
    obtain ⟨tokens, parts, scanned, fills, items⟩ := lists.tokens? rest
    refine ⟨.openBracket :: (tokens ++ [.closeBracket]), .brackets parts, ?_, fills.groups, rfl, ?_⟩
    · rw [List.cons_append, List.append_assoc, Lexer.tokens?_of_token .between rfl, List.singleton_append,
        scanned, Lexer.tokens?_of_token .between rfl]
      simp [Function.comp_def]
    · rw [value?_brackets noGaps, items]
      rfl
  | truth known => exact word (.truth known)
  | number fits => exact word (.number fits)

/-! ## Whole lines -/

theorem tells?_of_isEmptyLine {line : List Char} (isEmptyLine : IsEmptyLine line) : tells? line = some [.blank] := by
  obtain ⟨areBlanks, isRemark⟩ := isEmptyLine
  rename_i blanks remark
  have scanned : Lexer.between.tokens? (blanks ++ remark) = some (blankTokens blanks) := by
    rw [Lexer.tokens?_blanks areBlanks fun c next => (isBoundary_of_isRemark isRemark c next).2,
      Lexer.tokens?_remark isRemark, Option.map_some, List.append_nil]
  exact tells?_of_groups scanned (groups_blankTokens blanks) (line?_of_areGaps (areGaps_blankTokens blanks))

/-- A line that is written as an entry is one. -/
theorem tells?_of_isEntry {line : List Char} {name : KeyPart} {value : Value} (isEntry : IsEntry line name value) :
    tells? line = some [.entry [name] value] := by
  obtain ⟨margins, names, blanksBefore, blanksAfter, writes, blanksAtEnd, isRemark⟩ := isEntry
  rename_i margin key beforeEquals afterEquals shown afterValue remark
  have remarkStarts := isBoundary_of_isRemark isRemark
  have valueEnds : ∀ c ∈ (afterValue ++ remark).head?, IsBoundary c :=
    forall_head?_append (isBoundary_of_areBlanks blanksAtEnd) fun c next => (remarkStarts c next).1
  have equalsStarts : ∀ c ∈ ('=' :: (afterEquals ++ (shown ++ (afterValue ++ remark)))).head?,
      IsBoundary c ∧ isSpace c = false := by
    rintro _ ⟨⟩
    decide
  have keyEnds : ∀ c ∈ (beforeEquals ++ '=' :: (afterEquals ++ (shown ++ (afterValue ++ remark)))).head?,
      IsBoundary c :=
    forall_head?_append (isBoundary_of_areBlanks blanksBefore) fun c next => (equalsStarts c next).1
  obtain ⟨token, isLeaf, isName, scannedKey⟩ := names.tokens? keyEnds
  obtain ⟨tokens, tree, scannedValue, groups, noGap, shows⟩ := writes.tokens? valueEnds
  have scanned : Lexer.between.tokens?
      (margin ++ (key ++ (beforeEquals ++ '=' :: (afterEquals ++ (shown ++ (afterValue ++ remark)))))) =
        some (blankTokens margin ++ ((token :: (blankTokens beforeEquals ++ .equals ::
          (blankTokens afterEquals ++ tokens))) ++ blankTokens afterValue)) := by
    rw [Lexer.tokens?_blanks margins names.noSpace, scannedKey,
      Lexer.tokens?_blanks blanksBefore fun c next => (equalsStarts c next).2,
      Lexer.tokens?_of_token .between rfl, Lexer.tokens?_blanks blanksAfter writes.noSpace, scannedValue,
      Lexer.tokens?_blanks blanksAtEnd fun c next => (remarkStarts c next).2, Lexer.tokens?_remark isRemark]
    simp
  refine tells?_of_groups scanned ?_ (line?_of_entry isName noGap (areGaps_blankTokens margin)
    (areGaps_blankTokens beforeEquals) (areGaps_blankTokens afterEquals) (areGaps_blankTokens afterValue) shows)
  refine (groups_blankTokens margin).append (.append (.cons isLeaf ?_) (groups_blankTokens afterValue))
  exact (groups_blankTokens beforeEquals).append (.cons .equals ((groups_blankTokens afterEquals).append groups))

end ImportAtlas.Toml
