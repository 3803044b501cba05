import ImportAtlas.Toml.Value

/-! # How texts are written in TOML

A text stands between double quotes. Quotes, backslashes and control characters stand behind a backslash there,
as letters or as numbers, and so may all other characters. An array of texts may run over several lines and hold
comments. An entry is a key and a value on a line, maybe with a comment behind them.

Every text and every array of texts can be written, and in many ways.
-/

namespace ImportAtlas.Toml

/-! ## Texts -/

/-- A character that can stand in a text or a comment: a tab, or no control character. -/
def IsVisible (c : Char) : Prop :=
  c = '\t' ∨ 0x20 ≤ c.toNat

instance (c : Char) : Decidable (IsVisible c) :=
  inferInstanceAs (Decidable (_ ∨ _))

/-- The letters that stand for characters behind a backslash. -/
def letters : List (Char × Char) :=
  [('"', '"'), ('\\', '\\'), ('b', '\x08'), ('f', '\x0c'), ('n', '\n'), ('r', '\r'), ('t', '\t')]

/-- Whether `raw` can stand for `text` between double quotes. -/
inductive Spells : List Char → List Char → Prop
  | nil : Spells [] []
  /-- A character that stands for itself. -/
  | plain {c : Char} {raw text : List Char} (noQuote : c ≠ '"') (noBackslash : c ≠ '\\') (visible : IsVisible c)
      (noDelete : c ≠ '\x7f') (more : Spells raw text) : Spells (c :: raw) (c :: text)
  /-- A backslash and a letter. -/
  | letter {letter c : Char} {raw text : List Char} (known : (letter, c) ∈ letters) (more : Spells raw text) :
      Spells ('\\' :: letter :: raw) (c :: text)
  /-- A backslash and the number of a character, in four or eight hexadecimal digits. -/
  | number {mark c : Char} {digits raw text : List Char}
      (length : (mark, digits.length) = ('u', 4) ∨ (mark, digits.length) = ('U', 8))
      (number : Numeral.ofDigits? 16 digits = some c.toNat) (more : Spells raw text) :
      Spells ('\\' :: mark :: (digits ++ raw)) (c :: text)

/-- The spelling of a text in its quotes. -/
def quoted (raw : List Char) : List Char :=
  '"' :: (raw ++ ['"'])

private theorem ofDigits?_of_control :
    ∀ n < 128, Numeral.ofDigits? 16 ['0', '0', Nat.digitChar (n / 16), Nat.digitChar (n % 16)] = some n := by
  decide

/-- Every text can be written between double quotes. -/
theorem exists_spells (text : List Char) : ∃ raw, Spells raw text := by
  induction text with
  | nil => exact ⟨[], .nil⟩
  | cons c text ih =>
    obtain ⟨raw, more⟩ := ih
    by_cases small : c.toNat < 128
    · -- The number is one way to write any of these, a quote and a delete among them.
      exact ⟨_, .number (.inl rfl) (ofDigits?_of_control _ small) more⟩
    · have visible : IsVisible c := .inr (by omega)
      refine ⟨_, .plain ?_ ?_ visible ?_ more⟩
      all_goals
        rintro rfl
        exact small (by decide)

/-! ## Lines and values -/

/-- Spaces and tabs, or nothing. -/
def AreBlanks (blanks : List Char) : Prop :=
  ∀ c ∈ blanks, c = ' ' ∨ c = '\t'

instance (blanks : List Char) : Decidable (AreBlanks blanks) :=
  List.decidableBAll (fun c => c = ' ' ∨ c = '\t') blanks

/-- Words that can stand in a comment. -/
def AreVisible (words : List Char) : Prop :=
  ∀ c ∈ words, IsVisible c

instance (words : List Char) : Decidable (AreVisible words) :=
  List.decidableBAll IsVisible words

/-- A comment, or nothing. -/
inductive IsRemark : List Char → Prop
  | nil : IsRemark []
  | comment {words : List Char} (visible : AreVisible words) : IsRemark ('#' :: words)

/-- What can stand around the items of an array: blanks, line breaks, and comments to the end of their lines. -/
inductive IsSpacing : List Char → Prop
  | nil : IsSpacing []
  | blank {c : Char} {rest : List Char} (blank : c = ' ' ∨ c = '\t') (more : IsSpacing rest) : IsSpacing (c :: rest)
  | newline {rest : List Char} (more : IsSpacing rest) : IsSpacing ('\n' :: rest)
  | comment {words rest : List Char} (visible : AreVisible words) (more : IsSpacing rest) :
      IsSpacing ('#' :: (words ++ '\n' :: rest))

/-- What can stand between the brackets of an array for some texts. The last one may be followed by a comma. -/
inductive Lists : List Char → List (List Char) → Prop
  | nil {spacing : List Char} (isSpacing : IsSpacing spacing) : Lists spacing []
  | last {before raw text after : List Char} (spaceBefore : IsSpacing before) (spells : Spells raw text)
      (spaceAfter : IsSpacing after) : Lists (before ++ (quoted raw ++ after)) [text]
  | cons {before raw text after rest : List Char} {texts : List (List Char)} (spaceBefore : IsSpacing before)
      (spells : Spells raw text) (spaceAfter : IsSpacing after) (more : Lists rest texts) :
      Lists (before ++ (quoted raw ++ (after ++ ',' :: rest))) (text :: texts)

/-- How texts, arrays of texts, truth values and natural numbers can be written. -/
inductive Writes : List Char → Value → Prop
  | text {raw text : List Char} (spells : Spells raw text) : Writes (quoted raw) (.text text)
  | array {inner : List Char} {texts : List (List Char)} (lists : Lists inner texts) :
      Writes ('[' :: (inner ++ [']'])) (.array (texts.map .text))
  | truth {word : List Char} (known : word = "true".toList ∨ word = "false".toList) : Writes word .scalar
  | number {n : Nat} (fits : n < Nat.pow 2 63) : Writes (Numeral.write n) .scalar

/-- How a name can be written: as a word, or between quotes of either kind. -/
inductive Names : List Char → KeyPart → Prop
  | bare {word : List Char} (nonempty : word ≠ []) (bare : ∀ c ∈ word, isBareChar c = true) : Names word word
  | quoted {raw name : List Char} (spells : Spells raw name) : Names (quoted raw) name
  | literal {name : List Char} (visible : ∀ c ∈ name, IsVisible c ∧ c ≠ '\x7f') (noQuote : '\'' ∉ name) :
      Names ('\'' :: (name ++ ['\''])) name

/-- A line with nothing but maybe a comment on it. -/
inductive IsEmptyLine : List Char → Prop
  | mk {blanks remark : List Char} (areBlanks : AreBlanks blanks) (isRemark : IsRemark remark) :
      IsEmptyLine (blanks ++ remark)

/-- An entry of such a value. Only an array takes more than one line. -/
inductive IsEntry : List Char → KeyPart → Value → Prop
  | mk {margin key beforeEquals afterEquals shown afterValue remark : List Char} {name : KeyPart} {value : Value}
      (margins : AreBlanks margin) (names : Names key name) (blanksBefore : AreBlanks beforeEquals)
      (blanksAfter : AreBlanks afterEquals) (writes : Writes shown value) (blanksAtEnd : AreBlanks afterValue)
      (isRemark : IsRemark remark) :
      IsEntry (margin ++ (key ++ (beforeEquals ++ '=' :: (afterEquals ++ (shown ++ (afterValue ++ remark))))))
        name value

/-- The usual form of an entry. -/
theorem isEntry_of_word (word : List Char) {shown : List Char} {value : Value} (nonempty : word ≠ [])
    (bare : word.all isBareChar = true) (writes : Writes shown value) :
    IsEntry (word ++ ' ' :: '=' :: ' ' :: shown) word value := by
  have nothing : AreBlanks [] := by decide
  have space : AreBlanks [' '] := by decide
  have isEntry := IsEntry.mk nothing (.bare nonempty (List.all_eq_true.mp bare)) space space writes nothing .nil
  simpa using isEntry

/-- Every array of texts can be written. -/
theorem exists_lists (texts : List (List Char)) : ∃ inner, Lists inner texts := by
  induction texts with
  | nil => exact ⟨[], .nil .nil⟩
  | cons text texts ih =>
    obtain ⟨rest, more⟩ := ih
    obtain ⟨raw, spells⟩ := exists_spells text
    exact ⟨_, .cons .nil spells .nil more⟩

end ImportAtlas.Toml
