import ImportAtlas.Json.Reader
import ImportAtlas.Proofs.Json.Grammar

/-! # Texts token by token

A text is scanned character by character. The lemmas of this module let it be scanned token by token instead:
blanks go unnoticed, and a token at the start of a text goes to the reader as a whole. Words and numerals are
completed only by what follows them, so a text must end the token before it.
-/

namespace ImportAtlas.Json

namespace Token

/-- The characters that a token is written with. -/
def spell : Token → List Char
  | .openBrace => ['\x7b']
  | .closeBrace => ['\x7d']
  | .openBracket => ['[']
  | .closeBracket => [']']
  | .comma => [',']
  | .colon => [':']
  | .word text => text
  | .numeral text => text
  | .string raw => quote raw

/-- A token that can stand in the text of a value. -/
inductive IsFormed : Token → Prop
  | openBrace : IsFormed .openBrace
  | closeBrace : IsFormed .closeBrace
  | openBracket : IsFormed .openBracket
  | closeBracket : IsFormed .closeBracket
  | comma : IsFormed .comma
  | colon : IsFormed .colon
  | null : IsFormed (.word ['n', 'u', 'l', 'l'])
  | true : IsFormed (.word ['t', 'r', 'u', 'e'])
  | false : IsFormed (.word ['f', 'a', 'l', 's', 'e'])
  | numeral {text : List Char} (number : IsNumber text) : IsFormed (.numeral text)
  | string {raw : List Char} (isRaw : IsRaw raw) : IsFormed (.string raw)

/-- A token whose end shows only in what follows it. -/
def IsBare : Token → Prop
  | .word _ | .numeral _ => True
  | _ => False

end Token

/-- Whether a text ends a word or a numeral that stands before it. -/
def EndsToken (text : List Char) : Prop :=
  ∀ c ∈ text.head?, isWordChar c = false ∧ isNumeralChar c = false

namespace Scan

/-- The value that a text denotes after what was scanned before it. -/
def value? (scan : Scan) (text : List Char) : Option Json :=
  (scan.run text).bind finish?

variable {reader : Reader} {text : List Char}

theorem value?_cons (scan : Scan) (c : Char) (text : List Char) :
    scan.value? (c :: text) = (scan.step c).bind (·.value? text) := by
  rw [value?, run, List.foldlM_cons, Option.bind_eq_bind, Option.bind_assoc]
  rfl

/-- A character that completes no token only moves the lexer. -/
theorem value?_of_silent {lexer next : Lexer} {c : Char} (silent : lexer.step c = some (next, [])) :
    value? (lexer, reader) (c :: text) = value? (next, reader) text := by
  simp [value?_cons, step, silent, Reader.takeAll]

/-- A character that completes one token hands it to the reader. -/
theorem value?_of_token {lexer next : Lexer} {c : Char} {token : Token}
    (completes : lexer.step c = some (next, [token])) :
    value? (lexer, reader) (c :: text) =
      (reader.take token).bind fun reader => value? (next, reader) text := by
  simp [value?_cons, step, completes, Reader.takeAll, Option.bind_assoc]

/-- A token that is open is completed by whatever cannot go on with it. -/
theorem value?_of_open {lexer : Lexer} {token : Token}
    (ends : ∀ c ∈ text.head?, lexer.step c = (Lexer.begin c).map fun next => (next.1, token :: next.2))
    (finish : lexer.finish? = some [token]) :
    value? (lexer, reader) text =
      (reader.take token).bind fun reader => value? (.between, reader) text := by
  cases text with
  | nil =>
    have nothing : Lexer.between.finish? = some [] := rfl
    simp [value?, run, finish?, finish, nothing, Reader.takeAll]
  | cons c text =>
    rw [value?_cons, step, ends c rfl]
    cases begun : Lexer.begin c with
    | none => simp [value?_cons, step, Lexer.step, begun]
    | some next => simp [value?_cons, step, Lexer.step, begun, Reader.takeAll, Option.bind_assoc]

/-! ## Tokens -/

theorem value?_blanks {blanks : List Char} (blank : ∀ c ∈ blanks, isSpace c = true) :
    value? (.between, reader) (blanks ++ text) = value? (.between, reader) text := by
  induction blanks with
  | nil => rfl
  | cons c blanks ih =>
    obtain ⟨here, later⟩ := List.forall_mem_cons.mp blank
    have silent : Lexer.step .between c = some (.between, []) := by rw [Lexer.step, Lexer.begin, if_pos here]
    rw [List.cons_append, value?_of_silent silent, ih later]

private theorem value?_raw {raw : List Char} (isRaw : IsRaw raw) (seen : List Char) :
    value? (.string seen, reader) (raw ++ text) = value? (.string (raw.reverse ++ seen), reader) text := by
  induction isRaw generalizing seen with
  | nil => rfl
  | @plain c rest noQuote noBackslash visible _ ih =>
    have goesOn : Lexer.step (.string seen) c = some (.string (c :: seen), []) := by
      simp [Lexer.step, noQuote, noBackslash, Nat.not_lt.mpr visible]
    rw [List.cons_append, value?_of_silent goesOn, ih]
    simp
  | @letter c rest known _ ih =>
    have noNumber : c ≠ 'u' := by
      rintro rfl
      revert known
      decide
    have goesOn : Lexer.step (.escape ('\\' :: seen)) c = some (.string (c :: '\\' :: seen), []) := by
      rw [Lexer.step, if_neg noNumber, if_pos known]
    rw [List.cons_append, List.cons_append, value?_of_silent rfl, value?_of_silent goesOn, ih]
    simp
  | @number a b c d rest hex _ ih =>
    simp only [List.forall_mem_cons, Option.isSome_iff_ne_none, ne_eq, ← Option.isNone_iff_eq_none,
      Bool.not_eq_true] at hex
    obtain ⟨first, second, third, fourth, -⟩ := hex
    simp only [List.cons_append]
    rw [value?_of_silent rfl, value?_of_silent rfl, value?_of_silent (by rw [Lexer.step, first]; rfl),
      value?_of_silent (by rw [Lexer.step, second]; rfl), value?_of_silent (by rw [Lexer.step, third]; rfl),
      value?_of_silent (by rw [Lexer.step, fourth]; rfl), ih]
    simp

/-- A string in its quotes is one token. -/
private theorem value?_quote {raw : List Char} (isRaw : IsRaw raw) (text : List Char) :
    value? (.between, reader) (quote raw ++ text) =
      (reader.take (.string raw)).bind fun reader => value? (.between, reader) text := by
  rw [quote, List.cons_append, List.append_assoc, value?_of_silent rfl, value?_raw isRaw,
    List.singleton_append, value?_of_token rfl]
  simp

/-- Characters that go on with an open word or numeral are collected. -/
private theorem value?_collect {held : List Char → Lexer} {chars : List Char}
    (goesOn : ∀ c ∈ chars, ∀ seen, (held seen).step c = some (held (c :: seen), [])) (seen : List Char) :
    value? (held seen, reader) (chars ++ text) = value? (held (chars.reverse ++ seen), reader) text := by
  induction chars generalizing seen with
  | nil => rfl
  | cons c chars ih =>
    rw [List.cons_append, value?_of_silent (goesOn c List.mem_cons_self seen),
      ih fun other member => goesOn other (List.mem_cons_of_mem _ member)]
    simp

/-- Letters make one word, before anything that is no letter. -/
private theorem value?_word {first : Char} {rest : List Char}
    (begins : Lexer.step .between first = some (.word [first], []))
    (letters : rest.all isWordChar) (ends : EndsToken text) :
    value? (.between, reader) (first :: rest ++ text) =
      (reader.take (.word (first :: rest))).bind fun reader => value? (.between, reader) text := by
  have goesOn (c : Char) (member : c ∈ rest) (seen : List Char) :
      Lexer.step (.word seen) c = some (.word (c :: seen), []) := by
    simp [Lexer.step, List.all_eq_true.mp letters c member]
  rw [List.cons_append, value?_of_silent begins, value?_collect goesOn]
  apply value?_of_open _ (by simp [Lexer.finish?])
  intro c next
  simp [Lexer.step, (ends c next).1]

private theorem begin_of_isDigit {c : Char} (digit : c.isDigit) :
    Lexer.step .between c = some (.numeral [c], []) := by
  have differs := ne_of_isDigit digit
  have noSpace : isSpace c = false := by
    simp [isSpace, differs ' ' rfl, differs '\t' rfl, differs '\n' rfl, differs '\r' rfl]
  rw [Lexer.step, Lexer.begin, noSpace, if_neg Bool.false_ne_true, if_neg (differs _ rfl), if_neg (differs _ rfl),
    if_neg (differs _ rfl), if_neg (differs _ rfl), if_neg (differs _ rfl), if_neg (differs _ rfl),
    if_neg (differs _ rfl), if_pos (by simp [digit])]

/-- A numeral is one token, before anything that cannot go on with it. -/
private theorem value?_numeral {chars : List Char} (number : IsNumber chars) (ends : EndsToken text) :
    value? (.between, reader) (chars ++ text) =
      (reader.take (.numeral chars)).bind fun reader => value? (.between, reader) text := by
  obtain ⟨first, rest, rfl, begins, more⟩ := number.exists_cons
  have goesOn (c : Char) (member : c ∈ rest) (seen : List Char) :
      Lexer.step (.numeral seen) c = some (.numeral (c :: seen), []) := by
    simp [Lexer.step, more c member]
  have begun : Lexer.step .between first = some (.numeral [first], []) := by
    rcases begins with rfl | digit
    · rfl
    · exact begin_of_isDigit digit
  rw [List.cons_append, value?_of_silent begun, value?_collect goesOn]
  apply value?_of_open _ (by simp [Lexer.finish?])
  intro c next
  simp [Lexer.step, (ends c next).2]

/-- A token at the start of a text goes to the reader as a whole. -/
theorem value?_spell {token : Token} (formed : token.IsFormed) (ends : token.IsBare → EndsToken text) :
    value? (.between, reader) (token.spell ++ text) =
      (reader.take token).bind fun reader => value? (.between, reader) text := by
  cases formed with
  | null => exact value?_word rfl rfl (ends trivial)
  | true => exact value?_word rfl rfl (ends trivial)
  | false => exact value?_word rfl rfl (ends trivial)
  | numeral number => exact value?_numeral number (ends trivial)
  | string isRaw => exact value?_quote isRaw text
  | _ => exact value?_of_token rfl

end Scan

end ImportAtlas.Json
