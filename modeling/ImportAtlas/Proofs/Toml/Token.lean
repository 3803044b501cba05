import ImportAtlas.Proofs.Toml.Grammar
import Mathlib.Tactic.SplitIfs

/-! # Texts token by token

A text is scanned character by character. The lemmas of this module let it be scanned token by token instead. A
token whose end shows only in what follows it is completed by whatever cannot go on with it. At a line break
everything is completed, so that the tokens of two texts with a line break between them are those of the first, the
line break and those of the second.
-/

namespace ImportAtlas.Toml

/-- What spacing is made of. -/
inductive Token.IsGap : Token → Prop
  | blanks (run : List Char) : IsGap (.blanks run)
  | newline : IsGap .newline

/-- The tokens that blanks make. -/
def blankTokens (blanks : List Char) : List Token :=
  if blanks = [] then [] else [.blanks blanks]

namespace Lexer

variable {lexer next : Lexer} {c : Char} {text rest : List Char}

theorem tokens?_of_silent (next : Lexer) (silent : lexer.step c = some (next, [])) :
    lexer.tokens? (c :: text) = next.tokens? text := by
  rw [tokens?, silent]
  exact Option.map_id'

theorem tokens?_of_token (next : Lexer) {token : Token} (completes : lexer.step c = some (next, [token])) :
    lexer.tokens? (c :: text) = (next.tokens? text).map (token :: ·) := by
  rw [tokens?, completes]
  rfl

/-- A token that is open is completed by whatever cannot go on with it. -/
theorem tokens?_of_open (token : Token) (finish : lexer.finish? = some [token])
    (ends : ∀ c ∈ text.head?, lexer.step c = beginAfter token c) :
    lexer.tokens? text = (between.tokens? text).map (token :: ·) := by
  cases text with
  | nil => exact finish
  | cons c text =>
    rw [tokens?, tokens?, ends c rfl, beginAfter, step]
    cases begin c with
    | none => rfl
    | some begun => simp [Function.comp_def]

/-! ## Line breaks -/

/-- Quotes are of one of the two kinds. -/
def IsSound : Lexer → Prop
  | opened quote | doubled quote | tripled quote | inside quote _ _ | closing quote _ _ => quote = '"' ∨ quote = '\''
  | _ => True

theorem isSound_between : between.IsSound :=
  trivial

private theorem forall_of_ite {α : Type} {p : Prop} [Decidable p] {holds : α → Prop} {item : α} {others : Option α}
    (here : p → holds item) (otherwise : ∀ other, others = some other → holds other) :
    ∀ other, (if p then some item else others) = some other → holds other := by
  intro other found
  split at found
  case isTrue isHere => exact Option.some.inj found ▸ here isHere
  case isFalse => exact otherwise other found

theorem isSound_of_begin : ∀ begun, begin c = some begun → begun.1.IsSound := by
  unfold begin
  iterate 12 refine forall_of_ite (fun _ => trivial) ?_
  refine forall_of_ite (fun quote => by simpa [IsSound] using quote) ?_
  exact forall_of_ite (fun _ => trivial) fun _ nothing => nomatch nothing

theorem isSound_of_beginAfter {token : Token} {tokens : List Token} (begun : beginAfter token c = some (next, tokens)) :
    next.IsSound := by
  obtain ⟨begun, begins, same⟩ := Option.map_eq_some_iff.mp begun
  obtain ⟨rfl, -⟩ := Prod.mk.inj same
  exact isSound_of_begin _ begins

theorem isSound_of_readText {quote : Char} {multiline : Bool} {seen : List Char} {tokens : List Token}
    (sound : quote = '"' ∨ quote = '\'') (read : readText quote multiline seen c = some (next, tokens)) :
    next.IsSound := by
  grind [readText, IsSound]

theorem isSound_of_readEscape {multiline : Bool} {seen : List Char} (read : readEscape multiline seen c = some next) :
    next.IsSound := by
  grind [readEscape, IsSound]

theorem isSound_of_readDigit {multiline : Bool} {left value : Nat} {seen : List Char}
    (read : readDigit multiline left value seen c = some next) : next.IsSound := by
  grind [readDigit, IsSound]

/-- Only a quote opens a text. -/
theorem IsSound.step {tokens : List Token} (sound : lexer.IsSound) (stepped : lexer.step c = some (next, tokens)) :
    next.IsSound := by
  cases lexer with
  | between => exact isSound_of_begin _ stepped
  | inside quote multiline seen => exact isSound_of_readText sound stepped
  | escape multiline seen =>
    obtain ⟨after, read, same⟩ := Option.map_eq_some_iff.mp stepped
    obtain ⟨rfl, -⟩ := Prod.mk.inj same
    exact isSound_of_readEscape read
  | digits multiline left value seen =>
    obtain ⟨after, read, same⟩ := Option.map_eq_some_iff.mp stepped
    obtain ⟨rfl, -⟩ := Prod.mk.inj same
    exact isSound_of_readDigit read
  | _ => grind [Lexer.step, IsSound, isSound_of_beginAfter, isSound_of_readText]

/-- What may be the end of a text may be followed by a line break, which completes the same tokens. -/
theorem IsSound.step_newline {tokens : List Token} (sound : lexer.IsSound) (finish : lexer.finish? = some tokens) :
    lexer.step '\n' = some (.between, tokens ++ [.newline]) := by
  have begins : begin '\n' = some (.between, [.newline]) := rfl
  cases lexer with
  | between => cases finish; rfl
  | blanks seen => cases finish; rfl
  | bare seen => cases finish; rfl
  | comment => cases finish; rfl
  | doubled quote =>
    cases finish
    rcases sound with rfl | rfl <;> rfl
  | closing quote count seen =>
    rw [finish?] at finish
    split_ifs at finish with few
    cases finish
    have other : '\n' ≠ quote := by rcases sound with rfl | rfl <;> decide
    rw [Lexer.step, if_neg other, if_neg few]
    rfl
  | _ => cases finish

/-- The tokens of two texts with a line break between them are those of the first, the line break and those of the
second. -/
theorem tokens?_append_newline {tokens : List Token} (sound : lexer.IsSound) (read : lexer.tokens? text = some tokens) :
    lexer.tokens? (text ++ '\n' :: rest) = (between.tokens? rest).map (tokens ++ .newline :: ·) := by
  induction text generalizing lexer tokens with
  | nil =>
    rw [List.nil_append, tokens?, sound.step_newline read]
    simp
  | cons c text ih =>
    rw [tokens?] at read
    split at read
    case h_1 => cases read
    case h_2 next done stepped =>
      obtain ⟨more, readMore, rfl⟩ := Option.map_eq_some_iff.mp read
      rw [List.cons_append, tokens?, stepped]
      dsimp only
      rw [ih (sound.step stepped) readMore, Option.map_map]
      simp [Function.comp_def]

/-! ## Tokens -/

theorem isSpace_iff : isSpace c = true ↔ c = ' ' ∨ c = '\t' := by
  simp [isSpace]

private theorem tokens?_collect (held : List Char → Lexer) {chars : List Char}
    (goesOn : ∀ c ∈ chars, ∀ seen, (held seen).step c = some (held (c :: seen), [])) (seen : List Char) :
    (held seen).tokens? (chars ++ rest) = (held (chars.reverse ++ seen)).tokens? rest := by
  induction chars generalizing seen with
  | nil => rfl
  | cons c chars ih =>
    rw [List.cons_append, tokens?_of_silent _ (goesOn c List.mem_cons_self seen),
      ih fun other member => goesOn other (List.mem_cons_of_mem _ member)]
    simp

/-- Blanks make one token, before anything that is no blank. -/
theorem tokens?_blanks {blanks : List Char} (areBlanks : AreBlanks blanks)
    (ends : ∀ c ∈ rest.head?, isSpace c = false) :
    between.tokens? (blanks ++ rest) = (between.tokens? rest).map (blankTokens blanks ++ ·) := by
  cases blanks with
  | nil => exact Option.map_id'.symm
  | cons c blanks =>
    have blank : ∀ other ∈ c :: blanks, isSpace other = true := fun other member =>
      isSpace_iff.mpr (areBlanks other member)
    obtain ⟨here, later⟩ := List.forall_mem_cons.mp blank
    have begins : between.step c = some (.blanks [c], []) := by rw [step, begin, if_pos here]
    have goesOn (other : Char) (member : other ∈ blanks) (seen : List Char) :
        (Lexer.blanks seen).step other = some (.blanks (other :: seen), []) := by
      rw [step, if_pos (later other member)]
    rw [List.cons_append, tokens?_of_silent _ begins, tokens?_collect .blanks goesOn,
      tokens?_of_open (.blanks (c :: blanks)) (by simp [finish?]), blankTokens, if_neg (List.cons_ne_nil _ _)]
    · rfl
    · intro other next
      rw [step, if_neg (by simp [ends other next])]
      simp

private theorem begin_of_isBareChar (bare : isBareChar c = true) : begin c = some (.bare [c], []) := by
  have differs (other : Char) (noBare : isBareChar other = false) : c ≠ other := by
    rintro rfl
    cases bare.symm.trans noBare
  have noSpace : isSpace c = false := by simp [isSpace, differs ' ' rfl, differs '\t' rfl]
  have noQuote : (c = '"' || c = '\'') = false := by simp [differs '"' rfl, differs '\'' rfl]
  rw [begin, noSpace, if_neg Bool.false_ne_true, if_neg (differs _ rfl), if_neg (differs _ rfl),
    if_neg (differs _ rfl), if_neg (differs _ rfl), if_neg (differs _ rfl), if_neg (differs _ rfl),
    if_neg (differs _ rfl), if_neg (differs _ rfl), if_neg (differs _ rfl), if_neg (differs _ rfl),
    if_neg (differs _ rfl), noQuote, if_neg Bool.false_ne_true, if_pos bare]

/-- A word is one token, before anything that cannot go on with it. -/
theorem tokens?_bare {word : List Char} (nonempty : word ≠ []) (bare : ∀ c ∈ word, isBareChar c = true)
    (ends : ∀ c ∈ rest.head?, isBareChar c = false) :
    between.tokens? (word ++ rest) = (between.tokens? rest).map (.bare word :: ·) := by
  obtain ⟨c, word, rfl⟩ := List.exists_cons_of_ne_nil nonempty
  obtain ⟨here, later⟩ := List.forall_mem_cons.mp bare
  have begins : between.step c = some (.bare [c], []) := begin_of_isBareChar here
  have goesOn (other : Char) (member : other ∈ word) (seen : List Char) :
      (Lexer.bare seen).step other = some (.bare (other :: seen), []) := by
    rw [step, if_pos (later other member)]
  rw [List.cons_append, tokens?_of_silent _ begins, tokens?_collect .bare goesOn,
    tokens?_of_open (.bare (c :: word)) (by simp [finish?])]
  intro other next
  rw [step, if_neg (by simp [ends other next])]
  simp

/-! ## Texts in quotes -/

theorem isCommentChar_of_isVisible (visible : IsVisible c) : isCommentChar c = true := by
  simpa [isCommentChar, IsVisible] using visible

theorem isTextChar_of_isVisible (visible : IsVisible c) (noDelete : c ≠ '\x7f') : isTextChar c = true := by
  simp [isTextChar, isCommentChar_of_isVisible visible, noDelete]

theorem ne_newline_of_isVisible (visible : IsVisible c) : c ≠ '\n' := by
  rintro rfl
  revert visible
  decide

/-- A visible character belongs to a text that it does not end. -/
theorem step_inside {quote : Char} (visible : IsVisible c) (noDelete : c ≠ '\x7f') (noQuote : c ≠ quote)
    (noEscape : ¬(c = '\\' ∧ quote = '"')) (seen : List Char) :
    (inside quote false seen).step c = some (.inside quote false (c :: seen), []) := by
  rw [step, readText, if_neg (ne_newline_of_isVisible visible), if_neg noQuote, if_neg (by simpa using noEscape),
    if_pos (isTextChar_of_isVisible visible noDelete)]

theorem hexValue?_of_digitValue? {digit : Char} {value : Nat} (reads : Numeral.digitValue? 16 digit = some value) :
    Numeral.hexValue? digit = some value :=
  (Option.filter_eq_some_iff.mp reads).1

/-- The digits of a number behind a backslash make the character with this number. -/
private theorem tokens?_digits {digits : List Char} {values : List Nat} {seen : List Char} (nonempty : digits ≠ [])
    (reads : digits.mapM (Numeral.digitValue? 16) = some values) (value : Nat)
    (number : values.foldl (fun n d => n * 16 + d) value = c.toNat) :
    (Lexer.digits false digits.length value seen).tokens? (digits ++ rest) =
      (inside '"' false (c :: seen)).tokens? rest := by
  induction digits generalizing value values with
  | nil => exact absurd rfl nonempty
  | cons digit digits ih =>
    rw [List.mapM_cons] at reads
    obtain ⟨here, readsHere, later⟩ := Option.bind_eq_some_iff.mp reads
    obtain ⟨behind, readsLater, same⟩ := Option.bind_eq_some_iff.mp later
    obtain rfl : here :: behind = values := Option.some.inj same
    have hex := hexValue?_of_digitValue? readsHere
    cases digits with
    | nil =>
      obtain rfl : [] = behind := Option.some.inj readsLater
      have valid : (value * 16 + here).isValidChar := by
        rw [show value * 16 + here = c.toNat from number]
        exact c.valid
      have completes : (Lexer.digits false 1 value seen).step digit = some (.inside '"' false (c :: seen), []) := by
        rw [step, readDigit, hex]
        dsimp only
        rw [if_neg (by decide), if_pos valid, show value * 16 + here = c.toNat from number, Char.ofNat_toNat]
        rfl
      exact tokens?_of_silent _ completes
    | cons next digits =>
      have goesOn : (Lexer.digits false (digit :: next :: digits).length value seen).step digit =
          some (.digits false (next :: digits).length (value * 16 + here) seen, []) := by
        rw [step, readDigit, hex]
        dsimp only
        rw [if_pos (by simp)]
        rfl
      rw [List.cons_append, tokens?_of_silent _ goesOn]
      exact ih (List.cons_ne_nil _ _) readsLater _ number

theorem escaped?_of_mem_letters : ∀ pair ∈ letters, escaped? pair.1 = some pair.2 := by
  decide

/-- What spells a text between double quotes is scanned as this text. -/
theorem tokens?_inside {raw : List Char} (spells : Spells raw text) (seen : List Char) :
    (inside '"' false seen).tokens? (raw ++ '"' :: rest) =
      (between.tokens? rest).map (.text (seen.reverse ++ text) false :: ·) := by
  induction spells generalizing seen with
  | nil =>
    rw [List.append_nil]
    exact tokens?_of_token .between rfl
  | @plain c raw text noQuote noBackslash visible noDelete more ih =>
    have goesOn := step_inside visible noDelete noQuote (fun escape => noBackslash escape.1) seen
    rw [List.cons_append, tokens?_of_silent _ goesOn, ih]
    simp
  | @letter letter c raw text known more ih =>
    have stands : (escape false seen).step letter = some (.inside '"' false (c :: seen), []) := by
      rw [step, readEscape, escaped?_of_mem_letters _ known]
      rfl
    rw [List.cons_append, List.cons_append, tokens?_of_silent (.escape false seen) rfl,
      tokens?_of_silent _ stands, ih]
    simp
  | @number mark c digits raw text length number more ih =>
    obtain ⟨values, reads, value⟩ := Option.map_eq_some_iff.mp number
    have calls : (escape false seen).step mark = some (.digits false digits.length 0 seen, []) := by
      rcases length with length | length
      all_goals
        obtain ⟨rfl, size⟩ := Prod.mk.inj length
        rw [size]
        rfl
    have nonempty : digits ≠ [] := by
      rintro rfl
      rcases length with length | length
      all_goals cases length
    rw [List.cons_append, List.cons_append, List.append_assoc, tokens?_of_silent (.escape false seen) rfl,
      tokens?_of_silent _ calls, tokens?_digits nonempty reads 0 value, ih]
    simp

/-- A text between quotes is one token if no third quote follows two that hold nothing. -/
private theorem tokens?_between_quotes {quote : Char} {raw : List Char} (isQuote : quote = '"' ∨ quote = '\'')
    (starts : ∀ c ∈ raw.head?, c ≠ quote) (empty : raw = [] → text = [])
    (scanned : (inside quote false []).tokens? (raw ++ quote :: rest) =
      (between.tokens? rest).map (.text text false :: ·))
    (ends : ∀ c ∈ rest.head?, c ≠ quote) :
    between.tokens? (quote :: (raw ++ quote :: rest)) = (between.tokens? rest).map (.text text false :: ·) := by
  have opens : between.step quote = some (.opened quote, []) := by rcases isQuote with rfl | rfl <;> rfl
  rw [tokens?_of_silent _ opens]
  cases raw with
  | nil =>
    have doubles : (opened quote).step quote = some (.doubled quote, []) := by rw [step, if_pos rfl]
    rw [List.nil_append, tokens?_of_silent _ doubles, empty rfl]
    refine tokens?_of_open _ rfl ?_
    intro c next
    rw [step, if_neg (ends c next)]
  | cons c raw =>
    rw [← scanned, List.cons_append, tokens?, tokens?, step, if_neg (starts c rfl), step]

theorem ne_quote_of_spells {raw : List Char} (spells : Spells raw text) : ∀ c ∈ raw.head?, c ≠ '"' := by
  rintro c starts rfl
  cases spells with
  | nil => cases starts
  | plain noQuote => exact noQuote (Option.some.inj starts)
  | letter => cases starts
  | number => cases starts

/-- A text between double quotes is one token. -/
theorem tokens?_quoted {raw : List Char} (spells : Spells raw text) (ends : ∀ c ∈ rest.head?, c ≠ '"') :
    between.tokens? (quoted raw ++ rest) = (between.tokens? rest).map (.text text false :: ·) := by
  have empty : raw = [] → text = [] := by
    rintro rfl
    cases spells
    rfl
  have scanned := tokens?_between_quotes (.inl rfl) (ne_quote_of_spells spells) empty (tokens?_inside spells []) ends
  rwa [quoted, List.cons_append, List.append_assoc]

/-- A text between single quotes is one token. -/
theorem tokens?_literal (visible : ∀ c ∈ text, IsVisible c ∧ c ≠ '\x7f') (noQuote : '\'' ∉ text)
    (ends : ∀ c ∈ rest.head?, c ≠ '\'') :
    between.tokens? ('\'' :: (text ++ '\'' :: rest)) = (between.tokens? rest).map (.text text false :: ·) := by
  have other (c : Char) (member : c ∈ text) : c ≠ '\'' := fun same => noQuote (same ▸ member)
  have goesOn (c : Char) (member : c ∈ text) (seen : List Char) :
      (inside '\'' false seen).step c = some (.inside '\'' false (c :: seen), []) :=
    step_inside (visible c member).1 (visible c member).2 (other c member) (fun escape => nomatch escape.2) seen
  refine tokens?_between_quotes (.inr rfl) (fun c starts => other c (List.mem_of_mem_head? starts)) id ?_ ends
  have closes : (inside '\'' false text.reverse).step '\'' = some (.between, [.text text false]) := by
    rw [step, readText, if_neg (by decide), if_pos rfl, List.reverse_reverse]
    rfl
  rw [tokens?_collect _ goesOn, List.append_nil, tokens?_of_token _ closes]

/-! ## Comments and spacing -/

theorem tokens?_comment {words : List Char} (visible : AreVisible words) :
    comment.tokens? (words ++ rest) = comment.tokens? rest := by
  refine tokens?_collect (fun _ => comment) ?_ []
  intro c member _
  rw [step, if_pos (isCommentChar_of_isVisible (visible c member))]

/-- A comment at the end of a text makes no token. -/
theorem tokens?_remark {remark : List Char} (isRemark : IsRemark remark) : between.tokens? remark = some [] := by
  cases isRemark with
  | nil => rfl
  | @comment words visible =>
    have scanned : comment.tokens? (words ++ []) = some [] := tokens?_comment visible
    rw [List.append_nil] at scanned
    rw [tokens?_of_silent .comment rfl, scanned]

/-- What is open where blanks may go on. -/
private def pending : Lexer → List Token
  | .blanks seen => [.blanks seen.reverse]
  | _ => []

/-- Nothing but maybe blanks is open. -/
private inductive IsIdle : Lexer → Prop
  | afterToken : IsIdle .between
  | inBlanks (seen : List Char) : IsIdle (.blanks seen)

private theorem IsIdle.pending (idle : lexer.IsIdle) : ∀ token ∈ lexer.pending, token.IsGap := by
  cases idle with
  | afterToken => exact List.forall_mem_nil _
  | inBlanks seen => exact List.forall_mem_singleton.mpr (.blanks _)

private theorem IsIdle.step (idle : lexer.IsIdle) (space : isSpace c = true) :
    ∃ next : Lexer, next.IsIdle ∧ lexer.step c = some (next, []) := by
  cases idle with
  | afterToken => exact ⟨.blanks [c], .inBlanks _, by rw [Lexer.step, begin, if_pos space]⟩
  | inBlanks seen => exact ⟨.blanks (c :: seen), .inBlanks _, by rw [Lexer.step, if_pos space]⟩

private theorem IsIdle.tokens?_eq (idle : lexer.IsIdle) (ends : ∀ c ∈ text.head?, isSpace c = false) :
    lexer.tokens? text = (between.tokens? text).map (lexer.pending ++ ·) := by
  cases idle with
  | afterToken => exact Option.map_id'.symm
  | inBlanks seen =>
    refine tokens?_of_open _ rfl ?_
    intro c next
    rw [Lexer.step, if_neg (by simp [ends c next])]

private theorem IsIdle.tokens?_spacing {spacing : List Char} (idle : lexer.IsIdle) (isSpacing : IsSpacing spacing)
    (ends : ∀ c ∈ rest.head?, isSpace c = false) :
    ∃ gaps : List Token, (∀ token ∈ gaps, token.IsGap) ∧
      lexer.tokens? (spacing ++ rest) = (between.tokens? rest).map (gaps ++ ·) := by
  induction isSpacing generalizing lexer with
  | nil => exact ⟨lexer.pending, idle.pending, idle.tokens?_eq ends⟩
  | @blank c spacing blank more ih =>
    obtain ⟨next, idleNext, goesOn⟩ := idle.step (isSpace_iff.mpr blank)
    obtain ⟨gaps, areGaps, scanned⟩ := ih idleNext
    exact ⟨gaps, areGaps, by rw [List.cons_append, tokens?_of_silent _ goesOn, scanned]⟩
  | @newline spacing more ih =>
    obtain ⟨gaps, areGaps, scanned⟩ := ih .afterToken
    refine ⟨lexer.pending ++ .newline :: gaps, ?_, ?_⟩
    · exact List.forall_mem_append.mpr ⟨idle.pending, List.forall_mem_cons.mpr ⟨.newline, areGaps⟩⟩
    · rw [List.cons_append, idle.tokens?_eq (by simp [isSpace]), tokens?_of_token .between rfl, scanned]
      simp [Function.comp_def]
  | @comment words spacing visible more ih =>
    obtain ⟨gaps, areGaps, scanned⟩ := ih .afterToken
    refine ⟨lexer.pending ++ .newline :: gaps, ?_, ?_⟩
    · exact List.forall_mem_append.mpr ⟨idle.pending, List.forall_mem_cons.mpr ⟨.newline, areGaps⟩⟩
    · rw [List.cons_append, List.append_assoc, idle.tokens?_eq (by simp [isSpace]),
        tokens?_of_silent .comment rfl, tokens?_comment visible, List.cons_append,
        tokens?_of_token .between rfl, scanned]
      simp [Function.comp_def]

/-- Spacing makes gaps, before anything that is no blank. -/
theorem tokens?_spacing {spacing : List Char} (isSpacing : IsSpacing spacing)
    (ends : ∀ c ∈ rest.head?, isSpace c = false) :
    ∃ gaps : List Token, (∀ token ∈ gaps, token.IsGap) ∧
      between.tokens? (spacing ++ rest) = (between.tokens? rest).map (gaps ++ ·) :=
  IsIdle.afterToken.tokens?_spacing isSpacing ends

end Lexer

end ImportAtlas.Toml
