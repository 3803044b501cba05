import ImportAtlas.Proofs.Json.Reader

/-! # Values are read whatever their layout

A text of a value consists of the tokens of the value with any blanks around them. Such a text denotes the
value, so how it is laid out does not matter. The text that the program prints is one of these.
-/

namespace ImportAtlas.Json

/-- A text that consists of some tokens, with blanks before, between and behind them. -/
inductive Spaced : List Token → List Char → Prop
  | nil {blanks : List Char} (blank : ∀ c ∈ blanks, isSpace c = true) : Spaced [] blanks
  | cons {token : Token} {rest : List Token} {blanks text : List Char} (blank : ∀ c ∈ blanks, isSpace c = true)
      (behind : Spaced rest text) : Spaced (token :: rest) (blanks ++ (token.spell ++ text))

/-- A JSON text of a value: the value is well-formed, and the text consists of its tokens. -/
structure IsTextOf (text : List Char) (value : Json) : Prop where
  formed : IsWellFormed value
  spaced : Spaced (tokens value) text

variable {value : Json} {tokens rest : List Token} {text : List Char} {reader : Reader}

namespace Spaced

theorem token (spaced : Spaced rest text) (token : Token) : Spaced (token :: rest) (token.spell ++ text) :=
  .cons (List.forall_mem_nil _) spaced

theorem blanks {blanks : List Char} (blank : ∀ c ∈ blanks, isSpace c = true) (spaced : Spaced tokens text) :
    Spaced tokens (blanks ++ text) := by
  cases spaced with
  | nil blankToo => exact .nil (List.forall_mem_append.mpr ⟨blank, blankToo⟩)
  | cons blankToo behind =>
    rw [← List.append_assoc]
    exact .cons (List.forall_mem_append.mpr ⟨blank, blankToo⟩) behind

/-- Tokens need no blanks between them. -/
theorem flatMap_spell (tokens : List Token) : Spaced tokens (tokens.flatMap Token.spell) := by
  induction tokens with
  | nil => exact .nil (List.forall_mem_nil _)
  | cons token rest ih => exact ih.token token

private theorem ends_of_isSpace {c : Char} (space : isSpace c = true) :
    isWordChar c = false ∧ isNumeralChar c = false := by
  have known : c = ' ' ∨ c = '\t' ∨ c = '\n' ∨ c = '\r' := by simpa [isSpace, or_assoc] using space
  rcases known with rfl | rfl | rfl | rfl <;> decide

private theorem endsToken_spell {token : Token} (notBare : ¬token.IsBare) (text : List Char) :
    EndsToken (token.spell ++ text) := by
  cases token with
  | word | numeral => exact absurd trivial notBare
  | _ =>
    intro c member
    obtain rfl := Option.some.inj member
    decide

/-- Tokens end what stands before them if the first of them does. -/
theorem endsToken (spaced : Spaced tokens text) (separates : Separates tokens) : EndsToken text := by
  cases spaced with
  | nil blank => exact fun c member => ends_of_isSpace (blank c (List.mem_of_mem_head? member))
  | @cons token rest blanks text blank behind =>
    cases blanks with
    | nil => exact endsToken_spell (separates token rfl) text
    | cons c blanks =>
      intro first member
      obtain rfl := Option.some.inj member
      exact ends_of_isSpace (blank c List.mem_cons_self)

/-- The reader takes exactly the tokens that a text consists of. -/
theorem value?_eq (spaced : Spaced tokens text) (legible : Legible tokens) :
    Scan.value? (.between, reader) text =
      (reader.takeAll tokens).bind fun reader => Scan.finish? (.between, reader) := by
  induction spaced generalizing reader with
  | @nil blanks blank =>
    have read := @Scan.value?_blanks reader [] blanks blank
    rw [List.append_nil] at read
    exact read
  | @cons token rest blanks text blank behind ih =>
    cases legible with
    | cons formed apart legible =>
      have ends (bare : token.IsBare) : EndsToken text := behind.endsToken (apart bare)
      rw [Scan.value?_blanks blank, Scan.value?_spell formed ends, Reader.takeAll_cons, Option.bind_assoc]
      exact Option.bind_congr fun next _ => ih legible

end Spaced

/-- A text of a value denotes the value. -/
theorem IsTextOf.parse?_eq (isText : IsTextOf text value) : parse? text = some value := by
  have legible : Legible (Json.tokens value) := by
    have separates : Separates [] := fun _ member => nomatch member
    simpa using isText.formed.isLegible .nil separates
  have awaits : Reader.start.Awaits := .inl rfl
  have read : Reader.start.takeAll (Json.tokens value) = some ⟨[], .nothing value⟩ := by
    have whole := isText.formed.isReadBack awaits []
    rw [List.append_nil] at whole
    exact whole
  calc parse? text
      = Scan.value? (.between, .start) text := rfl
    _ = Scan.finish? (.between, ⟨[], .nothing value⟩) := by
        rw [isText.spaced.value?_eq legible, read, Option.bind_some]
    _ = some value := rfl

/-! ## The printed text -/

private theorem isSpace_newline (depth : Nat) : ∀ c ∈ newline depth, isSpace c = true := by
  refine List.forall_mem_cons.mpr ⟨rfl, fun c member => ?_⟩
  rw [List.eq_of_mem_replicate member]
  rfl

/-- Whether a value is printed with its tokens, before any text. -/
def IsPrinted (value : Json) : Prop :=
  ∀ (depth : Nat) {rest : List Token} {text : List Char}, Spaced rest text →
    Spaced (Json.tokens value ++ rest) (print depth value ++ text)

private theorem isPrinted_token {token : Token} (one : Json.tokens value = [token])
    (form : ∀ depth, print depth value = token.spell) : IsPrinted value := by
  intro depth rest text behind
  rw [one, form]
  exact behind.token token

private theorem spaced_printItems {items : List Json} (printed : ∀ item ∈ items, IsPrinted item) (depth : Nat)
    (behind : Spaced (.closeBracket :: rest) text) :
    Spaced (tokensOfItems items ++ rest) (printItems depth items ++ text) := by
  induction items with
  | nil => exact behind
  | cons item items ih =>
    obtain ⟨here, later⟩ := List.forall_mem_cons.mp printed
    simp only [tokensOfItems, printItems, List.cons_append, List.append_assoc]
    exact ((here depth (ih later)).blanks (isSpace_newline depth)).token .comma

private theorem isPrinted_array {items : List Json} (printed : ∀ item ∈ items, IsPrinted item) :
    IsPrinted (.array items) := by
  intro depth rest text behind
  cases items with
  | nil =>
    rw [Json.tokens, print]
    exact (behind.token .closeBracket).token .openBracket
  | cons item items =>
    obtain ⟨here, later⟩ := List.forall_mem_cons.mp printed
    have closed := (behind.token .closeBracket).blanks (isSpace_newline depth)
    have first := here (depth + 1) (spaced_printItems later (depth + 1) closed)
    simp only [Json.tokens, print, List.cons_append, List.append_assoc]
    exact (first.blanks (isSpace_newline (depth + 1))).token .openBracket

private theorem spaced_member (printed : IsPrinted value) (name : List Char) (depth : Nat)
    (behind : Spaced rest text) :
    Spaced (.string name :: .colon :: (Json.tokens value ++ rest))
      (newline depth ++ (quote name ++ ([':', ' '] ++ (print depth value ++ text)))) := by
  have blank : ∀ c ∈ [' '], isSpace c = true := List.forall_mem_singleton.mpr rfl
  exact ((((printed depth behind).blanks blank).token .colon).token (.string name)).blanks (isSpace_newline depth)

private theorem spaced_printMembers {members : List (List Char × Json)}
    (printed : ∀ member ∈ members, IsPrinted member.2) (depth : Nat)
    (behind : Spaced (.closeBrace :: rest) text) :
    Spaced (tokensOfMembers members ++ rest) (printMembers depth members ++ text) := by
  induction members with
  | nil => exact behind
  | cons member members ih =>
    obtain ⟨name, value⟩ := member
    obtain ⟨here, later⟩ := List.forall_mem_cons.mp printed
    simp only [tokensOfMembers, printMembers, List.cons_append, List.append_assoc]
    exact (spaced_member here name depth (ih later)).token .comma

private theorem isPrinted_object {members : List (List Char × Json)}
    (printed : ∀ member ∈ members, IsPrinted member.2) : IsPrinted (.object members) := by
  intro depth rest text behind
  cases members with
  | nil =>
    rw [Json.tokens, print]
    exact (behind.token .closeBrace).token .openBrace
  | cons member members =>
    obtain ⟨name, value⟩ := member
    obtain ⟨here, later⟩ := List.forall_mem_cons.mp printed
    have closed := (behind.token .closeBrace).blanks (isSpace_newline depth)
    have others := spaced_printMembers later (depth + 1) closed
    simp only [Json.tokens, print, List.cons_append, List.append_assoc]
    exact (spaced_member here name (depth + 1) others).token .openBrace

theorem IsWellFormed.isPrinted (formed : IsWellFormed value) : IsPrinted value := by
  induction formed with
  | null => exact isPrinted_token rfl fun _ => by rw [print, Token.spell]
  | bool value => cases value <;> exact isPrinted_token rfl fun _ => by rw [print, Token.spell]
  | number => exact isPrinted_token rfl fun _ => by rw [print, Token.spell]
  | string => exact isPrinted_token rfl fun _ => by rw [print, Token.spell]
  | array _ printed => exact isPrinted_array printed
  | object _ _ printed => exact isPrinted_object printed

/-- What is printed is a text of the value. -/
theorem isTextOf_pretty (formed : IsWellFormed value) : IsTextOf (pretty value) value where
  formed
  spaced := by
    have nothing : Spaced [] [] := .nil (List.forall_mem_nil _)
    simpa [pretty] using formed.isPrinted 0 nothing

/-- A value that the program writes is what its text denotes. -/
theorem parse?_pretty (formed : IsWellFormed value) : parse? (pretty value) = some value :=
  (isTextOf_pretty formed).parse?_eq

end ImportAtlas.Json
