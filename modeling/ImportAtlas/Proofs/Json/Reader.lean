import ImportAtlas.Proofs.Json.Token

/-! # Values are read from their tokens

The tokens of a value take the reader from waiting for the value to having it, whatever arrays and objects are
open around it. They can be told apart in a text, since words and numerals are always followed by a token of
another kind.
-/

namespace ImportAtlas.Json

mutual

/-- The tokens that a value is written with. -/
def tokens : Json → List Token
  | .null => [.word ['n', 'u', 'l', 'l']]
  | .bool true => [.word ['t', 'r', 'u', 'e']]
  | .bool false => [.word ['f', 'a', 'l', 's', 'e']]
  | .number text => [.numeral text]
  | .string raw => [.string raw]
  | .array [] => [.openBracket, .closeBracket]
  | .array (item :: items) => .openBracket :: (tokens item ++ tokensOfItems items)
  | .object [] => [.openBrace, .closeBrace]
  | .object ((name, value) :: members) =>
    .openBrace :: .string name :: .colon :: (tokens value ++ tokensOfMembers members)

/-- The tokens of an array behind its first item. -/
def tokensOfItems : List Json → List Token
  | [] => [.closeBracket]
  | item :: items => .comma :: (tokens item ++ tokensOfItems items)

/-- The tokens of an object behind its first member. -/
def tokensOfMembers : List (List Char × Json) → List Token
  | [] => [.closeBrace]
  | (name, value) :: members => .comma :: .string name :: .colon :: (tokens value ++ tokensOfMembers members)

end

variable {value : Json} {items : List Json} {members : List (List Char × Json)} {rest : List Token}

/-! ## Reading -/

namespace Reader

/-- Whether the reader waits for a value, be it as the first item of an array. -/
def Awaits (reader : Reader) : Prop :=
  reader.expects = .value ∨ reader.expects = .itemOrEnd

theorem take_of_awaits {reader : Reader} (awaits : reader.Awaits) {token : Token}
    (inner : token ≠ .closeBracket) : reader.take token = beginValue reader.opened token := by
  rcases awaits with expects | expects <;> simp [take, expects, inner]

theorem takeAll_cons (reader : Reader) (token : Token) (rest : List Token) :
    reader.takeAll (token :: rest) = (reader.take token).bind (·.takeAll rest) :=
  List.foldlM_cons

theorem takeAll_of_take {reader next : Reader} {token : Token} (taken : reader.take token = some next)
    (rest : List Token) : reader.takeAll (token :: rest) = next.takeAll rest := by
  rw [takeAll_cons, taken, Option.bind_some]

end Reader

open Reader

/-- Whether the tokens of a value are read as that value, whatever is open around it. -/
def IsReadBack (value : Json) : Prop :=
  ∀ {reader : Reader}, reader.Awaits → ∀ rest : List Token,
    reader.takeAll (tokens value ++ rest) = (complete value reader.opened).bind (·.takeAll rest)

/-- A value of one token. -/
private theorem isReadBack_token {token : Token} (one : tokens value = [token]) (inner : token ≠ .closeBracket)
    (begins : ∀ opened, beginValue opened token = complete value opened) : IsReadBack value := by
  intro reader awaits rest
  rw [one, List.singleton_append, takeAll_cons, take_of_awaits awaits inner, begins]

/-- The items after the first, each behind its comma, are added to the open array, and the array is closed. -/
private theorem takeAll_tokensOfItems (read : ∀ item ∈ items, IsReadBack item) (done : List Json)
    (outer : List Open) (rest : List Token) :
    takeAll ⟨.array done :: outer, .separator⟩ (tokensOfItems items ++ rest) =
      (complete (.array (done.reverse ++ items)) outer).bind (·.takeAll rest) := by
  induction items generalizing done with
  | nil =>
    rw [tokensOfItems, List.singleton_append, List.append_nil, takeAll_cons]
    rfl
  | cons item items ih =>
    obtain ⟨here, later⟩ := List.forall_mem_cons.mp read
    have awaits : Awaits ⟨.array done :: outer, .value⟩ := .inl rfl
    rw [tokensOfItems, List.cons_append, List.append_assoc, takeAll_of_take rfl, here awaits]
    change takeAll ⟨.array (item :: done) :: outer, .separator⟩ _ = _
    rw [ih later, List.reverse_cons, ← List.append_cons]

private theorem isReadBack_array (read : ∀ item ∈ items, IsReadBack item) : IsReadBack (.array items) := by
  intro reader awaits rest
  have opens : reader.take .openBracket = some ⟨.array [] :: reader.opened, .itemOrEnd⟩ :=
    take_of_awaits awaits (by decide)
  cases items with
  | nil =>
    rw [tokens, List.cons_append, takeAll_of_take opens, List.singleton_append, takeAll_cons]
    rfl
  | cons item items =>
    obtain ⟨here, later⟩ := List.forall_mem_cons.mp read
    have first : Awaits ⟨.array [] :: reader.opened, .itemOrEnd⟩ := .inr rfl
    rw [tokens, List.cons_append, List.append_assoc, takeAll_of_take opens, here first]
    exact takeAll_tokensOfItems later [item] reader.opened rest

/-- A name and its value are added to the open object. -/
private theorem takeAll_member (read : IsReadBack value) (name : List Char) (done : List (List Char × Json))
    (outer : List Open) {expects : Expects} (ready : expects = .name ∨ expects = .nameOrEnd) (rest : List Token) :
    takeAll ⟨.object done :: outer, expects⟩ (.string name :: .colon :: (tokens value ++ rest)) =
      takeAll ⟨.object ((name, value) :: done) :: outer, .separator⟩ rest := by
  have named : take ⟨.object done :: outer, expects⟩ (.string name) =
      some ⟨.member done name :: outer, .colon⟩ := by
    rcases ready with rfl | rfl <;> rfl
  have awaits : Awaits ⟨.member done name :: outer, .value⟩ := .inl rfl
  rw [takeAll_of_take named, takeAll_of_take rfl, read awaits]
  rfl

private theorem takeAll_tokensOfMembers (read : ∀ member ∈ members, IsReadBack member.2)
    (done : List (List Char × Json)) (outer : List Open) (rest : List Token) :
    takeAll ⟨.object done :: outer, .separator⟩ (tokensOfMembers members ++ rest) =
      (complete (.object (done.reverse ++ members)) outer).bind (·.takeAll rest) := by
  induction members generalizing done with
  | nil =>
    rw [tokensOfMembers, List.singleton_append, List.append_nil, takeAll_cons]
    rfl
  | cons member members ih =>
    obtain ⟨name, value⟩ := member
    obtain ⟨here, later⟩ := List.forall_mem_cons.mp read
    simp only [tokensOfMembers, List.cons_append, List.append_assoc]
    rw [takeAll_of_take rfl, takeAll_member here name done outer (.inl rfl), ih later, List.reverse_cons,
      ← List.append_cons]

private theorem isReadBack_object (read : ∀ member ∈ members, IsReadBack member.2) :
    IsReadBack (.object members) := by
  intro reader awaits rest
  have opens : reader.take .openBrace = some ⟨.object [] :: reader.opened, .nameOrEnd⟩ :=
    take_of_awaits awaits (by decide)
  cases members with
  | nil =>
    rw [tokens, List.cons_append, takeAll_of_take opens, List.singleton_append, takeAll_cons]
    rfl
  | cons member members =>
    obtain ⟨name, value⟩ := member
    obtain ⟨here, later⟩ := List.forall_mem_cons.mp read
    simp only [tokens, List.cons_append, List.append_assoc]
    rw [takeAll_of_take opens, takeAll_member here name [] reader.opened (.inr rfl)]
    exact takeAll_tokensOfMembers later [(name, value)] reader.opened rest

/-- The tokens of a well-formed value are read as that value. -/
theorem IsWellFormed.isReadBack (formed : IsWellFormed value) : IsReadBack value := by
  induction formed with
  | null => exact isReadBack_token rfl (by decide) fun _ => rfl
  | bool value =>
    cases value with
    | false => exact isReadBack_token rfl (by decide) fun _ => rfl
    | true => exact isReadBack_token rfl (by decide) fun _ => rfl
  | number number =>
    exact isReadBack_token rfl (by simp) fun _ => by rw [beginValue, if_pos number.isNumeral]
  | string isRaw => exact isReadBack_token rfl (by simp) fun _ => rfl
  | array _ read => exact isReadBack_array read
  | object _ _ read => exact isReadBack_object read

/-! ## Telling tokens apart -/

/-- Whether some tokens begin with one that ends whatever token stands before it. -/
def Separates (rest : List Token) : Prop :=
  ∀ next ∈ rest.head?, ¬next.IsBare

/-- Tokens that can be told apart in a text: behind a word or a numeral there is no other one. -/
inductive Legible : List Token → Prop
  | nil : Legible []
  | cons {token : Token} {rest : List Token} (formed : token.IsFormed) (apart : token.IsBare → Separates rest)
      (behind : Legible rest) : Legible (token :: rest)

theorem Legible.of_not_isBare {token : Token} (formed : token.IsFormed) (notBare : ¬token.IsBare)
    (behind : Legible rest) : Legible (token :: rest) :=
  .cons formed (fun bare => absurd bare notBare) behind

/-- Whether the tokens of a value can be told apart, before whatever ends the last one of them. -/
def IsLegible (value : Json) : Prop :=
  ∀ {rest : List Token}, Legible rest → Separates rest → Legible (tokens value ++ rest)

private theorem separates_cons {token : Token} (notBare : ¬token.IsBare) (rest : List Token) :
    Separates (token :: rest) := by
  intro next member
  obtain rfl := Option.some.inj member
  exact notBare

private theorem isLegible_token {token : Token} (one : tokens value = [token]) (formed : token.IsFormed) :
    IsLegible value := by
  intro rest behind separates
  rw [one]
  exact .cons formed (fun _ => separates) behind

private theorem legible_tokensOfItems (legible : ∀ item ∈ items, IsLegible item) (behind : Legible rest) :
    Legible (tokensOfItems items ++ rest) ∧ Separates (tokensOfItems items ++ rest) := by
  induction items with
  | nil => exact ⟨.of_not_isBare .closeBracket id behind, separates_cons id rest⟩
  | cons item items ih =>
    obtain ⟨here, later⟩ := List.forall_mem_cons.mp legible
    obtain ⟨others, separates⟩ := ih later
    rw [tokensOfItems, List.cons_append, List.append_assoc]
    exact ⟨.of_not_isBare .comma id (here others separates), separates_cons id _⟩

private theorem legible_member {name : List Char} (named : IsRaw name) (here : IsLegible value)
    (behind : Legible rest) (separates : Separates rest) :
    Legible (.string name :: .colon :: (tokens value ++ rest)) :=
  .of_not_isBare (.string named) id (.of_not_isBare .colon id (here behind separates))

private theorem legible_tokensOfMembers (named : ∀ member ∈ members, IsRaw member.1)
    (legible : ∀ member ∈ members, IsLegible member.2) (behind : Legible rest) :
    Legible (tokensOfMembers members ++ rest) ∧ Separates (tokensOfMembers members ++ rest) := by
  induction members with
  | nil => exact ⟨.of_not_isBare .closeBrace id behind, separates_cons id rest⟩
  | cons member members ih =>
    obtain ⟨name, value⟩ := member
    obtain ⟨nameHere, namedLater⟩ := List.forall_mem_cons.mp named
    obtain ⟨here, later⟩ := List.forall_mem_cons.mp legible
    obtain ⟨others, separates⟩ := ih namedLater later
    simp only [tokensOfMembers, List.cons_append, List.append_assoc]
    exact ⟨.of_not_isBare .comma id (legible_member nameHere here others separates), separates_cons id _⟩

/-- The tokens of a well-formed value can be told apart. -/
theorem IsWellFormed.isLegible (formed : IsWellFormed value) : IsLegible value := by
  induction formed with
  | null => exact isLegible_token rfl .null
  | bool value =>
    cases value with
    | false => exact isLegible_token rfl .false
    | true => exact isLegible_token rfl .true
  | number number => exact isLegible_token rfl (.numeral number)
  | string isRaw => exact isLegible_token rfl (.string isRaw)
  | @array items _ legible =>
    intro rest behind _
    cases items with
    | nil => exact .of_not_isBare .openBracket id (.of_not_isBare .closeBracket id behind)
    | cons item items =>
      obtain ⟨here, later⟩ := List.forall_mem_cons.mp legible
      obtain ⟨others, separates⟩ := legible_tokensOfItems later behind
      rw [tokens, List.cons_append, List.append_assoc]
      exact .of_not_isBare .openBracket id (here others separates)
  | @object members named _ legible =>
    intro rest behind _
    cases members with
    | nil => exact .of_not_isBare .openBrace id (.of_not_isBare .closeBrace id behind)
    | cons member members =>
      obtain ⟨name, value⟩ := member
      obtain ⟨nameHere, namedLater⟩ := List.forall_mem_cons.mp named
      obtain ⟨here, later⟩ := List.forall_mem_cons.mp legible
      obtain ⟨others, separates⟩ := legible_tokensOfMembers namedLater later behind
      simp only [tokens, List.cons_append, List.append_assoc]
      exact .of_not_isBare .openBrace id (legible_member nameHere here others separates)

end ImportAtlas.Json
