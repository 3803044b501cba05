import ImportAtlas.Toml.Value

/-! # TOML documents

A document is a list of lines. A line is blank, an entry, or a header, which names the table that
the entries after it belong to; a header in two brackets begins one more table of an array. A table
may be opened by one header only, and an array of tables by no header of another kind, while each
new table of an array starts without tables of its own.
-/

namespace ImportAtlas.Toml

/-- The name of the table that a header opens, and whether it is one of an array. -/
structure Header where
  key : List KeyPart
  isArray : Bool
deriving DecidableEq, Repr

/-- What a line of a document says. -/
inductive Line where
  | blank
  | header (header : Header)
  | entry (key : List KeyPart) (value : Value)

/-- The entries of a document. -/
structure Document where
  /-- The entries before the first header. -/
  members : Members
  /-- The headers with their entries, last first. -/
  sections : List (Header × Members)

/-- What a line says. -/
def line? (trees : List Tree) : Option Line :=
  match trimBlanks trees with
  | [] => some .blank
  | [.brackets [[.brackets [inner]]]] => (key? inner).map fun key => .header ⟨key, true⟩
  | [.brackets [inner]] => (key? inner).map fun key => .header ⟨key, false⟩
  | trees => (assignment? [] trees).map fun entry => .entry entry.1 entry.2

namespace Header

/-- Opens one more header after those that are open. -/
def open? (opened : List Header) (header : Header) : Option (List Header) :=
  if header.isArray && header ∈ opened then
    some (opened.filter fun other => !header.key.isPrefixOf other.key || other.key == header.key)
  else if header.isArray then
    if opened.any fun other => header.key.isPrefixOf other.key then none
    else some (header :: opened)
  else if opened.any fun other => other.key == header.key then none
  else some (header :: opened)

end Header

namespace Document

/-- The document with nothing in it. -/
def empty : Document :=
  ⟨[], []⟩

/-- The document with a line more. -/
def add? (document : Document) : Line → Option Document
  | .blank => some document
  | .header header => some { document with sections := (header, []) :: document.sections }
  | .entry key value =>
    match document.sections with
    | [] => (insert? document.members key value).map fun members => ⟨members, []⟩
    | (header, members) :: earlier =>
      (insert? members key value).map fun members =>
        ⟨document.members, (header, members) :: earlier⟩

/-- The headers, in order. -/
def headers (document : Document) : List Header :=
  document.sections.reverse.map (·.1)

/-- Whether every header may follow those before it. -/
def areHeadersSound (document : Document) : Bool :=
  (document.headers.foldlM Header.open? []).isSome

/-- The document that lines make. -/
def ofLines? (lines : List Line) : Option Document :=
  (lines.foldlM add? empty).filter areHeadersSound

/-- The document that a TOML text stands for. -/
def parse? (text : List Char) : Option Document := do
  let tokens ← tokens? text
  let lines ← lines? tokens
  let lines ← lines.mapM line?
  ofLines? lines

end Document

end ImportAtlas.Toml
