import ImportAtlas.Toml.Scalar
import ImportAtlas.Toml.Tree

/-! # TOML values

A value is a text, a scalar, an array or a table. Line breaks are allowed between the items of an
array and not inside of a table in braces. A key with periods names an entry of a table in a table;
such tables arise from their first entry, and later keys may add to them.
-/

namespace ImportAtlas.Toml

/-- One name of a key. -/
abbrev KeyPart := List Char

/-- A TOML value. -/
inductive Value where
  | text (chars : List Char)
  /-- A number, a date, a time or a truth value. -/
  | scalar
  | array (items : List Value)
  /-- A table, and whether keys with periods made it. -/
  | table (extensible : Bool) (members : List (KeyPart × Value))

/-- The entries of a table, in the order they are written. -/
abbrev Members := List (KeyPart × Value)

namespace Tree

/-- Whether a tree is nothing but blanks, or a line break where these are allowed. -/
def isGap (breaks : Bool) : Tree → Bool
  | .token (.blanks _) => true
  | .token .newline => breaks
  | _ => false

/-- Whether a tree is a period. -/
def isPeriod : Tree → Bool
  | .token .period => true
  | _ => false

/-- The token that a tree is. -/
def token? : Tree → Option Token
  | .token leaf => some leaf
  | _ => none

end Tree

/-- Trees without the gaps at their end. -/
def dropGaps (breaks : Bool) (trees : List Tree) : List Tree :=
  (trees.reverse.dropWhile (·.isGap breaks)).reverse

/-- Trees without the blanks at their two ends. -/
def trimBlanks (trees : List Tree) : List Tree :=
  dropGaps false (trees.dropWhile (·.isGap false))

/-- The name that trees stand for: a bare word, or a text on one line. -/
def keyPart? (trees : List Tree) : Option KeyPart :=
  match trimBlanks trees with
  | [.token (.bare word)] => some word
  | [.token (.text chars false)] => some chars
  | _ => none

/-- The key that trees stand for: names with periods between them. -/
def key? (trees : List Tree) : Option (List KeyPart) :=
  (trees.splitOnP Tree.isPeriod).mapM keyPart?

/-- Puts a value under a key. The table that a key with periods begins with must be missing or
extensible; where a name is repeated, its first entry counts. -/
def insert? (members : Members) (key : List KeyPart) (value : Value) : Option Members :=
  match key with
  | [] => none
  | [name] => some (members ++ [(name, value)])
  | name :: key =>
    match members.lookup name with
    | none => (insert? [] key value).map fun inner => members ++ [(name, .table true inner)]
    | some (.table true inner) =>
      (insert? inner key value).map fun inner => replaceFirst members name (.table true inner)
    | some _ => none
where
  /-- Replaces the value of the first entry of a name. -/
  replaceFirst : Members → KeyPart → Value → Members
    | [], _, _ => []
    | (other, old) :: members, name, value =>
      if other = name then (name, value) :: members
      else (other, old) :: replaceFirst members name value

/-- The scalar that trees stand for. -/
def scalar? (trees : List Tree) : Option Value :=
  match trees.mapM Tree.token? with
  | some tokens => if isScalar tokens then some .scalar else none
  | none => none

mutual

/-- The value that trees stand for, gaps around it left out. -/
def value? (breaks : Bool) : List Tree → Option Value
  | [] => none
  | tree :: rest =>
    if tree.isGap breaks then value? breaks rest
    else
      match tree with
      | .token (.text chars _) => if rest.all (·.isGap breaks) then some (.text chars) else none
      | .token token => scalar? (.token token :: dropGaps breaks rest)
      | .brackets parts => if rest.all (·.isGap breaks) then (items? parts).map .array else none
      | .braces parts =>
        if !rest.all (·.isGap breaks) then none
        else if parts.length = 1 && parts.all (·.all (·.isGap false)) then some (.table false [])
        else (members? [] parts).map (.table false)

/-- The items of an array, the last of which may be followed by a comma. -/
def items? : List (List Tree) → Option (List Value)
  | [] => some []
  | part :: parts =>
    if parts.isEmpty && part.all (·.isGap true) then some []
    else
      match value? true part with
      | some item => (items? parts).map (item :: ·)
      | none => none

/-- The entries of a table in braces, added to some others. -/
def members? (members : Members) : List (List Tree) → Option Members
  | [] => some members
  | part :: parts =>
    match assignment? [] part with
    | some (key, value) =>
      match insert? members key value with
      | some members => members? members parts
      | none => none
    | none => none

/-- A key and its value, with an equals sign between them; `seen` holds the trees before those
given, last first. -/
def assignment? (seen : List Tree) : List Tree → Option (List KeyPart × Value)
  | [] => none
  | tree :: rest =>
    match tree with
    | .token .equals =>
      match key? seen.reverse, value? false rest with
      | some key, some value => some (key, value)
      | _, _ => none
    | tree => assignment? (tree :: seen) rest

end

end ImportAtlas.Toml
