import ImportAtlas.Toml.Token

/-! # Tokens grouped by brackets

The brackets of a TOML text have to match. What stands between two of them is cut at its commas, and
the whole text is cut at its line breaks outside of brackets, so that every line is a list of trees.
-/

namespace ImportAtlas.Toml

/-- A token that is no bracket, or a pair of brackets with the parts between them. -/
inductive Tree where
  | token (token : Token)
  | brackets (parts : List (List Tree))
  | braces (parts : List (List Tree))

/-- What encloses some parts. -/
inductive Enclosure where
  | document
  | brackets
  | braces
deriving DecidableEq, Repr

/-- The token between two parts. -/
def Enclosure.separator : Enclosure → Token
  | .document => .newline
  | .brackets => .comma
  | .braces => .comma

/-- An enclosure that is not closed yet. Its parts, and the trees of the part that is being read,
are kept last first. -/
structure Frame where
  enclosure : Enclosure
  parts : List (List Tree)
  current : List Tree

namespace Frame

/-- An enclosure that holds nothing yet. -/
def start (enclosure : Enclosure) : Frame :=
  ⟨enclosure, [], []⟩

/-- The frame with a tree more in the current part. -/
def add (frame : Frame) (tree : Tree) : Frame :=
  { frame with current := tree :: frame.current }

/-- The frame with the current part ended. -/
def split (frame : Frame) : Frame :=
  ⟨frame.enclosure, frame.current.reverse :: frame.parts, []⟩

/-- All parts, in order. -/
def allParts (frame : Frame) : List (List Tree) :=
  (frame.current.reverse :: frame.parts).reverse

end Frame

/-- The enclosures that are open, the innermost first. -/
structure Grouping where
  inner : Frame
  outer : List Frame

namespace Grouping

/-- The grouping before the first token. -/
def start : Grouping :=
  ⟨.start .document, []⟩

/-- Closes the innermost enclosure, which must be of the given kind. -/
def close (grouping : Grouping) (enclosure : Enclosure) (tree : List (List Tree) → Tree) :
    Option Grouping :=
  match grouping.outer with
  | [] => none
  | frame :: outer =>
    if grouping.inner.enclosure = enclosure then
      some ⟨frame.add (tree grouping.inner.allParts), outer⟩
    else none

/-- Takes one token. -/
def take (grouping : Grouping) (token : Token) : Option Grouping :=
  match token with
  | .openBracket => some ⟨.start .brackets, grouping.inner :: grouping.outer⟩
  | .openBrace => some ⟨.start .braces, grouping.inner :: grouping.outer⟩
  | .closeBracket => grouping.close .brackets .brackets
  | .closeBrace => grouping.close .braces .braces
  | token =>
    if token = grouping.inner.enclosure.separator then
      some { grouping with inner := grouping.inner.split }
    else some { grouping with inner := grouping.inner.add (.token token) }

/-- Takes some tokens. -/
def takeAll (grouping : Grouping) (tokens : List Token) : Option Grouping :=
  tokens.foldlM take grouping

/-- The lines of the text, if it ends here. -/
def finish? (grouping : Grouping) : Option (List (List Tree)) :=
  if grouping.outer.isEmpty then some grouping.inner.allParts else none

end Grouping

/-- The lines of a list of tokens. -/
def lines? (tokens : List Token) : Option (List (List Tree)) :=
  (Grouping.start.takeAll tokens).bind Grouping.finish?

end ImportAtlas.Toml
