import ImportAtlas.Path

/-! # Keys

A key names an entry below the root of a source tree: the names on the way to it, with slashes
between them. Keys are compared as text, so a key has one spelling only.
-/

namespace ImportAtlas

/-- The key of an entry, from the names on the way to it. -/
def keyOf (names : List Name) : String :=
  String.ofList (Path.ofSegments names)

namespace Path

/-- The names that some components consist of, if they are nothing but names and leading dots. -/
def namesOnly? : List Component → Option (List Name)
  | [] => some []
  | .name name :: rest => (namesOnly? rest).map (name :: ·)
  | .here :: rest => namesOnly? rest
  | _ :: _ => none

/-- What follows `stem` in `list`, if `list` starts with it. -/
def afterComponents? : List Component → List Component → Option (List Component)
  | [], list => some list
  | _ :: _, [] => none
  | c :: stem, d :: list => if c = d then afterComponents? stem list else none

/-- The key of `path` below `root`: none for the root itself, for a path that does not start with
the components of the root, and for a path with two dots after them. -/
def keyBelow? (root path : Path) : Option String := do
  let rest ← afterComponents? root.components path.components
  let names ← namesOnly? rest
  if names = [] then none else some (keyOf names)

end Path

end ImportAtlas
