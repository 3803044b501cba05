import ImportAtlas.Path

/-! # Cleaning paths

Cleaning shortens a path without looking at the file system: dots are dropped, and a name is dropped
together with the two dots that follow it. Two dots at the start of a relative path stay, and two
dots right below the root are dropped. The clean form of a path that denotes nothing else is a dot.
-/

namespace ImportAtlas.Path

/-- One component more on a stack of clean components, the last one on top. -/
def cleanStep : List Component → Component → List Component
  | stack, .here => stack
  | .root :: below, .up => .root :: below
  | .name _ :: below, .up => below
  | stack, component => component :: stack

/-- The components that are left after cleaning. -/
def cleanComponents (components : List Component) : List Component :=
  (components.foldl cleanStep []).reverse

/-- The clean form of a path. -/
def clean (path : Path) : Path :=
  ofComponents (cleanComponents path.components)

end ImportAtlas.Path
