import ImportAtlas.FileSystem.Entry

/-! # Walking a tree

A walk visits the entries below a directory. A directory is visited before what it holds, entries of
one directory are visited in the order of their names, links are visited but not followed, and an
entry whose name is to be skipped is passed over together with everything in it. Names are compared
character by character, which is the order of their UTF-8 bytes.
-/

namespace ImportAtlas

/-- An entry met on a walk: the names on the way to it from where the walk began, and whether it is
a directory. -/
structure Visit where
  names : List Name
  isDirectory : Bool
deriving DecidableEq, Repr

namespace Visit

/-- A visit seen from one directory further up. -/
def under (name : Name) (visit : Visit) : Visit :=
  { visit with names := name :: visit.names }

end Visit

/-- Puts an item with a name into a list in the order of names. -/
def insertByName {α : Type} (item : Name × α) : List (Name × α) → List (Name × α)
  | [] => [item]
  | other :: items =>
    if other.1 < item.1 then other :: insertByName item items else item :: other :: items

/-- The items in the order of their names. -/
def sortByName {α : Type} (items : List (Name × α)) : List (Name × α) :=
  items.foldr insertByName []

namespace Entry

mutual

/-- The visits of a walk below an entry. -/
def walk (skips : Name → Bool) : Entry → List Visit
  | .directory children => (sortByName (walkChildren skips children)).flatMap (·.2)
  | _ => []

/-- For each child that is not skipped, its name, and the visits of it and of what lies below it. -/
def walkChildren (skips : Name → Bool) : List (Name × Entry) → List (Name × List Visit)
  | [] => []
  | (name, entry) :: children =>
    if skips name then walkChildren skips children
    else
      (name, ⟨[name], entry.isDirectory⟩ :: (entry.walk skips).map (Visit.under name)) ::
        walkChildren skips children

end

end Entry

end ImportAtlas
