/-! # Numbering of entries

Entries are numbered from one in the order in which they are first met. An entry keeps its number,
and the level it was first met on.
-/

namespace ImportAtlas

/-- The number of an entry. -/
abbrev Id := Nat

/-- Numbers for keys: the key that was met first has number one. -/
structure Numbering where
  /-- The number that the next new key gets. -/
  next : Id
  /-- The keys in the order they were met. -/
  ids : List (String × Id)
  /-- The level that each number was met on, by number. -/
  levels : List (Id × Nat)
deriving DecidableEq, Repr

namespace Numbering

/-- The numbering of no keys. -/
def empty : Numbering where
  next := 1
  ids := []
  levels := []

instance : Inhabited Numbering := ⟨empty⟩

/-- The number of a key. -/
def id? (numbering : Numbering) (key : String) : Option Id :=
  numbering.ids.lookup key

/-- The level that a number was met on. -/
def level? (numbering : Numbering) (id : Id) : Option Nat :=
  numbering.levels.lookup id

/-- The number of a key, which is a new one if the key is. -/
def number (numbering : Numbering) (key : String) (level : Nat) : Id × Numbering :=
  match numbering.id? key with
  | some id => (id, numbering)
  | none =>
    (numbering.next,
      { next := numbering.next + 1
        ids := numbering.ids ++ [(key, numbering.next)]
        levels := numbering.levels ++ [(numbering.next, level)] })

/-- How many keys have a number. -/
def size (numbering : Numbering) : Nat :=
  numbering.ids.length

/-- Whether no key has a number. -/
def isEmpty (numbering : Numbering) : Bool :=
  numbering.ids.isEmpty

end Numbering

end ImportAtlas
