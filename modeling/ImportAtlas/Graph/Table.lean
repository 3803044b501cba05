/-! # Tables

A table is a list of keys with their values, each key once. Where the order of a table shows, it is
either the order in which the keys were first put or the order of the keys.
-/

namespace ImportAtlas.Table

variable {κ ν : Type}

/-- Puts a value under a key: in the place of the old value, or at the end. -/
def put [DecidableEq κ] (table : List (κ × ν)) (key : κ) (value : ν) : List (κ × ν) :=
  match table with
  | [] => [(key, value)]
  | (other, old) :: rest =>
    if other = key then (key, value) :: rest else (other, old) :: put rest key value

/-- Puts a value under a number: in the place of the old value, or before the first greater
number. -/
def putInOrder (table : List (Nat × ν)) (key : Nat) (value : ν) : List (Nat × ν) :=
  match table with
  | [] => [(key, value)]
  | (other, old) :: rest =>
    if other < key then (other, old) :: putInOrder rest key value
    else if other = key then (key, value) :: rest
    else (key, value) :: (other, old) :: rest

/-- The table of some entries; a repeated key keeps its first place and its last value. -/
def ofList [DecidableEq κ] (entries : List (κ × ν)) : List (κ × ν) :=
  entries.foldl (fun table entry => put table entry.1 entry.2) []

/-- The table of some entries in the order of their numbers; a repeated number keeps its last
value. -/
def inOrder (entries : List (Nat × ν)) : List (Nat × ν) :=
  entries.foldl (fun table entry => putInOrder table entry.1 entry.2) []

end ImportAtlas.Table
