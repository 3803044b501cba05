import ImportAtlas.Path

/-! # Commands

What the program can be asked to do: to build the graph of a source tree and keep it as a snapshot,
to draw a snapshot, and to count what a source tree holds. A missing path has a default that depends
on where the program runs, so it is filled in later.
-/

namespace ImportAtlas

/-- What the program is asked to do. -/
inductive Command where
  /-- Build a graph and keep it. -/
  | build (root output settings : Option Path)
  /-- Draw a snapshot, and draw an image of it as well if asked to. -/
  | render (snapshot : Path) (output : Option Path) (image : Bool)
  /-- Count what a graph holds. -/
  | stats (root settings : Option Path)
deriving DecidableEq, Repr

/-- A command, and whether log lines of every level are asked for. -/
structure Invocation where
  verbose : Bool
  command : Command
deriving DecidableEq, Repr

/-- Why arguments make no command. -/
inductive Refusal where
  /-- They ask for help. -/
  | help
  /-- They ask for the version of the program. -/
  | version
  /-- They are not understood. -/
  | usage
deriving DecidableEq, Repr

end ImportAtlas
