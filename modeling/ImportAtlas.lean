import ImportAtlas.Main
import ImportAtlas.Proofs.List.FirstPlaces
import ImportAtlas.Proofs.List.Traversal
import ImportAtlas.Proofs.Graph.Meaning
import ImportAtlas.Proofs.Graph.Survey
import ImportAtlas.Proofs.Graph.Schedule
import ImportAtlas.Proofs.Graph.Reach
import ImportAtlas.Proofs.Text.Utf8
import ImportAtlas.Proofs.Json.Text
import ImportAtlas.Proofs.Json.Grammar
import ImportAtlas.Proofs.Json.Reader
import ImportAtlas.Proofs.Json.Layout
import ImportAtlas.Proofs.Json.Record
import ImportAtlas.Proofs.Graph.Snapshot
import ImportAtlas.Proofs.FileSystem.Entry
import ImportAtlas.Proofs.FileSystem.Resolve
import ImportAtlas.Proofs.FileSystem.Operations
import ImportAtlas.Proofs.Text.Order
import ImportAtlas.Proofs.List.Extensions
import ImportAtlas.Proofs.Path.Key
import ImportAtlas.Proofs.FileSystem.Walk
import ImportAtlas.Proofs.Settings
import ImportAtlas.Proofs.Graph.Numbering
import ImportAtlas.Proofs.Graph.Order
import ImportAtlas.Proofs.Source.Owner
import ImportAtlas.Proofs.Graph.Records
import ImportAtlas.Proofs.Path.Names
import ImportAtlas.Proofs.Path.Clean
import ImportAtlas.Proofs.FileSystem.Reading
import ImportAtlas.Proofs.Graph.Build
import ImportAtlas.Proofs.Graph.Following
import ImportAtlas.Proofs.Graph.Ignored
import ImportAtlas.Proofs.Graph.Relocation
import ImportAtlas.Proofs.Graph.Drawing
import ImportAtlas.Proofs.Json.Truncation
import ImportAtlas.Proofs.Graph.Truncation
import ImportAtlas.Proofs.Command.Run
import ImportAtlas.Proofs.Graph.Storable
import ImportAtlas.Proofs.Command.Agreement
import ImportAtlas.Proofs.FileSystem.Passage
import ImportAtlas.Proofs.FileSystem.Steps
import ImportAtlas.Proofs.FileSystem.Overwriting
import ImportAtlas.Proofs.Graph.Rewriting
import ImportAtlas.Proofs.FileSystem.Joining
import ImportAtlas.Proofs.Command.Repetition
import ImportAtlas.Proofs.Source.Search
import ImportAtlas.Proofs.Text.Lossy
import ImportAtlas.Proofs.Source.Stretches
import ImportAtlas.Proofs.Command.Given
import ImportAtlas.Proofs.Command.Spelling
import ImportAtlas.Proofs.FileSystem.Making
import ImportAtlas.Proofs.Command.Frame
import ImportAtlas.Proofs.Path.NormalForm
import ImportAtlas.Proofs.Source.Respelling
import ImportAtlas.Proofs.FileSystem.Kept
import ImportAtlas.Proofs.Source.Candidates
import ImportAtlas.Proofs.Graph.Endpoints
import ImportAtlas.Proofs.Path.Extension
import ImportAtlas.Proofs.FileSystem.SameFile
import ImportAtlas.Proofs.Command.Rendering
import ImportAtlas.Proofs.Path.Additions
import ImportAtlas.Proofs.Source.CleanForm
import ImportAtlas.Proofs.Graph.Requests
import ImportAtlas.Proofs.Graph.Listing
import ImportAtlas.Proofs.Graph.Variants
import ImportAtlas.Proofs.Path.Spelling
import ImportAtlas.Proofs.Toml.Grammar
import ImportAtlas.Proofs.Toml.Token
import ImportAtlas.Proofs.Toml.Scalar
import ImportAtlas.Proofs.Toml.Tree
import ImportAtlas.Proofs.Toml.Value
import ImportAtlas.Proofs.Toml.Line
import ImportAtlas.Proofs.Toml.Document
import ImportAtlas.Proofs.Toml.Layout
import ImportAtlas.Proofs.Settings.Field
import ImportAtlas.Proofs.Settings.File
